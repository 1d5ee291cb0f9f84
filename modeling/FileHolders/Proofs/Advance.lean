import FileHolders.Proofs.Course

/-!
# How a search advances

What a search gathers only grows: holders are added at the end and nothing is taken off a count.
The answers to the question whether it is cancelled are those of the source of cancellation, in
order, and the first that says so ends the walk.  The last line of a report is none of the lines
before it, so it is always sent.

    s.Walks rs p es next → Proceeds s p es next                               (proceeds_of_walks)
    s.Prepares rs es p → Sends p (s.closingLine p) closing next →
      closing = [.line (s.closingLine p)]                                     (closing_of_prepares)
-/

namespace FileHolders

open FileHolders.Action

/-! ## What only grows -/

instance : LE Tally where
  le a b := a.records ≤ b.records ∧ a.attempts ≤ b.attempts ∧ a.opened ≤ b.opened ∧
    a.denied ≤ b.denied ∧ a.duplicated ≤ b.duplicated ∧ a.named ≤ b.named

theorem Tally.le_iff (a b : Tally) :
    a ≤ b ↔ a.records ≤ b.records ∧ a.attempts ≤ b.attempts ∧ a.opened ≤ b.opened ∧
      a.denied ≤ b.denied ∧ a.duplicated ≤ b.duplicated ∧ a.named ≤ b.named := Iff.rfl

/-- What a search has gathered grows. -/
structure Grows (p next : Progress) : Prop where
  holders : p.holders.toList <+: next.holders.toList
  tally : p.tally ≤ next.tally

theorem Grows.refl (p : Progress) : Grows p p := by
  refine ⟨List.prefix_rfl, ?_⟩
  rw [Tally.le_iff]
  omega

theorem Grows.trans {p mid next : Progress} (h : Grows p mid) (hm : Grows mid next) :
    Grows p next := by
  refine ⟨h.holders.trans hm.holders, ?_⟩
  have h1 := (Tally.le_iff _ _).mp h.tally
  have h2 := (Tally.le_iff _ _).mp hm.tally
  rw [Tally.le_iff]
  omega

/-- Changes that concern neither the holders nor the counts. -/
theorem grows_of_eq {p next : Progress} (hh : next.holders = p.holders)
    (ht : next.tally = p.tally) : Grows p next := by
  constructor
  · simp only [hh, List.prefix_rfl]
  · rw [ht]
    exact (Grows.refl p).tally

/-! ## Lines -/

/-- The text of a line that is the last of a report. -/
def Search.Closes {σ : Type} (s : Search σ) (text : String) : Prop :=
  text = Search.foundLine ∨ text = Search.notFoundLine s.settings.applicationName s.text

/-- The line that was sent last does not close the report. -/
def Search.Unclosed {σ : Type} (s : Search σ) (p : Progress) : Prop :=
  ∀ text, p.lastLine = some text → ¬ s.Closes text

namespace Search

theorem head?_toList_append {a : String} {c : Char} (h : a.toList.head? = some c) (b : String) :
    (a ++ b).toList.head? = some c := by
  rw [String.toList_append, List.head?_append, h]
  rfl

theorem head?_headLine (text : String) : (headLine text).toList.head? = some 'N' := by
  unfold headLine
  apply head?_toList_append
  apply head?_toList_append
  show "NOTE: The following process(es) are accessing ".toList.head? = some 'N'
  simp

theorem head?_notFoundLine (applicationName text : String) :
    (notFoundLine applicationName text).toList.head? = some 'N' := by
  unfold notFoundLine
  apply head?_toList_append
  apply head?_toList_append
  apply head?_toList_append
  show "NOTE: ".toList.head? = some 'N'
  simp

theorem head?_foundLine : foundLine.toList.head? = some 'Y' := by
  unfold foundLine
  simp

theorem head?_unreadableLine (fault : Fault) :
    (unreadableLine fault).toList.head? = some 'W' := by
  unfold unreadableLine
  apply head?_toList_append
  show "Warning: Could not enumerate process handles: ".toList.head? = some 'W'
  simp

theorem head?_noBufferLine : noBufferLine.toList.head? = some 'W' := by
  unfold noBufferLine
  simp

theorem head?_line (h : Holder) : h.line.toList.head? = some 'o' := by
  unfold Holder.line
  cases h.imagePath with
  | some path => exact head?_toList_append (by simp) path
  | none =>
    apply head?_toList_append
    apply head?_toList_append
    show "o Unknown (Process ID ".toList.head? = some 'o'
    simp

/-- The line above the holders is shorter than the line that tells of none. -/
theorem headLine_ne_notFoundLine (applicationName text : String) :
    headLine text ≠ notFoundLine applicationName text := by
  intro h
  have hlength := congrArg String.length h
  unfold headLine notFoundLine at hlength
  simp only [String.length_append] at hlength
  have h1 : (toString "NOTE: The following process(es) are accessing ").length = 46 := by decide
  have h2 : (toString ":").length = 1 := by decide
  have h3 : (toString "NOTE: ").length = 6 := by decide
  have h4 : (toString " was not able to identify the process(es) preventing access to ").length =
    63 := by decide
  rw [h1, h2, h3, h4] at hlength
  omega

variable {σ : Type} {s : Search σ}

/-- A line that begins with another letter does not close a report. -/
theorem not_closes_of_head? {text : String} {c : Char} (h : text.toList.head? = some c)
    (hy : c ≠ 'Y') (hn : c ≠ 'N') : ¬ s.Closes text := by
  rintro (rfl | rfl)
  · rw [head?_foundLine] at h
    exact hy (Option.some.inj h).symm
  · rw [head?_notFoundLine] at h
    exact hn (Option.some.inj h).symm

theorem not_closes_headLine : ¬ s.Closes (headLine s.text) := by
  rintro (h | h)
  · have hhead := head?_headLine s.text
    rw [h, head?_foundLine] at hhead
    exact absurd (Option.some.inj hhead) (by decide)
  · exact headLine_ne_notFoundLine _ _ h

theorem not_closes_line (h : Holder) : ¬ s.Closes h.line :=
  not_closes_of_head? (head?_line h) (by decide) (by decide)

theorem not_closes_unreadableLine (fault : Fault) : ¬ s.Closes (unreadableLine fault) :=
  not_closes_of_head? (head?_unreadableLine fault) (by decide) (by decide)

theorem not_closes_noBufferLine : ¬ s.Closes noBufferLine :=
  not_closes_of_head? head?_noBufferLine (by decide) (by decide)

theorem closes_closingLine (p : Progress) : s.Closes (s.closingLine p) := by
  unfold closingLine
  split
  · exact .inl rfl
  · exact .inr rfl

end Search

/-! ## Answers of the source of cancellation -/

/-- The answer that an event tells of, where the search asked whether it was cancelled. -/
def Event.poll? : Event → Option Bool
  | .polled cancelled => some cancelled
  | _ => none

/-- The answers to the question whether the search is cancelled, in order. -/
def answersIn (events : List Event) : List Bool := events.filterMap Event.poll?

theorem answersIn_append (events more : List Event) :
    answersIn (events ++ more) = answersIn events ++ answersIn more := List.filterMap_append

theorem answersIn_cons {e : Event} (h : e.poll? = none) (events : List Event) :
    answersIn (e :: events) = answersIn events := List.filterMap_cons_none h

theorem Hosted.answersIn {events : List Event} (h : Hosted events) : answersIn events = [] := by
  apply h.filterMap_eq_nil
  intro e he
  cases e <;> simp_all [Event.isHost, Event.poll?]

section

variable {σ : Type} {s : Search σ} {p next : Progress} {events : List Event}

theorem answersIn_of_asks {host : Host σ} {handle : HandleId} {answer : Except Fault Name}
    (h : Name.Asks host handle events answer) : answersIn events = [] := by
  cases h with
  | read size status name _ _ hc =>
    rw [answersIn_append, (hosted_of_concerns hc).answersIn]
    rfl
  | failed _ _ hc => exact (hosted_of_concerns hc).answersIn
  | missing _ => rfl

/-! ## Looking at a handle -/

/-- The search goes on without asking whether it is cancelled. -/
structure Advances (s : Search σ) (p : Progress) (events : List Event) (next : Progress) :
    Prop where
  silent : answersIn events = []
  grows : Grows p next
  unclosed : s.Unclosed p → s.Unclosed next

theorem advances_of_eq (h : answersIn events = []) : Advances s p events p :=
  ⟨h, .refl p, id⟩

theorem Advances.append {mid : Progress} {more : List Event} (h : Advances s p events mid)
    (hm : Advances s mid more next) : Advances s p (events ++ more) next := by
  refine ⟨?_, h.grows.trans hm.grows, fun hp => hm.unclosed (h.unclosed hp)⟩
  rw [answersIn_append, h.silent, hm.silent]
  rfl

theorem advances_of_sends {text : String} (h : Search.Sends p text events next)
    (ht : ¬ s.Closes text) : Advances s p events next := by
  cases h with
  | repeated _ => exact advances_of_eq rfl
  | sent _ =>
    refine ⟨rfl, grows_of_eq rfl rfl, ?_⟩
    rintro - _ ⟨⟩
    exact ht

theorem advances_of_heads (h : Search.Heads s p events next) : Advances s p events next := by
  cases h with
  | done _ => exact advances_of_eq rfl
  | first _ hs =>
    obtain ⟨hsilent, hgrows, hunclosed⟩ := advances_of_sends hs Search.not_closes_headLine
    exact ⟨hsilent, hgrows.trans (grows_of_eq rfl rfl), hunclosed⟩

theorem advances_of_reports {process : Held} {r : Record}
    (h : Search.Reports s process r p events next) : Advances s p events next := by
  cases h with
  | known hh _ => exact advances_of_heads hh
  | @found heading lines headed sent path hh _ hs =>
    obtain ⟨hsilent, hgrows, hunclosed⟩ := (advances_of_heads hh).append
      (advances_of_sends hs (Search.not_closes_line _))
    rw [answersIn_append] at hsilent
    refine ⟨?_, hgrows.trans ⟨?_, (Grows.refl sent).tally⟩, hunclosed⟩
    · rw [answersIn_append, answersIn_cons rfl, answersIn_append, ← List.append_assoc, hsilent]
      rfl
    · rw [Array.toList_push]
      exact List.prefix_append _ _

theorem grows_of_named (p : Progress) :
    Grows p { p with tally.named := p.tally.named + 1 } := by
  refine ⟨List.prefix_rfl, ?_⟩
  rw [Tally.le_iff]
  dsimp only
  omega

theorem advances_of_examines {process handle : Held} {r : Record}
    (h : Search.Examines s process handle r p events next) : Advances s p events next := by
  have hnamed : ∀ {asking : List Event} {name : Name},
      Name.Asks s.host handle.id asking (.ok name) → Advances s p
        (.classified handle.id .disk :: asking) { p with tally.named := p.tally.named + 1 } := by
    intro asking name ha
    refine ⟨?_, grows_of_named p, id⟩
    rw [answersIn_cons rfl, answersIn_of_asks ha]
  cases h with
  | passed _ _ => exact advances_of_eq rfl
  | unnamed ha =>
    apply advances_of_eq
    rw [answersIn_cons rfl, answersIn_of_asks ha]
  | uncovered ha _ => exact hnamed ha
  | covered ha _ hr => exact (hnamed ha).append (advances_of_reports hr)

theorem advances_of_inspects {process : Held} {r : Record}
    (h : Search.Inspects s process r p events next) : Advances s p events next := by
  cases h with
  | failed hd => exact advances_of_eq (hosted_of_duplicates hd).answersIn
  | @examined bringing examining closing handle _ hd he hr =>
    have hcounted : Advances s p bringing (if process.isOwnProcess then p
        else { p with tally.duplicated := p.tally.duplicated + 1 }) := by
      have hsilent := (hosted_of_duplicates hd).answersIn
      split
      · exact advances_of_eq hsilent
      · refine ⟨hsilent, ⟨List.prefix_rfl, ?_⟩, id⟩
        rw [Tally.le_iff]
        dsimp only
        omega
    exact hcounted.append
      ((advances_of_examines he).append (advances_of_eq (hosted_of_releases hr).answersIn))

theorem advances_of_attends {r : Record} (h : Search.Attends s r p events next) :
    Advances s p events next := by
  cases h with
  | unreached _ => exact advances_of_eq rfl
  | ignored _ _ => exact advances_of_eq rfl
  | inspected _ _ hi => exact advances_of_inspects hi

/-! ## Asking whether the search is cancelled -/

/-- The search asked `n` times, counted from `start`, and went on.  If it is cancelled after that, it
asked once more. -/
structure Polls (s : Search σ) (start : Nat) (events : List Event) (n : Nat) (next : Progress) :
    Prop where
  answers : answersIn events = List.replicate n false ++ if next.cancelled then [true] else []
  polls : next.cancelled = false → next.polls = start + n
  before : ∀ k, k < n → s.cancellation (start + k) = false
  stop : next.cancelled = true → s.cancellation (start + n) = true

/-- The search goes on until it is cancelled. -/
structure Proceeds (s : Search σ) (p : Progress) (events : List Event) (next : Progress) :
    Prop where
  grows : Grows p next
  unclosed : s.Unclosed p → s.Unclosed next
  polls : p.cancelled = false → ∃ n, Polls s p.polls events n next

theorem Advances.proceeds (h : Advances s p events next) (hs : Search.SameStand p next) :
    Proceeds s p events next := by
  refine ⟨h.grows, h.unclosed, ?_⟩
  intro hp
  have hc : next.cancelled = false := hs.cancelled.trans hp
  refine ⟨0, ?_, fun _ => hs.polls, by simp, ?_⟩
  · rw [h.silent, hc]
    rfl
  · intro hstop
    rw [hc] at hstop
    cases hstop

/-- A search that was not cancelled goes on. -/
theorem Proceeds.append {mid : Progress} {more : List Event} (h : Proceeds s p events mid)
    (hc : p.cancelled = false → mid.cancelled = false) (hm : Proceeds s mid more next) :
    Proceeds s p (events ++ more) next := by
  refine ⟨h.grows.trans hm.grows, fun hp => hm.unclosed (h.unclosed hp), ?_⟩
  intro hp
  obtain ⟨n, hn⟩ := h.polls hp
  obtain ⟨m, hm⟩ := hm.polls (hc hp)
  have hmid := hn.polls (hc hp)
  refine ⟨n + m, ?_, ?_, ?_, ?_⟩
  · rw [answersIn_append, hn.answers, hm.answers, hc hp, ← List.replicate_append_replicate]
    show (List.replicate n false ++ []) ++ _ = _
    rw [List.append_nil, List.append_assoc]
  · intro hnext
    rw [hm.polls hnext, hmid]
    omega
  · intro k hk
    by_cases hkn : k < n
    · exact hn.before k hkn
    · have hlater := hm.before (k - n) (by omega)
      have hsame : mid.polls + (k - n) = p.polls + k := by omega
      rwa [hsame] at hlater
  · intro hnext
    have hstop := hm.stop hnext
    rwa [hmid, Nat.add_assoc] at hstop

theorem grows_of_takesOver {pid : UInt64} (h : Search.TakesOver s pid p events next) :
    Grows p next ∧ next.polls = p.polls ∧ next.cancelled = p.cancelled := by
  cases h with
  | remembered _ => exact ⟨grows_of_eq rfl rfl, rfl, rfl⟩
  | opened _ _ =>
    refine ⟨⟨List.prefix_rfl, ?_⟩, rfl, rfl⟩
    rw [Tally.le_iff]
    dsimp only
    omega
  | refused _ _ =>
    unfold Progress.refused
    split
    · refine ⟨⟨List.prefix_rfl, ?_⟩, rfl, rfl⟩
      rw [Tally.le_iff]
      dsimp only
      omega
    · refine ⟨⟨List.prefix_rfl, ?_⟩, rfl, rfl⟩
      rw [Tally.le_iff]
      dsimp only
      omega

theorem proceeds_of_turns {pid : UInt64} (h : Search.Turns s pid p events next) :
    Proceeds s p events next := by
  cases h with
  | stays _ => exact (advances_of_eq rfl).proceeds ⟨rfl, rfl, rfl, rfl⟩
  | cancelled _ hl hc =>
    refine ⟨grows_of_eq rfl rfl, id, fun _ => ⟨0, ?_, by simp, by simp, fun _ => hc⟩⟩
    rw [answersIn_append, (hosted_of_letsGo hl).answersIn]
    rfl
  | @goesOn closing opening _ _ hl hc ht =>
    obtain ⟨hgrows, hpolls, hcancelled⟩ := grows_of_takesOver ht
    refine ⟨⟨hgrows.holders, hgrows.tally⟩, ?_, ?_⟩
    · intro hp text htext
      exact hp text (ht.sameReport.lastLine ▸ htext)
    · intro hp
      have hnext : next.cancelled = false := hcancelled.trans hp
      refine ⟨1, ?_, fun _ => hpolls, ?_, ?_⟩
      · rw [answersIn_append, (hosted_of_letsGo hl).answersIn, hnext]
        show false :: answersIn opening = [false]
        rw [(hosted_of_takesOver ht).answersIn]
      · intro k hk
        obtain rfl : k = 0 := by omega
        exact hc
      · intro hstop
        rw [hnext] at hstop
        cases hstop

theorem grows_of_counted (p : Progress) :
    Grows p { p with tally.records := p.tally.records + 1 } := by
  refine ⟨List.prefix_rfl, ?_⟩
  rw [Tally.le_iff]
  dsimp only
  omega

/-- Taking a record. -/
theorem proceeds_of_steps {r : Record} (h : Search.Steps s r p events next) :
    Proceeds s p events next := by
  have hcounted : Advances s p [.record r.pid r.handleValue r.grantedAccess]
      { p with tally.records := p.tally.records + 1 } := ⟨rfl, grows_of_counted p, id⟩
  have hbegun := hcounted.proceeds ⟨rfl, rfl, rfl, rfl⟩
  cases h with
  | stopped ht _ => exact hbegun.append id (proceeds_of_turns ht)
  | attended ht hc ha =>
    have hattends := (advances_of_attends ha).proceeds ha.sameStand
    exact hbegun.append id ((proceeds_of_turns ht).append (fun _ => hc) hattends)

/-- Taking the records one after the other. -/
theorem proceeds_of_walks {records : List Record} (h : Search.Walks s records p events next) :
    Proceeds s p events next := by
  induction h with
  | done p => exact (advances_of_eq rfl).proceeds ⟨rfl, rfl, rfl, rfl⟩
  | stopped hs _ => exact proceeds_of_steps hs
  | goesOn hs hc _ ih => exact (proceeds_of_steps hs).append (fun _ => hc) ih

/-- Events without a question, and a change of the owner at most. -/
theorem Proceeds.silent {mid : Progress} {more : List Event} (h : Proceeds s p events mid)
    (hm : answersIn more = []) (owner : Owner) :
    Proceeds s p (events ++ more) { mid with owner } := by
  refine ⟨⟨h.grows.holders, h.grows.tally⟩, h.unclosed, ?_⟩
  intro hp
  obtain ⟨n, hn⟩ := h.polls hp
  refine ⟨n, ?_, hn.polls, hn.before, hn.stop⟩
  rw [answersIn_append, hm, List.append_nil]
  exact hn.answers

theorem proceeds_of_sends {text : String} (h : Search.Sends p text events next)
    (ht : ¬ s.Closes text) : Proceeds s p events next :=
  (advances_of_sends h ht).proceeds h.sameStand

theorem proceeds_of_answersIn (h : answersIn events = []) : Proceeds s p events p :=
  (advances_of_eq h).proceeds ⟨rfl, rfl, rfl, rfl⟩

theorem proceeds_of_goesThrough {records : List Record}
    (h : Search.GoesThrough s records p events next) : Proceeds s p events next := by
  cases h with
  | noBuffer hh hs =>
    exact (proceeds_of_answersIn (hosted_of_isHeap hh).answersIn).append id
      (proceeds_of_sends hs Search.not_closes_noBufferLine)
  | @walked taking walking closing giving _ ht hw hl hg =>
    have hclosing : answersIn (closing ++ giving) = [] := by
      rw [answersIn_append, (hosted_of_letsGo hl).answersIn, (hosted_of_isHeap hg).answersIn]
      rfl
    exact (proceeds_of_answersIn (hosted_of_isHeap ht).answersIn).append id
      ((proceeds_of_walks hw).silent hclosing .none)

theorem proceeds_of_surveys {records : List Record}
    (h : Search.Surveys s records p events next) : Proceeds s p events next := by
  cases h with
  | unreadable fault hr hs =>
    exact (proceeds_of_answersIn (hosted_of_reading hr).answersIn).append id
      (proceeds_of_sends hs (Search.not_closes_unreadableLine fault))
  | read hr hg hf =>
    exact (proceeds_of_answersIn (hosted_of_reading hr).answersIn).append id
      ((proceeds_of_goesThrough hg).silent (hosted_of_isHeap hf).answersIn next.owner)

theorem proceeds_of_prepares {records : List Record}
    (h : Search.Prepares s records events p) : Proceeds s {} events p := by
  cases h with
  | empty _ => exact proceeds_of_answersIn rfl
  | noArena fault _ hc hs =>
    exact (proceeds_of_answersIn (hosted_of_isHeap hc).answersIn).append id
      (proceeds_of_sends hs (Search.not_closes_unreadableLine _))
  | surveyed _ hc hs hg =>
    exact (proceeds_of_answersIn (hosted_of_isHeap hc).answersIn).append id
      ((proceeds_of_surveys hs).silent (hosted_of_isHeap hg).answersIn p.owner)

/-- A report ends with the line that closes it. -/
theorem closing_of_prepares {records : List Record} {closing : List Event}
    (h : Search.Prepares s records events p)
    (hs : Search.Sends p (s.closingLine p) closing next) : closing = [.line (s.closingLine p)] := by
  cases hs with
  | repeated hl =>
    have hstart : s.Unclosed {} := by
      intro text htext
      cases htext
    exact absurd (Search.closes_closingLine p) ((proceeds_of_prepares h).unclosed hstart _ hl)
  | sent _ => rfl

end

/-! ## The whole search -/

namespace Search

variable {σ : Type} (s : Search σ)

/-- What a search knows after its survey, and the session then. -/
def surveyed (x : Session σ) : Progress × Session σ :=
  (s.surveyInArena {}).run ((info s.openingMessage).run x).2

/-- The end of a search. -/
def conclude (p : Progress) : Action σ Outcome := do
  let _ ← send p (s.closingLine p)
  info (closingMessage p.outcome)
  pure p.outcome

theorem run_eq_conclude (x : Session σ) (ht : s.text.isEmpty = false) :
    s.run.run x = (s.conclude (s.surveyed x).1).run (s.surveyed x).2 := by
  unfold run
  rw [ht]
  rfl

theorem run_eq_conclude_of_isEmpty (x : Session σ) (ht : s.text.isEmpty = true) :
    s.run.run x = (s.conclude {}).run ((warn "Empty target path, nothing to search for").run
      ((info s.openingMessage).run x).2).2 := by
  unfold run
  rw [ht]
  rfl

/-- A search that has a target ends with one more line. -/
theorem run_closes (x : Session σ) (ht : s.text.isEmpty = false) :
    (s.run.run x).1 = (s.surveyed x).1.outcome ∧
      (s.run.run x).2.journal.toList =
        (s.surveyed x).2.journal.toList ++ [.line (s.closingLine (s.surveyed x).1)] := by
  obtain ⟨preparing, -, hp⟩ := s.emits_surveyInArena x ht
  obtain ⟨closing, hj, hs⟩ :=
    emits_send (s.surveyed x).1 (s.closingLine (s.surveyed x).1) (s.surveyed x).2
  rw [closing_of_prepares hp hs] at hj
  rw [s.run_eq_conclude x ht]
  exact ⟨rfl, hj⟩

end Search

end FileHolders
