import FileHolders.Proofs.Accounting
import FileHolders.Proofs.Advance
import FileHolders.Proofs.Report

/-!
# Cancelling cuts a search short

A search and the same search that is never cancelled do the same until the source of cancellation
answers that it is.  From there on the one only gives back what it has, and the other goes on.

    Parts (·.2) (s.walk rs buffer p) (s.uncancelled.walk rs buffer p) x             (parts_walk)
    true ∈ answersIn (eventsOf s.run x) → CutShort s x
    true ∉ answersIn (eventsOf s.run x) →
      s.run.run x = s.uncancelled.run.run x                             (cancelling_cuts_short)

`Parts` is a relation of two actions that are begun in the same session: they come to the same, or
their journals are the same up to an answer of the source of cancellation, and what the first has
gathered by then the second has gathered too.
-/

namespace FileHolders

open FileHolders.Action

variable {σ α β γ : Type}

/-! ## Two actions that part -/

/-- Two actions that do the same, or part where only the first is cancelled. -/
inductive Parts (view : α → Progress) (a b : Action σ α) (x : Session σ) : Prop
  | same (h : a.run x = b.run x)
  | cut (front tail more : List Event)
      (ha : (a.run x).2.journal.toList = x.journal.toList ++ (front ++ .polled true :: tail))
      (ht : ∀ e ∈ tail, e.isHeap = true)
      (hb : (b.run x).2.journal.toList = x.journal.toList ++ (front ++ .polled false :: more))
      (ho : (view (a.run x).1).owner = .none)
      (hc : (view (a.run x).1).cancelled = true)
      (hg : Grows (view (a.run x).1) (view (b.run x).1))

/-- Two actions that part at once. -/
theorem parts_of_emits {view : α → Progress} {a b : Action σ α} {x : Session σ} {q : Progress}
    (ha : Emits a x fun events c => events = [.polled true] ∧ (view c).owner = .none ∧
      (view c).cancelled = true ∧ Grows (view c) q)
    (hb : Emits b x fun events c => (∃ more, events = .polled false :: more) ∧ Grows q (view c)) :
    Parts view a b x := by
  obtain ⟨_, hja, rfl, ho, hc, hga⟩ := ha
  obtain ⟨_, hjb, ⟨more, rfl⟩, hgb⟩ := hb
  exact .cut [] [] more hja (by simp) hjb ho hc (hga.trans hgb)

/-- Doing the same thing first. -/
theorem Parts.after {view : α → Progress} {m : Action σ γ} {f g : γ → Action σ α}
    {x : Session σ} {post : List Event → γ → Prop} (hm : Emits m x post)
    (h : ∀ c y, m.run x = (c, y) → Parts view (f c) (g c) y) :
    Parts view (m >>= f) (m >>= g) x := by
  have hparts := h (m.run x).1 (m.run x).2 rfl
  cases hparts with
  | same hsame => exact .same hsame
  | cut front tail more ha ht hb ho hc hg =>
    refine .cut (eventsOf m x ++ front) tail more ?_ ht ?_ ho hc hg
    · rw [run_bind, ha, hm.journal]
      simp only [List.append_assoc]
    · rw [run_bind, hb, hm.journal]
      simp only [List.append_assoc]

/-- What comes after: where the two parted, the first only gives back what it has. -/
theorem Parts.bind {view : α → Progress} {view' : β → Progress} {a b : Action σ α}
    {f g : α → Action σ β} {x : Session σ} {post : List Event → α → Prop}
    (h : Parts view a b x) (ha : Emits a x post)
    (hsame : ∀ c y, Parts view' (f c) (g c) y)
    (hcut : ∀ c y, (view c).owner = .none → (view c).cancelled = true →
      Emits (f c) y fun events d => (∀ e ∈ events, e.isHeap = true) ∧
        (view' d).owner = .none ∧ (view' d).cancelled = true ∧ Grows (view' d) (view c))
    (hgo : ∀ c y, Emits (g c) y fun _ d => Grows (view c) (view' d)) :
    Parts view' (a >>= f) (b >>= g) x := by
  cases h with
  | same hrun =>
    have hparts : Parts view' (a >>= f) (a >>= g) x := Parts.after ha fun c y _ => hsame c y
    cases hparts with
    | same hrun' =>
      refine .same (hrun'.trans ?_)
      rw [run_bind, run_bind, hrun]
    | cut front tail more ha' ht hb ho hc hg =>
      have hb' : (b >>= g).run x = (a >>= g).run x := by rw [run_bind, run_bind, hrun]
      exact .cut front tail more ha' ht (by rw [hb']; exact hb) ho hc (by rw [hb']; exact hg)
  | cut front tail more ha' ht hb ho hc hg =>
    obtain ⟨giving, hja, hheap, ho', hc', hga⟩ := hcut (a.run x).1 (a.run x).2 ho hc
    obtain ⟨going, hjb, hgb⟩ := hgo (b.run x).1 (b.run x).2
    refine .cut front (tail ++ giving) (more ++ going) ?_ (List.forall_mem_append.mpr ⟨ht, hheap⟩)
      ?_ ho' hc' ((hga.trans hg).trans hgb)
    · rw [run_bind, hja, ha']
      simp
    · rw [run_bind, hjb, hb]
      simp

/-! ## A search next to the same one that is never cancelled -/

namespace Search

variable (s : Search σ)

/-- The same search, never cancelled. -/
def uncancelled : Search σ := { s with cancellation := .never }

theorem parts_step (r : Record) (buffer : Block) (p : Progress) (x : Session σ) :
    Parts (·.2) (s.step r buffer p) (s.uncancelled.step r buffer p) x := by
  rw [step_eq, step_eq]
  refine Parts.after (emits_note rfl : Emits _ x fun events _ => events = [_]) ?_
  intro _ y _
  rw [turnTo_eq, turnTo_eq]
  by_cases hr : p.owner.startsRun r.pid = true
  · rw [if_pos hr, if_pos hr, bind_assoc, bind_assoc]
    refine Parts.after (p.owner.emits_letGo s.host y) ?_
    intro owner z hz
    obtain ⟨rfl, -⟩ : owner = .none ∧ _ := by
      have hletGo := (p.owner.emits_letGo s.host y).eventsOf
      rw [hz] at hletGo
      exact hletGo
    have hgoes : s.uncancelled.cancellation p.polls = false := rfl
    cases hc : s.cancellation p.polls with
    | false =>
      simp only [hgoes]
      exact .same rfl
    | true =>
      simp only [hgoes, if_true]
      -- what the search had gathered when it was cancelled
      refine parts_of_emits (q := { p with owner := .none, tally.records := p.tally.records + 1 })
        ?_ ?_
      · rw [bind_assoc]
        refine emits_note_bind fun z => ?_
        rw [bind_assoc]
        exact emits_say_bind fun z => emits_pure ⟨rfl, rfl, rfl, grows_of_eq rfl rfl⟩
      · rw [bind_assoc]
        refine emits_note_bind fun z => ?_
        refine (s.uncancelled.emits_takeOver r.pid _ z rfl).bind ?_
        intro opening turned t _ htake
        obtain ⟨hturned, -⟩ := grows_of_takesOver htake
        split
        · exact emits_pure ⟨⟨_, rfl⟩, hturned.holders, hturned.tally⟩
        · refine (s.uncancelled.emits_attend r buffer turned t).mono ?_
          intro attending c hattend
          have hgrows := hturned.trans (advances_of_attends hattend).grows
          exact ⟨⟨_, rfl⟩, hgrows.holders, hgrows.tally⟩
  · rw [if_neg hr, if_neg hr]
    exact .same rfl

theorem parts_walk (records : List Record) (buffer : Block) (p : Progress) (x : Session σ) :
    Parts (·.2) (s.walk records buffer p) (s.uncancelled.walk records buffer p) x := by
  induction records generalizing buffer p x with
  | nil => exact .same rfl
  | cons r rest ih =>
    unfold walk
    refine (s.parts_step r buffer p x).bind (s.emits_step r buffer p x) ?_ ?_ ?_
    · rintro ⟨last, mid⟩ y
      dsimp only
      split
      · exact .same rfl
      · exact ih last mid y
    · rintro ⟨last, mid⟩ y ho hc
      dsimp only at ho hc ⊢
      rw [if_pos hc]
      exact emits_pure ⟨by simp, ho, hc, .refl mid⟩
    · rintro ⟨last, mid⟩ y
      dsimp only
      split
      · exact emits_pure (.refl mid)
      · refine (s.uncancelled.emits_walk rest last mid y).mono ?_
        intro events c hw
        exact (proceeds_of_walks hw).grows

/-- Letting go of what the walk left, and giving the buffer back. -/
theorem emits_leave (buffer : Block) (p : Progress) (x : Session σ) :
    Emits (do
        let owner ← p.owner.letGo s.host
        Arena.free s.host.heap buffer
        pure { p with owner } : Action σ Progress) x
      fun events next => (p.owner = .none → ∀ e ∈ events, e.isHeap = true) ∧
        next = { p with owner := .none } := by
  refine (p.owner.emits_letGo s.host x).bind ?_
  rintro closing owner y - ⟨rfl, hl⟩
  refine (Arena.emits_free s.host.heap buffer y).bind ?_
  intro giving _ z _ hg
  refine emits_pure ⟨?_, rfl⟩
  intro ho
  rw [ho] at hl
  cases hl with
  | other _ => simpa using hg

theorem parts_goThrough (table : Table) (p : Progress) (x : Session σ) :
    Parts id (s.goThrough table p) (s.uncancelled.goThrough table p) x := by
  unfold goThrough
  refine Parts.after (Arena.emits_allocate s.host.heap s.settings.nameBufferInitial x) ?_
  rintro (_ | buffer) y -
  · exact .same rfl
  · refine (s.parts_walk table.records buffer.1 p y).bind (s.emits_walk _ _ _ y) ?_ ?_ ?_
    · exact fun _ _ => .same rfl
    · rintro ⟨last, mid⟩ z ho hc
      refine (s.emits_leave last mid z).mono ?_
      rintro events next ⟨hheap, rfl⟩
      exact ⟨hheap ho, rfl, hc, grows_of_eq rfl rfl⟩
    · rintro ⟨last, mid⟩ z
      refine (s.emits_leave last mid z).mono ?_
      rintro events next ⟨-, rfl⟩
      exact grows_of_eq rfl rfl

theorem parts_survey (p : Progress) (x : Session σ) :
    Parts id (s.survey p) (s.uncancelled.survey p) x := by
  have hfree : ∀ (block : Block) (q : Progress) (z : Session σ),
      Emits (do Arena.free s.host.heap block; pure q : Action σ Progress) z
        fun events next => (∀ e ∈ events, e.isHeap = true) ∧ next = q := by
    intro block q z
    refine (Arena.emits_free s.host.heap block z).bind ?_
    intro giving _ w _ hg
    exact emits_pure ⟨by simpa using hg, rfl⟩
  unfold survey
  refine Parts.after (Table.emits_read s.host s.settings x) ?_
  rintro (fault | table) y -
  · exact .same rfl
  · refine (s.parts_goThrough table p y).bind (s.emits_goThrough table p y) ?_ ?_ ?_
    · exact fun _ _ => .same rfl
    · intro q z ho hc
      refine (hfree table.block q z).mono ?_
      rintro events next ⟨hheap, rfl⟩
      exact ⟨hheap, ho, hc, .refl _⟩
    · intro q z
      refine (hfree table.block q z).mono ?_
      rintro events next ⟨-, rfl⟩
      exact .refl _

theorem parts_surveyInArena (p : Progress) (x : Session σ) :
    Parts id (s.surveyInArena p) (s.uncancelled.surveyInArena p) x := by
  have hdestroy : ∀ (q : Progress) (z : Session σ),
      Emits (do Arena.warnIfUnreleased (← Arena.destroy s.host.heap); pure q : Action σ Progress) z
        fun events next => (∀ e ∈ events, e.isHeap = true) ∧ next = q := by
    intro q z
    refine (Arena.emits_destroy s.host.heap z).bind ?_
    intro giving answer w _ hg
    refine Emits.silent_bind (Arena.emits_warnIfUnreleased answer w) ?_
    intro _ v
    exact emits_pure ⟨by simpa using hg, rfl⟩
  unfold surveyInArena
  refine Parts.after (Arena.emits_create s.host.heap s.settings.arenaLimit x) ?_
  rintro (fault | _) y -
  · exact .same rfl
  · refine (s.parts_survey p y).bind (s.emits_survey p y) ?_ ?_ ?_
    · exact fun _ _ => .same rfl
    · intro q z ho hc
      refine (hdestroy q z).mono ?_
      rintro events next ⟨hheap, rfl⟩
      exact ⟨hheap, ho, hc, .refl _⟩
    · intro q z
      refine (hdestroy q z).mono ?_
      rintro events next ⟨-, rfl⟩
      exact .refl _

end Search

/-! ## The whole search -/

/-- Whether an event is a call of the kernel. -/
def Event.isCall : Event → Bool
  | .table _ _ _ | .object _ _ _ _ | .opened _ _ _ _ | .duplicated _ _ _ _ | .closed _ _ => true
  | .classified _ _ | .image _ _ => true
  | _ => false

/-- The calls of the kernel, in order. -/
def callsIn (events : List Event) : List Event := events.filter Event.isCall

theorem callsIn_append (events more : List Event) :
    callsIn (events ++ more) = callsIn events ++ callsIn more := List.filter_append ..

theorem callsIn_of_isHeap {events : List Event} (h : ∀ e ∈ events, e.isHeap = true) :
    callsIn events = [] := by
  apply List.filter_eq_nil_iff.mpr
  intro e he
  have hheap := h e he
  cases e <;> simp_all [Event.isHeap, Event.isCall]

/-- A cancelled search next to the same one that is never cancelled. -/
structure CutShort (s : Search σ) (x : Session σ) : Prop where
  /-- The first answer that it is cancelled is the last one. -/
  polls : ∃ k, answersIn (eventsOf s.run x) = List.replicate k false ++ [true] ∧
    s.cancellation k = true ∧ ∀ j < k, s.cancellation j = false
  calls : callsIn (eventsOf s.run x) <+: callsIn (eventsOf s.uncancelled.run x)
  /-- Up to their last ones, its lines are the first lines of the other. -/
  lines : ∃ body rest,
    linesIn (eventsOf s.run x) =
      body ++ [Search.notFoundLine s.settings.applicationName s.text] ∧
    linesIn (eventsOf s.uncancelled.run x) = body ++ rest ++
      [if (s.uncancelled.run.run x).1.found then Search.foundLine
        else Search.notFoundLine s.settings.applicationName s.text]
  holders : (s.run.run x).1.holders <+: (s.uncancelled.run.run x).1.holders
  tally : (s.run.run x).1.tally ≤ (s.uncancelled.run.run x).1.tally
  cancelled : (s.run.run x).1.cancelled = true
  found : (s.run.run x).1.found = false
  /-- Nothing that it was handed out is live at the end. -/
  settled : (({} : Custody).after s.host.ownPid (eventsOf s.run x)).live = []

namespace Search

variable (s : Search σ)

/-- A search that is never cancelled is never told so. -/
theorem true_notMem_answersIn (x : Session σ) :
    true ∉ answersIn (eventsOf s.uncancelled.run x) := by
  have hruns := (s.uncancelled.emits_run x).eventsOf
  generalize eventsOf s.uncancelled.run x = events at hruns ⊢
  generalize (s.uncancelled.run.run x).1 = outcome at hruns
  cases hruns with
  | @ended preparing closing p _ hp hs =>
    rw [answersIn_append, closing_of_prepares hp hs]
    obtain ⟨n, hn⟩ := (proceeds_of_prepares hp).polls rfl
    have hc : p.cancelled = false := by
      cases hc : p.cancelled with
      | false => rfl
      | true => exact absurd (hn.stop hc) Bool.false_ne_true
    rw [hn.answers, hc]
    simp [answersIn, Event.poll?]

/-- An empty target is not searched for. -/
theorem run_eq_of_isEmpty (x : Session σ) (ht : s.text.isEmpty = true) :
    s.run.run x = s.uncancelled.run.run x := by
  rw [s.run_eq_conclude_of_isEmpty x ht, s.uncancelled.run_eq_conclude_of_isEmpty x ht]
  rfl

/-- A search that was cancelled during its survey was told so once, at the end. -/
theorem polls_of_surveyed (x : Session σ) (ht : s.text.isEmpty = false) {events : List Event}
    (ha : (s.surveyed x).2.journal.toList = x.journal.toList ++ events)
    (hc : (s.surveyed x).1.cancelled = true) :
    ∃ k, answersIn events = List.replicate k false ++ [true] ∧ s.cancellation k = true ∧
      ∀ j < k, s.cancellation j = false := by
  obtain ⟨preparing, hj, hp⟩ := s.emits_surveyInArena x ht
  obtain rfl : preparing = events := List.append_cancel_left (hj.symm.trans ha)
  obtain ⟨n, hn⟩ : ∃ n, Polls s 0 preparing n (s.surveyed x).1 := (proceeds_of_prepares hp).polls rfl
  refine ⟨n, ?_, ?_, ?_⟩
  · rw [hn.answers, if_pos hc]
  · simpa using hn.stop hc
  · intro j hjn
    simpa using hn.before j hjn

/-- What the journals tell where the two searches part. -/
theorem cutShort_of_journals (x : Session σ) (ht : s.text.isEmpty = false)
    {front tail more : List Event}
    (ha : (s.surveyed x).2.journal.toList =
      x.journal.toList ++ (front ++ .polled true :: tail))
    (htail : ∀ e ∈ tail, e.isHeap = true)
    (hb : (s.uncancelled.surveyed x).2.journal.toList =
      x.journal.toList ++ (front ++ .polled false :: more))
    (hc : (s.surveyed x).1.cancelled = true)
    (hg : Grows (s.surveyed x).1 (s.uncancelled.surveyed x).1) :
    CutShort s x ∧ true ∈ answersIn (eventsOf s.run x) := by
  obtain ⟨hout, hjournal⟩ := s.run_closes x ht
  obtain ⟨hout', hjournal'⟩ := s.uncancelled.run_closes x ht
  have hevents : eventsOf s.run x = front ++ .polled true ::
      (tail ++ [.line (s.closingLine (s.surveyed x).1)]) := by
    apply eventsOf_eq
    rw [hjournal, ha]
    simp only [List.append_assoc, List.cons_append]
  have hevents' : eventsOf s.uncancelled.run x = front ++ .polled false ::
      (more ++ [.line (s.uncancelled.closingLine (s.uncancelled.surveyed x).1)]) := by
    apply eventsOf_eq
    rw [hjournal', hb]
    simp only [List.append_assoc, List.cons_append]
  have hfound : (s.surveyed x).1.outcome.found = false := by
    show (_ && !(s.surveyed x).1.cancelled) = false
    rw [hc, Bool.not_true, Bool.and_false]
  have hlast : s.closingLine (s.surveyed x).1 =
      notFoundLine s.settings.applicationName s.text := by
    rw [closingLine, hfound]
    rfl
  have hruns := (s.emits_run x).eventsOf
  have hstart : ({} : Custody).live = [] := rfl
  have hanswers : answersIn (eventsOf s.run x) = answersIn (front ++ .polled true :: tail) := by
    rw [hevents, ← List.cons_append, ← List.append_assoc, answersIn_append]
    exact List.append_nil _
  have htold : true ∈ answersIn (eventsOf s.run x) := by
    rw [hanswers, answersIn_append]
    exact List.mem_append_right _ List.mem_cons_self
  refine ⟨⟨?_, ?_, ?_, ?_, ?_, ?_, ?_, (Custody.lawful_of_runs hruns hstart).2⟩, htold⟩
  · rw [hanswers]
    exact s.polls_of_surveyed x ht ha hc
  · rw [hevents, hevents', callsIn_append, callsIn_append]
    have hnone : callsIn (.polled true :: (tail ++ [.line (s.closingLine (s.surveyed x).1)])) =
        [] := by
      show callsIn (tail ++ _) = []
      rw [callsIn_append, callsIn_of_isHeap htail]
      rfl
    rw [hnone, List.append_nil]
    exact List.prefix_append _ _
  · refine ⟨linesIn front, linesIn more, ?_, ?_⟩
    · rw [hevents, linesIn_append]
      show linesIn front ++ linesIn (tail ++ _) = _
      rw [linesIn_append, (hosted_of_isHeap htail).linesIn, hlast]
      rfl
    · rw [hevents', linesIn_append, hout']
      show linesIn front ++ linesIn (more ++ _) = _
      rw [linesIn_append, List.append_assoc]
      rfl
  · rw [hout, hout']
    exact hg.holders
  · rw [hout, hout']
    exact hg.tally
  · rw [hout]
    exact hc
  · rw [hout]
    exact hfound

/-- The two searches do the same, or one cuts the other short. -/
theorem same_or_cutShort (x : Session σ) :
    s.run.run x = s.uncancelled.run.run x ∨
      (CutShort s x ∧ true ∈ answersIn (eventsOf s.run x)) := by
  cases ht : s.text.isEmpty with
  | true => exact .inl (s.run_eq_of_isEmpty x ht)
  | false =>
    cases s.parts_surveyInArena {} ((info s.openingMessage).run x).2 with
    | same hsame =>
      left
      have hsurveyed : s.surveyed x = s.uncancelled.surveyed x := hsame
      rw [s.run_eq_conclude x ht, s.uncancelled.run_eq_conclude x ht, hsurveyed]
      rfl
    | cut front tail more ha htail hb ho hc hg =>
      right
      exact s.cutShort_of_journals x ht ha htail hb hc hg

/-- A search that is told that it is cancelled is cut short there; one that is not told so is the
search that is never cancelled. -/
theorem cancelling_cuts_short (x : Session σ) :
    (true ∈ answersIn (eventsOf s.run x) → CutShort s x) ∧
      (true ∉ answersIn (eventsOf s.run x) → s.run.run x = s.uncancelled.run.run x) := by
  rcases s.same_or_cutShort x with hsame | ⟨hcut, htold⟩
  · have hevents : eventsOf s.run x = eventsOf s.uncancelled.run x := by
      rw [eventsOf, eventsOf, hsame]
    refine ⟨?_, fun _ => hsame⟩
    intro htold
    rw [hevents] at htold
    exact absurd htold (s.true_notMem_answersIn x)
  · exact ⟨fun _ => hcut, fun hnot => absurd htold hnot⟩

end Search

end FileHolders
