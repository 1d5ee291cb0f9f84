import FileHolders.Proofs.Availability

/-!
# Denials are heeded

Of the processes that were denied a search remembers the last one, and passes over its records
without opening it.  Read backwards, the journal tells which process that is: the first one that it
says was denied.  So a process that was denied is only opened again after another one was denied.

    s.Walks rs p es q → Remembers p q es                                        (remembers_of_walks)
    Remembers p q es → Remembers q r fs → Remembers p r (es ++ fs)               (Remembers.append)
    Heeds none es → DenialsHeeded es                                       (denialsHeeded_of_heeds)

The memory of one process is worth having because the records of a process mostly stand together.
-/

namespace FileHolders

open FileHolders.Action

variable {σ : Type}

/-! ## Denials in the journal -/

/-- The process that an event says was denied. -/
def Event.denied? : Event → Option UInt64
  | .opened pid _ status _ => if status = .accessDenied then some pid else none
  | _ => none

/-- The process that was denied last. -/
def lastDenied (events : List Event) : Option UInt64 := events.reverse.findSome? Event.denied?

/-- No process is opened while it is the one that was denied last.  `denied` is the one before the
events. -/
def Heeds (denied : Option UInt64) (events : List Event) : Prop :=
  ∀ before pid access status handle rest,
    events = before ++ .opened pid access status handle :: rest →
      (lastDenied before).or denied ≠ some pid

/-- No process is opened after it was denied. -/
def NeverReopened (events : List Event) : Prop :=
  ∀ before pid access handle between access' status handle' rest,
    events ≠ before ++ .opened pid access .accessDenied handle ::
      (between ++ .opened pid access' status handle' :: rest)

/-- Between a denial of a process and the next time that it is opened, another one is denied. -/
def DenialsHeeded (events : List Event) : Prop :=
  ∀ before pid access handle between access' status handle' rest,
    events = before ++ .opened pid access .accessDenied handle ::
      (between ++ .opened pid access' status handle' :: rest) →
    ∃ other ≠ pid, ∃ e ∈ between, e.denied? = some other

/-! ## Reading backwards -/

/-- There is one status that denies access. -/
theorem Status.kind_eq_accessDenied_iff (s : Status) :
    s.kind = .accessDenied ↔ s = accessDenied := by
  constructor
  · intro h
    unfold kind at h
    split at h
    · cases h
    split at h
    · assumption
    split at h
    · cases h
    split at h
    · cases h
    · cases h
  · rintro rfl
    decide

section

variable {events more : List Event} {denied : Option UInt64}

theorem lastDenied_append (events more : List Event) :
    lastDenied (events ++ more) = (lastDenied more).or (lastDenied events) := by
  rw [lastDenied, List.reverse_append, List.findSome?_append]
  rfl

theorem lastDenied_cons (e : Event) (events : List Event) :
    lastDenied (e :: events) = (lastDenied events).or e.denied? := by
  rw [← List.singleton_append, lastDenied_append]
  cases h : e.denied? with
  | none => simp [lastDenied, h]
  | some pid => simp [lastDenied, h]

theorem lastDenied_of_through (h : Through (· ≠ .openProcess) events) :
    lastDenied events = none := by
  rw [lastDenied, List.findSome?_eq_none_iff]
  intro e he
  cases e with
  | opened pid access status handle => exact absurd rfl (h _ (List.mem_reverse.mp he) _ rfl)
  | _ => rfl

theorem heeds_of_through (h : Through (· ≠ .openProcess) events) : Heeds denied events := by
  rintro before pid access status handle rest rfl
  exact absurd rfl (h (.opened pid access status handle) (by simp) _ rfl)

theorem Heeds.append (h : Heeds denied events)
    (hm : Heeds ((lastDenied events).or denied) more) : Heeds denied (events ++ more) := by
  intro before pid access status handle rest hsplit
  rcases List.append_eq_append_iff.mp hsplit with ⟨front, rfl, hfront⟩ | ⟨front, hevents, hfront⟩
  · have hlater := hm _ _ _ _ _ _ hfront
    rwa [lastDenied_append, Option.or_assoc]
  · cases front with
    | nil =>
      rw [List.append_nil] at hevents
      have hlater := hm [] _ _ _ _ _ hfront.symm
      rwa [← hevents]
    | cons e front =>
      obtain ⟨rfl, -⟩ := List.cons.inj hfront
      exact h _ _ _ _ _ _ hevents

/-- Where each opening heeds the last denial, a process that was denied is opened again only after
another denial. -/
theorem denialsHeeded_of_heeds (h : Heeds none events) : DenialsHeeded events := by
  rintro before pid access handle between access' status handle' rest rfl
  have hopened := h (before ++ .opened pid access .accessDenied handle :: between) pid access'
    status handle' rest (by simp)
  have hdenied : (Event.opened pid access .accessDenied handle).denied? = some pid := by
    simp [Event.denied?]
  rw [Option.or_none, lastDenied_append, lastDenied_cons, hdenied] at hopened
  cases hlast : lastDenied between with
  | none =>
    rw [hlast] at hopened
    exact absurd rfl hopened
  | some other =>
    rw [hlast] at hopened
    obtain ⟨e, he, hother⟩ := List.exists_of_findSome?_eq_some hlast
    refine ⟨other, ?_, e, List.mem_reverse.mp he, hother⟩
    rintro rfl
    exact hopened rfl

end

/-! ## What a search remembers -/

/-- What a search knows of denials goes with its events, and they heed what it knows. -/
structure Remembers (p next : Progress) (events : List Event) : Prop where
  last : next.denial.last = (lastDenied events).or p.denial.last
  heeds : Heeds p.denial.last events

section

variable {s : Search σ} {p mid next : Progress} {events more : List Event}

theorem Remembers.append (h : Remembers p mid events) (hm : Remembers mid next more) :
    Remembers p next (events ++ more) := by
  constructor
  · rw [hm.last, h.last, lastDenied_append, Option.or_assoc]
  · exact h.heeds.append (h.last ▸ hm.heeds)

/-- Where nothing is opened, nothing is learnt of denials. -/
theorem remembers_of_through (h : Through (· ≠ .openProcess) events)
    (hd : next.denial = p.denial) : Remembers p next events :=
  ⟨by rw [lastDenied_of_through h, hd]; rfl, heeds_of_through h⟩

/-- A process is opened that is not the one that was denied last. -/
theorem remembers_of_opened {pid : UInt64} {access : UInt32} {status : Status}
    {handle : Option HandleId} (hc : p.denial.covers pid = false)
    (hd : next.denial.last = if status = .accessDenied then some pid else p.denial.last) :
    Remembers p next [.opened pid access status handle] := by
  constructor
  · rw [hd, lastDenied_cons]
    show _ = (if status = .accessDenied then some pid else none).or _
    split
    · rfl
    · rfl
  · rintro (_ | ⟨first, before⟩) pid' access' status' handle' rest hsplit
    · cases hsplit
      intro hlast
      rw [lastDenied, List.reverse_nil, List.findSome?_nil, Option.none_or] at hlast
      simp [Denial.covers, hlast] at hc
    · exact absurd (List.cons.inj hsplit).2 (by simp)

theorem last_refused (p : Progress) (pid : UInt64) (fault : Fault) :
    (p.refused pid fault).denial.last =
      if fault.status.kind = .accessDenied then some pid else p.denial.last := by
  unfold Progress.refused
  split
  · rfl
  · rfl

theorem remembers_of_takesOver {pid : UInt64} (h : Search.TakesOver s pid p events next) :
    Remembers p next events := by
  cases h with
  | remembered _ => exact remembers_of_through through_nil rfl
  | opened hc ho =>
    cases ho with
    | own _ => exact remembers_of_through through_nil rfl
    | opened status handle _ _ hs =>
      refine remembers_of_opened hc (if_neg ?_).symm
      rintro rfl
      cases hs
  | refused hc ho =>
    cases ho with
    | refused status handle _ _ _ =>
      refine remembers_of_opened hc ?_
      rw [last_refused]
      show (if status.kind = .accessDenied then _ else _) = _
      simp only [Status.kind_eq_accessDenied_iff]
    | missing _ _ => exact remembers_of_through through_nil rfl

theorem remembers_of_turns {pid : UInt64} (h : Search.Turns s pid p events next) :
    Remembers p next events := by
  have hpolled : ∀ cancelled, Through (· ≠ .openProcess) [.polled cancelled] :=
    fun cancelled => through_singleton nofun
  cases h with
  | stays _ => exact remembers_of_through through_nil rfl
  | cancelled _ hl _ =>
    exact remembers_of_through ((through_of_letsGo (by decide) hl).append (hpolled true)) rfl
  | @goesOn closing opening _ _ hl _ ht =>
    have hleft : Remembers p { p with owner := .none, polls := p.polls + 1 }
        (closing ++ [.polled false]) :=
      remembers_of_through ((through_of_letsGo (by decide) hl).append (hpolled false)) rfl
    simpa using hleft.append (remembers_of_takesOver ht)

theorem remembers_of_steps {r : Record} (h : Search.Steps s r p events next) :
    Remembers p next events := by
  have hrecord : Remembers p { p with tally.records := p.tally.records + 1 }
      [.record r.pid r.handleValue r.grantedAccess] :=
    remembers_of_through (through_singleton nofun) rfl
  cases h with
  | stopped ht _ => exact hrecord.append (remembers_of_turns ht)
  | attended ht _ ha =>
    refine hrecord.append ((remembers_of_turns ht).append (remembers_of_through ?_ ?_))
    · refine (through_of_attends ha).mono ?_
      rintro c (rfl | ⟨hc, -⟩)
      · decide
      · exact hc
    · exact ha.sameStand.denial

theorem remembers_of_walks {records : List Record} (h : Search.Walks s records p events next) :
    Remembers p next events := by
  induction h with
  | done _ => exact remembers_of_through through_nil rfl
  | stopped hs _ => exact remembers_of_steps hs
  | goesOn hs _ _ ih => exact (remembers_of_steps hs).append ih

theorem through_of_outer (h : Outer events) : Through (· ≠ .openProcess) events := by
  intro e he c hc
  have houter := h e he
  cases e <;> simp_all [Event.isOuter, Event.isHeap, Event.isTable, Event.entry?]
  all_goals rintro rfl; cases hc

/-- Each opening of a run heeds the denials before it. -/
theorem heeds_of_runs {records : List Record} {outcome : Outcome}
    (h : Search.Runs s records events outcome) : Heeds none events := by
  rcases h.walks with ⟨ho, -⟩ | ⟨front, walking, closing, q, rfl, hf, hc, hw, -⟩
  · exact heeds_of_through (through_of_outer ho)
  · have hfront : Remembers {} {} front := remembers_of_through (through_of_outer hf) rfl
    have hclosing : Remembers q q closing := remembers_of_through (through_of_outer hc) rfl
    exact (hfront.append ((remembers_of_walks hw).append hclosing)).heeds

end

/-! ## The whole search -/

/-- Whatever the order of the records and the answers of the host, a search opens a process that was
denied only after another one was denied. -/
theorem Search.denials_heeded (s : Search σ) (x : Session σ) :
    DenialsHeeded (eventsOf s.run x) :=
  denialsHeeded_of_heeds (heeds_of_runs (s.emits_run x).eventsOf)

/-- A machine whose records of one process stand apart, with another process between them.  Both are
denied. -/
def World.guarded : World where
  table := [⟨8, 4, 0⟩, ⟨12, 4, 0⟩, ⟨8, 8, 0⟩]
  has := fun _ => true
  opening := fun _ => .accessDenied
  duplication := fun _ _ => .success
  kind := fun _ _ => .disk
  name := fun _ _ => .error .accessDenied
  image := fun _ => none
  size_name := by
    rintro _ _ _ ⟨⟩
  kind_name := by
    rintro _ _ _ ⟨⟩
    decide

/-- A search on the simplest host of that machine. -/
def Search.guarded : Search Hand := { host := World.guarded.host 4, text := "\\d" }

/-- Only one process is remembered: the second denial displaces the first. -/
theorem Search.reopens_displaced :
    ¬ NeverReopened (eventsOf guarded.run { host := .empty, guess := 256 }) := by
  intro hnever
  let events := eventsOf guarded.run { host := .empty, guess := 256 }
  refine hnever (events.take 6) 8 1088 none
    [.record 12 4 0, .polled false, .opened 12 1088 .accessDenied none, .record 8 8 0,
      .polled false]
    1088 .accessDenied none (events.drop 13) ?_
  decide +kernel

end FileHolders
