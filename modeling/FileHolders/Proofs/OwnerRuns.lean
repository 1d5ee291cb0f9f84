import FileHolders.Proofs.Turning
import Mathlib.Data.List.SplitBy

/-!
# One owner for each run of records

The records of a table come in runs of one process each, and a search turns to a process only where
a run begins.  Whatever happened at a record, the process at hand at the next one is its process:
opened, denied, remembered as denied, out of reach for another reason, or the caller passed over.

`runsOf` cuts the stages of a search into their runs.  In each the search asks once whether it is
cancelled and opens at most once, both at the first record.  A process that could not be opened for
another reason than a denial is tried again at its next run, since only denials are remembered.

    t.Takes s → t.after.cancelled = false → t.after.owner.pid? = some t.pid            (Takes.pid?)
    Passes s rs p stages q → p.owner = .none → ∀ run ∈ runsOf stages, Whole s run
                                                                              (whole_of_passes)
    KeepsToRuns s x (s.stagesOf x) (eventsOf s.run x)                              (keeps_to_runs)
-/

namespace FileHolders

open FileHolders.Action

variable {σ : Type}

/-! ## Runs -/

/-- The runs of some stages: those of one process that stand together. -/
def runsOf (stages : List Stage) : List (List Stage) := stages.splitBy fun t u => t.pid == u.pid

/-- The process of the record before, if there is one. -/
def pidBefore (stages : List Stage) : Nat → Option UInt64
  | 0 => none
  | i + 1 => stages[i]?.map Stage.pid

namespace Stage

/-- The search tried to get hold of the process: it is counted. -/
def Tries (t : Stage) : Prop := t.after.tally.attempts = t.before.tally.attempts + 1

/-- The search tried to open the process and failed, and was not denied: the call was answered so,
or there is none. -/
inductive Fails (s : Search σ) (t : Stage) : Prop
  | refused (status : Status) (h : (t.pid, status) ∈ openingsIn t.events)
      (hs : status.isSuccess = false) (hd : status ≠ .accessDenied)
  | missing (h : t.Tries) (hn : openingsIn t.events = []) (hp : t.pid ≠ s.host.ownPid)

/-- A record that goes on with the run of another. -/
structure Continues (head t : Stage) : Prop where
  begins : t.begins = false
  pid : t.pid = head.pid
  owner : t.after.owner = head.after.owner
  denial : t.after.denial = head.after.denial

end Stage

/-- A whole run: the search turns to its process at the first record and at no other. -/
inductive Whole (s : Search σ) : List Stage → Prop
  | intro {head : Stage} {tail : List Stage} (hb : head.begins = true)
      (hs : ∀ t ∈ head :: tail, t.Takes s) (ht : ∀ t ∈ tail, head.Continues t) :
      Whole s (head :: tail)

/-! ## The process at hand -/

namespace Stage

variable {s : Search σ} {t u : Stage}

/-- Whatever happened at a record, its process is at hand after it. -/
theorem Takes.pid? (h : t.Takes s) (hc : t.after.cancelled = false) :
    t.after.owner.pid? = some t.pid := by
  cases h.turning with
  | stays hb h =>
    rw [h.owner]
    simpa [begins, Owner.startsRun] using hb
  | stops _ hstop _ => exact absurd (hc.symm.trans hstop) (by simp)
  | remembered _ _ h => rw [h.owner]; rfl
  | own _ _ _ h => rw [h.owner]; rfl
  | opened _ _ _ _ _ _ h => rw [h.owner]; rfl
  | refused _ _ _ _ _ h => rw [h.owner]; rfl
  | missing _ _ _ _ h => rw [h.owner]; rfl

theorem Leads.pid? (h : t.Leads u) (ht : t.Takes s) : u.before.owner.pid? = some t.pid := by
  rw [h.before]
  exact ht.pid? h.goesOn

/-- A run begins where the process changes. -/
theorem Leads.begins_iff (h : t.Leads u) (ht : t.Takes s) :
    u.begins = true ↔ u.pid ≠ t.pid := by
  rw [begins, Owner.startsRun, h.pid? ht, decide_eq_true_iff, Ne, Option.some_inj, eq_comm]

theorem begins_of_owner_none (h : t.before.owner = .none) : t.begins = true := by
  rw [begins, h]
  rfl

/-- The search asks whether it is cancelled where a run begins. -/
theorem Takes.length_answersIn (h : t.Takes s) :
    (answersIn t.events).length = if t.begins then 1 else 0 := by
  cases h.turning with
  | stays hb h => rw [h.answers, hb]; rfl
  | stops hb _ h => rw [h.answers, hb]; rfl
  | remembered hb _ h => rw [h.answers, hb]; rfl
  | own hb _ _ h => rw [h.answers, hb]; rfl
  | opened _ _ hb _ _ _ h => rw [h.answers, hb]; rfl
  | refused _ hb _ _ _ h => rw [h.answers, hb]; rfl
  | missing hb _ _ _ h => rw [h.answers, hb]; rfl

/-- At a record the search opens its process, at most once, and counts that. -/
theorem Takes.openings (h : t.Takes s) :
    (openingsIn t.events).length ≤ 1 ∧ (∀ o ∈ openingsIn t.events, o.1 = t.pid) ∧
      (t.after.tally.attempts = t.before.tally.attempts ∨ t.Tries) := by
  cases h.turning with
  | stays _ h => exact ⟨by simp [h.openings], by simp [h.openings], .inl h.attempts⟩
  | stops _ _ h => exact ⟨by simp [h.openings], by simp [h.openings], .inl h.attempts⟩
  | remembered _ _ h => exact ⟨by simp [h.openings], by simp [h.openings], .inl h.attempts⟩
  | own _ _ _ h => exact ⟨by simp [h.openings], by simp [h.openings], .inr h.attempts⟩
  | opened _ _ _ _ _ _ h => exact ⟨by simp [h.openings], by simp [h.openings], .inr h.attempts⟩
  | refused _ _ _ _ _ h => exact ⟨by simp [h.openings], by simp [h.openings], .inr h.attempts⟩
  | missing _ _ _ _ h => exact ⟨by simp [h.openings], by simp [h.openings], .inr h.attempts⟩

/-- Where no run begins, everything about the owner stays as it is. -/
theorem Takes.comes_of_begins (h : t.Takes s) (hb : t.begins = false) :
    t.Comes { owner := t.before.owner, denial := t.before.denial } := by
  have hne : ∀ {P : Prop}, t.begins = true → P := fun hb' => absurd (hb.symm.trans hb') (by simp)
  cases h.turning with
  | stays _ h => exact h
  | stops hb' _ _ => exact hne hb'
  | remembered hb' _ _ => exact hne hb'
  | own hb' _ _ _ => exact hne hb'
  | opened _ _ hb' _ _ _ _ => exact hne hb'
  | refused _ hb' _ _ _ _ => exact hne hb'
  | missing hb' _ _ _ _ => exact hne hb'

theorem Continues.next {head : Stage} (h : head.Continues t) (hu : t.Continues u) :
    head.Continues u :=
  ⟨hu.begins, hu.pid.trans h.pid, hu.owner.trans h.owner, hu.denial.trans h.denial⟩

theorem Leads.continues (h : t.Leads u) (ht : t.Takes s) (hu : u.Takes s) (hp : u.pid = t.pid) :
    t.Continues u := by
  have hb : u.begins = false := by
    rw [← Bool.not_eq_true, h.begins_iff ht]
    exact fun hne => hne hp
  have hc := hu.comes_of_begins hb
  exact ⟨hb, hp, hc.owner.trans (congrArg Progress.owner h.before),
    hc.denial.trans (congrArg Progress.denial h.before)⟩

end Stage

/-! ## Whole runs -/

section

variable {s : Search σ}

/-- Records of one process that stand together go on with the run of the first. -/
theorem continues_of_isChain {head : Stage} {tail : List Stage}
    (hl : (head :: tail).IsChain Stage.Leads)
    (hp : (head :: tail).IsChain fun t u => (t.pid == u.pid) = true)
    (hs : ∀ t ∈ head :: tail, t.Takes s) : ∀ t ∈ tail, head.Continues t := by
  induction tail generalizing head with
  | nil => simp
  | cons u tail ih =>
    obtain ⟨hhead, hs⟩ := List.forall_mem_cons.mp hs
    obtain ⟨hleads, hl⟩ := List.isChain_cons_cons.mp hl
    obtain ⟨hpid, hp⟩ := List.isChain_cons_cons.mp hp
    have hu := hleads.continues hhead (hs u List.mem_cons_self) (beq_iff_eq.mp hpid).symm
    exact List.forall_mem_cons.mpr ⟨hu, fun t ht => hu.next (ih hl hp hs t ht)⟩

/-- From where no process is at hand, the search turns to the process of a run at its first record
and at no other. -/
theorem whole_of_passes {records : List Record} {p next : Progress} {stages : List Stage}
    (h : Search.Passes s records p stages next) (ho : p.owner = .none) :
    ∀ run ∈ runsOf stages, Whole s run := by
  intro run hrun
  have hflat : (runsOf stages).flatten = stages := List.flatten_splitBy _ _
  have hnil : [] ∉ runsOf stages := List.nil_notMem_splitBy _ _
  obtain ⟨hwithin, hbetween⟩ := (List.isChain_flatten hnil).mp (hflat.symm ▸ h.isChain)
  have htakes : ∀ t ∈ run, t.Takes s := by
    intro t ht
    refine h.takes t ?_
    rw [← hflat]
    exact List.mem_flatten_of_mem hrun ht
  obtain ⟨head, tail, rfl⟩ := List.exists_cons_of_ne_nil (List.ne_nil_of_mem_splitBy hrun)
  refine .intro ?_ htakes
    (continues_of_isChain (hwithin _ hrun) (List.isChain_of_mem_splitBy hrun) htakes)
  obtain ⟨front, rest, hsplit⟩ := List.append_of_mem hrun
  rcases List.eq_nil_or_concat front with rfl | ⟨front, run', rfl⟩
  · -- the first run of all
    apply Stage.begins_of_owner_none
    rw [h.head head ?_, ho]
    rw [← hflat, hsplit]
    rfl
  · -- the last record of the run before is of another process
    have hturn : runsOf stages = front ++ run' :: (head :: tail) :: rest := by
      rw [hsplit, List.concat_eq_append, List.append_assoc]
      rfl
    have hleads := List.isChain_iff_forall_rel_of_append_cons_cons.mp hbetween hturn
    obtain ⟨hne, _, hpids⟩ := List.isChain_iff_forall_rel_of_append_cons_cons.mp
      (List.isChain_getLast_head_splitBy _ stages) hturn
    have hlast := List.getLast?_eq_some_getLast hne
    have htakes' : (run'.getLast hne).Takes s := by
      apply h.takes
      rw [← hflat, hturn]
      simp
    rw [(hleads _ hlast _ rfl).begins_iff htakes']
    intro heq
    simp [heq] at hpids

end

/-! ## Failures are tried again -/

namespace Stage

variable {s : Search σ} {t u : Stage} {q : UInt64}

/-- Only a denial of a process makes the search remember it. -/
theorem Takes.last_ne (h : t.Takes s) (hq : t.pid ≠ q ∨ t.begins = false)
    (hl : t.before.denial.last ≠ some q) : t.after.denial.last ≠ some q := by
  cases h.turning with
  | stays _ h => rwa [h.denial]
  | stops _ _ h => rwa [h.denial]
  | remembered _ _ h => rwa [h.denial]
  | own _ _ _ h => rwa [h.denial]
  | opened _ _ _ _ _ _ h => rwa [h.denial]
  | refused status hb _ _ _ h =>
    have hpid : t.pid ≠ q := hq.resolve_right (by simp [hb])
    rw [h.denial]
    dsimp only
    split
    · exact fun heq => hpid (Option.some.inj heq)
    · exact hl
  | missing _ _ _ _ h => rwa [h.denial]

theorem last_ne_of_covers (hd : t.before.denial.covers q = false) :
    t.before.denial.last ≠ some q := by simpa [Denial.covers] using hd

/-- After a failure that was no denial the process is not remembered, and it is not the caller. -/
theorem Fails.forgets (hf : t.Fails s) (h : t.Takes s) :
    t.pid ≠ s.host.ownPid ∧ t.after.denial.last ≠ some t.pid := by
  cases hf with
  | refused status hmem hs hden =>
    cases h.turning with
    | opened _ status' _ _ _ hs' h =>
      obtain ⟨-, rfl⟩ : t.pid = t.pid ∧ status = status' := by simpa [h.openings] using hmem
      exact absurd (hs.symm.trans hs') (by simp)
    | refused status' _ hd hp _ h =>
      obtain ⟨-, rfl⟩ : t.pid = t.pid ∧ status = status' := by simpa [h.openings] using hmem
      refine ⟨hp, ?_⟩
      rw [h.denial]
      dsimp only
      rw [if_neg hden]
      exact last_ne_of_covers hd
    | stays _ h => simp [h.openings] at hmem
    | stops _ _ h => simp [h.openings] at hmem
    | remembered _ _ h => simp [h.openings] at hmem
    | own _ _ _ h => simp [h.openings] at hmem
    | missing _ _ _ _ h => simp [h.openings] at hmem
  | missing htries hnone hp =>
    refine ⟨hp, ?_⟩
    have hcount : ∀ {turn : Turn}, t.Comes turn → turn.attempts = 1 := fun hc =>
      Nat.add_left_cancel (hc.attempts.symm.trans htries)
    cases h.turning with
    | missing _ hd _ _ h =>
      rw [h.denial]
      exact last_ne_of_covers hd
    | own _ _ hp' _ => exact absurd hp' hp
    | opened _ _ _ _ _ _ h => simp [h.openings] at hnone
    | refused _ _ _ _ _ h => simp [h.openings] at hnone
    | stays _ h => exact absurd (hcount h) (by simp)
    | stops _ _ h => exact absurd (hcount h) (by simp)
    | remembered _ _ h => exact absurd (hcount h) (by simp)

/-- A process that is not remembered is opened where the search turns to it and goes on. -/
theorem Takes.tries (h : t.Takes s) (hp : t.pid ≠ s.host.ownPid)
    (hl : t.before.denial.last ≠ some t.pid) (ha : answersIn t.events = [false]) :
    t.Tries ∧ ((∃ status, (t.pid, status) ∈ openingsIn t.events) ∨ s.host.Lacks .openProcess) := by
  have hanswers : ∀ {turn : Turn}, t.Comes turn → turn.answers = [false] := fun hc =>
    hc.answers.symm.trans ha
  cases h.turning with
  | stays _ h => exact absurd (hanswers h) (by simp)
  | stops _ _ h => exact absurd (hanswers h) (by simp)
  | remembered _ hd _ => exact absurd hd (by simpa [Denial.covers] using hl)
  | own _ _ hown _ => exact absurd hown hp
  | opened _ status _ _ _ _ h => exact ⟨h.attempts, .inl ⟨status, by simp [h.openings]⟩⟩
  | refused status _ _ _ _ h => exact ⟨h.attempts, .inl ⟨status, by simp [h.openings]⟩⟩
  | missing _ _ _ hm h => exact ⟨h.attempts, .inr hm⟩

/-- What is not remembered after one stage is not remembered before a later one, if the process has
no run in between. -/
theorem last_ne_of_isChain {mid : List Stage} (hl : (t :: (mid ++ [u])).IsChain Leads)
    (hs : ∀ v ∈ mid, v.Takes s ∧ (v.pid ≠ q ∨ v.begins = false))
    (ht : t.after.denial.last ≠ some q) : u.before.denial.last ≠ some q := by
  induction mid generalizing t with
  | nil =>
    obtain ⟨hleads, -⟩ := List.isChain_cons_cons.mp hl
    rwa [hleads.before]
  | cons v mid ih =>
    obtain ⟨⟨htakes, hq⟩, hs⟩ := List.forall_mem_cons.mp hs
    obtain ⟨hleads, hl⟩ := List.isChain_cons_cons.mp hl
    exact ih hl hs (htakes.last_ne hq (by rwa [hleads.before]))

end Stage

/-! ## The whole search -/

/-- A search keeps to the runs of the records that it reaches. -/
structure KeepsToRuns (s : Search σ) (x : Session σ) (stages : List Stage) (events : List Event) :
    Prop where
  /-- The stages are of the records of the table in their order: of all, if the search comes to the
  records and is not cancelled. -/
  records : stages.map Stage.record <+: s.snapshot x
  complete : (s.start? x).isSome = true →
    (∀ t ∈ stages.getLast?, t.after.cancelled = false) → stages.map Stage.record = s.snapshot x
  /-- Nothing else happens but what comes before and after the records. -/
  told : ∃ front closing, Outer front ∧ Outer closing ∧
    events = front ++ (stages.flatMap Stage.events ++ closing)
  /-- At the first record no process is at hand, and at each other one that of the record before. -/
  first : ∀ t ∈ stages.head?, t.before.owner = .none
  slot : ∀ i t, stages[i]? = some t → t.before.owner.pid? = pidBefore stages i
  /-- The search turns to the process of a record if that is not the process of the record before,
  and asks whether it is cancelled there and nowhere else. -/
  boundary : ∀ i t, stages[i]? = some t → (t.begins = true ↔ pidBefore stages i ≠ some t.pid)
  asks : ∀ t ∈ stages, (answersIn t.events).length = if t.begins then 1 else 0
  asksOnce : ∀ run ∈ runsOf stages, (answersIn (run.flatMap Stage.events)).length = 1
  polls : (answersIn events).length = (runsOf stages).length
  /-- In a run its process is opened at the first record, at most once. -/
  opensOnce : ∀ run ∈ runsOf stages, ∃ head tail, run = head :: tail ∧
    (openingsIn head.events).length ≤ 1 ∧ (∀ o ∈ openingsIn head.events, o.1 = head.pid) ∧
      (head.after.tally.attempts = head.before.tally.attempts ∨ head.Tries) ∧
      ∀ t ∈ tail, openingsIn t.events = [] ∧ t.after.tally.attempts = t.before.tally.attempts
  /-- A process that could not be opened, and was not denied, is tried again at its next run. -/
  retried : ∀ front head tail between again tail' rest,
    runsOf stages = front ++ (head :: tail) :: (between ++ (again :: tail') :: rest) →
    head.Fails s → again.pid = head.pid → (∀ run ∈ between, ∀ t ∈ run, t.pid ≠ head.pid) →
    answersIn again.events = [false] →
    again.Tries ∧
      ((∃ status, (again.pid, status) ∈ openingsIn again.events) ∨ s.host.Lacks .openProcess)
  /-- Where the process of a run is not the caller and was not opened, no call is made about a
  handle of the run. -/
  unopened : ∀ run ∈ runsOf stages,
    (∀ t ∈ run, t.pid ≠ s.host.ownPid ∧ ∀ o ∈ openingsIn t.events, o.2.isSuccess = false) →
    ∀ t ∈ run, ∀ e ∈ t.events, e.inspects = false

section

variable {s : Search σ} {run : List Stage}

theorem Whole.takes (h : Whole s run) : ∀ t ∈ run, t.Takes s := by
  cases h with
  | intro _ hs _ => exact hs

theorem Whole.length_answersIn (h : Whole s run) :
    (answersIn (run.flatMap Stage.events)).length = 1 := by
  cases h with
  | @intro head tail hb hs ht =>
    have htail : ∀ t ∈ tail, answersIn t.events = [] := by
      intro t hmem
      have hlength := (hs t (List.mem_cons_of_mem _ hmem)).length_answersIn
      rw [(ht t hmem).begins] at hlength
      exact List.eq_nil_of_length_eq_zero hlength
    have hquiet : answersIn (tail.flatMap Stage.events) = [] := by
      rw [answersIn, List.filterMap_flatMap, List.flatMap_eq_nil_iff]
      exact htail
    rw [List.flatMap_cons, answersIn_append, hquiet, List.append_nil,
      (hs head List.mem_cons_self).length_answersIn, hb]
    rfl

/-- The process of a run is opened at its first record, if at all. -/
theorem Whole.opensOnce (h : Whole s run) : ∃ head tail, run = head :: tail ∧
    (openingsIn head.events).length ≤ 1 ∧ (∀ o ∈ openingsIn head.events, o.1 = head.pid) ∧
      (head.after.tally.attempts = head.before.tally.attempts ∨ head.Tries) ∧
      ∀ t ∈ tail, openingsIn t.events = [] ∧ t.after.tally.attempts = t.before.tally.attempts := by
  cases h with
  | @intro head tail _ hs ht =>
    obtain ⟨hlength, hpids, htries⟩ := (hs head List.mem_cons_self).openings
    refine ⟨head, tail, rfl, hlength, hpids, htries, ?_⟩
    intro t hmem
    have hcomes := (hs t (List.mem_cons_of_mem _ hmem)).comes_of_begins (ht t hmem).begins
    exact ⟨hcomes.openings, hcomes.attempts⟩

/-- Where a process is not the caller and was not opened at a record that turns to it, none is at
hand after it. -/
theorem Stage.Takes.process?_eq_none {t : Stage} (h : t.Takes s) (hb : t.begins = true)
    (hp : t.pid ≠ s.host.ownPid) (ho : ∀ o ∈ openingsIn t.events, o.2.isSuccess = false) :
    t.after.owner.process? = none := by
  cases h.turning with
  | stays hb' _ => exact absurd (hb.symm.trans hb') (by simp)
  | stops _ _ h => rw [h.owner]; rfl
  | remembered _ _ h => rw [h.owner]; rfl
  | own _ _ hown _ => exact absurd hown hp
  | opened _ status _ _ _ hs h =>
    have hfailed : status.isSuccess = false := ho (t.pid, status) (by simp [h.openings])
    exact absurd (hfailed.symm.trans hs) (by simp)
  | refused _ _ _ _ _ h => rw [h.owner]; rfl
  | missing _ _ _ _ h => rw [h.owner]; rfl

theorem Whole.inspects_eq_false (h : Whole s run)
    (hu : ∀ t ∈ run, t.pid ≠ s.host.ownPid ∧ ∀ o ∈ openingsIn t.events, o.2.isSuccess = false) :
    ∀ t ∈ run, ∀ e ∈ t.events, e.inspects = false := by
  cases h with
  | @intro head tail hb hs ht =>
    obtain ⟨hp, ho⟩ := hu head List.mem_cons_self
    have hhead := (hs head List.mem_cons_self).process?_eq_none hb hp ho
    intro t hmem
    apply (hs t hmem).inspects_eq_false
    rcases List.mem_cons.mp hmem with rfl | hmem
    · exact hhead
    · rwa [(ht t hmem).owner]

/-- Each run of a list of runs asks once. -/
theorem length_answersIn_flatten {runs : List (List Stage)} (h : ∀ run ∈ runs, Whole s run) :
    (answersIn (runs.flatten.flatMap Stage.events)).length = runs.length := by
  induction runs with
  | nil => rfl
  | cons run runs ih =>
    obtain ⟨hrun, hruns⟩ := List.forall_mem_cons.mp h
    rw [List.flatten_cons, List.flatMap_append, answersIn_append, List.length_append,
      hrun.length_answersIn, ih hruns, List.length_cons, Nat.add_comm]

/-- After a failure that was no denial, the process is tried again at its next run. -/
theorem Whole.tries_again {head again : Stage} {tail tail' : List Stage}
    {between : List (List Stage)} (h : Whole s (head :: tail)) (ha : again.Takes s)
    (hb : ∀ run ∈ between, Whole s run)
    (hl : (head :: (tail ++ between.flatten ++ again :: tail')).IsChain Stage.Leads)
    (hf : head.Fails s) (hp : again.pid = head.pid)
    (hne : ∀ run ∈ between, ∀ t ∈ run, t.pid ≠ head.pid)
    (hanswer : answersIn again.events = [false]) :
    again.Tries ∧
      ((∃ status, (again.pid, status) ∈ openingsIn again.events) ∨ s.host.Lacks .openProcess) := by
  cases h with
  | intro _ hs ht =>
    obtain ⟨hown, hlast⟩ := hf.forgets (hs head List.mem_cons_self)
    have hmid : ∀ t ∈ tail ++ between.flatten,
        t.Takes s ∧ (t.pid ≠ head.pid ∨ t.begins = false) := by
      intro t hmem
      rcases List.mem_append.mp hmem with hmem | hmem
      · exact ⟨hs t (List.mem_cons_of_mem _ hmem), .inr (ht t hmem).begins⟩
      · obtain ⟨run, hrun, hmem⟩ := List.mem_flatten.mp hmem
        exact ⟨(hb run hrun).takes t hmem, .inl (hne run hrun t hmem)⟩
    have hup : (head :: (tail ++ between.flatten ++ [again])).IsChain Stage.Leads := by
      rw [List.append_cons, ← List.cons_append] at hl
      exact hl.left_of_append
    have hbefore := Stage.last_ne_of_isChain hup hmid hlast
    exact ha.tries (hp ▸ hown) (hp ▸ hbefore) hanswer

end

namespace Search

variable {s : Search σ} {records : List Record} {p next : Progress} {stages : List Stage}

/-- The process at hand before a record is that of the record before. -/
theorem Passes.pid?_before (h : Passes s records p stages next) (ho : p.owner = .none) {i : Nat}
    {t : Stage} (ht : stages[i]? = some t) : t.before.owner.pid? = pidBefore stages i := by
  cases i with
  | zero =>
    rw [h.head t (by rwa [List.head?_eq_getElem?]), ho]
    rfl
  | succ i =>
    obtain ⟨hi, rfl⟩ := List.getElem?_eq_some_iff.mp ht
    have hleads := List.isChain_iff_getElem.mp h.isChain i hi
    have htakes := h.takes stages[i] (List.getElem_mem _)
    rw [hleads.pid? htakes, pidBefore, List.getElem?_eq_getElem (Nat.lt_of_succ_lt hi)]
    rfl

/-- A walk whose last stage was not cancelled was not cancelled. -/
theorem Passes.cancelled_eq_false (h : Passes s records p stages next) (hp : p.cancelled = false)
    (hc : ∀ t ∈ stages.getLast?, t.after.cancelled = false) : next.cancelled = false := by
  cases hlast : stages.getLast? with
  | some t => rw [← h.last t hlast, hc t hlast]
  | none =>
    obtain rfl := List.getLast?_eq_none_iff.mp hlast
    cases h with
    | done _ => exact hp

/-- Whatever the records, the host and the source of cancellation, a search keeps to the runs. -/
theorem keeps_to_runs (s : Search σ) (x : Session σ) :
    KeepsToRuns s x (s.stagesOf x) (eventsOf s.run x) := by
  obtain ⟨_, ⟨he, hf, hc, hp, -⟩, -⟩ := (s.emits_run_staged x).eventsOf
  replace hp : Passes s (recordsFrom (s.start? x)) {} (s.stagesOf x) _ := hp
  have hwhole := whole_of_passes hp rfl
  have hflat : (runsOf (s.stagesOf x)).flatten = s.stagesOf x := List.flatten_splitBy _ _
  refine
    { told := ⟨_, _, hf, hc, he⟩
      first := fun t ht => congrArg Progress.owner (hp.head t ht)
      slot := fun i t ht => hp.pid?_before rfl ht
      asks := fun t ht => (hp.takes t ht).length_answersIn
      asksOnce := fun run hrun => (hwhole run hrun).length_answersIn
      unopened := fun run hrun => (hwhole run hrun).inspects_eq_false
      opensOnce := fun run hrun => (hwhole run hrun).opensOnce
      records := hp.records_isPrefix.trans (s.recordsFrom_isPrefix x)
      complete := ?_, boundary := ?_, polls := ?_, retried := ?_ }
  · intro hstart hlast
    rw [← s.recordsFrom_start? x hstart]
    exact hp.records_eq (hp.cancelled_eq_false rfl hlast)
  · intro i t ht
    rw [Stage.begins, Owner.startsRun, decide_eq_true_iff, hp.pid?_before rfl ht]
  · rw [he, answersIn_append, answersIn_append, answersIn_of_outer hf, answersIn_of_outer hc,
      List.nil_append, List.append_nil]
    have hruns := length_answersIn_flatten hwhole
    rwa [hflat] at hruns
  · intro front head tail between again tail' rest hsplit hfails hpid hne hanswer
    have hmem : ∀ run ∈ (head :: tail) :: (between ++ [again :: tail']),
        run ∈ runsOf (s.stagesOf x) := by
      intro run hrun
      rw [hsplit]
      simp only [List.mem_cons, List.mem_append, List.not_mem_nil, or_false] at hrun ⊢
      tauto
    have hchain := hp.isChain
    rw [← hflat, hsplit, List.flatten_append] at hchain
    have hwithin : (head :: (tail ++ between.flatten ++
        again :: (tail' ++ rest.flatten))).IsChain Stage.Leads := by
      simpa using hchain.right_of_append
    exact (hwhole _ (hmem _ (by simp))).tries_again
      ((hwhole _ (hmem (again :: tail') (by simp))).takes again List.mem_cons_self)
      (fun run hrun => hwhole _ (hmem _ (by simp [hrun]))) hwithin hfails hpid hne hanswer

end Search

end FileHolders
