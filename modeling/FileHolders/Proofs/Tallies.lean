import FileHolders.Proofs.OwnerRuns

/-!
# The tally says what happened

The tally of a search is counted at different depths of the walk, and two paths are counted that make
no call: the caller is at hand without being opened, and its handles are used in place.  Each count
is shown to be one of the events of the journal, or of the stages of the search, by one induction
over the stages: a count that grows at each stage by what the stage adds grows by the whole.

    Passes s rs p stages q → Adds F → (∀ t ∈ stages, f t.after = f t.before + F [t]) →
      f q = f p + F stages                                                         (Passes.total)
    TallyCountsEvents s x (s.stagesOf x) (eventsOf s.run x) outcome            (tally_counts_events)
-/

namespace FileHolders

open FileHolders.Action

variable {σ : Type}

/-! ## What a stage adds -/

namespace Stage

/-- Whether the search turned to the caller at a record and went on. -/
def turnsToOwn (s : Search σ) (t : Stage) : Bool :=
  t.pid = s.host.ownPid && answersIn t.events = [false]

/-- Whether a name was read at a record. -/
def resolves (t : Stage) : Bool := t.events.any Event.names

/-- What a stage adds to the counts of looking at handles. -/
structure Counts (t : Stage) : Prop where
  records : t.after.tally.records = t.before.tally.records + 1
  duplicated : t.after.tally.duplicated = t.before.tally.duplicated + t.events.countP Event.brings
  named : t.after.tally.named = t.before.tally.named + t.events.countP Event.names
  namedOnce : t.after.tally.named ≤ t.before.tally.named + 1
  holders : t.after.holders.size + t.before.tally.named ≤
    t.before.holders.size + t.after.tally.named

end Stage

section

variable {s : Search σ} {p next : Progress} {events : List Event}

theorem Search.Heads.holders (h : Search.Heads s p events next) : next.holders = p.holders :=
  (lines_of_heads h).2.1

theorem Search.Reports.size_holders_le {process : Held} {r : Record}
    (h : Search.Reports s process r p events next) :
    next.holders.size ≤ p.holders.size + 1 := by
  cases h with
  | known hh _ =>
    rw [hh.holders]
    omega
  | found path hh _ hs =>
    rw [Array.size_push, hs.sameHolders.2.1, hh.holders]

/-- At most one name is read of a handle, and a holder is only reported where one was. -/
theorem Search.Examines.named_le {process handle : Held} {r : Record}
    (h : Search.Examines s process handle r p events next) :
    next.tally.named ≤ p.tally.named + 1 ∧
      next.holders.size + p.tally.named ≤ p.holders.size + next.tally.named := by
  cases h with
  | passed _ _ => omega
  | unnamed _ => omega
  | uncovered _ _ =>
    dsimp only
    omega
  | covered _ _ hr =>
    have htally := hr.tally
    have hsize := hr.size_holders_le
    rw [htally]
    dsimp only at hsize ⊢
    omega

theorem Search.Attends.named_le {r : Record} (h : Search.Attends s r p events next) :
    next.tally.named ≤ p.tally.named + 1 ∧
      next.holders.size + p.tally.named ≤ p.holders.size + next.tally.named := by
  cases h with
  | unreached _ => omega
  | ignored _ _ => omega
  | inspected _ _ hi =>
    cases hi with
    | failed _ => omega
    | examined _ he _ =>
      have hnamed := he.named_le
      split at hnamed
      · exact hnamed
      · exact hnamed

/-! ### Turning to the owner is counted otherwise -/

theorem tally_of_takesOver {pid : UInt64} (h : Search.TakesOver s pid p events next) :
    next.tally.records = p.tally.records ∧ next.tally.duplicated = p.tally.duplicated ∧
      next.tally.named = p.tally.named := by
  cases h with
  | remembered _ => exact ⟨rfl, rfl, rfl⟩
  | opened _ _ => exact ⟨rfl, rfl, rfl⟩
  | refused _ _ =>
    unfold Progress.refused
    split
    · exact ⟨rfl, rfl, rfl⟩
    · exact ⟨rfl, rfl, rfl⟩

theorem tally_of_turns {pid : UInt64} (h : Search.Turns s pid p events next) :
    next.tally.records = p.tally.records ∧ next.tally.duplicated = p.tally.duplicated ∧
      next.tally.named = p.tally.named := by
  cases h with
  | stays _ => exact ⟨rfl, rfl, rfl⟩
  | cancelled _ _ _ => exact ⟨rfl, rfl, rfl⟩
  | goesOn _ _ _ ht =>
    have htally := tally_of_takesOver ht
    exact htally

/-- What looking at the handle of a record adds, the whole stage adds. -/
theorem Stage.Takes.counts {t : Stage} (h : t.Takes s) : t.Counts := by
  obtain ⟨r, p, events, next⟩ := t
  have hsteps : Search.Steps s r p events next := h
  obtain ⟨turning, attending, turned, rfl, ht, hlook⟩ := hsteps.parts
  obtain ⟨hrecords, hduplicated, hnamed⟩ := tally_of_turns ht
  have hholders := ht.sameReport.holders
  have hbrings : turning.countP Event.brings = 0 := by
    rw [List.countP_eq_zero]
    intro e he hb
    have hinspects := ht.inspects_eq_false e he
    cases e with
    | duplicated _ _ _ _ => cases hinspects
    | _ => cases hb
  have hnames : turning.countP Event.names = 0 := by
    rw [List.countP_eq_zero]
    intro e he hn
    have hplain := plain_of_turns ht e he
    cases e with
    | named _ _ => cases hplain
    | _ => cases hn
  have hlooks : Looks turned next attending := by
    rcases hlook with ha | ⟨rfl, rfl⟩
    · exact looks_of_attends ha
    · exact looks_of_uncounted uncounted_nil rfl
  have hfound : next.tally.named ≤ turned.tally.named + 1 ∧
      next.holders.size + turned.tally.named ≤ turned.holders.size + next.tally.named := by
    rcases hlook with ha | ⟨-, rfl⟩
    · exact ha.named_le
    · omega
  rw [hnamed, hholders] at hfound
  refine ⟨?_, ?_, ?_, hfound.1, hfound.2⟩
  · exact hlooks.records.trans hrecords
  · show next.tally.duplicated = _
    rw [hlooks.duplicated, hduplicated, List.countP_cons, List.countP_append, hbrings]
    simp [Event.brings]
  · show next.tally.named = _
    rw [hlooks.named, hnamed, List.countP_cons, List.countP_append, hnames]
    simp [Event.names]

end

/-! ## Sums over stages -/

/-- What is added up stage by stage. -/
structure Adds (F : List Stage → Nat) : Prop where
  nil : F [] = 0
  cons : ∀ t stages, F (t :: stages) = F [t] + F stages

theorem adds_length : Adds List.length := ⟨rfl, fun _ stages => Nat.add_comm stages.length 1⟩

theorem adds_countP (f : Stage → Bool) : Adds fun stages => stages.countP f where
  nil := rfl
  cons := by
    intro t stages
    rw [← List.countP_append, List.singleton_append]

/-- What is added up event by event. -/
theorem adds_of_append {m : List Event → Nat} (hnil : m [] = 0)
    (happend : ∀ events more, m (events ++ more) = m events + m more) :
    Adds fun stages => m (stages.flatMap Stage.events) where
  nil := hnil
  cons := by
    intro t stages
    simp only [List.flatMap_cons, List.flatMap_nil, happend, hnil, Nat.add_zero]

theorem Adds.add {F G : List Stage → Nat} (hF : Adds F) (hG : Adds G) :
    Adds fun stages => F stages + G stages where
  nil := by simp only [hF.nil, hG.nil]
  cons := by
    intro t stages
    simp only [hF.cons t stages, hG.cons t stages]
    omega

namespace Search.Passes

variable {s : Search σ} {records : List Record} {p next : Progress} {stages : List Stage}

/-- A count that grows at each stage by what the stage adds grows by the whole. -/
theorem total (h : Passes s records p stages next) {F : List Stage → Nat} (hF : Adds F)
    (f : Progress → Nat) (hf : ∀ t ∈ stages, f t.after = f t.before + F [t]) :
    f next = f p + F stages := by
  induction h with
  | done p => rw [hF.nil, Nat.add_zero]
  | stopped _ _ => exact hf _ (List.mem_singleton_self _)
  | goesOn _ _ _ ih =>
    obtain ⟨hhead, hrest⟩ := List.forall_mem_cons.mp hf
    rw [ih hrest, hF.cons, ← Nat.add_assoc]
    exact congrArg (· + _) hhead

/-- What every stage keeps holds before each of them and at the end. -/
theorem invariant (h : Passes s records p stages next) (I : Progress → Prop) (hp : I p)
    (hI : ∀ t ∈ stages, I t.before → I t.after) : (∀ t ∈ stages, I t.before) ∧ I next := by
  induction h with
  | done p => exact ⟨by simp, hp⟩
  | stopped _ _ =>
    exact ⟨List.forall_mem_singleton.mpr hp, List.forall_mem_singleton.mp hI hp⟩
  | goesOn _ _ _ ih =>
    obtain ⟨hhead, hrest⟩ := List.forall_mem_cons.mp hI
    obtain ⟨hbefore, hnext⟩ := ih (hhead hp) hrest
    exact ⟨List.forall_mem_cons.mpr ⟨hp, hbefore⟩, hnext⟩

/-- A walk that was cancelled was cancelled at its last stage. -/
theorem last_of_cancelled (h : Passes s records p stages next) (hp : p.cancelled = false)
    (hc : next.cancelled = true) :
    ∃ front t, stages = front ++ [t] ∧ answersIn t.events = [true] ∧
      records[front.length]? = some t.record := by
  induction h with
  | done p => exact absurd (hp.symm.trans hc) (by simp)
  | @stopped r rest p next events hs hstop =>
    refine ⟨[], ⟨r, p, events, next⟩, rfl, ?_, rfl⟩
    have htakes : (⟨r, p, events, next⟩ : Stage).Takes s := hs
    obtain ⟨n, hn⟩ := (proceeds_of_steps hs).polls hp
    have hanswers := hn.answers
    rw [hc, if_pos rfl] at hanswers
    have hlength := htakes.length_answersIn
    have hle : (answersIn events).length ≤ 1 := by
      show (answersIn (Stage.events ⟨r, p, events, next⟩)).length ≤ 1
      rw [hlength]
      split <;> omega
    rw [hanswers, List.length_append, List.length_replicate, List.length_singleton] at hle
    obtain rfl : n = 0 := by omega
    exact hanswers
  | goesOn _ hgo _ ih =>
    obtain ⟨front, t, rfl, hanswers, hrecord⟩ := ih hgo hc
    exact ⟨_ :: front, t, rfl, hanswers, hrecord⟩

end Search.Passes

/-! ## Owners -/

namespace Stage

variable {s : Search σ} {t : Stage}

/-- What a stage adds to the counts of owners. -/
structure OwnerCounts (s : Search σ) (t : Stage) : Prop where
  opened : t.after.tally.opened = t.before.tally.opened +
    ((openingsIn t.events).countP (·.2.isSuccess) + [t].countP (turnsToOwn s))
  denied : t.after.tally.denied =
    t.before.tally.denied + (openingsIn t.events).countP (·.2 = .accessDenied)
  attempts : ¬ s.host.Lacks .openProcess → t.after.tally.attempts =
    t.before.tally.attempts + ((openingsIn t.events).length + [t].countP (turnsToOwn s))
  reached : t.after.tally.opened + t.after.tally.denied + t.before.tally.attempts ≤
    t.before.tally.opened + t.before.tally.denied + t.after.tally.attempts
  tried : t.after.tally.attempts ≤ t.before.tally.attempts + 1

/-- The counts of owners are those of a turn. -/
theorem Comes.ownerCounts {turn : Turn} {own : Nat} (h : t.Comes turn)
    (hown : [t].countP (turnsToOwn s) = own)
    (hopened : turn.opened = turn.openings.countP (·.2.isSuccess) + own)
    (hdenied : turn.denied = turn.openings.countP (·.2 = .accessDenied))
    (hattempts : ¬ s.host.Lacks .openProcess → turn.attempts = turn.openings.length + own)
    (hreached : turn.opened + turn.denied ≤ turn.attempts) (htried : turn.attempts ≤ 1) :
    t.OwnerCounts s where
  opened := by rw [h.opened, h.openings, hown, hopened]
  denied := by rw [h.denied, h.openings, hdenied]
  attempts := by
    intro hl
    rw [h.attempts, h.openings, hown, hattempts hl]
  reached := by
    rw [h.opened, h.denied, h.attempts]
    omega
  tried := by
    rw [h.attempts]
    omega

theorem countP_turnsToOwn_of_pid (hp : t.pid ≠ s.host.ownPid) :
    [t].countP (turnsToOwn s) = 0 := by simp [turnsToOwn, hp]

theorem countP_turnsToOwn_of_answers {answers : List Bool} (ha : answersIn t.events = answers)
    (hne : answers ≠ [false]) : [t].countP (turnsToOwn s) = 0 := by simp [turnsToOwn, ha, hne]

/-- The caller is never remembered as denied, and so is always at hand where the search turns to it
and goes on. -/
theorem Takes.ownerCounts (h : t.Takes s) (hl : t.before.denial.last ≠ some s.host.ownPid) :
    t.OwnerCounts s := by
  cases h.turning with
  | stays _ h =>
    exact h.ownerCounts (countP_turnsToOwn_of_answers h.answers (by simp)) rfl rfl (fun _ => rfl)
      (Nat.le_refl _) (Nat.zero_le _)
  | stops _ _ h =>
    exact h.ownerCounts (countP_turnsToOwn_of_answers h.answers (by simp)) rfl rfl (fun _ => rfl)
      (Nat.le_refl _) (Nat.zero_le _)
  | remembered _ hd h =>
    have hp : t.pid ≠ s.host.ownPid := by
      intro hp
      rw [hp] at hd
      exact hl (by simpa [Denial.covers] using hd)
    exact h.ownerCounts (countP_turnsToOwn_of_pid hp) rfl rfl (fun _ => rfl) (Nat.le_refl _)
      (Nat.zero_le _)
  | own _ _ hp h =>
    have hown : [t].countP (turnsToOwn s) = 1 := by simp [turnsToOwn, hp, h.answers]
    exact h.ownerCounts hown rfl rfl (fun _ => rfl) (Nat.le_refl _) (Nat.le_refl _)
  | opened _ status _ _ hp hs h =>
    have hdenied : status ≠ .accessDenied := by
      rintro rfl
      cases hs
    exact h.ownerCounts (countP_turnsToOwn_of_pid hp) (by simp [hs]) (by simp [hdenied])
      (fun _ => rfl) (Nat.le_refl _) (Nat.le_refl _)
  | refused status _ _ hp hs h =>
    refine h.ownerCounts (countP_turnsToOwn_of_pid hp) (by simp [hs]) ?_ (fun _ => rfl) ?_
      (Nat.le_refl _)
    · by_cases hd : status = .accessDenied
      · simp [hd]
      · simp [hd]
    · dsimp only
      split <;> omega
  | missing _ _ hp hm h =>
    exact h.ownerCounts (countP_turnsToOwn_of_pid hp) rfl rfl (fun hn => absurd hm hn)
      (Nat.zero_le _) (Nat.le_refl _)

theorem Takes.own_not_denied (h : t.Takes s) (hl : t.before.denial.last ≠ some s.host.ownPid) :
    t.after.denial.last ≠ some s.host.ownPid := by
  by_cases hp : t.pid = s.host.ownPid
  · cases h.turning with
    | refused _ _ _ hne _ _ => exact absurd hp hne
    | stays _ h => rwa [h.denial]
    | stops _ _ h => rwa [h.denial]
    | remembered _ _ h => rwa [h.denial]
    | own _ _ _ h => rwa [h.denial]
    | opened _ _ _ _ _ _ h => rwa [h.denial]
    | missing _ _ _ _ h => rwa [h.denial]
  · exact h.last_ne (.inl hp) hl

end Stage

/-! ### The caller's runs -/

/-- The runs of the caller at which the search went on. -/
def ownRuns (s : Search σ) (stages : List Stage) : Nat :=
  (runsOf stages).countP fun run => run.any (Stage.turnsToOwn s)

section

variable {s : Search σ}

/-- In a whole run the search asks once, so it turns to the caller at most once. -/
theorem Whole.countP_turnsToOwn {run : List Stage} (h : Whole s run) :
    run.countP (Stage.turnsToOwn s) = if run.any (Stage.turnsToOwn s) then 1 else 0 := by
  cases h with
  | @intro head tail _ hs ht =>
    have htail : ∀ t ∈ tail, Stage.turnsToOwn s t = false := by
      intro t hmem
      have hanswers := ((hs t (List.mem_cons_of_mem _ hmem)).comes_of_begins
        (ht t hmem).begins).answers
      simp [Stage.turnsToOwn, hanswers]
    have hcount : tail.countP (Stage.turnsToOwn s) = 0 :=
      List.countP_eq_zero.mpr fun t hmem => by simp [htail t hmem]
    have hany : tail.any (Stage.turnsToOwn s) = false :=
      List.any_eq_false.mpr fun t hmem => by simp [htail t hmem]
    rw [List.countP_cons, List.any_cons, hcount, hany, Bool.or_false, Nat.zero_add]

theorem countP_turnsToOwn_flatten {runs : List (List Stage)} (h : ∀ run ∈ runs, Whole s run) :
    runs.flatten.countP (Stage.turnsToOwn s) =
      runs.countP fun run => run.any (Stage.turnsToOwn s) := by
  induction runs with
  | nil => rfl
  | cons run runs ih =>
    obtain ⟨hrun, hruns⟩ := List.forall_mem_cons.mp h
    rw [List.flatten_cons, List.countP_append, hrun.countP_turnsToOwn, ih hruns, List.countP_cons,
      Nat.add_comm]

theorem ownRuns_eq {stages : List Stage} (h : ∀ run ∈ runsOf stages, Whole s run) :
    stages.countP (Stage.turnsToOwn s) = ownRuns s stages := by
  rw [ownRuns, ← countP_turnsToOwn_flatten h, runsOf, List.flatten_splitBy]

end

/-! ## Names -/

/-- Every name that was read comes right after a query about its handle that succeeded. -/
def Answered (events : List Event) : Prop :=
  ∀ handle units, .named handle units ∈ events → ∃ before size status rest,
    events = before ++ .object handle Name.infoClass size status :: .named handle units :: rest ∧
      status.isSuccess = true

section

variable {s : Search σ} {p next : Progress} {events more : List Event}

theorem Answered.append (h : Answered events) (hm : Answered more) : Answered (events ++ more) := by
  intro handle units hmem
  rcases List.mem_append.mp hmem with hmem | hmem
  · obtain ⟨before, size, status, rest, rfl, hs⟩ := h handle units hmem
    exact ⟨before, size, status, rest ++ more, by simp, hs⟩
  · obtain ⟨before, size, status, rest, rfl, hs⟩ := hm handle units hmem
    exact ⟨events ++ before, size, status, rest, by simp, hs⟩

theorem answered_of_uncounted (h : Uncounted events) : Answered events := by
  intro handle units hmem
  cases h _ hmem

theorem answered_of_plain (h : Plain events) : Answered events := by
  intro handle units hmem
  exact absurd hmem (h.not_named handle units)

theorem answered_of_asks {host : Host σ} {handle : HandleId} {answer : Except Fault Name}
    (h : Name.Asks host handle events answer) : Answered events := by
  cases h with
  | @read asking size status name _ hs hc =>
    refine (answered_of_uncounted (uncounted_of_concerns hc)).append ?_
    intro handle' units hmem
    obtain ⟨rfl, rfl⟩ : handle' = handle ∧ units = name.units := by simpa using hmem
    exact ⟨[], size, status, [], rfl, hs⟩
  | failed _ _ hc => exact answered_of_uncounted (uncounted_of_concerns hc)
  | missing _ => exact answered_of_uncounted uncounted_nil

theorem answered_of_examines {process handle : Held} {r : Record}
    (h : Search.Examines s process handle r p events next) : Answered events := by
  have hdisk : Answered [.classified handle.id .disk] :=
    answered_of_uncounted (uncounted_nil.cons rfl)
  cases h with
  | passed _ _ => exact answered_of_uncounted (uncounted_nil.cons rfl)
  | unnamed ha => exact hdisk.append (answered_of_asks ha)
  | uncovered ha _ => exact hdisk.append (answered_of_asks ha)
  | covered ha _ hr =>
    exact hdisk.append
      ((answered_of_asks ha).append (answered_of_uncounted (uncounted_of_reports hr)))

theorem answered_of_attends {r : Record} (h : Search.Attends s r p events next) :
    Answered events := by
  cases h with
  | unreached _ => exact answered_of_uncounted uncounted_nil
  | ignored _ _ => exact answered_of_uncounted uncounted_nil
  | inspected _ _ hi =>
    cases hi with
    | failed hd => exact answered_of_uncounted (uncounted_of_duplicates hd)
    | examined hd he hr =>
      exact (answered_of_plain (hosted_of_duplicates hd).plain).append
        ((answered_of_examines he).append (answered_of_uncounted (uncounted_of_releases hr)))

theorem Stage.Takes.answered {t : Stage} (h : t.Takes s) : Answered t.events := by
  obtain ⟨turning, attending, turned, he, ht, hlook⟩ := h.parts
  have hturning : Answered (.record t.record.pid t.record.handleValue t.record.grantedAccess ::
      turning) := by
    intro handle units hmem
    rcases List.mem_cons.mp hmem with hmem | hmem
    · cases hmem
    · exact absurd hmem ((plain_of_turns ht).not_named handle units)
  rw [he, ← List.cons_append]
  rcases hlook with ha | ⟨rfl, -⟩
  · exact hturning.append (answered_of_attends ha)
  · exact hturning.append (answered_of_uncounted uncounted_nil)

end

/-! ## The whole search -/

/-- The counts are in proportion. -/
structure Balanced (p : Progress) : Prop where
  reached : p.tally.opened + p.tally.denied ≤ p.tally.attempts
  tried : p.tally.attempts ≤ p.tally.records
  found : p.holders.size ≤ p.tally.named
  resolved : p.tally.named ≤ p.tally.records

theorem Stage.Takes.balanced {s : Search σ} {t : Stage} (h : t.Takes s)
    (hl : t.before.denial.last ≠ some s.host.ownPid) (hb : Balanced t.before) :
    Balanced t.after := by
  obtain ⟨hreached, htried, hfound, hresolved⟩ := hb
  have howner := h.ownerCounts hl
  have hcounts := h.counts
  constructor
  · have hle := howner.reached
    omega
  · have hone := howner.tried
    have hrecords := hcounts.records
    omega
  · have hholders := hcounts.holders
    omega
  · have hone := hcounts.namedOnce
    have hrecords := hcounts.records
    omega

/-- The tally of a search counts what happened. -/
structure TallyCountsEvents (s : Search σ) (x : Session σ) (stages : List Stage)
    (events : List Event) (o : Outcome) : Prop where
  /-- The records that were reached: all of them, or up to the one at which the search was
  cancelled. -/
  records : o.tally.records = stages.length
  complete : (s.start? x).isSome = true → o.cancelled = false →
    o.tally.records = (s.snapshot x).length
  cancelled : o.cancelled = true → ∃ front t, stages = front ++ [t] ∧
    answersIn t.events = [true] ∧ (s.snapshot x)[front.length]? = some t.record ∧
      o.tally.records = front.length + 1
  duplicated : o.tally.duplicated = events.countP Event.brings
  denied : o.tally.denied = (openingsIn events).countP (·.2 = .accessDenied)
  opened : o.tally.opened = (openingsIn events).countP (·.2.isSuccess) + ownRuns s stages
  attempts : ¬ s.host.Lacks .openProcess →
    o.tally.attempts = (openingsIn events).length + ownRuns s stages
  /-- The records at which a name was read, which was the answer of a query that succeeded. -/
  named : o.tally.named = stages.countP Stage.resolves
  answered : ∀ t ∈ stages, Answered t.events
  /-- What the journal has as the name of a record is what was read out of the last buffer. -/
  noted : stages.map (fun t => namesIn t.events) = (s.namesOf x).map Option.toList
  read : o.tally.named = (s.namesOf x).countP Option.isSome
  reached : o.tally.opened + o.tally.denied ≤ o.tally.attempts
  tried : o.tally.attempts ≤ o.tally.records
  found : o.holders.length ≤ o.tally.named
  resolved : o.tally.named ≤ o.tally.records
  /-- Where the search does not come to the records, nothing is counted. -/
  idle : s.start? x = none → o.tally = {}

/-- At most one name is read at a record. -/
theorem Stage.Counts.countP_resolves {t : Stage} (h : t.Counts) :
    [t].countP Stage.resolves = t.events.countP Event.names := by
  have hle : t.events.countP Event.names ≤ 1 := by
    have hone := h.namedOnce
    rw [h.named] at hone
    omega
  rw [List.countP_singleton, Stage.resolves]
  split
  · rename_i hany
    have hpos := List.countP_pos_iff.mpr (List.any_eq_true.mp hany)
    omega
  · rename_i hany
    rw [Bool.not_eq_true, List.any_eq_false] at hany
    exact (List.countP_eq_zero.mpr hany).symm

theorem Stage.resolves_eq (t : Stage) : t.resolves = !(namesIn t.events).isEmpty := by
  rw [Bool.eq_iff_iff, resolves, List.any_eq_true, Bool.not_eq_true', List.isEmpty_eq_false_iff]
  constructor
  · rintro ⟨e, he, hn⟩
    cases e <;> cases hn
    exact List.ne_nil_of_mem (mem_namesIn.mpr he)
  · intro hne
    obtain ⟨⟨handle, name⟩, hmem⟩ := List.exists_mem_of_ne_nil _ hne
    exact ⟨_, mem_namesIn.mp hmem, rfl⟩

/-- Where the journal has at each record the name that was read, they are as many. -/
theorem countP_resolves_eq {stages : List Stage} {named : List (Option (HandleId × Name))}
    (h : stages.map (fun t => namesIn t.events) = named.map Option.toList) :
    stages.countP Stage.resolves = named.countP Option.isSome := by
  have hsome : (fun names : List (HandleId × Name) => !names.isEmpty) ∘ Option.toList =
      Option.isSome := by
    funext o
    cases o <;> rfl
  have hresolves : (fun names : List (HandleId × Name) => !names.isEmpty) ∘
      (fun t : Stage => namesIn t.events) = Stage.resolves := by
    funext t
    exact t.resolves_eq.symm
  rw [← hresolves, ← List.countP_map, h, List.countP_map, hsome]

namespace Search

/-- The counts after the stages of a search. -/
theorem Passes.tallies {s : Search σ} {records : List Record} {stages : List Stage}
    {next : Progress} (h : Passes s records {} stages next) :
    next.tally.records = stages.length ∧
      next.tally.duplicated = (stages.flatMap Stage.events).countP Event.brings ∧
      next.tally.denied =
        (openingsIn (stages.flatMap Stage.events)).countP (·.2 = .accessDenied) ∧
      next.tally.opened = (openingsIn (stages.flatMap Stage.events)).countP (·.2.isSuccess) +
        ownRuns s stages ∧
      (¬ s.host.Lacks .openProcess → next.tally.attempts =
        (openingsIn (stages.flatMap Stage.events)).length + ownRuns s stages) ∧
      next.tally.named = stages.countP Stage.resolves ∧ Balanced next := by
  have hcounts : ∀ t ∈ stages, t.Counts := fun t ht => (h.takes t ht).counts
  obtain ⟨hdenial, -⟩ := h.invariant (fun p => p.denial.last ≠ some s.host.ownPid) (by simp)
    fun t ht => (h.takes t ht).own_not_denied
  have howner : ∀ t ∈ stages, t.OwnerCounts s := fun t ht =>
    (h.takes t ht).ownerCounts (hdenial t ht)
  obtain ⟨-, hbalanced⟩ := h.invariant Balanced ⟨by simp, by simp, by simp, by simp⟩
    fun t ht => (h.takes t ht).balanced (hdenial t ht)
  have hopenings : ∀ (m : List (UInt64 × Status) → Nat), m [] = 0 →
      (∀ l l', m (l ++ l') = m l + m l') →
      Adds fun stages => m (openingsIn (stages.flatMap Stage.events)) := by
    intro m hnil happend
    refine adds_of_append (m := fun events => m (openingsIn events)) hnil fun events more => ?_
    rw [openingsIn_append, happend]
  have hown : stages.countP (Stage.turnsToOwn s) = ownRuns s stages :=
    ownRuns_eq (whole_of_passes h rfl)
  refine ⟨?_, ?_, ?_, ?_, ?_, ?_, hbalanced⟩
  · rw [h.total adds_length (·.tally.records) fun t ht => (hcounts t ht).records]
    exact Nat.zero_add _
  · rw [h.total (adds_of_append (m := (·.countP Event.brings)) rfl fun _ _ => List.countP_append)
      (·.tally.duplicated) fun t ht => by simpa using (hcounts t ht).duplicated]
    exact Nat.zero_add _
  · rw [h.total (hopenings (·.countP (·.2 = .accessDenied)) rfl fun _ _ => List.countP_append)
      (·.tally.denied) fun t ht => by simpa using (howner t ht).denied]
    exact Nat.zero_add _
  · rw [← hown, h.total ((hopenings (·.countP (·.2.isSuccess)) rfl fun _ _ =>
      List.countP_append).add (adds_countP (Stage.turnsToOwn s)))
      (·.tally.opened) fun t ht => by simpa using (howner t ht).opened]
    exact Nat.zero_add _
  · intro hl
    rw [← hown, h.total ((hopenings List.length rfl fun _ _ => List.length_append).add
      (adds_countP (Stage.turnsToOwn s)))
      (·.tally.attempts) fun t ht => by simpa using (howner t ht).attempts hl]
    exact Nat.zero_add _
  · rw [h.total (adds_countP Stage.resolves) (·.tally.named) fun t ht => by
      rw [(hcounts t ht).countP_resolves]
      exact (hcounts t ht).named]
    exact Nat.zero_add _

/-- Whatever the records, the host and the source of cancellation, the tally counts what
happened. -/
theorem tally_counts_events (s : Search σ) (x : Session σ) :
    TallyCountsEvents s x (s.stagesOf x) (eventsOf s.run x) (s.run.run x).1 := by
  obtain ⟨_, ⟨he, hf, hc, hp, ho⟩, hout⟩ := (s.emits_run_staged x).eventsOf
  rename_i front closing last
  replace hp : Passes s (recordsFrom (s.start? x)) {} (s.stagesOf x) last := hp
  replace he : eventsOf s.run x =
      front ++ ((s.stagesOf x).flatMap Stage.events ++ closing) := he
  obtain ⟨hrecords, hduplicated, hdenied, hopened, hattempts, hnamed, hbalanced⟩ := hp.tallies
  have hopenings : openingsIn (eventsOf s.run x) =
      openingsIn ((s.stagesOf x).flatMap Stage.events) := by
    rw [he, openingsIn_append, openingsIn_append, openingsIn_of_outer hf, openingsIn_of_outer hc,
      List.nil_append, List.append_nil]
  have hbrings : (eventsOf s.run x).countP Event.brings =
      ((s.stagesOf x).flatMap Stage.events).countP Event.brings := by
    have hcounted : ∀ e : Event, e.brings = true → e.isCounted = true := fun e hb => by
      simp [Event.isCounted, hb]
    rw [he, List.countP_append, List.countP_append,
      (uncounted_of_outer hf).countP_eq_zero hcounted,
      (uncounted_of_outer hc).countP_eq_zero hcounted, Nat.zero_add, Nat.add_zero]
  rw [hout, ho]
  refine
    { records := hrecords, complete := ?_, cancelled := ?_
      duplicated := hduplicated.trans hbrings.symm
      denied := by rw [hopenings]; exact hdenied
      opened := by rw [hopenings]; exact hopened
      attempts := by rw [hopenings]; exact hattempts
      named := hnamed
      noted := s.namesIn_stagesOf x
      read := hnamed.trans (countP_resolves_eq (s.namesIn_stagesOf x))
      answered := fun t ht => (hp.takes t ht).answered
      reached := hbalanced.reached, tried := hbalanced.tried
      found := hbalanced.found, resolved := hbalanced.resolved, idle := ?_ }
  · intro hstart hcancelled
    rw [← s.recordsFrom_start? x hstart, ← hp.records_eq hcancelled, List.length_map]
    exact hrecords
  · intro hcancelled
    obtain ⟨stages, t, hstages, hanswers, hrecord⟩ := hp.last_of_cancelled rfl hcancelled
    have hstart : (s.start? x).isSome = true := by
      cases hnone : s.start? x with
      | none => simp [stagesOf, hnone, stagesFrom] at hstages
      | some _ => rfl
    rw [s.recordsFrom_start? x hstart] at hrecord
    refine ⟨stages, t, hstages, hanswers, hrecord, ?_⟩
    show last.tally.records = _
    rw [hrecords, hstages, List.length_append]
    rfl
  · intro hnone
    simp only [stagesOf, hnone, recordsFrom, stagesFrom] at hp
    cases hp with
    | done _ => rfl

end Search

end FileHolders
