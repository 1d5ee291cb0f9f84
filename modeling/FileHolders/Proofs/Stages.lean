import FileHolders.Proofs.Accounting
import FileHolders.Proofs.Evidence

/-!
# The stages of a search

A search is looked at record by record.  A stage is a record that the walk reached, with what the
search knew before and after it and the events in between; `Search.stages` has them from the
program's own `step`, the first one first.  Each stage leads to the next: what was known after the
one is known before the other, and the search was not cancelled in between.

    Emits (s.walk rs b p) x fun es a => es = (s.stages rs b p x).flatMap Stage.events ∧
      Passes s rs p (s.stages rs b p x) a.2                                       (emits_walk_stages)
    Passes s rs p stages q → stages.IsChain Stage.Leads                              (Passes.isChain)
    Emits s.run x fun es o => Staged s x es o                                      (emits_run_staged)

Before and after its stages a search only deals with the heap and the table, lets go of the last
process and sends lines.  Where it does not come to the records, `Search.start?` is `none`, there are
no stages, and the outcome is that of a search that did nothing.
-/

namespace FileHolders

open FileHolders.Action

variable {σ : Type}

/-! ## Stages -/

/-- A record that a walk reached: what the search knew before and after it, and the events in
between. -/
structure Stage where
  record : Record
  before : Progress
  events : List Event
  after : Progress

namespace Stage

/-- The process of the record. -/
def pid (t : Stage) : UInt64 := t.record.pid

/-- Whether the record is the first of a run, as the search sees it. -/
def begins (t : Stage) : Bool := t.before.owner.startsRun t.pid

/-- A stage is what taking its record does. -/
def Takes (s : Search σ) (t : Stage) : Prop := Search.Steps s t.record t.before t.events t.after

/-- The search goes on from one stage to the next. -/
structure Leads (t next : Stage) : Prop where
  goesOn : t.after.cancelled = false
  before : next.before = t.after

end Stage

namespace Search

/-- The stages of a walk: the records are taken with the program's own `step`, up to one at which the
search is cancelled. -/
def stages (s : Search σ) : List Record → Block → Progress → Session σ → List Stage
  | [], _, _, _ => []
  | r :: rest, buffer, p, x =>
    let taken := (s.step r buffer p).run x
    ⟨r, p, eventsOf (s.step r buffer p) x, taken.1.2⟩ ::
      if taken.1.2.cancelled then [] else stages s rest taken.1.1 taken.1.2 taken.2

/-- Going through the records by these stages. -/
inductive Passes (s : Search σ) : List Record → Progress → List Stage → Progress → Prop
  | done (p : Progress) : Passes s [] p [] p
  | stopped {r : Record} {rest : List Record} {p next : Progress} {events : List Event}
      (h : Steps s r p events next) (hc : next.cancelled = true) :
      Passes s (r :: rest) p [⟨r, p, events, next⟩] next
  | goesOn {r : Record} {rest : List Record} {p mid next : Progress} {events : List Event}
      {stages : List Stage} (h : Steps s r p events mid) (hc : mid.cancelled = false)
      (hw : Passes s rest mid stages next) :
      Passes s (r :: rest) p (⟨r, p, events, mid⟩ :: stages) next

/-- A walk goes by its stages, and has no other events. -/
theorem emits_walk_stages (s : Search σ) (records : List Record) (buffer : Block) (p : Progress)
    (x : Session σ) :
    Emits (s.walk records buffer p) x fun events a =>
      events = (s.stages records buffer p x).flatMap Stage.events ∧
        Passes s records p (s.stages records buffer p x) a.2 := by
  induction records generalizing buffer p x with
  | nil => exact emits_pure ⟨rfl, .done p⟩
  | cons r rest ih =>
    have hstep := s.emits_step r buffer p x
    have htold : Emits (s.step r buffer p) x fun events a =>
        events = eventsOf (s.step r buffer p) x ∧ Steps s r p events a.2 :=
      ⟨_, hstep.journal, rfl, hstep.eventsOf⟩
    unfold walk stages
    refine htold.bind ?_
    rintro events ⟨last, mid⟩ t hrun ⟨rfl, hs⟩
    dsimp only
    rw [hrun]
    split
    · rename_i hc
      exact emits_pure ⟨by simp, .stopped hs hc⟩
    · rename_i hc
      rw [Bool.not_eq_true] at hc
      refine (ih last mid t).mono ?_
      rintro more a ⟨rfl, hp⟩
      exact ⟨by simp, .goesOn hs hc hp⟩

section

variable {s : Search σ} {records : List Record} {p next : Progress} {stages : List Stage}

namespace Passes

theorem takes (h : Passes s records p stages next) : ∀ t ∈ stages, t.Takes s := by
  induction h with
  | done _ => simp
  | stopped hs _ => exact List.forall_mem_singleton.mpr hs
  | goesOn hs _ _ ih => exact List.forall_mem_cons.mpr ⟨hs, ih⟩

/-- The first stage begins with what was known before the walk. -/
theorem head (h : Passes s records p stages next) : ∀ t ∈ stages.head?, t.before = p := by
  cases h with
  | done _ => simp
  | stopped _ _ => simp
  | goesOn _ _ _ => simp

/-- Each stage leads to the next. -/
theorem isChain (h : Passes s records p stages next) : stages.IsChain Stage.Leads := by
  induction h with
  | done _ => exact List.isChain_nil
  | stopped _ _ => exact List.isChain_singleton _
  | goesOn _ hc hw ih => exact List.isChain_cons.mpr ⟨fun u hu => ⟨hc, hw.head u hu⟩, ih⟩

/-- The stages are of the records in their order, and of all if the search is not cancelled. -/
theorem records_isPrefix (h : Passes s records p stages next) :
    stages.map Stage.record <+: records := by
  induction h with
  | done _ => exact List.prefix_rfl
  | stopped _ _ => exact List.cons_prefix_cons.mpr ⟨rfl, List.nil_prefix⟩
  | goesOn _ _ _ ih => exact List.cons_prefix_cons.mpr ⟨rfl, ih⟩

theorem records_eq (h : Passes s records p stages next) (hc : next.cancelled = false) :
    stages.map Stage.record = records := by
  induction h with
  | done _ => rfl
  | stopped _ hc' => exact absurd (hc.symm.trans hc') (by simp)
  | goesOn _ _ _ ih => exact congrArg (List.cons _) (ih hc)

/-- What is known after the last stage is known after the walk. -/
theorem last (h : Passes s records p stages next) : ∀ t ∈ stages.getLast?, t.after = next := by
  induction h with
  | done _ => simp
  | stopped _ _ => simp
  | @goesOn r rest p mid next events stages _ _ hw ih =>
    cases stages with
    | nil => cases hw with
      | done _ => simp
    | cons u stages => exact ih

end Passes

end

/-! ## Where the records begin -/

/-- The table and the name buffer, and the session in which the search then turns to the records, if
a name buffer is granted. -/
def takes? (s : Search σ) (table : Table) (x : Session σ) : Option (Table × Block × Session σ) :=
  match (Arena.allocate s.host.heap s.settings.nameBufferInitial).run x with
  | (none, _) => none
  | (some ⟨buffer, _⟩, t) => some (table, buffer, t)

/-- The same from where the table is read, if it can be. -/
def reads? (s : Search σ) (x : Session σ) : Option (Table × Block × Session σ) :=
  match (Table.read s.host s.settings).run x with
  | (.error _, _) => none
  | (.ok table, t) => s.takes? table t

/-- Where a search turns to the records: the table, the name buffer and the session then.  It does
not come so far without a target, an arena, a table and a name buffer. -/
def start? (s : Search σ) (x : Session σ) : Option (Table × Block × Session σ) :=
  if s.text.isEmpty then none
  else
    match (Arena.create s.host.heap s.settings.arenaLimit).run
        ((info s.openingMessage).run x).2 with
    | (.error _, _) => none
    | (.ok (), t) => s.reads? t

/-- The stages from where the search turns to the records. -/
def stagesFrom (s : Search σ) : Option (Table × Block × Session σ) → List Stage
  | none => []
  | some (table, buffer, x) => s.stages table.records buffer {} x

/-- The records that a search turns to unless it is cancelled. -/
def recordsFrom : Option (Table × Block × Session σ) → List Record
  | none => []
  | some (table, _, _) => table.records

/-- The stages of a run. -/
def stagesOf (s : Search σ) (x : Session σ) : List Stage := s.stagesFrom (s.start? x)

/-- A search that comes so far turns to the records of the table that it reads. -/
theorem recordsFrom_start? (s : Search σ) (x : Session σ) (h : (s.start? x).isSome = true) :
    recordsFrom (s.start? x) = s.snapshot x := by
  unfold start? at h ⊢
  unfold snapshot
  cases ht : s.text.isEmpty with
  | true => simp [ht] at h
  | false =>
    simp only [ht, Bool.false_eq_true, if_false] at h ⊢
    rcases hcreate : (Arena.create s.host.heap s.settings.arenaLimit).run
      ((info s.openingMessage).run x).2 with ⟨fault | _, t⟩
    · simp [hcreate] at h
    · simp only [hcreate, reads?] at h ⊢
      rcases hread : (Table.read s.host s.settings).run t with ⟨fault | table, u⟩
      · simp [hread] at h
      · simp only [hread, takes?] at h ⊢
        rcases hbuffer : (Arena.allocate s.host.heap s.settings.nameBufferInitial).run u with
          ⟨_ | buffer, v⟩
        · simp [hbuffer] at h
        · rfl

theorem recordsFrom_isPrefix (s : Search σ) (x : Session σ) :
    recordsFrom (s.start? x) <+: s.snapshot x := by
  cases hstart : s.start? x with
  | none => exact List.nil_prefix
  | some start =>
    have heq : recordsFrom (some start) = s.snapshot x := by
      rw [← hstart, s.recordsFrom_start? x (by simp [hstart])]
    exact heq ▸ List.prefix_rfl

/-! ## The whole -/

/-- A part of a search by its stages: outer events, the stages from where it turns to the records,
and outer events again.  What counts for the outcome is known after the stages. -/
inductive Goes (s : Search σ) (start : Option (Table × Block × Session σ)) (events : List Event)
    (next : Progress) : Prop
  | intro {front closing : List Event} {last : Progress}
      (he : events = front ++ ((s.stagesFrom start).flatMap Stage.events ++ closing))
      (hf : Outer front) (hc : Outer closing)
      (hp : Passes s (recordsFrom start) {} (s.stagesFrom start) last)
      (ho : next.outcome = last.outcome)

section

variable {s : Search σ} {start : Option (Table × Block × Session σ)} {events : List Event}
  {p next : Progress}

theorem outer_nil : Outer [] := by simp [Outer]

/-- A part that does not come to the records. -/
theorem goes_of_outer (h : Outer events) (ho : next.outcome = ({} : Progress).outcome) :
    Goes s none events next :=
  .intro (by simp [stagesFrom]) h outer_nil (.done {}) ho

theorem Goes.surround {front closing : List Event} {last : Progress}
    (h : Goes s start events next) (hf : Outer front) (hc : Outer closing)
    (ho : last.outcome = next.outcome) : Goes s start (front ++ (events ++ closing)) last := by
  obtain ⟨rfl, hf', hc', hp, ho'⟩ := h
  exact .intro (by simp only [List.append_assoc]) (hf.append hf') (hc'.append hc) hp
    (ho.trans ho')

theorem Sends.outcome {text : String} (h : Sends p text events next) :
    next.outcome = p.outcome := by
  cases h with
  | repeated _ => rfl
  | sent _ => rfl

end

variable (s : Search σ)

theorem emits_goThrough_staged (table : Table) (x : Session σ) :
    Emits (s.goThrough table {}) x fun events next => Goes s (s.takes? table x) events next := by
  refine emits_goThrough_around ?_ ?_
  · intro taking lines next t hrun ht hs
    rw [takes?, hrun]
    exact goes_of_outer ((outer_of_isHeap ht).append (outer_of_sends hs)) hs.outcome
  · rintro taking ⟨buffer, hsize⟩ t hrun ht
    rw [takes?, hrun]
    refine (s.emits_walk_stages table.records buffer {} t).mono ?_
    rintro walking a ⟨rfl, hp⟩ closing giving hl hg
    exact .intro rfl (outer_of_isHeap ht) ((outer_of_letsGo hl).append (outer_of_isHeap hg)) hp rfl

theorem emits_survey_staged (x : Session σ) :
    Emits (s.survey {}) x fun events next => Goes s (s.reads? x) events next := by
  refine emits_survey_around (Table.emits_read s.host s.settings x) ?_ ?_
  · intro reading lines fault next t hrun hr hs
    rw [reads?, hrun]
    exact goes_of_outer ((outer_of_reading hr).append (outer_of_sends hs)) hs.outcome
  · intro reading table t hrun hr
    rw [reads?, hrun]
    refine (s.emits_goThrough_staged table t).mono ?_
    intro going next hg giving hf
    exact hg.surround (outer_of_reading hr) (outer_of_isHeap hf) rfl

theorem emits_surveyInArena_staged (x : Session σ) (ht : s.text.isEmpty = false) :
    Emits (s.surveyInArena {}) ((info s.openingMessage).run x).2 fun events next =>
      Goes s (s.start? x) events next := by
  refine emits_surveyInArena_around ?_ ?_
  · intro creating lines fault next t hrun hc hs
    rw [start?, ht, hrun]
    exact goes_of_outer ((outer_of_isHeap hc).append (outer_of_sends hs)) hs.outcome
  · intro creating t hrun hc
    rw [start?, ht, hrun]
    refine (s.emits_survey_staged t).mono ?_
    intro surveying next hs giving hg
    exact hs.surround (outer_of_isHeap hc) (outer_of_isHeap hg) rfl

/-- A run goes by its stages. -/
theorem emits_run_staged (x : Session σ) :
    Emits s.run x fun events o => ∃ p, Goes s (s.start? x) events p ∧ o = p.outcome := by
  refine emits_run_around ?_ (s.emits_surveyInArena_staged x) ?_
  · intro ht
    have hnone : s.start? x = none := by simp [start?, ht]
    rw [hnone]
    exact goes_of_outer outer_nil rfl
  · intro surveying closing p next hg hs
    refine ⟨p, ?_, rfl⟩
    have hgoes := hg.surround outer_nil (outer_of_sends hs) (rfl : p.outcome = p.outcome)
    rw [List.nil_append] at hgoes
    exact hgoes

end Search

end FileHolders
