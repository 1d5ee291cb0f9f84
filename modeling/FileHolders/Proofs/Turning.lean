import FileHolders.Proofs.Denials
import FileHolders.Proofs.Stages

/-!
# What taking a record comes to

There are seven ways in which a search deals with the owner of a record: it stays with the process at
hand; it asks whether it is cancelled and stops; or it goes on to a new process, which it remembers
as denied, knows as the caller, opens, fails to open or cannot try to open.  `Stage.Turning` says for
each what the journal then holds, what is counted and which process is at hand.

Looking at the handle of a record comes after that.  It never asks or opens anything; it counts the
handles that were brought into the caller and the names that were read (`Looks`).

    t.Takes s → t.Turning s                                                        (Takes.turning)
    s.Attends r p es next → Looks p next es                                     (looks_of_attends)
    t.Takes s → t.after.owner.process? = none → ∀ e ∈ t.events, e.inspects = false
                                                                       (Takes.inspects_eq_false)
-/

namespace FileHolders

open FileHolders.Action

variable {σ : Type}

/-! ## What is counted -/

/-- The process that an event asks to open, and the answer. -/
def Event.opening? : Event → Option (UInt64 × Status)
  | .opened pid _ status _ => some (pid, status)
  | _ => none

/-- The processes that the search asks to open, with the answers, in order. -/
def openingsIn (events : List Event) : List (UInt64 × Status) := events.filterMap Event.opening?

/-- Whether an event brings a handle into the caller. -/
def Event.brings : Event → Bool
  | .duplicated _ _ status _ => status.isSuccess
  | _ => false

/-- Whether an event says that a name was read. -/
def Event.names : Event → Bool
  | .named _ _ => true
  | _ => false

/-- Whether an event is a call about a handle of a record or about its process: to duplicate, to
classify, for the name or for the program. -/
def Event.inspects : Event → Bool
  | .duplicated _ _ _ _ | .classified _ _ | .object _ _ _ _ | .image _ _ => true
  | _ => false

/-- Whether an event is an answer to the search, an opening, a handle or a name. -/
def Event.isCounted (e : Event) : Bool :=
  e.poll?.isSome || e.opening?.isSome || e.brings || e.names

/-- Events of which nothing is counted. -/
def Uncounted (events : List Event) : Prop := ∀ e ∈ events, e.isCounted = false

section

variable {events more : List Event}

theorem openingsIn_append (events more : List Event) :
    openingsIn (events ++ more) = openingsIn events ++ openingsIn more := List.filterMap_append

theorem openingsIn_cons {e : Event} (h : e.opening? = none) (events : List Event) :
    openingsIn (e :: events) = openingsIn events := List.filterMap_cons_none h

theorem openingsIn_of_outer (h : Outer events) : openingsIn events = [] := by
  apply List.filterMap_eq_nil_iff.mpr
  intro e he
  have houter := h e he
  cases e <;> simp_all [Event.isOuter, Event.isHeap, Event.isTable, Event.opening?]

theorem answersIn_of_outer (h : Outer events) : answersIn events = [] := by
  apply List.filterMap_eq_nil_iff.mpr
  intro e he
  have houter := h e he
  cases e <;> simp_all [Event.isOuter, Event.isHeap, Event.isTable, Event.poll?]

theorem uncounted_nil : Uncounted [] := by simp [Uncounted]

theorem Uncounted.append (h : Uncounted events) (hm : Uncounted more) :
    Uncounted (events ++ more) := List.forall_mem_append.mpr ⟨h, hm⟩

theorem Uncounted.cons {e : Event} (he : e.isCounted = false) (h : Uncounted events) :
    Uncounted (e :: events) := List.forall_mem_cons.mpr ⟨he, h⟩

theorem uncounted_of_outer (h : Outer events) : Uncounted events := by
  intro e he
  have houter := h e he
  cases e <;> first | rfl | cases houter

theorem uncounted_of_lines (h : Lines events) : Uncounted events := by
  intro e he
  obtain ⟨text, rfl⟩ := h e he
  rfl

theorem uncounted_of_concerns {handle : HandleId} (h : ∀ e ∈ events, Name.Concerns handle e) :
    Uncounted events := by
  intro e he
  rcases h e he with hheap | ⟨size, status, rfl⟩
  · cases e <;> first | rfl | cases hheap
  · rfl

theorem uncounted_of_releases {h : Held} (hr : h.Releases events) : Uncounted events := by
  cases hr with
  | closed _ _ => exact uncounted_nil.cons rfl
  | borrowed _ => exact uncounted_nil

/-- What only occurs among counted events does not occur. -/
theorem Uncounted.countP_eq_zero (h : Uncounted events) {f : Event → Bool}
    (hf : ∀ e, f e = true → e.isCounted = true) : events.countP f = 0 := by
  rw [List.countP_eq_zero]
  intro e he hfe
  have hcounted := hf e hfe
  rw [h e he] at hcounted
  cases hcounted

theorem Uncounted.filterMap_eq_nil (h : Uncounted events) {α : Type} {f : Event → Option α}
    (hf : ∀ e, (f e).isSome = true → e.isCounted = true) : events.filterMap f = [] := by
  rw [List.filterMap_eq_nil_iff]
  intro e he
  cases hfe : f e with
  | none => rfl
  | some a =>
    have hcounted := hf e (by simp [hfe])
    rw [h e he] at hcounted
    cases hcounted

end

/-! ## Looking at a handle -/

/-- Looking at the handle of a record: the handles that were brought in and the names that were read
are counted, and nothing else. -/
structure Looks (p next : Progress) (events : List Event) : Prop where
  answers : answersIn events = []
  openings : openingsIn events = []
  records : next.tally.records = p.tally.records
  attempts : next.tally.attempts = p.tally.attempts
  opened : next.tally.opened = p.tally.opened
  denied : next.tally.denied = p.tally.denied
  duplicated : next.tally.duplicated = p.tally.duplicated + events.countP Event.brings
  named : next.tally.named = p.tally.named + events.countP Event.names

section

variable {s : Search σ} {p mid next : Progress} {events more : List Event}

theorem looks_of_uncounted (h : Uncounted events) (ht : next.tally = p.tally) :
    Looks p next events where
  answers := h.filterMap_eq_nil fun e he => by simp [Event.isCounted, he]
  openings := h.filterMap_eq_nil fun e he => by simp [Event.isCounted, he]
  records := congrArg Tally.records ht
  attempts := congrArg Tally.attempts ht
  opened := congrArg Tally.opened ht
  denied := congrArg Tally.denied ht
  duplicated := by
    rw [ht, h.countP_eq_zero fun e he => by simp [Event.isCounted, he], Nat.add_zero]
  named := by
    rw [ht, h.countP_eq_zero fun e he => by simp [Event.isCounted, he], Nat.add_zero]

theorem Looks.append (h : Looks p mid events) (hm : Looks mid next more) :
    Looks p next (events ++ more) where
  answers := by rw [answersIn_append, h.answers, hm.answers, List.append_nil]
  openings := by rw [openingsIn_append, h.openings, hm.openings, List.append_nil]
  records := hm.records.trans h.records
  attempts := hm.attempts.trans h.attempts
  opened := hm.opened.trans h.opened
  denied := hm.denied.trans h.denied
  duplicated := by rw [hm.duplicated, h.duplicated, List.countP_append, Nat.add_assoc]
  named := by rw [hm.named, h.named, List.countP_append, Nat.add_assoc]

theorem Search.Sends.tally {text : String} (h : Search.Sends p text events next) :
    next.tally = p.tally := by
  cases h with
  | repeated _ => rfl
  | sent _ => rfl

theorem Search.Heads.tally (h : Search.Heads s p events next) : next.tally = p.tally := by
  cases h with
  | done _ => rfl
  | first _ hs => exact hs.tally

theorem Search.Reports.tally {process : Held} {r : Record}
    (h : Search.Reports s process r p events next) : next.tally = p.tally := by
  cases h with
  | known hh _ => exact hh.tally
  | found _ hh _ hs => exact hs.tally.trans hh.tally

theorem uncounted_of_reports {process : Held} {r : Record}
    (h : Search.Reports s process r p events next) : Uncounted events := by
  cases h with
  | known hh _ => exact uncounted_of_lines (lines_of_heads hh).1
  | found path hh _ hs =>
    exact (uncounted_of_lines (lines_of_heads hh).1).append
      (((uncounted_of_lines (lines_of_sends hs)).append (uncounted_nil.cons rfl)).cons rfl)

theorem looks_of_reports {process : Held} {r : Record}
    (h : Search.Reports s process r p events next) : Looks p next events :=
  looks_of_uncounted (uncounted_of_reports h) h.tally

/-- A name was read. -/
theorem looks_of_asks {host : Host σ} {handle : HandleId} {name : Name}
    (h : Name.Asks host handle events (.ok name)) :
    Looks p { p with tally.named := p.tally.named + 1 } events := by
  cases h with
  | read size status _ _ _ hc =>
    refine (looks_of_uncounted (uncounted_of_concerns hc) rfl : Looks p p _).append ?_
    exact ⟨rfl, rfl, rfl, rfl, rfl, rfl, rfl, rfl⟩

theorem uncounted_of_asks {host : Host σ} {handle : HandleId} {fault : Fault}
    (h : Name.Asks host handle events (.error fault)) : Uncounted events := by
  cases h with
  | failed _ _ hc => exact uncounted_of_concerns hc
  | missing _ => exact uncounted_nil

theorem looks_of_examines {process handle : Held} {r : Record}
    (h : Search.Examines s process handle r p events next) : Looks p next events := by
  have hdisk : Looks p p [.classified handle.id .disk] :=
    looks_of_uncounted (uncounted_nil.cons rfl) rfl
  cases h with
  | passed kind _ => exact looks_of_uncounted (uncounted_nil.cons rfl) rfl
  | unnamed ha => exact hdisk.append (looks_of_uncounted (uncounted_of_asks ha) rfl)
  | uncovered ha _ => exact hdisk.append (looks_of_asks ha)
  | covered ha _ hr => exact hdisk.append ((looks_of_asks ha).append (looks_of_reports hr))

theorem looks_of_duplicates {host : Host σ} {process : Held} {value : UInt64} {handle : Held}
    (h : Held.Duplicates host process value events (.ok handle)) :
    Looks p (if process.isOwnProcess then p
      else { p with tally.duplicated := p.tally.duplicated + 1 }) events := by
  cases h with
  | own hp =>
    rw [if_pos hp]
    exact looks_of_uncounted uncounted_nil rfl
  | brought status given hp _ hs =>
    rw [hp]
    refine ⟨rfl, rfl, rfl, rfl, rfl, rfl, ?_, rfl⟩
    simp [Event.brings, hs]

theorem uncounted_of_duplicates {host : Host σ} {process : Held} {value : UInt64} {fault : Fault}
    (h : Held.Duplicates host process value events (.error fault)) : Uncounted events := by
  cases h with
  | refused status given _ _ hs =>
    refine uncounted_nil.cons ?_
    simp [Event.isCounted, Event.poll?, Event.opening?, Event.brings, Event.names, hs]
  | missing _ _ => exact uncounted_nil

theorem looks_of_inspects {process : Held} {r : Record}
    (h : Search.Inspects s process r p events next) : Looks p next events := by
  cases h with
  | failed hd => exact looks_of_uncounted (uncounted_of_duplicates hd) rfl
  | examined hd he hr =>
    exact (looks_of_duplicates hd).append
      ((looks_of_examines he).append (looks_of_uncounted (uncounted_of_releases hr) rfl))

theorem looks_of_attends {r : Record} (h : Search.Attends s r p events next) :
    Looks p next events := by
  cases h with
  | unreached _ => exact looks_of_uncounted uncounted_nil rfl
  | ignored _ _ => exact looks_of_uncounted uncounted_nil rfl
  | inspected _ _ hi => exact looks_of_inspects hi

end

/-! ## Turning to the owner -/

/-- What turning to the owner of a record comes to. -/
structure Turn where
  /-- The answers to the question whether the search is cancelled. -/
  answers : List Bool := []
  openings : List (UInt64 × Status) := []
  attempts : Nat := 0
  opened : Nat := 0
  denied : Nat := 0
  owner : Owner
  denial : Denial

/-- As far as owners are concerned, a stage comes to this. -/
structure Stage.Comes (t : Stage) (turn : Turn) : Prop where
  answers : answersIn t.events = turn.answers
  openings : openingsIn t.events = turn.openings
  attempts : t.after.tally.attempts = t.before.tally.attempts + turn.attempts
  opened : t.after.tally.opened = t.before.tally.opened + turn.opened
  denied : t.after.tally.denied = t.before.tally.denied + turn.denied
  owner : t.after.owner = turn.owner
  denial : t.after.denial = turn.denial

/-- The ways to deal with the owner of a record. -/
inductive Stage.Turning (s : Search σ) (t : Stage) : Prop
  | stays (hb : t.begins = false)
      (h : t.Comes { owner := t.before.owner, denial := t.before.denial })
  | stops (hb : t.begins = true) (hc : t.after.cancelled = true)
      (h : t.Comes { answers := [true], owner := .none, denial := t.before.denial })
  | remembered (hb : t.begins = true) (hd : t.before.denial.covers t.pid = true)
      (h : t.Comes
        { answers := [false], owner := .outOfReach t.pid, denial := t.before.denial })
  | own (hb : t.begins = true) (hd : t.before.denial.covers t.pid = false)
      (hp : t.pid = s.host.ownPid)
      (h : t.Comes
        { answers := [false], attempts := 1, opened := 1, owner := .opened t.pid .ownProcess
          denial := t.before.denial })
  | opened (process : Held) (status : Status) (hb : t.begins = true)
      (hd : t.before.denial.covers t.pid = false) (hp : t.pid ≠ s.host.ownPid)
      (hs : status.isSuccess = true)
      (h : t.Comes
        { answers := [false], openings := [(t.pid, status)], attempts := 1, opened := 1
          owner := .opened t.pid process, denial := t.before.denial })
  | refused (status : Status) (hb : t.begins = true)
      (hd : t.before.denial.covers t.pid = false) (hp : t.pid ≠ s.host.ownPid)
      (hs : status.isSuccess = false)
      (h : t.Comes
        { answers := [false], openings := [(t.pid, status)], attempts := 1
          denied := if status = .accessDenied then 1 else 0
          owner := .outOfReach t.pid
          denial := if status = .accessDenied then ⟨some t.pid⟩ else t.before.denial })
  | missing (hb : t.begins = true) (hd : t.before.denial.covers t.pid = false)
      (hp : t.pid ≠ s.host.ownPid) (hl : s.host.Lacks .openProcess)
      (h : t.Comes
        { answers := [false], attempts := 1, owner := .outOfReach t.pid
          denial := t.before.denial })

/-! ### After an owner that could not be opened -/

namespace Progress

variable (p : Progress) (pid : UInt64) (fault : Fault)

theorem attempts_refused : (p.refused pid fault).tally.attempts = p.tally.attempts := by
  unfold refused
  split
  · rfl
  · rfl

theorem opened_refused : (p.refused pid fault).tally.opened = p.tally.opened := by
  unfold refused
  split
  · rfl
  · rfl

theorem denied_refused :
    (p.refused pid fault).tally.denied =
      p.tally.denied + if fault.status.kind = .accessDenied then 1 else 0 := by
  unfold refused
  split
  · rfl
  · rfl

theorem denial_refused :
    (p.refused pid fault).denial =
      if fault.status.kind = .accessDenied then ⟨some pid⟩ else p.denial := by
  unfold refused
  split
  · rfl
  · rfl

end Progress

/-! ### Along a stage -/

section

variable {s : Search σ} {r : Record} {p turned next : Progress}
  {events closing opening turning attending : List Event}

theorem answersIn_goesOn {owner : Owner} (hl : owner.LetsGo closing) (ho : Hosted opening) :
    answersIn (closing ++ .polled false :: opening) = [false] := by
  rw [answersIn_append, answersIn_of_outer (outer_of_letsGo hl)]
  show false :: answersIn opening = [false]
  rw [ho.answersIn]

theorem openingsIn_goesOn {owner : Owner} (hl : owner.LetsGo closing) (opening : List Event) :
    openingsIn (closing ++ .polled false :: opening) = openingsIn opening := by
  rw [openingsIn_append, openingsIn_of_outer (outer_of_letsGo hl), openingsIn_cons rfl]
  rfl

/-- Turning to the owner of a record goes in one of the seven ways. -/
theorem turning_of_turns
    (h : Search.Turns s r.pid { p with tally.records := p.tally.records + 1 } events next) :
    Stage.Turning s ⟨r, p, events, next⟩ := by
  cases h with
  | stays hr => exact .stays hr ⟨rfl, rfl, rfl, rfl, rfl, rfl, rfl⟩
  | cancelled hr hl _ =>
    refine .stops hr rfl ⟨?_, ?_, rfl, rfl, rfl, rfl, rfl⟩
    · rw [answersIn_append, answersIn_of_outer (outer_of_letsGo hl)]
      rfl
    · rw [openingsIn_append, openingsIn_of_outer (outer_of_letsGo hl)]
      rfl
  | goesOn hr hl _ ht =>
    have hanswers := answersIn_goesOn hl (hosted_of_takesOver ht)
    cases ht with
    | remembered hd =>
      exact .remembered hr hd ⟨hanswers, openingsIn_goesOn hl _, rfl, rfl, rfl, rfl, rfl⟩
    | opened hd ho =>
      cases ho with
      | own hp =>
        exact .own hr hd hp ⟨hanswers, openingsIn_goesOn hl _, rfl, rfl, rfl, rfl, rfl⟩
      | opened status handle hp _ hs =>
        exact .opened _ status hr hd hp hs
          ⟨hanswers, openingsIn_goesOn hl _, rfl, rfl, rfl, rfl, rfl⟩
    | refused hd ho =>
      cases ho with
      | refused status handle hp _ hs =>
        refine .refused status hr hd hp hs ⟨hanswers, openingsIn_goesOn hl _, ?_, ?_, ?_, rfl, ?_⟩
        · exact Progress.attempts_refused _ _ _
        · exact Progress.opened_refused _ _ _
        · simp only [Progress.denied_refused, Fault.status, Status.kind_eq_accessDenied_iff]
        · simp only [Progress.denial_refused, Fault.status, Status.kind_eq_accessDenied_iff]
          rfl
      | missing hp hm =>
        have hk : (Fault.missing .openProcess).status.kind ≠ .accessDenied := by decide
        refine .missing hr hd hp hm ⟨hanswers, openingsIn_goesOn hl _, ?_, ?_, ?_, rfl, ?_⟩
        · exact Progress.attempts_refused _ _ _
        · exact Progress.opened_refused _ _ _
        · simp only [Progress.denied_refused, if_neg hk]
        · simp only [Progress.denial_refused, if_neg hk]

/-- Looking at the handle after that leaves the owner as it is. -/
theorem Stage.Comes.looks {turn : Turn} (h : Comes ⟨r, p, turning, turned⟩ turn)
    (hl : Looks turned next attending) (hs : Search.SameStand turned next) :
    Comes ⟨r, p, .record r.pid r.handleValue r.grantedAccess :: (turning ++ attending), next⟩
      turn where
  answers := by
    rw [answersIn_cons rfl, answersIn_append, hl.answers, List.append_nil]
    exact h.answers
  openings := by
    rw [openingsIn_cons rfl, openingsIn_append, hl.openings, List.append_nil]
    exact h.openings
  attempts := hl.attempts.trans h.attempts
  opened := hl.opened.trans h.opened
  denied := hl.denied.trans h.denied
  owner := hs.owner.trans h.owner
  denial := hs.denial.trans h.denial

theorem Stage.Turning.looks (h : Turning s ⟨r, p, turning, turned⟩)
    (hl : Looks turned next attending) (hs : Search.SameStand turned next) :
    Turning s
      ⟨r, p, .record r.pid r.handleValue r.grantedAccess :: (turning ++ attending), next⟩ := by
  cases h with
  | stays hb h => exact .stays hb (h.looks hl hs)
  | stops hb hc h => exact .stops hb (hs.cancelled.trans hc) (h.looks hl hs)
  | remembered hb hd h => exact .remembered hb hd (h.looks hl hs)
  | own hb hd hp h => exact .own hb hd hp (h.looks hl hs)
  | opened process status hb hd hp hst h => exact .opened process status hb hd hp hst (h.looks hl hs)
  | refused status hb hd hp hst h => exact .refused status hb hd hp hst (h.looks hl hs)
  | missing hb hd hp hm h => exact .missing hb hd hp hm (h.looks hl hs)

/-- Taking a record turns to its owner and, unless the search is cancelled, looks at its handle. -/
theorem Search.Steps.parts (h : Search.Steps s r p events next) :
    ∃ turning attending turned,
      events = .record r.pid r.handleValue r.grantedAccess :: (turning ++ attending) ∧
        Search.Turns s r.pid { p with tally.records := p.tally.records + 1 } turning turned ∧
        (Search.Attends s r turned attending next ∨ attending = [] ∧ next = turned) := by
  cases h with
  | @stopped turning _ ht _ =>
    exact ⟨turning, [], next, by rw [List.append_nil], ht, .inr ⟨rfl, rfl⟩⟩
  | @attended turning attending turned _ ht _ ha =>
    exact ⟨turning, attending, turned, rfl, ht, .inl ha⟩

theorem Search.Turns.inspects_eq_false {pid : UInt64} (h : Search.Turns s pid p events next) :
    ∀ e ∈ events, e.inspects = false :=
  h.forall_mem (fun _ _ => rfl) (fun _ => rfl) (fun _ _ _ _ => rfl)

end

namespace Stage

variable {s : Search σ} {t : Stage}

/-- Whatever the host answers, a record is dealt with in one of the seven ways. -/
theorem Takes.turning (h : t.Takes s) : t.Turning s := by
  obtain ⟨r, p, events, next⟩ := t
  have hsteps : Search.Steps s r p events next := h
  obtain ⟨turning, attending, turned, rfl, ht, ha | ⟨rfl, rfl⟩⟩ := hsteps.parts
  · exact (turning_of_turns ht).looks (looks_of_attends ha) ha.sameStand
  · exact (turning_of_turns ht).looks (looks_of_uncounted uncounted_nil rfl) ⟨rfl, rfl, rfl, rfl⟩

/-- Where no process is at hand after it, a record leads to no call about its handle. -/
theorem Takes.inspects_eq_false (h : t.Takes s) (hn : t.after.owner.process? = none) :
    ∀ e ∈ t.events, e.inspects = false := by
  obtain ⟨turning, attending, turned, he, ht, hlook⟩ := h.parts
  have hquiet : attending = [] := by
    rcases hlook with ha | ⟨hnil, -⟩
    · rw [ha.sameStand.owner] at hn
      cases ha with
      | unreached _ => rfl
      | ignored _ _ => rfl
      | inspected ho _ _ => exact absurd (hn.symm.trans ho) (by simp)
    · exact hnil
  rw [he, hquiet, List.append_nil]
  exact List.forall_mem_cons.mpr ⟨rfl, ht.inspects_eq_false⟩

end Stage

end FileHolders
