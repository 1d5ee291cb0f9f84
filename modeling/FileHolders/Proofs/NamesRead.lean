import FileHolders.Proofs.NameRounds
import FileHolders.Proofs.Stages

/-!
# The names that a search reads

A name stands in the journal because the search wrote it there.  What had been read by then is
worked out here without the journal: the handle of a record is followed to the queries for its name,
and the name is what is read out of the last buffer if the last query succeeded.  The journal tells
of these names and of no others, each after its record.

    .named handle name.units ∈ eventsOf (Name.ask h settings handle b) x ↔
      ∃ m, ms.getLast? = some m ∧ … ∧ Name.read (filledAt h handle m) = .ok name
                                                                                (Name.named_mem_iff)
    Emits (s.step r b p) x fun es _ => ∃ more, es = .record … :: more ∧
      Mentions (s.nameOf? r b p x) more                                        (emits_step_mentions)
    (s.stagesOf x).map (namesIn ·.events) = (s.namesOf x).map Option.toList       (namesIn_stagesOf)
    NamedAt (eventsOf s.run x) i handle name ↔
      (s.namesOf x)[i]? = some (some (handle, name))                               (namedAt_run_iff)
-/

namespace FileHolders

open FileHolders.Action

variable {σ : Type}

/-! ## Events within a record -/

/-- Events within a record that tell of one name or of none. -/
structure Mentions (named : Option (HandleId × Name)) (events : List Event) : Prop where
  records : recordsIn events = []
  names : namesIn events = named.toList

section

variable {named : Option (HandleId × Name)} {events more : List Event}

theorem Plain.mentions (h : Plain events) : Mentions none events := ⟨h.recordsIn, h.namesIn⟩

theorem Mentions.after (h : Mentions named more) (hb : Mentions none events) :
    Mentions named (events ++ more) where
  records := by rw [recordsIn_append, hb.records, h.records, List.append_nil]
  names := by rw [namesIn_append, hb.names, h.names, Option.toList_none, List.nil_append]

theorem Mentions.before (h : Mentions named events) (ha : Mentions none more) :
    Mentions named (events ++ more) where
  records := by rw [recordsIn_append, h.records, ha.records, List.append_nil]
  names := by rw [namesIn_append, h.names, ha.names, Option.toList_none, List.append_nil]

/-- Reporting tells of a holder and of no name. -/
theorem mentions_of_reports {s : Search σ} {process : Held} {r : Record} {p next : Progress}
    (h : Search.Reports s process r p events next) : Mentions none events := by
  cases h with
  | known hh _ => exact (lines_of_heads hh).1.plain.mentions
  | found path hh _ hs =>
    have himage : Mentions none [.image process.id path] := (plain_singleton rfl).mentions
    have hholder : Mentions none [.holder ⟨r.pid, path, r.handleValue, r.grantedAccess⟩] :=
      ⟨rfl, rfl⟩
    exact ((hholder.after (lines_of_sends hs).plain.mentions).after himage).after
      (lines_of_heads hh).1.plain.mentions

end

/-! ## One handle -/

namespace Name

variable (h : Host σ) (settings : Settings) (handle : HandleId) (buffer : Block) (x : Session σ)

/-- The name that asking for one comes to: what is read out of the last buffer, if the last query
succeeded. -/
def given? : Option Name :=
  if h.has x.host .queryObject then
    let asked := ((query h settings handle settings.nameAttempts.toNat buffer).run x).1
    (verdict asked.1 asked.2).toOption
  else none

theorem Queries.plain {handle : HandleId} {events : List Event} {answer : Except Fault Status}
    (hq : Queries handle events answer) : Plain events := by
  cases hq with
  | answered size status hc =>
    exact (hosted_of_concerns hc).plain.append (plain_singleton rfl)
  | refused fault hc => exact (hosted_of_concerns hc).plain

/-- Asking leaves a note of the name that it comes to, and answers with it. -/
theorem emits_ask_mentions : Emits (ask h settings handle buffer) x fun events a =>
    Mentions ((given? h settings handle buffer x).map (handle, ·)) events ∧
      a.2.toOption = given? h settings handle buffer x := by
  unfold ask given?
  refine Host.emits_has_bind ?_
  cases h.has x.host .queryObject with
  | false => exact emits_pure ⟨plain_nil.mentions, rfl⟩
  | true =>
    refine (emits_query h settings handle _ buffer x).bind ?_
    rintro querying ⟨last, fault | status⟩ t hrun hq
    · rw [hrun]
      exact emits_pure ⟨plain_nil.mentions.after hq.plain.mentions, rfl⟩
    · rw [hrun, if_pos rfl]
      dsimp only [verdict]
      split
      · split
        · rename_i fault hread
          rw [hread]
          exact emits_pure ⟨plain_nil.mentions.after hq.plain.mentions, rfl⟩
        · rename_i name hread
          rw [hread]
          have hnoted : Mentions (some (handle, name)) [.named handle name.units] := ⟨rfl, rfl⟩
          exact emits_note_bind fun u => emits_pure ⟨hnoted.after hq.plain.mentions, rfl⟩
      · exact emits_pure ⟨plain_nil.mentions.after hq.plain.mentions, rfl⟩

section

variable {h settings handle buffer x} {ms : List (Moment σ Try)} {name : Name}
  (hr : AskedInRounds h settings handle buffer x ms ((ask h settings handle buffer).run x).1
    ((ask h settings handle buffer).run x).2)

include hr

/-- Asking comes to a name exactly if the last query succeeded and its buffer holds that name. -/
theorem given?_eq_some_iff : given? h settings handle buffer x = some name ↔
    ∃ m, ms.getLast? = some m ∧ (answerAt h handle m).status.isSuccess = true ∧
      read (filledAt h handle m) = .ok name := by
  rw [← (emits_ask_mentions h settings handle buffer x).eventsOf.2]
  generalize (ask h settings handle buffer).run x = answer at hr
  obtain ⟨⟨last, a⟩, t⟩ := answer
  constructor
  · intro ha
    cases a with
    | error fault => cases ha
    | ok read =>
      obtain rfl : read = name := Option.some.inj ha
      obtain ⟨m, hm, -, hsuccess, hread⟩ := hr.succeeded _ rfl
      rw [(hr.stops m hm).1] at hread
      exact ⟨m, hm, hsuccess, hread⟩
  · rintro ⟨m, hm, hsuccess, hread⟩
    obtain ⟨hlast, -, q, hstops, hverdict⟩ := hr.stops m hm
    have hq : q = .ok (answerAt h handle m).status := by
      cases hstops with
      | refused hk _ _ _ =>
        rw [Status.isSuccess_of_kind_eq_bufferTooSmall hk] at hsuccess
        cases hsuccess
      | _ => rfl
    rw [hverdict, hlast, hq, verdict, if_pos hsuccess, hread]
    rfl

/-- A name is noted exactly where the last query succeeded and its buffer holds that name. -/
theorem named_mem_iff {handle' : HandleId} :
    .named handle' name.units ∈ eventsOf (ask h settings handle buffer) x ↔
      handle' = handle ∧ ∃ m, ms.getLast? = some m ∧
        (answerAt h handle m).status.isSuccess = true ∧
        read (filledAt h handle m) = .ok name := by
  have hmentions := (emits_ask_mentions h settings handle buffer x).eventsOf.1
  rw [← given?_eq_some_iff hr, ← mem_namesIn, hmentions.names]
  cases given? h settings handle buffer x with
  | none => simp
  | some given => simp [eq_comm]

end

end Name

/-! ## One record -/

namespace Search

variable (s : Search σ)

/-- The name of a handle that is in the caller's hands.  It is only asked for on a disk file. -/
def heldName? (handle : Held) (buffer : Block) (x : Session σ) : Option (HandleId × Name) :=
  let looked := (s.host.askKind handle.id).run x
  if looked.1 ≠ .disk then none
  else (Name.given? s.host s.settings handle.id buffer looked.2).map (handle.id, ·)

/-- The name of the handle of a record, if it can be brought into the caller. -/
def broughtName? (process : Held) (r : Record) (buffer : Block) (x : Session σ) :
    Option (HandleId × Name) :=
  match (Held.duplicate s.host process r.handleValue).run x with
  | (.error _, _) => none
  | (.ok handle, y) => s.heldName? handle buffer y

/-- The name of the handle of a record, if its owner is at hand and may be looked at. -/
def ownedName? (r : Record) (buffer : Block) (p : Progress) (x : Session σ) :
    Option (HandleId × Name) :=
  match p.owner.process? with
  | none => none
  | some process => if s.mayInspect process then s.broughtName? process r buffer x else none

/-- The name that taking a record reads, with the handle that it was asked for on. -/
def nameOf? (r : Record) (buffer : Block) (p : Progress) (x : Session σ) :
    Option (HandleId × Name) :=
  let turned := (s.turnTo r.pid { p with tally.records := p.tally.records + 1 }).run
    ((note (.record r.pid r.handleValue r.grantedAccess)).run x).2
  if turned.1.cancelled then none else s.ownedName? r buffer turned.1 turned.2

theorem emits_examine_mentions (process handle : Held) (r : Record) (buffer : Block) (p : Progress)
    (x : Session σ) :
    Emits (s.examine process handle r buffer p) x fun events _ =>
      Mentions (s.heldName? handle buffer x) events := by
  unfold examine heldName?
  have hasked : Emits (s.host.askKind handle.id) x fun events kind =>
      events = [.classified handle.id kind] := emits_journaled fun _ => rfl
  refine hasked.bind ?_
  rintro _ kind t hrun rfl
  have hlooked : Mentions none [.classified handle.id kind] := (plain_singleton rfl).mentions
  rw [hrun]
  dsimp only
  split
  · exact emits_pure (plain_nil.mentions.after hlooked)
  · refine (Name.emits_ask_mentions s.host s.settings handle.id buffer t).bind ?_
    rintro asking ⟨last, fault | name⟩ u - ⟨hnamed, -⟩
    · exact emits_say_bind fun v => emits_pure ((hnamed.before plain_nil.mentions).after hlooked)
    · dsimp only
      split
      · refine (s.emits_report process r _ u).bind ?_
        intro reporting next v _ hr
        refine emits_pure ((hnamed.before ?_).after hlooked)
        exact (mentions_of_reports hr).before plain_nil.mentions
      · exact emits_pure ((hnamed.before plain_nil.mentions).after hlooked)

theorem emits_inspect_mentions (process : Held) (r : Record) (buffer : Block) (p : Progress)
    (x : Session σ) :
    Emits (s.inspect process r buffer p) x fun events _ =>
      Mentions (s.broughtName? process r buffer x) events := by
  unfold inspect broughtName?
  refine (Held.emits_duplicate s.host process r.handleValue x).bind ?_
  rintro bringing (fault | handle) t hrun hd
  · rw [hrun]
    exact emits_say_bind fun u => emits_pure
      (plain_nil.mentions.after (hosted_of_duplicates hd).plain.mentions)
  · rw [hrun]
    refine (s.emits_examine_mentions process handle r buffer _ t).bind ?_
    intro examining result u _ hexamined
    refine (handle.emits_release s.host u).bind ?_
    intro closing _ v _ hr
    refine emits_pure ((hexamined.before ?_).after (hosted_of_duplicates hd).plain.mentions)
    exact (plain_nil.mentions.after (hosted_of_releases hr).plain.mentions)

theorem emits_attend_mentions (r : Record) (buffer : Block) (p : Progress) (x : Session σ) :
    Emits (s.attend r buffer p) x fun events _ => Mentions (s.ownedName? r buffer p x) events := by
  unfold attend ownedName?
  cases p.owner.process? with
  | none => exact emits_pure plain_nil.mentions
  | some process =>
    dsimp only
    split
    · rename_i hi
      simp only [mayInspect, hi, Bool.not_true, Bool.false_eq_true, if_false]
      exact emits_pure plain_nil.mentions
    · rename_i hi
      simp only [mayInspect, hi, Bool.not_false, if_true]
      exact s.emits_inspect_mentions process r buffer p x

/-- Taking a record tells of the record, and of the name that it reads. -/
theorem emits_step_mentions (r : Record) (buffer : Block) (p : Progress) (x : Session σ) :
    Emits (s.step r buffer p) x fun events _ => ∃ more,
      events = .record r.pid r.handleValue r.grantedAccess :: more ∧
        Mentions (s.nameOf? r buffer p x) more := by
  rw [step_eq]
  unfold nameOf?
  refine (emits_note rfl : Emits (note (.record r.pid r.handleValue r.grantedAccess)) x
    fun events _ => events = [.record r.pid r.handleValue r.grantedAccess]).bind ?_
  rintro _ _ t hnote rfl
  rw [hnote]
  refine (s.emits_turnTo r.pid _ t).bind ?_
  intro turning turned u hturn ht
  rw [hturn]
  dsimp only
  split
  · exact emits_pure ⟨turning, by simp, (plain_of_turns ht).mentions⟩
  · refine (s.emits_attend_mentions r buffer turned u).mono ?_
    intro attending _ ha
    exact ⟨turning ++ attending, by simp, ha.after (plain_of_turns ht).mentions⟩

/-! ## All records -/

/-- The names that a walk reads, one or none for each record that it reaches. -/
def names (s : Search σ) :
    List Record → Block → Progress → Session σ → List (Option (HandleId × Name))
  | [], _, _, _ => []
  | r :: rest, buffer, p, x =>
    let taken := (s.step r buffer p).run x
    s.nameOf? r buffer p x ::
      if taken.1.2.cancelled then [] else names s rest taken.1.1 taken.1.2 taken.2

/-- The names from where the search turns to the records. -/
def namesFrom (s : Search σ) :
    Option (Table × Block × Session σ) → List (Option (HandleId × Name))
  | none => []
  | some (table, buffer, x) => s.names table.records buffer {} x

/-- The names that a run reads. -/
def namesOf (x : Session σ) : List (Option (HandleId × Name)) := s.namesFrom (s.start? x)

end Search

/-! ## The journal tells of these names -/

/-- A stage tells of its record, and then of one name or of none. -/
def Stage.Reads (t : Stage) (named : Option (HandleId × Name)) : Prop :=
  ∃ more, t.events = .record t.record.pid t.record.handleValue t.record.grantedAccess :: more ∧
    Mentions named more

section

variable {stages : List Stage} {names : List (Option (HandleId × Name))} {handle : HandleId}
  {name : Name}

/-- Within a stage only its own name is noted. -/
theorem Stage.Reads.namedAt_iff {t : Stage} {named : Option (HandleId × Name)} (h : t.Reads named)
    (i : Nat) : NamedAt t.events i handle name ↔ i = 0 ∧ named = some (handle, name) := by
  obtain ⟨more, he, hrecords, hnames⟩ := h
  have hmem : .named handle name.units ∈ more ↔ named = some (handle, name) := by
    rw [← mem_namesIn, hnames, Option.mem_toList]
  rw [he, ← hmem]
  constructor
  · rintro ⟨before, rest, hsplit, hi⟩
    cases before with
    | nil => cases hsplit
    | cons e before =>
      obtain ⟨rfl, rfl⟩ := List.cons.inj hsplit
      rw [List.append_eq, recordsIn_append, List.append_eq_nil_iff] at hrecords
      rw [recordsIn_record, hrecords.1] at hi
      exact ⟨by simpa using hi.symm, by simp⟩
  · rintro ⟨rfl, hmore⟩
    obtain ⟨before, rest, rfl⟩ := List.append_of_mem hmore
    rw [recordsIn_append, List.append_eq_nil_iff] at hrecords
    exact ⟨_ :: before, rest, rfl, by rw [recordsIn_record, hrecords.1]; rfl⟩

/-- Every name at the stages comes after a record. -/
theorem recordsIn_ne_nil_of_reads (h : List.Forall₂ Stage.Reads stages names)
    {front rest : List Event} {units : List UInt16}
    (he : stages.flatMap Stage.events = front ++ .named handle units :: rest) :
    recordsIn front ≠ [] := by
  cases h with
  | nil => exact absurd he (by simp)
  | cons ht _ =>
    obtain ⟨more, hevents, -⟩ := ht
    rw [List.flatMap_cons, hevents] at he
    cases front with
    | nil => cases he
    | cons e front =>
      obtain ⟨rfl, -⟩ := List.cons.inj he
      exact List.cons_ne_nil _ _

theorem namesIn_of_reads (h : List.Forall₂ Stage.Reads stages names) :
    stages.map (fun t => namesIn t.events) = names.map Option.toList := by
  induction h with
  | nil => rfl
  | @cons t named stages names ht _ ih =>
    obtain ⟨more, he, hmentions⟩ := ht
    rw [List.map_cons, List.map_cons, ih, ← hmentions.names, he]
    rfl

theorem namedAt_of_reads (h : List.Forall₂ Stage.Reads stages names) (i : Nat) :
    NamedAt (stages.flatMap Stage.events) i handle name ↔
      names[i]? = some (some (handle, name)) := by
  induction h generalizing i with
  | nil =>
    refine iff_of_false ?_ (by simp)
    rintro ⟨before, rest, he, -⟩
    exact absurd he (by simp)
  | @cons t named stages names ht hr ih =>
    have hrecord : (recordsIn t.events).length = 1 := by
      obtain ⟨more, he, hmentions⟩ := ht
      rw [he, recordsIn_record, hmentions.records]
      rfl
    rw [List.flatMap_cons, namedAt_append, ht.namedAt_iff, hrecord]
    cases i with
    | zero =>
      have hlater : ¬∃ front rest, stages.flatMap Stage.events =
          front ++ .named handle name.units :: rest ∧ 1 + (recordsIn front).length = 0 + 1 := by
        rintro ⟨front, rest, he, hi⟩
        exact recordsIn_ne_nil_of_reads hr he (List.length_eq_zero_iff.mp (by omega))
      rw [or_iff_left hlater]
      simp
    | succ i =>
      have hnext : ∀ n, 1 + n = i + 1 + 1 ↔ n = i + 1 := by omega
      rw [or_iff_right (by simp), List.getElem?_cons_succ, ← ih i]
      simp only [hnext]
      rfl

end

namespace Search

theorem reads_stages (s : Search σ) (records : List Record) (buffer : Block) (p : Progress)
    (x : Session σ) :
    List.Forall₂ Stage.Reads (s.stages records buffer p x) (s.names records buffer p x) := by
  induction records generalizing buffer p x with
  | nil => exact .nil
  | cons r rest ih =>
    unfold stages names
    refine .cons (s.emits_step_mentions r buffer p x).eventsOf ?_
    split
    · exact .nil
    · exact ih _ _ _

theorem reads_stagesOf (s : Search σ) (x : Session σ) :
    List.Forall₂ Stage.Reads (s.stagesOf x) (s.namesOf x) := by
  unfold stagesOf namesOf
  rcases s.start? x with _ | ⟨table, buffer, y⟩
  · exact .nil
  · exact s.reads_stages table.records buffer {} y

/-- At each stage the journal tells of the name that was read there, and of no other. -/
theorem namesIn_stagesOf (s : Search σ) (x : Session σ) :
    (s.stagesOf x).map (fun t => namesIn t.events) = (s.namesOf x).map Option.toList :=
  namesIn_of_reads (s.reads_stagesOf x)

/-- A name is noted for a record exactly where it was read for it. -/
theorem namedAt_run_iff (s : Search σ) (x : Session σ) (i : Nat) (handle : HandleId)
    (name : Name) : NamedAt (eventsOf s.run x) i handle name ↔
      (s.namesOf x)[i]? = some (some (handle, name)) := by
  obtain ⟨_, ⟨he, hf, hc, -, -⟩, -⟩ := (s.emits_run_staged x).eventsOf
  rw [he, hf.plain.namedAt_append, namedAt_append_plain hc.plain]
  exact namedAt_of_reads (s.reads_stagesOf x) i

end Search

end FileHolders
