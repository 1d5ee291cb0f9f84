import FileHolders.Proofs.Advance
import FileHolders.Proofs.Report

/-!
# The transcript of a report

The transcript is what the reporter hears of a search: its lines and its holders, in order.  It is a
function of what kept the search from going through the records, of the holders, and of whether they
count as found.  Each holder is heard right after its line, and a line that would repeat the one
before it is left out; the last line never is.

    transcriptOf (eventsOf s.run x) = s.transcript (s.obstacle? x) outcome     (transcriptOf_run)
    linesIn (s.holderTranscript hs) = (s.holderLines hs).destutter (· ≠ ·)
                                                                    (linesIn_holderTranscript)
-/

namespace FileHolders

open FileHolders.Action

variable {σ : Type}

/-! ## Obstacles -/

/-- What keeps a search from going through the records. -/
inductive Obstacle where
  | noArena (fault : ArenaFault)
  | unreadable (fault : Fault)
  | noBuffer
deriving DecidableEq, Repr

/-- The warning about an obstacle. -/
def Obstacle.warning : Obstacle → String
  | noArena fault => Search.unreadableLine (.arena fault)
  | unreadable fault => Search.unreadableLine fault
  | noBuffer => Search.noBufferLine

namespace Search

variable (s : Search σ)

/-- The obstacle to going through a table that was read, if the name buffer is refused. -/
def tableObstacle? (x : Session σ) : Option Obstacle :=
  if ((Arena.allocate s.host.heap s.settings.nameBufferInitial).run x).1.isSome then none
  else some .noBuffer

/-- The obstacle to a survey: that the table cannot be read, or the one after that. -/
def surveyObstacle? (x : Session σ) : Option Obstacle :=
  match (Table.read s.host s.settings).run x with
  | (.error fault, _) => some (.unreadable fault)
  | (.ok _, y) => s.tableObstacle? y

/-- The obstacle that a search meets when it is run in a session, if there is one: that the arena
cannot be created, or the one after that.  An empty target is not searched for and meets none. -/
def obstacle? (x : Session σ) : Option Obstacle :=
  if s.text.isEmpty then none
  else
    match (Arena.create s.host.heap s.settings.arenaLimit).run ((info s.openingMessage).run x).2 with
    | (.error fault, _) => some (.noArena fault)
    | (.ok _, y) => s.surveyObstacle? y

end Search

/-! ## Transcripts -/

/-- Whether the reporter hears of an event. -/
def Event.isReport : Event → Bool
  | .line _ | .holder _ => true
  | _ => false

/-- The holder that an event reports. -/
def Event.holder? : Event → Option Holder
  | .holder h => some h
  | _ => none

/-- What the reporter hears, in order. -/
def transcriptOf (events : List Event) : List Event := events.filter Event.isReport

/-- What the reporter hears of holders after a line: the line of each unless it repeats the one
before it, and then the holder. -/
def heardAfter (last : String) : List Holder → List Event
  | [] => []
  | h :: rest =>
    (if last = h.line then [] else [.line h.line]) ++ .holder h :: heardAfter h.line rest

namespace Search

variable (s : Search σ)

/-- What the reporter hears of the holders of a search. -/
def holderTranscript (holders : List Holder) : List Event :=
  if holders.isEmpty then []
  else .line (headLine s.text) :: heardAfter (headLine s.text) holders

/-- The last line of the report on an outcome. -/
def summary (o : Outcome) : String :=
  if o.found then foundLine else notFoundLine s.settings.applicationName s.text

/-- The whole report on an outcome. -/
def transcript (obstacle : Option Obstacle) (o : Outcome) : List Event :=
  obstacle.toList.map (.line ·.warning) ++ s.holderTranscript o.holders ++ [.line (s.summary o)]

end Search

/-! ## Events that the reporter does not hear of -/

/-- The reporter hears of none of the events. -/
def Silent (events : List Event) : Prop := ∀ e ∈ events, e.isReport = false

theorem silent_nil : Silent [] := by simp [Silent]

theorem silent_singleton {e : Event} (h : e.isReport = false) : Silent [e] := by simpa [Silent] using h

theorem Silent.append {events more : List Event} (h : Silent events) (hm : Silent more) :
    Silent (events ++ more) := List.forall_mem_append.mpr ⟨h, hm⟩

theorem Hosted.silent {events : List Event} (h : Hosted events) : Silent events := by
  intro e he
  have hhost := h e he
  cases e <;> simp_all [Event.isHost, Event.isReport]

theorem silent_of_asks {host : Host σ} {handle : HandleId} {events : List Event}
    {answer : Except Fault Name} (h : Name.Asks host handle events answer) : Silent events := by
  cases h with
  | read size status name _ _ hc =>
    refine (hosted_of_concerns hc).silent.append ?_
    simp [Silent, Event.isReport]
  | failed _ _ hc => exact (hosted_of_concerns hc).silent
  | missing _ => exact silent_nil

theorem silent_of_turns {s : Search σ} {pid : UInt64} {p next : Progress} {events : List Event}
    (h : Search.Turns s pid p events next) : Silent events := by
  exact h.forall_mem (fun _ _ => rfl) (fun _ => rfl) (fun _ _ _ _ => rfl)

theorem Silent.linesIn {events : List Event} (h : Silent events) : linesIn events = [] := by
  apply List.filterMap_eq_nil_iff.mpr
  intro e he
  have hsilent := h e he
  cases e <;> simp_all [Event.isReport, Event.line?]

theorem Silent.transcriptOf {events : List Event} (h : Silent events) : transcriptOf events = [] := by
  apply List.filter_eq_nil_iff.mpr
  intro e he
  rw [h e he]
  decide

theorem transcriptOf_append (events more : List Event) :
    transcriptOf (events ++ more) = transcriptOf events ++ transcriptOf more := List.filter_append ..

/-- The lines that the reporter hears are the lines that were sent. -/
theorem linesIn_transcriptOf (events : List Event) : linesIn (transcriptOf events) = linesIn events := by
  rw [linesIn, transcriptOf, List.filterMap_filter]
  apply List.filterMap_congr
  intro e _
  cases e <;> rfl

/-! ## Along a walk -/

namespace Search

/-- What a search keeps: whatever the reporter does not hear of keeps it, and so does every report
of a match. -/
structure Lasting (s : Search σ) (I : List Event → Progress → Prop) : Prop where
  quiet : ∀ {before events : List Event} {p next : Progress}, I before p → Silent events →
    SameReport p next → I (before ++ events) next
  report : ∀ {before events : List Event} {process : Held} {r : Record} {p next : Progress},
    I before p → Reports s process r p events next → I (before ++ events) next

section

variable {s : Search σ} {I : List Event → Progress → Prop} {before events : List Event}
  {p next : Progress}

theorem Lasting.examines (h : s.Lasting I) (hi : I before p) {process handle : Held} {r : Record}
    (he : Examines s process handle r p events next) : I (before ++ events) next := by
  have hlook : Silent [.classified handle.id .disk] := silent_singleton rfl
  cases he with
  | passed kind _ => exact h.quiet hi (silent_singleton rfl) ⟨rfl, rfl, rfl, rfl⟩
  | unnamed ha => exact h.quiet hi (hlook.append (silent_of_asks ha)) ⟨rfl, rfl, rfl, rfl⟩
  | uncovered ha _ => exact h.quiet hi (hlook.append (silent_of_asks ha)) ⟨rfl, rfl, rfl, rfl⟩
  | covered ha _ hr =>
    have hnamed : I _ { p with tally.named := p.tally.named + 1 } :=
      h.quiet hi (hlook.append (silent_of_asks ha)) ⟨rfl, rfl, rfl, rfl⟩
    simpa using h.report hnamed hr

theorem Lasting.inspects (h : s.Lasting I) (hi : I before p) {process : Held} {r : Record}
    (hp : Inspects s process r p events next) : I (before ++ events) next := by
  cases hp with
  | failed hd => exact h.quiet hi (hosted_of_duplicates hd).silent ⟨rfl, rfl, rfl, rfl⟩
  | examined hd he hr =>
    have hcounted : SameReport p (if process.isOwnProcess then p
        else { p with tally.duplicated := p.tally.duplicated + 1 }) := by
      split
      · exact ⟨rfl, rfl, rfl, rfl⟩
      · exact ⟨rfl, rfl, rfl, rfl⟩
    have hbrought := h.quiet hi (hosted_of_duplicates hd).silent hcounted
    simpa using h.quiet (h.examines hbrought he) (hosted_of_releases hr).silent
      ⟨rfl, rfl, rfl, rfl⟩

theorem Lasting.steps (h : s.Lasting I) (hi : I before p) {r : Record}
    (hs : Steps s r p events next) : I (before ++ events) next := by
  have hrecord : Silent [.record r.pid r.handleValue r.grantedAccess] := silent_singleton rfl
  have hbegun : I _ { p with tally.records := p.tally.records + 1 } :=
    h.quiet hi hrecord ⟨rfl, rfl, rfl, rfl⟩
  cases hs with
  | stopped ht _ => simpa using h.quiet hbegun (silent_of_turns ht) ht.sameReport
  | attended ht _ ha =>
    have hturned := h.quiet hbegun (silent_of_turns ht) ht.sameReport
    cases ha with
    | unreached _ => simpa using hturned
    | ignored _ _ => simpa using hturned
    | inspected _ _ hp => simpa using h.inspects hturned hp

/-- What lasts is kept by a whole walk. -/
theorem Lasting.walks (h : s.Lasting I) {records : List Record}
    (hw : Walks s records p events next) (hi : I before p) : I (before ++ events) next := by
  induction hw generalizing before with
  | done p =>
    rw [List.append_nil]
    exact hi
  | stopped hs _ => exact h.steps hi hs
  | goesOn hs _ _ ih =>
    rw [← List.append_assoc]
    exact ih (h.steps hi hs)

end

end Search

/-! ## Hearing of holders -/

/-- The line that was sent last, when some holders were heard of after a line. -/
theorem heardAfter_concat (last : String) (holders : List Holder) (h : Holder) :
    heardAfter last (holders ++ [h]) = heardAfter last holders ++
      ((if (holders.getLast?.map Holder.line).getD last = h.line then [] else [.line h.line]) ++
        [.holder h]) := by
  induction holders generalizing last with
  | nil => rfl
  | cons first rest ih =>
    rw [List.cons_append, heardAfter, heardAfter, ih]
    have hlast : ((first :: rest).getLast?.map Holder.line).getD last =
        (rest.getLast?.map Holder.line).getD first.line := by
      cases rest with
      | nil => rfl
      | cons second rest => simp [List.getLast?_cons]
    rw [hlast]
    simp

/-- Leaving out what repeats the line before is what `destutter` does. -/
theorem linesIn_heardAfter (last : String) (holders : List Holder) :
    last :: linesIn (heardAfter last holders) =
      (holders.map Holder.line).destutter' (· ≠ ·) last := by
  induction holders generalizing last with
  | nil => rfl
  | cons h rest ih =>
    rw [List.map_cons, heardAfter, linesIn_append, linesIn_cons rfl]
    by_cases hl : last = h.line
    · rw [List.destutter'_cons_neg _ (not_not.mpr hl), if_pos hl, hl]
      exact ih h.line
    · rw [List.destutter'_cons_pos _ hl, if_neg hl, ← ih h.line]
      rfl

theorem linesIn_holderTranscript (s : Search σ) (holders : List Holder) :
    linesIn (s.holderTranscript holders) = (s.holderLines holders).destutter (· ≠ ·) := by
  unfold Search.holderTranscript Search.holderLines
  split
  · rfl
  · rw [List.destutter_cons', ← linesIn_heardAfter]
    rfl

/-! ## The transcript of a walk -/

section

variable {s : Search σ} {before events : List Event} {p next : Progress}

/-- The reporter has heard of the holders so far, and of nothing else. -/
structure Heard (s : Search σ) (events : List Event) (p : Progress) : Prop where
  told : Told s (linesIn events) p
  transcript : transcriptOf events = s.holderTranscript p.holders.toList

theorem heard_nil (s : Search σ) : Heard s [] {} := ⟨told_nil s, rfl⟩

theorem Heard.quiet (h : Heard s before p) (he : Silent events) (hs : Search.SameReport p next) :
    Heard s (before ++ events) next := by
  constructor
  · rw [linesIn_append]
    exact h.told.quiet he.linesIn hs
  · rw [transcriptOf_append, he.transcriptOf, List.append_nil, h.transcript, hs.holders]

/-- What the reporter hears when a line is sent. -/
theorem transcriptOf_sends {text : String} (h : Search.Sends p text events next) :
    transcriptOf events = (if p.lastLine = some text then [] else [.line text]) ∧
      next.lastLine = some text := by
  cases h with
  | repeated hl => exact ⟨by rw [if_pos hl]; rfl, hl⟩
  | sent hl => exact ⟨by rw [if_neg hl]; rfl, rfl⟩

/-- What the reporter hears when a holder is found: the line above all holders before the first one,
the line of the holder unless it repeats the one before it, and the holder. -/
theorem holderTranscript_concat (s : Search σ) (holders : List Holder) (h : Holder) :
    s.holderTranscript (holders ++ [h]) =
      (if holders.isEmpty then [.line (Search.headLine s.text)] else s.holderTranscript holders) ++
        ((if (holders.getLast?.map Holder.line).getD (Search.headLine s.text) = h.line then []
          else [.line h.line]) ++ [.holder h]) := by
  rw [Search.holderTranscript, if_neg (by simp), heardAfter_concat]
  cases holders with
  | nil => rfl
  | cons first rest => simp [Search.holderTranscript]

/-- The last line before a holder is told of. -/
theorem lastLine_of_heads {heading : List Event} {headed : Progress} (h : Told s (linesIn before) p)
    (hh : Search.Heads s p heading headed) :
    transcriptOf heading =
        (if p.holders.toList.isEmpty then [.line (Search.headLine s.text)] else []) ∧
      headed.lastLine =
        some ((p.holders.toList.getLast?.map Holder.line).getD (Search.headLine s.text)) := by
  have hempty := h.headed
  have hlast := h.said.last
  cases hh with
  | done hd =>
    rw [hd] at hempty
    rw [hempty]
    refine ⟨rfl, ?_⟩
    rw [hlast, Search.holderLines, hempty]
    cases hl : p.holders.toList with
    | nil =>
      rw [hl] at hempty
      cases hempty
    | cons first rest => simp [List.getLast?_cons, List.getLast?_map]
  | first hf hs =>
    rw [hf] at hempty
    rw [hempty]
    obtain ⟨hsent, hline⟩ := transcriptOf_sends hs
    have hnone : p.lastLine = none := by
      rw [hlast, Search.holderLines, hempty]
      rfl
    rw [hnone, if_neg (by simp)] at hsent
    refine ⟨hsent, hline.trans ?_⟩
    rw [List.isEmpty_iff.mp hempty]
    rfl

theorem Heard.report {process : Held} {r : Record} (h : Heard s before p)
    (hr : Search.Reports s process r p events next) : Heard s (before ++ events) next := by
  refine ⟨by rw [linesIn_append]; exact told_of_reports hr h.told, ?_⟩
  rw [transcriptOf_append, h.transcript]
  cases hr with
  | known hh hl =>
    obtain ⟨hheading, -⟩ := lastLine_of_heads h.told hh
    obtain ⟨-, -, hholders, hlastHolder⟩ := said_of_heads hh h.told
    have hsome : p.holders.toList.isEmpty = false := by
      rw [h.told.headed]
      cases hp : p.headed with
      | true => rfl
      | false =>
        rw [hlastHolder, h.told.last hp] at hl
        cases hl
    rw [hheading, hsome, if_neg Bool.false_ne_true, List.append_nil, hholders]
  | @found heading lines headed sent path hh hl hs =>
    obtain ⟨hheading, hline⟩ := lastLine_of_heads h.told hh
    obtain ⟨-, -, hholders, -⟩ := said_of_heads hh h.told
    obtain ⟨-, hsent, -⟩ := hs.sameHolders
    obtain ⟨hsending, -⟩ := transcriptOf_sends hs
    have hevents : transcriptOf (heading ++ .image process.id path ::
        (lines ++ [.holder ⟨r.pid, path, r.handleValue, r.grantedAccess⟩])) =
        transcriptOf heading ++ (transcriptOf lines ++
          [.holder ⟨r.pid, path, r.handleValue, r.grantedAccess⟩]) := by
      rw [transcriptOf_append]
      exact congrArg _ (transcriptOf_append lines _)
    rw [hevents, hheading, hsending, hline, Array.toList_push, hsent, hholders,
      holderTranscript_concat, ← List.append_assoc]
    simp only [Option.some.injEq]
    congr 1
    cases hempty : p.holders.toList.isEmpty with
    | true =>
      rw [List.isEmpty_iff.mp hempty]
      rfl
    | false => simp

theorem lasting_heard (s : Search σ) : s.Lasting (Heard s) :=
  ⟨fun h he hs => h.quiet he hs, fun h hr => h.report hr⟩

end

/-! ## The transcript of a search -/

/-- Up to its last line, a search tells of its obstacle, or of its holders. -/
structure Tells (s : Search σ) (obstacle : Option Obstacle) (events : List Event) (p : Progress) :
    Prop where
  transcript : transcriptOf events =
    obstacle.toList.map (.line ·.warning) ++ s.holderTranscript p.holders.toList
  obstructed : obstacle.isSome = true → p.holders = #[]

section

variable {s : Search σ} {events more : List Event} {p next : Progress}
  {obstacle : Option Obstacle}

theorem tells_of_heard (h : Heard s events p) : Tells s none events p :=
  ⟨h.transcript, by simp⟩

/-- The warning about an obstacle is the first thing that the reporter hears. -/
theorem tells_of_warning (obstacle : Obstacle) (he : Silent events)
    (h : Search.Sends {} obstacle.warning more next) :
    Tells s (some obstacle) (events ++ more) next := by
  obtain ⟨-, hholders, -⟩ := h.sameHolders
  obtain ⟨hsent, -⟩ := transcriptOf_sends h
  constructor
  · rw [transcriptOf_append, he.transcriptOf, hsent, hholders]
    rfl
  · intro _
    exact hholders

theorem Tells.before (h : Tells s obstacle events p) (he : Silent more) :
    Tells s obstacle (more ++ events) p :=
  ⟨by rw [transcriptOf_append, he.transcriptOf]; exact h.transcript, h.obstructed⟩

theorem Tells.after (h : Tells s obstacle events p) (he : Silent more)
    (hn : next.holders = p.holders) : Tells s obstacle (events ++ more) next :=
  ⟨by rw [transcriptOf_append, he.transcriptOf, List.append_nil, h.transcript, hn],
    fun ho => hn.trans (h.obstructed ho)⟩

end

namespace Search

variable (s : Search σ)

theorem silent_of_isHeap {events : List Event} (h : ∀ e ∈ events, e.isHeap = true) :
    Silent events := (hosted_of_isHeap h).silent

theorem emits_goThrough_tells (table : Table) (x : Session σ) :
    Emits (s.goThrough table {}) x fun events next => Tells s (s.tableObstacle? x) events next := by
  refine emits_goThrough_around ?_ ?_
  · intro taking lines next t hrun ht hs
    have hobstacle : s.tableObstacle? x = some .noBuffer := by simp [tableObstacle?, hrun]
    rw [hobstacle]
    exact tells_of_warning .noBuffer (silent_of_isHeap ht) hs
  · intro taking buffer t hrun ht
    have hobstacle : s.tableObstacle? x = none := by simp [tableObstacle?, hrun]
    rw [hobstacle]
    refine (s.emits_walk table.records buffer.1 {} t).mono ?_
    intro walking a hw closing giving hl hg
    have hheard : Heard s walking a.2 := (lasting_heard s).walks hw (heard_nil s)
    have hend : Silent (closing ++ giving) :=
      (hosted_of_letsGo hl).silent.append (silent_of_isHeap hg)
    refine ((tells_of_heard hheard).after hend ?_).before (silent_of_isHeap ht)
    rfl

theorem emits_survey_tells (x : Session σ) :
    Emits (s.survey {}) x fun events next => Tells s (s.surveyObstacle? x) events next := by
  refine emits_survey_around (Table.emits_read s.host s.settings x) ?_ ?_
  · intro reading lines fault next t hrun hr hs
    rw [surveyObstacle?, hrun]
    exact tells_of_warning (.unreadable fault) (hosted_of_reading hr).silent hs
  · intro reading table t hrun hr
    rw [surveyObstacle?, hrun]
    refine (s.emits_goThrough_tells table t).mono ?_
    intro going next hg giving hf
    exact (hg.after (silent_of_isHeap hf) rfl).before (hosted_of_reading hr).silent

theorem emits_surveyInArena_tells (x : Session σ) (ht : s.text.isEmpty = false) :
    Emits (s.surveyInArena {}) ((info s.openingMessage).run x).2 fun events next =>
      Tells s (s.obstacle? x) events next := by
  rw [obstacle?, ht, if_neg Bool.false_ne_true]
  refine emits_surveyInArena_around ?_ ?_
  · intro creating lines fault next t hrun hc hs
    rw [hrun]
    exact tells_of_warning (.noArena fault) (silent_of_isHeap hc) hs
  · intro creating t hrun hc
    rw [hrun]
    refine (s.emits_survey_tells t).mono ?_
    intro surveying next hs giving hg
    exact (hs.after (silent_of_isHeap hg) rfl).before (silent_of_isHeap hc)

/-- What the reporter hears of a search. -/
theorem transcriptOf_run (x : Session σ) :
    transcriptOf (eventsOf s.run x) = s.transcript (s.obstacle? x) (s.run.run x).1 ∧
      ((s.obstacle? x).isSome = true → (s.run.run x).1.holders = []) := by
  cases ht : s.text.isEmpty with
  | true =>
    have hnone : s.obstacle? x = none := by rw [obstacle?, ht, if_pos rfl]
    have hruns := (s.emits_run x).eventsOf
    rw [hnone]
    refine ⟨?_, by simp⟩
    generalize eventsOf s.run x = events at hruns ⊢
    generalize (s.run.run x).1 = outcome at hruns ⊢
    cases hruns with
    | ended hp hs =>
      cases hp with
      | empty _ =>
        cases hs with
        | sent _ => rfl
        | repeated hl => cases hl
      | noArena _ hn _ _ => exact absurd (ht.symm.trans hn) (by decide)
      | surveyed hn _ _ _ => exact absurd (ht.symm.trans hn) (by decide)
  | false =>
    obtain ⟨events, hj, htells⟩ := s.emits_surveyInArena_tells x ht
    obtain ⟨hout, hjournal⟩ := s.run_closes x ht
    have hevents : eventsOf s.run x = events ++ [.line (s.closingLine (s.surveyed x).1)] := by
      apply eventsOf_eq
      rw [hjournal, surveyed, hj, List.append_assoc]
      rfl
    rw [hevents, hout, transcriptOf_append, htells.transcript]
    refine ⟨rfl, ?_⟩
    intro ho
    have hholders : (s.surveyed x).1.holders = #[] := htells.obstructed ho
    rw [Progress.outcome, hholders]

end Search

end FileHolders
