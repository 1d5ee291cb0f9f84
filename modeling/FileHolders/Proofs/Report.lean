import FileHolders.Proofs.Course
import Mathlib.Data.List.Destutter

/-!
# The report of a search

A search says a line for each thing it has to tell, and only those lines are sent that are not the
one before them.  While it goes through the records it tells of the holders: the line above them
when there is the first one, and then one line for each.

    linesIn es = said.destutter (· ≠ ·)                                                (Said)
    Told s lines p → Told s (lines ++ linesIn es) q                            (told_of_walks)
-/

namespace FileHolders

variable {σ : Type} {s : Search σ} {p next : Progress} {events : List Event}
  {lines : List String}

/-! ## Lines in the journal -/

/-- The line that an event sends. -/
def Event.line? : Event → Option String
  | .line text => some text
  | _ => none

/-- The lines that were sent, in order. -/
def linesIn (events : List Event) : List String := events.filterMap Event.line?

theorem linesIn_append (events more : List Event) :
    linesIn (events ++ more) = linesIn events ++ linesIn more := List.filterMap_append

theorem linesIn_cons {e : Event} (h : e.line? = none) (events : List Event) :
    linesIn (e :: events) = linesIn events := List.filterMap_cons_none h

theorem Hosted.linesIn (h : Hosted events) : linesIn events = [] := by
  apply h.filterMap_eq_nil
  intro e he
  cases e <;> simp_all [Event.isHost, Event.line?]

theorem linesIn_of_asks {host : Host σ} {handle : HandleId} {answer : Except Fault Name}
    (h : Name.Asks host handle events answer) : linesIn events = [] := by
  cases h with
  | read size status name _ _ hc =>
    rw [linesIn_append, (hosted_of_concerns hc).linesIn]
    rfl
  | failed _ _ hc => exact (hosted_of_concerns hc).linesIn
  | missing _ => rfl

/-! ## What is said and what is sent -/

/-- The last element is kept unless it is the one before it. -/
theorem destutter_concat {α : Type} [DecidableEq α] (items : List α) (a : α) :
    (items ++ [a]).destutter (· ≠ ·) =
      if items.getLast? = some a then items.destutter (· ≠ ·)
      else items.destutter (· ≠ ·) ++ [a] := by
  cases items with
  | nil => rfl
  | cons first items =>
    rw [List.cons_append, List.destutter_cons', List.destutter_cons']
    induction items generalizing first with
    | nil =>
      by_cases h : first = a
      · simp [List.destutter', h]
      · simp [List.destutter', h]
    | cons second items ih =>
      rw [List.cons_append, List.getLast?_cons_cons]
      by_cases h : first = second
      · rw [List.destutter'_cons_neg _ (by simpa using h), ih, h,
          List.destutter'_cons_neg _ (by simp)]
      · rw [List.destutter'_cons_pos _ h, List.destutter'_cons_pos _ h, ih]
        split
        · rfl
        · rfl

/-- The lines that were sent for what was said. -/
structure Said (said lines : List String) (p : Progress) : Prop where
  lines_eq : lines = said.destutter (· ≠ ·)
  last : p.lastLine = said.getLast?

theorem Said.sends {said : List String} {text : String} (h : Said said lines p)
    (hs : Search.Sends p text events next) :
    Said (said ++ [text]) (lines ++ linesIn events) next := by
  have hlines := destutter_concat said text
  cases hs with
  | repeated hl =>
    rw [h.last] at hl
    rw [if_pos hl] at hlines
    constructor
    · rw [hlines, ← h.lines_eq]
      exact List.append_nil lines
    · rw [h.last, hl, List.getLast?_concat]
  | sent hl =>
    rw [h.last] at hl
    rw [if_neg hl] at hlines
    constructor
    · rw [hlines, ← h.lines_eq]
      rfl
    · rw [List.getLast?_concat]

/-! ## Telling of holders -/

/-- The lines that tell of holders. -/
def Search.holderLines (s : Search σ) (holders : List Holder) : List String :=
  if holders.isEmpty then [] else headLine s.text :: holders.map Holder.line

/-- The report tells of the holders so far. -/
structure Told (s : Search σ) (lines : List String) (p : Progress) : Prop where
  said : Said (s.holderLines p.holders.toList) lines p
  headed : p.holders.toList.isEmpty = !p.headed
  last : p.headed = false → p.lastHolder = none

theorem told_nil (s : Search σ) : Told s [] {} := ⟨⟨rfl, rfl⟩, rfl, fun _ => rfl⟩

/-- Nothing was said, and nobody was found. -/
theorem Told.quiet (h : Told s lines p) (hsilent : linesIn events = [])
    (hs : Search.SameReport p next) : Told s (lines ++ linesIn events) next := by
  obtain ⟨hholders, hlastHolder, hheaded, hlastLine⟩ := hs
  obtain ⟨⟨hlines, hsaid⟩, hhead, hlast⟩ := h
  refine ⟨⟨?_, ?_⟩, ?_, ?_⟩
  · rw [hsilent, List.append_nil, hholders, hlines]
  · rw [hlastLine, hholders, hsaid]
  · rw [hheaded, hholders, hhead]
  · rw [hheaded, hlastHolder]
    exact hlast

/-- Counting tells of nobody. -/
theorem Told.counted (h : Told s lines p) (tally : Tally) : Told s lines { p with tally } :=
  ⟨⟨h.said.lines_eq, h.said.last⟩, h.headed, h.last⟩

theorem Told.hosted (ht : Told s lines p) (h : Hosted events) :
    Told s (lines ++ linesIn events) p := ht.quiet h.linesIn ⟨rfl, rfl, rfl, rfl⟩

/-- A new holder is told of after the line above all holders. -/
theorem holderLines_concat (holders : List Holder) (h : Holder) :
    s.holderLines (holders ++ [h]) =
      (if holders.isEmpty then [Search.headLine s.text] else s.holderLines holders) ++ [h.line] := by
  cases holders with
  | nil => rfl
  | cons first rest => simp [Search.holderLines]

/-- The line above all holders is said before the first one only. -/
theorem said_of_heads (h : Search.Heads s p events next) (ht : Told s lines p) :
    Said (if p.holders.toList.isEmpty then [Search.headLine s.text]
        else s.holderLines p.holders.toList) (lines ++ linesIn events) next ∧
      next.headed = true ∧ next.holders = p.holders ∧ next.lastHolder = p.lastHolder := by
  obtain ⟨hsaid, hheaded, -⟩ := ht
  cases h with
  | done hdone =>
    rw [hdone] at hheaded
    refine ⟨?_, hdone, rfl, rfl⟩
    rw [hheaded, if_neg (by decide)]
    exact ⟨(List.append_nil _).trans hsaid.lines_eq, hsaid.last⟩
  | first hfirst hs =>
    rw [hfirst] at hheaded
    obtain ⟨-, hholders, hlastHolder⟩ := hs.sameHolders
    refine ⟨?_, rfl, hholders, hlastHolder⟩
    have hnone : s.holderLines p.holders.toList = [] := by
      rw [Search.holderLines, hheaded]
      rfl
    rw [hnone] at hsaid
    rw [hheaded, if_pos (by decide)]
    obtain ⟨hlines, hlast⟩ := hsaid.sends hs
    exact ⟨hlines, hlast⟩

theorem told_of_reports {process : Held} {r : Record}
    (h : Search.Reports s process r p events next) (ht : Told s lines p) :
    Told s (lines ++ linesIn events) next := by
  cases h with
  | known hh hl =>
    obtain ⟨hsaid, hheaded, hholders, hlastHolder⟩ := said_of_heads hh ht
    have hbefore : p.headed = true := by
      cases hp : p.headed with
      | false =>
        rw [hlastHolder, ht.last hp] at hl
        cases hl
      | true => rfl
    have hsome : p.holders.toList.isEmpty = false := by
      rw [ht.headed, hbefore]
      rfl
    rw [hsome, if_neg (by decide), ← hholders] at hsaid
    refine ⟨hsaid, ?_, ?_⟩
    · rw [hheaded, hholders, hsome]
      rfl
    · rw [hheaded]
      intro hfalse
      cases hfalse
  | @found heading sending headed sent path hh hl hs =>
    obtain ⟨hsaid, hheaded, hholders, -⟩ := said_of_heads hh ht
    obtain ⟨hsame, hsent, -⟩ := hs.sameHolders
    have hsaid' := hsaid.sends hs
    rw [← holderLines_concat, List.append_assoc] at hsaid'
    have hlines : linesIn (heading ++ .image process.id path ::
        (sending ++ [.holder ⟨r.pid, path, r.handleValue, r.grantedAccess⟩])) =
        linesIn heading ++ linesIn sending := by
      rw [linesIn_append, linesIn_cons rfl, linesIn_append, linesIn_cons rfl]
      exact congrArg _ (List.append_nil _)
    have hheaded' : sent.headed = true := hsame.trans hheaded
    refine ⟨?_, ?_, ?_⟩
    · rw [hlines, Array.toList_push, hsent, hholders]
      exact ⟨hsaid'.lines_eq, hsaid'.last⟩
    · rw [Array.toList_push, hheaded']
      simp
    · rw [hheaded']
      intro hfalse
      cases hfalse

theorem told_of_examines {process handle : Held} {r : Record}
    (h : Search.Examines s process handle r p events next) (ht : Told s lines p) :
    Told s (lines ++ linesIn events) next := by
  cases h with
  | passed kind _ => exact ht.hosted (hosted_singleton rfl)
  | unnamed ha =>
    refine ht.quiet ?_ ⟨rfl, rfl, rfl, rfl⟩
    rw [linesIn_cons rfl, linesIn_of_asks ha]
  | uncovered ha _ =>
    refine ht.quiet ?_ ⟨rfl, rfl, rfl, rfl⟩
    rw [linesIn_cons rfl, linesIn_of_asks ha]
  | @covered asking reporting _ _ ha _ hr =>
    rw [linesIn_cons rfl, linesIn_append, linesIn_of_asks ha]
    exact told_of_reports hr (ht.counted _)

theorem told_of_inspects {process : Held} {r : Record}
    (h : Search.Inspects s process r p events next) (ht : Told s lines p) :
    Told s (lines ++ linesIn events) next := by
  cases h with
  | failed hd => exact ht.hosted (hosted_of_duplicates hd)
  | @examined bringing examining closing handle _ hd he hr =>
    have hcounted : Told s lines (if process.isOwnProcess then p
        else { p with tally.duplicated := p.tally.duplicated + 1 }) := by
      split
      · exact ht
      · exact ht.counted _
    rw [linesIn_append, linesIn_append, (hosted_of_duplicates hd).linesIn,
      (hosted_of_releases hr).linesIn, List.append_nil]
    exact told_of_examines he hcounted

theorem linesIn_of_turns {pid : UInt64} (h : Search.Turns s pid p events next) :
    linesIn events = [] := by
  apply List.filterMap_eq_nil_iff.mpr
  exact h.forall_mem (fun _ _ => rfl) (fun _ => rfl) (fun _ _ _ _ => rfl)

theorem told_of_steps {r : Record} (h : Search.Steps s r p events next) (ht : Told s lines p) :
    Told s (lines ++ linesIn events) next := by
  cases h with
  | stopped hturn _ =>
    rw [linesIn_cons rfl]
    exact (ht.counted _).quiet (linesIn_of_turns hturn) hturn.sameReport
  | @attended turning attending turned _ hturn _ ha =>
    have hturned := (ht.counted _).quiet (linesIn_of_turns hturn) hturn.sameReport
    rw [linesIn_cons rfl, linesIn_append, ← List.append_assoc]
    cases ha with
    | unreached _ => exact hturned.hosted hosted_nil
    | ignored _ _ => exact hturned.hosted hosted_nil
    | inspected _ _ hi => exact told_of_inspects hi hturned

/-- A walk adds the lines of the holders that it adds. -/
theorem told_of_walks {records : List Record} (h : Search.Walks s records p events next)
    (ht : Told s lines p) : Told s (lines ++ linesIn events) next := by
  induction h generalizing lines with
  | done p => exact ht.hosted hosted_nil
  | stopped hs _ => exact told_of_steps hs ht
  | goesOn hs _ _ ih =>
    rw [linesIn_append, ← List.append_assoc]
    exact ih (told_of_steps hs ht)

/-! ## The whole report -/

/-- Up to its last line, a report tells of the holders, or it is a warning and there are none. -/
inductive Reported (s : Search σ) (lines : List String) (p : Progress) : Prop
  | holders (h : Said (s.holderLines p.holders.toList) lines p)
  | warning (text : String) (h : Said [text] lines p) (hp : p.holders = #[])

theorem said_nil : Said [] [] {} := ⟨rfl, rfl⟩

theorem reported_of_prepares {records : List Record} (h : Search.Prepares s records events p) :
    Reported s (linesIn events) p := by
  have hwarning : ∀ {front sending : List Event} {text : String} {next : Progress},
      Hosted front → Search.Sends {} text sending next →
      Reported s (linesIn (front ++ sending)) next := by
    intro front sending text next hf hs
    obtain ⟨-, hholders, -⟩ := hs.sameHolders
    rw [linesIn_append, hf.linesIn]
    exact .warning text (said_nil.sends hs) hholders
  have hgiving : ∀ {front giving : List Event} {p : Progress}, Hosted giving →
      Reported s (linesIn front) p → Reported s (linesIn (front ++ giving)) p := by
    intro front giving p hg hr
    rw [linesIn_append, hg.linesIn, List.append_nil]
    exact hr
  cases h with
  | empty _ => exact .holders said_nil
  | noArena fault _ hc hs => exact hwarning (hosted_of_isHeap hc) hs
  | @surveyed creating surveying giving _ _ hc hs hg =>
    rw [linesIn_append, (hosted_of_isHeap hc).linesIn]
    refine hgiving (hosted_of_isHeap hg) ?_
    cases hs with
    | unreadable fault hr hs => exact hwarning (hosted_of_reading hr) hs
    | @read reading going freeing _ hr hgo hf =>
      rw [linesIn_append, (hosted_of_reading hr).linesIn]
      refine hgiving (hosted_of_isHeap hf) ?_
      cases hgo with
      | noBuffer hh hs => exact hwarning (hosted_of_isHeap hh) hs
      | @walked taking walking closing giving' q ht hw hl hg' =>
        rw [linesIn_append, linesIn_append, linesIn_append, (hosted_of_isHeap ht).linesIn,
          (hosted_of_letsGo hl).linesIn, (hosted_of_isHeap hg').linesIn, List.append_nil,
          List.append_nil]
        obtain ⟨hsaid, -, -⟩ := told_of_walks hw (told_nil s)
        exact .holders ⟨hsaid.lines_eq, hsaid.last⟩

end FileHolders
