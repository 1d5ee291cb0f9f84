import FileHolders.Proofs.Transcript

/-!
# The whole report

What follows from the transcript of a search for the lines and the holders that the reporter hears:
the lines are the warning, the line above the holders and those of the holders without repetitions,
and the last line; no line repeats the one before it; and each holder is introduced by its line.

    linesIn (s.transcript obstacle o) = warnings ++ destuttered ++ [s.summary o]
                                                                          (linesIn_transcript)
    s.transcript obstacle o = before ++ .holder h :: rest → Introduces before h
                                                                   (introduces_of_transcript)
    ReportedInFull s (s.obstacle? x) (eventsOf s.run x) outcome             (reported_in_full)
-/

namespace FileHolders

open FileHolders.Action

variable {σ : Type}

/-! ## Lines and holders of a transcript -/

/-- The holders that were reported, in order. -/
def holdersIn (events : List Event) : List Holder := events.filterMap Event.holder?

/-- Whether a line is a warning. -/
def Search.IsWarning (line : String) : Prop := "Warning: ".toList <+: line.toList

instance (line : String) : Decidable (Search.IsWarning line) :=
  inferInstanceAs (Decidable (_ <+: _))

section

variable {s : Search σ}

theorem linesIn_transcript (obstacle : Option Obstacle) (o : Outcome) :
    linesIn (s.transcript obstacle o) = obstacle.toList.map Obstacle.warning ++
      (s.holderLines o.holders).destutter (· ≠ ·) ++ [s.summary o] := by
  rw [Search.transcript, linesIn_append, linesIn_append, linesIn_holderTranscript]
  cases obstacle with
  | none => rfl
  | some b => rfl

theorem holdersIn_transcriptOf (events : List Event) :
    holdersIn (transcriptOf events) = holdersIn events := by
  rw [holdersIn, transcriptOf, List.filterMap_filter]
  apply List.filterMap_congr
  intro e _
  cases e <;> rfl

theorem holdersIn_heardAfter (last : String) (holders : List Holder) :
    holdersIn (heardAfter last holders) = holders := by
  induction holders generalizing last with
  | nil => rfl
  | cons h rest ih =>
    have hline : holdersIn (if last = h.line then [] else [.line h.line]) = [] := by
      split <;> rfl
    rw [heardAfter, holdersIn, List.filterMap_append]
    show holdersIn _ ++ h :: holdersIn _ = _
    rw [hline, ih, List.nil_append]

theorem holdersIn_transcript (obstacle : Option Obstacle) (o : Outcome) :
    holdersIn (s.transcript obstacle o) = o.holders := by
  have hheard : holdersIn (s.holderTranscript o.holders) = o.holders := by
    unfold Search.holderTranscript
    split
    · rename_i hempty
      rw [List.isEmpty_iff.mp hempty]
      rfl
    · exact holdersIn_heardAfter _ _
  rw [Search.transcript, holdersIn, List.filterMap_append, List.filterMap_append]
  show _ ++ holdersIn _ ++ [] = _
  rw [hheard, List.append_nil]
  cases obstacle with
  | none => rfl
  | some b => rfl

/-- What was heard last is the line of a holder, or another holder with that line. -/
def Introduces (heard : List Event) (h : Holder) : Prop :=
  (∃ front, heard = front ++ [.line h.line]) ∨
    ∃ front earlier, heard = front ++ [.holder earlier] ∧ earlier.line = h.line

theorem Introduces.after {heard : List Event} {h : Holder} (hi : Introduces heard h)
    (before : List Event) : Introduces (before ++ heard) h := by
  rcases hi with ⟨front, rfl⟩ | ⟨front, earlier, rfl, hl⟩
  · exact .inl ⟨before ++ front, by rw [List.append_assoc]⟩
  · exact .inr ⟨before ++ front, earlier, by rw [List.append_assoc], hl⟩

/-- Where holders are told of one after the other, each is introduced, the first one perhaps by the
line before all of them. -/
theorem introduces_of_heardAfter {last text : String} {holders : List Holder}
    {before rest : List Event} {h : Holder}
    (he : heardAfter last holders ++ [.line text] = before ++ .holder h :: rest) :
    Introduces before h ∨ (before = [] ∧ last = h.line) := by
  induction holders generalizing last before with
  | nil =>
    cases before with
    | nil => cases he
    | cons e before => simp [heardAfter] at he
  | cons first holders ih =>
    -- what is left after the first holder was heard
    have hlater : ∀ {before : List Event}, .holder first :: (heardAfter first.line holders ++
        [.line text]) = before ++ .holder h :: rest →
        Introduces before h ∨ (before = [] ∧ first = h) := by
      intro before he
      cases before with
      | nil =>
        obtain ⟨hfirst, -⟩ := List.cons.inj he
        exact .inr ⟨rfl, Event.holder.inj hfirst⟩
      | cons e before =>
        obtain ⟨rfl, htail⟩ := List.cons.inj he
        rcases ih htail with hi | ⟨rfl, hl⟩
        · exact .inl (hi.after [.holder first])
        · exact .inl (.inr ⟨[], first, rfl, hl⟩)
    rw [heardAfter] at he
    by_cases hl : last = first.line
    · rw [if_pos hl] at he
      rcases hlater he with hi | ⟨rfl, rfl⟩
      · exact .inl hi
      · exact .inr ⟨rfl, hl⟩
    · rw [if_neg hl] at he
      cases before with
      | nil => cases he
      | cons e before =>
        obtain ⟨rfl, htail⟩ := List.cons.inj he
        rcases hlater htail with hi | ⟨rfl, rfl⟩
        · exact .inl (hi.after [.line first.line])
        · exact .inl (.inl ⟨[], rfl⟩)

theorem introduces_of_holderTranscript {text : String} {holders : List Holder}
    {before rest : List Event} {h : Holder}
    (he : s.holderTranscript holders ++ [.line text] = before ++ .holder h :: rest) :
    Introduces before h := by
  unfold Search.holderTranscript at he
  split at he
  · cases before with
    | nil => cases he
    | cons e before => simp at he
  · cases before with
    | nil => cases he
    | cons e before =>
      obtain ⟨rfl, htail⟩ := List.cons.inj he
      rcases introduces_of_heardAfter htail with hi | ⟨-, hl⟩
      · exact hi.after [.line (Search.headLine s.text)]
      · have hhead := Search.head?_headLine s.text
        rw [hl, Search.head?_line] at hhead
        cases hhead

theorem introduces_of_transcript {obstacle : Option Obstacle} {o : Outcome}
    {before rest : List Event} {h : Holder}
    (he : s.transcript obstacle o = before ++ .holder h :: rest) : Introduces before h := by
  rw [Search.transcript, List.append_assoc] at he
  cases obstacle with
  | none => exact introduces_of_holderTranscript he
  | some b =>
    cases before with
    | nil => cases he
    | cons e before =>
      obtain ⟨rfl, htail⟩ := List.cons.inj he
      exact (introduces_of_holderTranscript htail).after [.line b.warning]

/-! ### Which lines are warnings, and which are last -/

theorem mem_holderLines {holders : List Holder} {line : String} (h : line ∈ s.holderLines holders) :
    line = Search.headLine s.text ∨ ∃ holder ∈ holders, line = holder.line := by
  unfold Search.holderLines at h
  split at h
  · cases h
  · rcases List.mem_cons.mp h with rfl | h
    · exact .inl rfl
    · obtain ⟨holder, hmem, rfl⟩ := List.mem_map.mp h
      exact .inr ⟨holder, hmem, rfl⟩

theorem closes_summary (o : Outcome) : s.Closes (s.summary o) := by
  unfold Search.summary
  split
  · exact .inl rfl
  · exact .inr rfl

theorem not_closes_warning (b : Obstacle) : ¬ s.Closes b.warning := by
  cases b with
  | noArena fault => exact Search.not_closes_unreadableLine _
  | unreadable fault => exact Search.not_closes_unreadableLine fault
  | noBuffer => exact Search.not_closes_noBufferLine

/-- A search finds if and only if it has a holder and was not cancelled. -/
theorem found_iff_of_runs {records : List Record} {events : List Event} {o : Outcome}
    (h : Search.Runs s records events o) :
    o.found = true ↔ o.holders ≠ [] ∧ o.cancelled = false := by
  cases h with
  | ended _ _ => simp [Progress.outcome]

theorem isWarning_warning (b : Obstacle) : Search.IsWarning b.warning := by
  have hunreadable : ∀ fault, Search.IsWarning (Search.unreadableLine fault) := by
    intro fault
    have hfront : "Warning: ".toList <+:
        (toString "Warning: Could not enumerate process handles: ").toList := by decide
    unfold Search.IsWarning Search.unreadableLine
    rw [String.toList_append]
    exact hfront.trans (List.prefix_append _ _)
  cases b with
  | noArena fault => exact hunreadable _
  | unreadable fault => exact hunreadable fault
  | noBuffer => decide

theorem not_isWarning_of_head? {line : String} {c : Char} (h : line.toList.head? = some c)
    (hc : c ≠ 'W') : ¬ Search.IsWarning line := by
  rintro ⟨rest, hrest⟩
  have hhead : line.toList.head? = some 'W' := by
    rw [← hrest]
    rfl
  exact hc (Option.some.inj (h.symm.trans hhead))

/-- The lines of a transcript before the last one are a warning or tell of holders. -/
theorem filter_isWarning_transcript (obstacle : Option Obstacle) (o : Outcome) :
    (linesIn (s.transcript obstacle o)).filter (Search.IsWarning ·) =
      obstacle.toList.map Obstacle.warning := by
  have hsummary : ¬ Search.IsWarning (s.summary o) := by
    unfold Search.summary
    split
    · exact not_isWarning_of_head? Search.head?_foundLine (by decide)
    · exact not_isWarning_of_head? (Search.head?_notFoundLine _ _) (by decide)
  have hholders : ∀ line ∈ (s.holderLines o.holders).destutter (· ≠ ·),
      ¬ Search.IsWarning line := by
    intro line hline
    rcases mem_holderLines ((List.destutter_sublist _ _).subset hline) with rfl | ⟨h, -, rfl⟩
    · exact not_isWarning_of_head? (Search.head?_headLine _) (by decide)
    · exact not_isWarning_of_head? (Search.head?_line h) (by decide)
  have hwarning : ∀ line ∈ obstacle.toList.map Obstacle.warning, Search.IsWarning line := by
    intro line hline
    obtain ⟨b, -, rfl⟩ := List.mem_map.mp hline
    exact isWarning_warning b
  rw [linesIn_transcript, List.filter_append, List.filter_append,
    List.filter_eq_self.mpr (by simpa using hwarning),
    List.filter_eq_nil_iff.mpr (by simpa using hholders),
    List.filter_eq_nil_iff.mpr (by simpa using hsummary), List.append_nil, List.append_nil]

/-- No line repeats the one before it. -/
theorem isChain_linesIn_transcript {obstacle : Option Obstacle} {o : Outcome}
    (ho : obstacle.isSome = true → o.holders = []) :
    (linesIn (s.transcript obstacle o)).IsChain (· ≠ ·) := by
  have hbody : ∀ line ∈ obstacle.toList.map Obstacle.warning ++
      (s.holderLines o.holders).destutter (· ≠ ·), ¬ s.Closes line := by
    intro line hline
    rcases List.mem_append.mp hline with hline | hline
    · obtain ⟨b, -, rfl⟩ := List.mem_map.mp hline
      exact not_closes_warning b
    · rcases mem_holderLines ((List.destutter_sublist _ _).subset hline) with rfl | ⟨h, -, rfl⟩
      · exact Search.not_closes_headLine
      · exact Search.not_closes_line h
  rw [linesIn_transcript, List.isChain_append]
  refine ⟨?_, List.isChain_singleton _, ?_⟩
  · cases obstacle with
    | none => exact List.isChain_destutter _ _
    | some b =>
      rw [ho rfl]
      exact List.isChain_singleton _
  · rintro line hline last hlast rfl
    obtain rfl : s.summary o = line := by simpa using hlast
    exact hbody _ (List.mem_of_getLast? hline) (closes_summary o)

end

/-! ## The whole report -/

/-- The report of a search on an outcome, when the search met an obstacle or none. -/
structure ReportedInFull (s : Search σ) (obstacle : Option Obstacle) (events : List Event)
    (o : Outcome) : Prop where
  /-- The warning, the line above the holders and those of the holders without repetitions, and the
  last line, which nothing can suppress. -/
  lines : linesIn events = obstacle.toList.map Obstacle.warning ++
    (s.holderLines o.holders).destutter (· ≠ ·) ++ [s.summary o]
  warnings : (linesIn events).filter (Search.IsWarning ·) = obstacle.toList.map Obstacle.warning
  obstructed : obstacle.isSome = true → o.holders = []
  found : o.found = true ↔ o.holders ≠ [] ∧ o.cancelled = false
  neighbours : (linesIn events).IsChain (· ≠ ·)
  /-- The reporter hears of each holder once, in order. -/
  holders : holdersIn events = o.holders
  /-- It does so right after the line of the holder, or where that line was suppressed. -/
  introduced : ∀ before h rest, transcriptOf events = before ++ .holder h :: rest →
    Introduces before h
  transcript : transcriptOf events = s.transcript obstacle o

namespace Search

/-- The reporter hears of the holders of the outcome. -/
theorem holdersIn_run (s : Search σ) (x : Session σ) :
    holdersIn (eventsOf s.run x) = (s.run.run x).1.holders := by
  rw [← holdersIn_transcriptOf, (s.transcriptOf_run x).1, holdersIn_transcript]

/-- Each holder is introduced by its line. -/
theorem introduces_of_run (s : Search σ) {x : Session σ} {before rest : List Event} {h : Holder}
    (he : transcriptOf (eventsOf s.run x) = before ++ .holder h :: rest) : Introduces before h := by
  rw [(s.transcriptOf_run x).1] at he
  exact introduces_of_transcript he

/-- Whatever the host answers, and whatever the names are, a search is reported in full. -/
theorem reported_in_full (s : Search σ) (x : Session σ) :
    ReportedInFull s (s.obstacle? x) (eventsOf s.run x) (s.run.run x).1 := by
  obtain ⟨htranscript, hobstructed⟩ := s.transcriptOf_run x
  have hlines := linesIn_transcriptOf (eventsOf s.run x)
  rw [htranscript] at hlines
  have hfound := found_iff_of_runs (s.emits_run x).eventsOf
  refine ⟨?_, ?_, hobstructed, hfound, ?_, s.holdersIn_run x, ?_, htranscript⟩
  · rw [← hlines, linesIn_transcript]
  · rw [← hlines, filter_isWarning_transcript]
  · rw [← hlines]
    exact isChain_linesIn_transcript hobstructed
  · intro before h rest he
    exact s.introduces_of_run he

end Search

end FileHolders
