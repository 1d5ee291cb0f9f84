import FileHolders.Proofs.CodeUnits
import FileHolders.Search
import Mathlib.Data.List.DropRight

/-!
# Which names a target covers

A name is compared with a target unit by unit.  Said of the units: the exact rule takes the name of
just those units, the rule for beginnings every name that begins with them, and the rule for volumes
the name of the device and every name in which a separator follows it.  Said of texts, it is the
same with characters for units, since a cut between units never falls inside a character.

    t.covers n ↔ n.units = t.units                                          (covers_of_exact)
    t.covers n ↔ t.units <+: n.units                                     (covers_of_beginning)
    t.covers n ↔ n.units = t.units ∨ t.units ++ [separator] <+: n.units     (covers_of_volume)
    trimmed (Utf16.encode text) = Utf16.encode (trimmedText text)             (trimmed_encode)
-/

namespace FileHolders

theorem Name.startsWith_iff {n : Name} {units : List UInt16} :
    n.startsWith units = true ↔ units <+: n.units :=
  List.isPrefixOf_iff_prefix

namespace Target

/-! ## Units -/

section

variable {t : Target} {n : Name}

/-- Units that begin a name and are as many as its own are the name. -/
theorem eq_iff_of_isPrefix (h : t.units <+: n.units) : n.size = t.size ↔ n.units = t.units := by
  constructor
  · intro hsize
    exact (h.eq_of_length hsize.symm).symm
  · intro heq
    rw [Name.size, heq, size]

theorem covers_of_exact (ht : t.coverage = .exact) : t.covers n = true ↔ n.units = t.units := by
  rw [covers, acceptsLength, ht]
  simp only [Bool.and_eq_true, decide_eq_true_eq, Name.startsWith_iff]
  constructor
  · rintro ⟨hsize, hstarts⟩
    exact (eq_iff_of_isPrefix hstarts).mp hsize
  · intro heq
    have hstarts : t.units <+: n.units := by rw [heq]
    exact ⟨(eq_iff_of_isPrefix hstarts).mpr heq, hstarts⟩

theorem covers_of_beginning (ht : t.coverage = .beginning) :
    t.covers n = true ↔ t.units <+: n.units := by
  rw [covers, acceptsLength, ht]
  simp only [Bool.and_eq_true, decide_eq_true_eq, Name.startsWith_iff]
  exact ⟨fun h => h.2, fun h => ⟨h.length_le, h⟩⟩

/-- A separator stands right after the units that begin a name. -/
theorem separated_iff_of_isPrefix (h : t.units <+: n.units) :
    t.size < n.size ∧ n.units[t.size]? = some separator ↔ t.units ++ [separator] <+: n.units := by
  obtain ⟨rest, hrest⟩ := h
  rw [Name.size, ← hrest, List.prefix_append_right_inj, size,
    List.getElem?_append_right (Nat.le_refl _), Nat.sub_self]
  cases rest with
  | nil => simp
  | cons w rest => simp [eq_comm]

theorem covers_of_volume (ht : t.coverage = .volume) :
    t.covers n = true ↔ n.units = t.units ∨ t.units ++ [separator] <+: n.units := by
  rw [covers, acceptsLength, ht]
  simp only [Bool.and_eq_true, Bool.or_eq_true, decide_eq_true_eq, Name.startsWith_iff]
  constructor
  · rintro ⟨haccepts, hstarts⟩
    rw [eq_iff_of_isPrefix hstarts, separated_iff_of_isPrefix hstarts] at haccepts
    exact haccepts
  · intro h
    have hstarts : t.units <+: n.units := by
      rcases h with heq | hseparated
      · rw [heq]
      · exact (List.prefix_append _ _).trans hseparated
    rw [eq_iff_of_isPrefix hstarts, separated_iff_of_isPrefix hstarts]
    exact ⟨h, hstarts⟩

end

/-! ## Separators at the end -/

/-- A text without the backslashes at its end. -/
def trimmedText (text : String) : String := String.ofList (text.toList.rdropWhile (· = '\\'))

/-- A number of backslashes. -/
def backslashes (count : Nat) : String := String.ofList (List.replicate count '\\')

theorem unitsOf_backslash : Utf16.unitsOf '\\' = [separator] := by decide

/-- Only the backslash is written as a separator. -/
theorem separator_notMem_unitsOf {c : Char} (h : c ≠ '\\') : separator ∉ Utf16.unitsOf c := by
  have hwritten := Utf16.written_unitsOf c
  generalize Utf16.unitsOf c = units at hwritten
  cases hwritten with
  | single hc _ _ =>
    rw [List.mem_singleton]
    rintro rfl
    exact h (Char.toNat_inj.mp hc.symm)
  | pair hl ht =>
    rw [List.mem_pair]
    rintro (rfl | rfl)
    · cases hl
    · cases ht

theorem trimmed_eq (units : List UInt16) : trimmed units = units.rdropWhile (· == separator) := rfl

theorem trimmed_append_of_notMem {units last : List UInt16} (hlast : last ≠ [])
    (hs : separator ∉ last) : trimmed (units ++ last) = units ++ last := by
  rw [trimmed_eq, List.rdropWhile_eq_self_iff]
  intro hne heq
  rw [List.getLast_append_of_ne_nil _ hlast, beq_iff_eq] at heq
  exact hs (heq ▸ List.getLast_mem hlast)

/-- Taking the separators off the units and the backslashes off the text come to the same. -/
theorem trimmed_flatMap_unitsOf (cs : List Char) : trimmed (cs.flatMap Utf16.unitsOf) =
    (cs.rdropWhile (· = '\\')).flatMap Utf16.unitsOf := by
  induction cs using List.reverseRecOn with
  | nil => rfl
  | append_singleton cs c ih =>
    by_cases hc : c = '\\'
    · rw [List.flatMap_append, List.flatMap_singleton, hc, unitsOf_backslash, trimmed_eq,
        List.rdropWhile_concat_pos _ _ _ (by simp), List.rdropWhile_concat_pos _ _ _ (by simp),
        ← trimmed_eq, ih]
    · rw [List.rdropWhile_concat_neg _ _ _ (by simpa using hc), List.flatMap_append,
        List.flatMap_singleton]
      exact trimmed_append_of_notMem (Utf16.unitsOf_ne_nil c) (separator_notMem_unitsOf hc)

theorem trimmed_encode (text : String) :
    trimmed (Utf16.encode text) = Utf16.encode (trimmedText text) := by
  rw [trimmedText, Utf16.encode_ofList, Utf16.encode, trimmed_flatMap_unitsOf]

theorem trimmedText_append_backslashes (text : String) (count : Nat) :
    trimmedText (text ++ backslashes count) = trimmedText text := by
  rw [trimmedText, trimmedText, backslashes, String.toList_append, String.toList_ofList]
  induction count with
  | zero => rw [List.replicate_zero, List.append_nil]
  | succ count ih =>
    rw [List.replicate_succ', ← List.append_assoc, List.rdropWhile_concat_pos _ _ _ (by simp), ih]

/-! ## Texts -/

/-- Whether a search for a text with these options takes a name of these units for its target. -/
def takes (text : String) (o : Options) (units : List UInt16) : Prop :=
  (ofString text o.coverage).covers ⟨units⟩ = true

section

variable {text : String} {o : Options} {units : List UInt16}

theorem takes_of_exact (hv : o.wholeVolume = false) (hp : o.partialMatch = false) :
    takes text o units ↔ units = Utf16.encode text := by
  have ho : o.coverage = .exact := by simp [Options.coverage, hv, hp]
  rw [takes, ho]
  exact covers_of_exact rfl

theorem takes_of_beginning (hv : o.wholeVolume = false) (hp : o.partialMatch = true) :
    takes text o units ↔ Utf16.encode text <+: units := by
  have ho : o.coverage = .beginning := by simp [Options.coverage, hv, hp]
  rw [takes, ho]
  exact covers_of_beginning rfl

theorem takes_of_volume (hv : o.wholeVolume = true) :
    takes text o units ↔ units = Utf16.encode (trimmedText text) ∨
      Utf16.encode (trimmedText text) ++ [separator] <+: units := by
  have ho : o.coverage = .volume := by simp [Options.coverage, hv]
  rw [takes, ho, ← trimmed_encode]
  exact covers_of_volume rfl

end

/-- What a search for a text takes for its target, under each rule. -/
structure CoversAsText (text : String) : Prop where
  exact : ∀ o : Options, o.wholeVolume = false → o.partialMatch = false → ∀ units,
    takes text o units ↔ units = Utf16.encode text
  beginning : ∀ o : Options, o.wholeVolume = false → o.partialMatch = true → ∀ units,
    takes text o units ↔ Utf16.encode text <+: units
  /-- A volume goes before a beginning. -/
  volume : ∀ o : Options, o.wholeVolume = true → ∀ units,
    takes text o units ↔ units = Utf16.encode (trimmedText text) ∨
      Utf16.encode (trimmedText text) ++ [separator] <+: units
  exact_text : ∀ o : Options, o.wholeVolume = false → o.partialMatch = false → ∀ s : String,
    takes text o (Utf16.encode s) ↔ s = text
  beginning_text : ∀ o : Options, o.wholeVolume = false → o.partialMatch = true → ∀ s : String,
    takes text o (Utf16.encode s) ↔ text.toList <+: s.toList
  volume_text : ∀ o : Options, o.wholeVolume = true → ∀ s : String,
    takes text o (Utf16.encode s) ↔
      s = trimmedText text ∨ (trimmedText text ++ "\\").toList <+: s.toList
  /-- A cut behind the units of the text is a cut between characters. -/
  between : ∀ (s : String) (more : List UInt16), Utf16.encode text ++ more = Utf16.encode s →
    ∃ rest, s = text ++ rest ∧ more = Utf16.encode rest
  lone : ∀ o : Options, o.wholeVolume = false → o.partialMatch = false → ∀ units,
    Utf16.HasLone units → ¬ takes text o units
  /-- Backslashes at the end of the text do not matter for a volume. -/
  ends : ∀ o : Options, o.wholeVolume = true → ∀ units count,
    takes (text ++ backslashes count) o units ↔ takes text o units
  /-- A name that goes on with anything else than a separator is of another volume. -/
  siblings : ∀ o : Options, o.wholeVolume = true → ∀ w rest, w ≠ separator →
    ¬ takes text o (Utf16.encode (trimmedText text) ++ w :: rest)

/-- Whatever the text and the name are, the name is taken for the target by its units, and so by its
characters. -/
theorem covers_as_text (text : String) : CoversAsText text where
  exact := fun _ hv hp _ => takes_of_exact hv hp
  beginning := fun _ hv hp _ => takes_of_beginning hv hp
  volume := fun _ hv _ => takes_of_volume hv
  exact_text := fun _ hv hp _ => (takes_of_exact hv hp).trans Utf16.encode_eq_iff
  beginning_text := fun _ hv hp _ => (takes_of_beginning hv hp).trans Utf16.encode_isPrefix_iff
  volume_text := by
    intro o hv s
    have hseparator : Utf16.encode (trimmedText text) ++ [separator] =
        Utf16.encode (trimmedText text ++ "\\") := by
      rw [Utf16.encode_append]
      rfl
    rw [takes_of_volume hv, Utf16.encode_eq_iff, hseparator, Utf16.encode_isPrefix_iff]
  between := fun _ _ h => Utf16.exists_rest_of_encode_append h
  lone := by
    intro o hv hp units hlone htakes
    exact Utf16.encode_ne_of_hasLone hlone text ((takes_of_exact hv hp).mp htakes).symm
  ends := by
    intro o hv units count
    rw [takes_of_volume hv, takes_of_volume hv, trimmedText_append_backslashes]
  siblings := by
    intro o hv w rest hw htakes
    rcases (takes_of_volume hv).mp htakes with heq | hseparated
    · simp at heq
    · rw [List.prefix_append_right_inj] at hseparated
      exact hw (by simpa [eq_comm] using hseparated)

end Target

end FileHolders
