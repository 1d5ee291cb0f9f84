import FileHolders.Proofs.Emission
import FileHolders.Simulation.System
import FileHolders.Windows.Volume

/-!
# Spellings of a path on a drive

A path on a drive may be written with the mark or without it, with its letter in either case and
with slashes of either kind.  All of that is passed over, so two spellings of one path refer to the
same thing: the device of the drive decides, and the rest of the path once its slashes are turned.

The root of a drive is the exception.  It is taken for the whole drive before the slashes are
turned, so `X:` and `X:\` are the whole drive and `X:/` is not.

    DrivePath.split a.text = some ⟨a.drive, a.rest⟩                                   (split_text)
    (p.resolve a.text).run x is the device of a.drive with a.rest behind it     (resolve_text)
    a.Same b → (a.rest = ['/'] ↔ b.rest = ['/']) → both refer to the same     (resolve_spelled)
-/

namespace FileHolders.Windows

open FileHolders.Action

/-! ## Spellings -/

/-- A path on a drive, as it is written. -/
structure Spelling where
  /-- The path begins with the mark that it is to be taken literally. -/
  marked : Bool
  letter : Char
  rest : List Char
  isAlpha : letter.isAlpha = true
  isRooted : DrivePath.isRooted rest = true

namespace Spelling

/-- The mark that a path is to be taken literally. -/
def mark : List Char := ['\\', '\\', '?', '\\']

def text (a : Spelling) : String :=
  String.ofList ((if a.marked then mark else []) ++ a.letter :: ':' :: a.rest)

/-- The letter of the drive in upper case. -/
def drive (a : Spelling) : Char := a.letter.toUpper

/-- The rest of the path with every slash turned the one way. -/
def turned (a : Spelling) : List Char := a.rest.map fun c => if c = '/' then '\\' else c

/-- Two spellings of one path. -/
def Same (a b : Spelling) : Prop := a.drive = b.drive ∧ a.turned = b.turned

/-- A spelling of the root of a drive. -/
def IsRoot (a : Spelling) : Prop := a.turned = [] ∨ a.turned = ['\\']

/-! ## Reading a spelling -/

theorem unmarked_text (a : Spelling) :
    DrivePath.unmarked a.text.toList = a.letter :: ':' :: a.rest := by
  rw [text, String.toList_ofList]
  cases a.marked with
  | false => exact DrivePath.unmarked_of_isAlpha a.isAlpha _
  | true => rfl

/-- A path is split into its drive and its rest, however it is spelled. -/
theorem split_text (a : Spelling) : DrivePath.split a.text = some ⟨a.drive, a.rest⟩ := by
  rw [DrivePath.split, DrivePath.splitChars_eq_some_iff]
  exact ⟨a.letter, a.unmarked_text, a.isAlpha, a.isRooted, rfl⟩

/-- No spelling of a path on a drive is the name of an object. -/
theorem isObjectName_text (a : Spelling) : isObjectName a.text = false := by
  rw [isObjectName, text, String.toList_ofList]
  cases a.marked with
  | true => rfl
  | false =>
    have hletter : a.letter ≠ '\\' := by
      intro h
      have halpha := a.isAlpha
      rw [h] at halpha
      revert halpha
      decide
    simp [hletter]

/-- Of the three spellings of a root, two are those of the whole drive. -/
theorem whole_iff (a : Spelling) :
    a.rest = [] ∨ a.rest = ['\\'] ↔ a.IsRoot ∧ a.rest ≠ ['/'] := by
  rw [IsRoot, turned]
  constructor
  · rintro (h | h)
    · simp [h]
    · simp [h]
  · rintro ⟨h | h, hs⟩
    · exact .inl (List.map_eq_nil_iff.mp h)
    · obtain ⟨c, hrest, hc⟩ := List.map_eq_singleton_iff.mp h
      rw [hrest] at hs ⊢
      split at hc
      · rename_i hslash
        exact absurd (congrArg (fun c => [c]) hslash) hs
      · exact .inr (congrArg (fun c => [c]) hc)

theorem Same.isRoot_iff {a b : Spelling} (h : a.Same b) : a.IsRoot ↔ b.IsRoot := by
  rw [IsRoot, IsRoot, h.2]

end Spelling

/-! ## What a spelling refers to -/

/-- A rest of a path on a device. -/
def Destination.on (rest : List Char) (device : String) : Destination :=
  if rest = [] ∨ rest = ['\\'] then { name := device, wholeDrive := true }
  else { name := DrivePath.join device rest, wholeDrive := false }

namespace Platform

variable {σ : Type}

/-- What a path refers to is found by asking for the device of its drive, and by nothing else. -/
theorem resolve_text (p : Platform σ) (a : Spelling) (x : Session σ) :
    ((p.resolve a.text).run x).1.toOption =
        ((p.deviceOf a.drive).run x).1.map (Destination.on a.rest) ∧
      ((p.resolve a.text).run x).2 = ((p.deviceOf a.drive).run x).2 := by
  change Yields (p.resolve a.text) x fun answer t =>
    answer.toOption = ((p.deviceOf a.drive).run x).1.map (Destination.on a.rest) ∧
      t = ((p.deviceOf a.drive).run x).2
  have hdevice : Yields (p.deviceOf a.drive) x fun device t =>
      device = ((p.deviceOf a.drive).run x).1 ∧ t = ((p.deviceOf a.drive).run x).2 := ⟨rfl, rfl⟩
  unfold resolve
  rw [a.isObjectName_text, a.split_text]
  dsimp only
  rw [if_neg Bool.false_ne_true]
  by_cases hwhole : a.rest = [] ∨ a.rest = ['\\']
  · rw [if_pos (by simpa [DrivePath.isWholeDrive] using hwhole)]
    refine hdevice.bind ?_
    rintro device t ⟨hd, rfl⟩
    rw [← hd]
    cases device with
    | none => exact yields_pure ⟨rfl, rfl⟩
    | some device => exact yields_pure ⟨congrArg some (if_pos hwhole).symm, rfl⟩
  · rw [if_neg (by simpa [DrivePath.isWholeDrive] using hwhole)]
    unfold kernelPath
    rw [a.split_text, bind_assoc]
    refine hdevice.bind ?_
    rintro device t ⟨hd, rfl⟩
    rw [← hd]
    cases device with
    | none => exact yields_pure ⟨rfl, rfl⟩
    | some device => exact yields_pure ⟨congrArg some (if_neg hwhole).symm, rfl⟩

/-! ## The spelling of a path -/

/-- The spelling of a path does not matter, and its root is always the whole drive. -/
structure SpelledFreely (p : Platform σ) (x : Session σ) : Prop where
  same : ∀ a b : Spelling, a.Same b →
    ((p.resolve a.text).run x).1.toOption = ((p.resolve b.text).run x).1.toOption
  root : ∀ a : Spelling, a.IsRoot → ((p.resolve a.text).run x).1.toOption =
    ((p.deviceOf a.drive).run x).1.map fun device => { name := device, wholeDrive := true }

/-- The spelling of a path does not matter, but for a root that is spelled with a slash. -/
structure SpelledAlmostFreely (p : Platform σ) (x : Session σ) : Prop where
  same : ∀ a b : Spelling, a.Same b → (a.rest = ['/'] ↔ b.rest = ['/']) →
    ((p.resolve a.text).run x).1.toOption = ((p.resolve b.text).run x).1.toOption ∧
      ((p.resolve a.text).run x).2 = ((p.resolve b.text).run x).2
  root : ∀ a : Spelling, a.IsRoot → a.rest ≠ ['/'] → ((p.resolve a.text).run x).1.toOption =
    ((p.deviceOf a.drive).run x).1.map fun device => { name := device, wholeDrive := true }
  /-- That root is the path of a backslash on the device, and not the whole drive. -/
  slash : ∀ a : Spelling, a.rest = ['/'] → ((p.resolve a.text).run x).1.toOption =
    ((p.deviceOf a.drive).run x).1.map fun device =>
      { name := device ++ "\\", wholeDrive := false }

/-- Two spellings of one path come to the same on every device, unless just one of them is a root
with a slash. -/
theorem on_rest_of_same {a b : Spelling} (h : a.Same b) (hs : a.rest = ['/'] ↔ b.rest = ['/'])
    (device : String) : Destination.on a.rest device = Destination.on b.rest device := by
  have hwhole : a.rest = [] ∨ a.rest = ['\\'] ↔ b.rest = [] ∨ b.rest = ['\\'] := by
    rw [a.whole_iff, b.whole_iff, h.isRoot_iff, Ne, hs]
  unfold Destination.on
  by_cases ha : a.rest = [] ∨ a.rest = ['\\']
  · rw [if_pos ha, if_pos (hwhole.mp ha)]
  · rw [if_neg ha, if_neg (not_congr hwhole |>.mp ha)]
    have hjoin : DrivePath.join device a.rest = DrivePath.join device b.rest :=
      congrArg (device ++ String.ofList ·) h.2
    rw [hjoin]

theorem resolve_spelled (p : Platform σ) (x : Session σ) : SpelledAlmostFreely p x where
  same := by
    intro a b h hs
    obtain ⟨ha, hax⟩ := p.resolve_text a x
    obtain ⟨hb, hbx⟩ := p.resolve_text b x
    rw [ha, hax, hb, hbx, h.1, funext (on_rest_of_same h hs)]
    exact ⟨rfl, rfl⟩
  root := by
    intro a hroot hs
    rw [(p.resolve_text a x).1]
    exact congrArg (Option.map · _) (funext fun _ => if_pos (a.whole_iff.mpr ⟨hroot, hs⟩))
  slash := by
    intro a hrest
    rw [(p.resolve_text a x).1, hrest]
    rfl

/-- A system with one drive. -/
def oneDrive : Simulation.System where
  setup :=
    { drive? := fun name =>
        if name = "E:" then some (.device (Utf16.encode "\\Device\\V")) else none }

/-- The root of a drive is not the whole drive where it is spelled with a slash. -/
theorem slash_misses_drive : ¬ SpelledFreely oneDrive.platform { host := oneDrive } := by
  intro h
  have hroot := h.root ⟨false, 'E', ['/'], by decide, by decide⟩ (.inr rfl)
  revert hroot
  decide +kernel

end Platform

end FileHolders.Windows
