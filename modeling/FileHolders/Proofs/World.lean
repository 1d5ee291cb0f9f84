import FileHolders.Proofs.Layout
import FileHolders.Search

/-!
# Worlds

A world says what a machine answers, by what it is asked about: a process always opens with the same
status, a handle of a process always refers to the same thing.  A host is steady in a world if it
answers so, whatever it was asked before (`Steady`).  It is only held to that while the caller has
at most a process and one handle of that process in hand (`Hand`).

Every world has a host that is steady in it.

    Steady (w.host own) w room fun x hand => x = hand                                (steady_host)
-/

namespace FileHolders

/-- The answers of a machine, by what it is asked about. -/
structure World where
  /-- The table of all open handles. -/
  table : List Record
  /-- Whether an entry point is there. -/
  has : Capability → Bool
  /-- The status of opening a process. -/
  opening : UInt64 → Status
  /-- The status of bringing a handle of a process into the caller. -/
  duplication : UInt64 → UInt64 → Status
  /-- What kind of thing a handle of a process refers to. -/
  kind : UInt64 → UInt64 → FileKind
  /-- The name of that thing, or the status of asking for it. -/
  name : UInt64 → UInt64 → Except Status Name
  /-- The path of the program that a process runs. -/
  image : UInt64 → Option String
  size_name : ∀ pid value n, name pid value = .ok n → n.size ≤ 32766
  kind_name : ∀ pid value status, name pid value = .error status →
    status.isSuccess = false ∧ status.kind ≠ .bufferTooSmall

/-! ## What the caller has in hand -/

/-- The handles that the caller was handed out and has not closed. -/
inductive Hand where
  | empty
  /-- A process, and the handle that stands for it. -/
  | process (pid : UInt64) (h : HandleId)
  /-- That, and a handle for what one of the handles of the process refers to. -/
  | object (pid : UInt64) (h : HandleId) (value : UInt64) (d : HandleId)
deriving DecidableEq, Repr

namespace Hand

/-- Whether a handle stands for a process.  With nothing in hand, only the stand-in for the caller
does. -/
def IsProcess (own : UInt64) (h : HandleId) (pid : UInt64) : Hand → Prop
  | empty => h = .ownProcess ∧ pid = own
  | process pid' h' => h = h' ∧ pid = pid'
  | object pid' h' _ _ => h = h' ∧ pid = pid'

/-- Whether a handle of the caller refers to the same thing as a handle of a process.  With nothing in
hand, every handle is the caller's own. -/
def Refers (own : UInt64) (h : HandleId) (pid value : UInt64) : Hand → Prop
  | empty => h = .ofWord value ∧ pid = own
  | process _ _ => False
  | object pid' _ value' d => h = d ∧ pid = pid' ∧ value = value'

end Hand

/-! ## Answers of a world -/

namespace World

/-- The table is written into a buffer that has room for it; a shorter one is refused for its
length. -/
def AnswersTable (w : World) (b : Block) (a : QueryReply) : Prop :=
  if b.size.toNat < Table.sizeFor w.table.length then a.status.kind = .bufferTooSmall
  else a.status.kind = .success ∧ (b.withContents a.contents).HoldsTable w.table

/-- A name is written into a buffer that has room for it; a shorter one is refused for its length,
with the size that is needed.  What has no name is refused. -/
def AnswersName (w : World) (pid value : UInt64) (b : Block) (a : QueryReply) : Prop :=
  match w.name pid value with
  | .ok n =>
    if b.size.toNat < Name.sizeFor n.units then
      a.status.kind = .bufferTooSmall ∧ a.length = some (Name.sizeFor n.units).toUInt32
    else a.status.kind = .success ∧ (b.withContents a.contents).HoldsName n.units
  | .error status => a.status = status

end World

/-- A call that hands out a handle where its status is a success, and nothing else. -/
structure Hands {σ : Type} (R : σ → Hand → Prop) (status : Status) (before : Hand)
    (after : HandleId → Hand) (fresh : HandleId → Prop) (a : HandleReply × σ) : Prop where
  status_eq : a.1.status = status
  success : status.isSuccess = true → fresh (a.1.handle.getD .zero) ∧
    R a.2 (after (a.1.handle.getD .zero))
  failure : status.isSuccess = false → R a.2 before

/-- A host that answers as a world says.  `R` tells with which states of the host the caller has what
in hand, and the heap grants blocks of up to `room` bytes. -/
structure Steady {σ : Type} (host : Host σ) (w : World) (room : Nat) (R : σ → Hand → Prop) :
    Prop where
  has : ∀ {x hand}, R x hand → ∀ c, host.has x c = w.has c
  queryTable : ∀ {x hand}, R x hand → ∀ b,
    w.AnswersTable b ((host.queryTable Table.infoClass b).run x).1 ∧
      R ((host.queryTable Table.infoClass b).run x).2 hand
  queryObject : ∀ {x hand h pid value}, R x hand → hand.Refers host.ownPid h pid value → ∀ b,
    w.AnswersName pid value b ((host.queryObject h Name.infoClass b).run x).1 ∧
      R ((host.queryObject h Name.infoClass b).run x).2 hand
  /-- A process is handed out as a handle other than the stand-in for the caller. -/
  openProcess : ∀ {x}, R x .empty → ∀ pid access, pid ≠ host.ownPid →
    Hands R (w.opening pid) .empty (.process pid) (· ≠ .ownProcess)
      ((host.openProcess pid access).run x)
  /-- A handle is handed out as one that is not in hand. -/
  duplicate : ∀ {x pid h}, R x (.process pid h) → ∀ value,
    Hands R (w.duplication pid value) (.process pid h) (.object pid h value)
      (fun d => d ≠ .ownProcess ∧ d ≠ h) ((host.duplicate h value).run x)
  closeProcess : ∀ {x pid h}, R x (.process pid h) → R ((host.close h).run x).2 .empty
  closeObject : ∀ {x pid h value d}, R x (.object pid h value d) →
    R ((host.close d).run x).2 (.process pid h)
  fileKind : ∀ {x hand h pid value}, R x hand → hand.Refers host.ownPid h pid value →
    ((host.fileKind h).run x).1 = w.kind pid value ∧ R ((host.fileKind h).run x).2 hand
  imagePath : ∀ {x hand h pid}, R x hand → hand.IsProcess host.ownPid h pid →
    ((host.imagePath h).run x).1 = w.image pid ∧ R ((host.imagePath h).run x).2 hand
  create : ∀ {x hand}, R x hand →
    (host.heap.create.run x).1 = .ok () ∧ R (host.heap.create.run x).2 hand
  /-- A block that is granted lies in the address space as a whole. -/
  allocate : ∀ {x hand}, R x hand → ∀ size : UInt64, size.toNat ≤ room →
    (∃ place, ((host.heap.allocate size).run x).1 = some place ∧
      place.address.toNat + size.toNat ≤ UInt64.size) ∧
      R ((host.heap.allocate size).run x).2 hand
  release : ∀ {x hand}, R x hand → ∀ address size,
    R ((host.heap.release address size).run x).2 hand

/-! ## A steady host -/

namespace World

/-- Writes bytes at the start of a buffer that has room for them, or asks for a longer one. -/
def fill (b : Block) (bytes : List UInt8) : QueryReply :=
  if b.size.toNat < bytes.length then
    { status := .lengthMismatch, length := some bytes.length.toUInt32, contents := b.byte }
  else { status := .success, length := none, contents := (b.write 0 bytes).byte }

/-- The process and the value that a handle refers to. -/
def place (own : UInt64) (h : HandleId) : Hand → UInt64 × UInt64
  | .object pid _ value _ => (pid, value)
  | _ => (own, h.toWord)

/-- The answer to a name query. -/
def nameReply (w : World) (b : Block) (place : UInt64 × UInt64) : QueryReply :=
  match w.name place.1 place.2 with
  | .ok n => fill b (Name.nameBytes b.address n.units)
  | .error status => { status, length := none, contents := b.byte }

/-- Hands out a handle where the status is a success. -/
def handOut (status : Status) (h : HandleId) (next : Hand) : StateM Hand HandleReply := fun hand =>
  if status.isSuccess then ({ status, handle := some h }, next)
  else ({ status, handle := none }, hand)

/-- A handle other than a given one. -/
def another (h : HandleId) : HandleId := if h = ⟨4⟩ then ⟨8⟩ else ⟨4⟩

/-- The simplest host of a world: its state is what the caller has in hand. -/
def host (w : World) (own : UInt64) : Host Hand where
  heap :=
    { create := pure (.ok ())
      allocate := fun size => pure
        (if h : size.toNat < 0x8000000000000000 then some ⟨0, h⟩ else none)
      release := fun _ _ => pure ()
      destroy := pure true }
  ownPid := own
  has := fun _ c => w.has c
  queryTable := fun _ b => pure (fill b (Table.tableBytes w.table.length.toUInt64 w.table))
  queryObject := fun h _ b hand => (w.nameReply b (place own h hand), hand)
  openProcess := fun pid _ => handOut (w.opening pid) ⟨4⟩ (.process pid ⟨4⟩)
  duplicate := fun _ value hand =>
    match hand with
    | .process pid h =>
      (handOut (w.duplication pid value) (another h) (.object pid h value (another h))).run hand
    | _ => ({ status := .invalidHandle, handle := none }, hand)
  close := fun _ hand =>
    match hand with
    | .object pid h _ _ => (.success, .process pid h)
    | _ => (.success, .empty)
  fileKind := fun h hand => (w.kind (place own h hand).1 (place own h hand).2, hand)
  imagePath := fun _ hand =>
    match hand with
    | .process pid _ | .object pid _ _ _ => (w.image pid, hand)
    | .empty => (w.image own, hand)

theorem fill_of_short {b : Block} {bytes : List UInt8} (h : b.size.toNat < bytes.length) :
    (fill b bytes).status.kind = .bufferTooSmall ∧
      (fill b bytes).length = some bytes.length.toUInt32 := by
  rw [fill, if_pos h]
  exact ⟨rfl, rfl⟩

theorem fill_of_room {b : Block} {bytes : List UInt8} (h : ¬ b.size.toNat < bytes.length) :
    (fill b bytes).status.kind = .success ∧
      (b.withContents (fill b bytes).contents).Spells 0 bytes := by
  rw [fill, if_neg h]
  exact ⟨rfl, Block.bytes_write_self b 0 bytes⟩

theorem answersTable_fill (w : World) (b : Block) :
    w.AnswersTable b (fill b (Table.tableBytes w.table.length.toUInt64 w.table)) := by
  rw [AnswersTable, ← Table.length_tableBytes w.table.length.toUInt64 w.table]
  split
  · rename_i hshort
    exact (fill_of_short hshort).1
  · rename_i hroom
    obtain ⟨hkind, hspells⟩ := fill_of_room hroom
    exact ⟨hkind, Table.holdsTable_of_spells hspells⟩

theorem answersName_fill (w : World) {pid value : UInt64} {n : Name} (b : Block)
    (hn : w.name pid value = .ok n) :
    w.AnswersName pid value b (fill b (Name.nameBytes b.address n.units)) := by
  rw [AnswersName, hn]
  dsimp only
  rw [← Name.length_nameBytes b.address n.units]
  split
  · rename_i hshort
    exact fill_of_short hshort
  · rename_i hroom
    obtain ⟨hkind, hspells⟩ := fill_of_room hroom
    rw [Name.length_nameBytes] at hroom
    exact ⟨hkind, Name.holdsName_of_spells hspells (Nat.le_of_not_lt hroom)⟩

/-- What is handed out is what the next hand says. -/
theorem hands_handOut (status : Status) {h : HandleId} {before : Hand} {after : HandleId → Hand}
    {fresh : HandleId → Prop} (hf : fresh h) :
    Hands (fun x hand => x = hand) status before after fresh
      ((handOut status h (after h)).run before) := by
  cases hs : status.isSuccess with
  | true =>
    have hrun : (handOut status h (after h)).run before =
        ({ status, handle := some h }, after h) := if_pos hs
    rw [hrun]
    exact ⟨rfl, fun _ => ⟨hf, rfl⟩, by simp [hs]⟩
  | false =>
    have hrun : (handOut status h (after h)).run before = ({ status, handle := none }, before) :=
      if_neg (by simp [hs])
    rw [hrun]
    exact ⟨rfl, by simp [hs], fun _ => rfl⟩

theorem another_fresh (h : HandleId) : another h ≠ .ownProcess ∧ another h ≠ h := by
  unfold another
  split
  · rename_i hh
    rw [hh]
    decide
  · rename_i hh
    exact ⟨by decide, Ne.symm hh⟩

theorem place_of_refers {own : UInt64} {h : HandleId} {pid value : UInt64} {hand : Hand}
    (hr : hand.Refers own h pid value) : place own h hand = (pid, value) := by
  cases hand with
  | empty =>
    obtain ⟨rfl, rfl⟩ := hr
    rw [place, HandleId.toWord_ofWord]
    simp
  | process pid' h' => cases hr
  | object pid' h' value' d =>
    obtain ⟨-, rfl, rfl⟩ := hr
    rfl

/-- The simplest host of a world is steady in it. -/
theorem steady_host (w : World) (own : UInt64) {room : Nat} (hroom : room < 0x8000000000000000) :
    Steady (w.host own) w room fun x hand => x = hand where
  has := fun _ _ => rfl
  queryTable := by
    rintro x _ rfl b
    exact ⟨w.answersTable_fill b, rfl⟩
  queryObject := by
    rintro x _ h pid value rfl hr b
    refine ⟨?_, rfl⟩
    have hplace : place own h x = (pid, value) := place_of_refers hr
    show w.AnswersName pid value b (w.nameReply b (place own h x))
    rw [hplace, nameReply]
    cases hn : w.name pid value with
    | ok n => exact w.answersName_fill b hn
    | error status => rw [AnswersName, hn]
  openProcess := by
    rintro x rfl pid access -
    exact hands_handOut _ (by decide)
  duplicate := by
    rintro x pid h rfl value
    exact hands_handOut _ (another_fresh h)
  closeProcess := by
    rintro x pid h rfl
    rfl
  closeObject := by
    rintro x pid h value d rfl
    rfl
  fileKind := by
    rintro x _ h pid value rfl hr
    refine ⟨?_, rfl⟩
    have hplace : place own h x = (pid, value) := place_of_refers hr
    show w.kind (place own h x).1 (place own h x).2 = w.kind pid value
    rw [hplace]
  imagePath := by
    rintro x _ h pid rfl hp
    cases x with
    | empty =>
      obtain ⟨-, rfl⟩ := hp
      exact ⟨rfl, rfl⟩
    | process pid' h' =>
      obtain ⟨-, rfl⟩ := hp
      exact ⟨rfl, rfl⟩
    | object pid' h' value d =>
      obtain ⟨-, rfl⟩ := hp
      exact ⟨rfl, rfl⟩
  create := fun h => ⟨rfl, h⟩
  allocate := by
    rintro x _ rfl size hsize
    have hsmall : size.toNat < 0x8000000000000000 := Nat.lt_of_le_of_lt hsize hroom
    refine ⟨⟨⟨0, hsmall⟩, ?_, ?_⟩, rfl⟩
    · show (if h : size.toNat < 0x8000000000000000 then some (⟨0, h⟩ : Placement size) else none) = _
      rw [dif_pos hsmall]
    · have hlt := size.toNat_lt
      show 0 + size.toNat ≤ 18446744073709551616
      omega
  release := fun h _ _ => h

/-- A machine with two processes, one of which refuses access. -/
def sample : World where
  table := [⟨8, 16, 3⟩, ⟨12, 4, 1⟩, ⟨8, 20, 1⟩]
  has := fun _ => true
  opening := fun pid => if pid = 12 then .accessDenied else .success
  duplication := fun _ _ => .success
  kind := fun _ _ => .disk
  name := fun _ _ => .ok ⟨[0x5C, 0x64]⟩
  image := fun _ => none
  size_name := by
    rintro _ _ _ ⟨⟩
    decide
  kind_name := by
    rintro _ _ _ ⟨⟩

end World

end FileHolders
