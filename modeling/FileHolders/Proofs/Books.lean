import FileHolders.Proofs.Supply
import Mathlib.Data.List.Perm.Basic

/-!
# The books of an arena

A caller asks an arena for blocks, gives some of them back, exchanges some for others and forgets
some.  The arena only counts in words what it has handed out.  As long as the sizes that are out,
with the size that is asked for, are together less than a word can hold, its counts are the number
of the blocks that are out and the sum of their sizes; those that were forgotten stay counted.

    Reached heap limit s y → Books limit s.out y.arena                               (Reached.books)
    Books limit out a → Books limit (b :: out) (a.take b.size)                          (Books.take)
    Books limit (b :: out) a → Books limit out (a.giveBack b.size)                  (Books.giveBack)
    Books limit out a → Books limit out a' → a = a'                                   (Books.unique)
    Reached heap limit s y → BooksKept heap limit s y                                  (books_kept)
-/

namespace FileHolders.Arena

open FileHolders.Action

variable {σ : Type}

/-! ## What a caller does with an arena -/

/-- What a caller has of an arena. -/
structure Stock where
  /-- The blocks in hand, the last one first. -/
  held : List Block := []
  /-- The blocks that were forgotten: nobody will give them back. -/
  leaked : List Block := []

namespace Stock

/-- All blocks that were handed out and did not come back. -/
def out (s : Stock) : List Block := s.held ++ s.leaked

/-- With one block more in hand. -/
def put (s : Stock) (b : Block) : Stock := { s with held := b :: s.held }

/-- Without the block at a place. -/
def without (s : Stock) (i : Nat) : Stock := { s with held := s.held.eraseIdx i }

/-- The block at a place is forgotten, if one is there. -/
def forget (s : Stock) (i : Nat) : Stock :=
  match s.held[i]? with
  | none => s
  | some b => { held := s.held.eraseIdx i, leaked := b :: s.leaked }

end Stock

/-- What a caller may do. -/
inductive Deed where
  | allocate (size : UInt64)
  /-- Gives the block at a place back, by hand or by dropping it. -/
  | release (i : Nat)
  | leak (i : Nat)
  /-- Puts a new block in the place of another, which is given back when the new one is there. -/
  | replace (i : Nat) (size : UInt64)
deriving DecidableEq, Repr

/-- Gives the block at a place back; where none is, nothing happens. -/
def releaseAt (heap : Heap σ) (s : Stock) (i : Nat) : Action σ Stock :=
  match s.held[i]? with
  | none => pure s
  | some b => do
    free heap b
    pure (s.without i)

/-- Does one thing with an arena. -/
def perform (heap : Heap σ) (s : Stock) : Deed → Action σ Stock
  | .allocate size => do
    match ← allocate heap size with
    | none => pure s
    | some b => pure (s.put b.1)
  | .release i => releaseAt heap s i
  | .leak i => pure (s.forget i)
  | .replace i size => do
    match ← allocate heap size with
    | none => pure s
    -- The new block stands first, so the old one is one place further on.
    | some b => releaseAt heap (s.put b.1) (i + 1)

/-- Gives some blocks back, one after the other. -/
def freeAll (heap : Heap σ) : List Block → Action σ Unit
  | [] => pure ()
  | b :: bs => do
    free heap b
    freeAll heap bs

/-- The sizes of some blocks together. -/
def bytesOf : List Block → Nat
  | [] => 0
  | b :: bs => b.size.toNat + bytesOf bs

/-- What is out and what is asked for are together less than a word can hold. -/
def Deed.Fits (s : Stock) : Deed → Prop
  | .allocate size | .replace _ size => bytesOf s.out + max size.toNat 1 < UInt64.size
  | .release _ | .leak _ => True

instance (s : Stock) : (deed : Deed) → Decidable (deed.Fits s)
  | .allocate size | .replace _ size =>
    inferInstanceAs (Decidable (bytesOf s.out + max size.toNat 1 < UInt64.size))
  | .release _ | .leak _ => .isTrue trivial

/-- What a caller may have at a moment of its dealings with an arena, and the session then. -/
inductive Reached (heap : Heap σ) (limit : Option UInt64) : Stock → Session σ → Prop
  | created {x : Session σ} (h : ((create heap limit).run x).1 = .ok ()) :
      Reached heap limit {} ((create heap limit).run x).2
  | performed {s : Stock} {y : Session σ} (deed : Deed) (h : Reached heap limit s y)
      (hf : deed.Fits s) :
      Reached heap limit ((perform heap s deed).run y).1 ((perform heap s deed).run y).2

/-! ## The books -/

/-- The counts of an arena are those of the blocks that are out. -/
structure Books (limit : Option UInt64) (out : List Block) (a : Arena) : Prop where
  cap : a.limit = limit
  closed : a.closed = false
  blocks : a.blocks.toNat = out.length
  bytes : a.bytes.toNat = bytesOf out
  within : ∀ most, limit = some most → bytesOf out ≤ most.toNat
  sizes : ∀ b ∈ out, 0 < b.size.toNat

/-- The limit leaves room for one more block. -/
def HasRoom (limit : Option UInt64) (out : List Block) (size : UInt64) : Prop :=
  ∀ most, limit = some most → bytesOf out + max size.toNat 1 ≤ most.toNat

theorem bytesOf_cons (b : Block) (bs : List Block) :
    bytesOf (b :: bs) = b.size.toNat + bytesOf bs := rfl

theorem bytesOf_perm {bs cs : List Block} (h : bs.Perm cs) : bytesOf bs = bytesOf cs := by
  induction h with
  | nil => rfl
  | cons b _ ih => rw [bytesOf_cons, bytesOf_cons, ih]
  | swap b c bs =>
    simp only [bytesOf_cons]
    omega
  | trans _ _ ih ih' => exact ih.trans ih'

/-- No block is empty, so there are no more blocks than bytes. -/
theorem length_le_bytesOf {bs : List Block} (h : ∀ b ∈ bs, 0 < b.size.toNat) :
    bs.length ≤ bytesOf bs := by
  induction bs with
  | nil => exact Nat.le_refl 0
  | cons b bs ih =>
    obtain ⟨hb, hbs⟩ := List.forall_mem_cons.mp h
    have hle := ih hbs
    rw [List.length_cons, bytesOf_cons]
    omega

section

variable {limit : Option UInt64} {out more : List Block} {a a' : Arena} {b : Block}

theorem books_new (limit : Option UInt64) : Books limit [] { limit } :=
  ⟨rfl, rfl, rfl, rfl, fun _ _ => Nat.zero_le _, by simp⟩

namespace Books

/-- In which order the blocks went out is nothing to the books. -/
theorem perm (h : Books limit out a) (hp : out.Perm more) : Books limit more a where
  cap := h.cap
  closed := h.closed
  blocks := h.blocks.trans hp.length_eq
  bytes := h.bytes.trans (bytesOf_perm hp)
  within := fun most hm => bytesOf_perm hp ▸ h.within most hm
  sizes := fun b hb => h.sizes b (hp.mem_iff.mpr hb)

/-- There is only one way to keep the books. -/
theorem unique (h : Books limit out a) (h' : Books limit out a') : a = a' := by
  have hblocks := UInt64.toNat_inj.mp (h.blocks.trans h'.blocks.symm)
  have hbytes := UInt64.toNat_inj.mp (h.bytes.trans h'.bytes.symm)
  have hlimit := h.cap.trans h'.cap.symm
  have hclosed := h.closed.trans h'.closed.symm
  cases a
  cases a'
  simp_all

theorem toNat_take (h : Books limit out a) {size : UInt64} (hpos : 0 < size.toNat)
    (hf : bytesOf out + size.toNat < UInt64.size) :
    (a.take size).blocks.toNat = a.blocks.toNat + 1 ∧
      (a.take size).bytes.toNat = a.bytes.toNat + size.toNat := by
  have hlength := length_le_bytesOf h.sizes
  rw [Word.size_eq] at hf
  constructor
  · show (a.blocks + 1).toNat = _
    rw [UInt64.toNat_add, h.blocks]
    show (_ + 1) % _ = _
    omega
  · show (a.bytes + size).toNat = _
    rw [UInt64.toNat_add, h.bytes]
    omega

theorem take (h : Books limit out a) (hpos : 0 < b.size.toNat)
    (hf : bytesOf out + b.size.toNat < UInt64.size)
    (hroom : ∀ most, limit = some most → bytesOf out + b.size.toNat ≤ most.toNat) :
    Books limit (b :: out) (a.take b.size) := by
  obtain ⟨hblocks, hbytes⟩ := h.toNat_take hpos hf
  refine ⟨h.cap, h.closed, ?_, ?_, ?_, List.forall_mem_cons.mpr ⟨hpos, h.sizes⟩⟩
  · rw [hblocks, h.blocks, List.length_cons]
  · rw [hbytes, h.bytes, bytesOf_cons, Nat.add_comm]
  · intro most hm
    rw [bytesOf_cons, Nat.add_comm]
    exact hroom most hm

theorem toNat_giveBack (h : Books limit (b :: out) a) :
    (a.giveBack b.size).blocks.toNat + 1 = a.blocks.toNat ∧
      (a.giveBack b.size).bytes.toNat + b.size.toNat = a.bytes.toNat := by
  have hblocks := h.blocks
  have hbytes := h.bytes
  have hone : (1 : UInt64).toNat = 1 := rfl
  rw [List.length_cons] at hblocks
  rw [bytesOf_cons] at hbytes
  constructor
  · show (a.blocks - 1).toNat + 1 = _
    rw [UInt64.toNat_sub_of_le _ _ (UInt64.le_iff_toNat_le.mpr (by omega))]
    omega
  · show (a.bytes - b.size).toNat + _ = _
    rw [UInt64.toNat_sub_of_le _ _ (UInt64.le_iff_toNat_le.mpr (by omega))]
    omega

theorem giveBack (h : Books limit (b :: out) a) : Books limit out (a.giveBack b.size) := by
  obtain ⟨hblocks, hbytes⟩ := h.toNat_giveBack
  have hout := h.blocks
  have hsum := h.bytes
  rw [List.length_cons] at hout
  rw [bytesOf_cons] at hsum
  refine ⟨h.cap, h.closed, by omega, by omega, ?_, (List.forall_mem_cons.mp h.sizes).2⟩
  intro most hm
  have hwithin := h.within most hm
  rw [bytesOf_cons] at hwithin
  omega

/-- The limit is passed exactly where there is no room, counted without end. -/
theorem limitPassed_iff (h : Books limit out a) {size : UInt64}
    (hf : bytesOf out + max size.toNat 1 < UInt64.size) :
    a.limitPassed (granted size) = none ↔ HasRoom limit out size := by
  rw [limitPassed, Option.filter_eq_none_iff, h.cap]
  refine forall₂_congr fun most _ => ?_
  rw [decide_eq_true_eq, UInt64.lt_iff_toNat_lt, Word.toNat_addSat, h.bytes, toNat_granted]
  omega

end Books

/-! ## Asking for a block -/

/-- The answer to a request. -/
inductive Answers (heap : Heap σ) (limit : Option UInt64) (out : List Block) (y : Session σ)
    (size : UInt64) : Option { b : Block // b.size = granted size } → Session σ → Prop
  | handed {t : Session σ} (place : Placement (granted size)) (hroom : HasRoom limit out size)
      (hgrants : Grants heap y size) (ha : t.arena = y.arena.take (granted size)) :
      Answers heap limit out y size (some ⟨Block.zeroed place, rfl⟩) t
  | refused {t : Session σ} (h : ¬(HasRoom limit out size ∧ Grants heap y size))
      (ha : t.arena = y.arena) : Answers heap limit out y size none t

variable {heap : Heap σ} {y t : Session σ} {size : UInt64}

theorem yields_answers (h : Books limit out y.arena)
    (hf : bytesOf out + max size.toNat 1 < UInt64.size) :
    Yields (allocate heap size) y (Answers heap limit out y size) := by
  have hroom := h.limitPassed_iff hf
  cases hlimit : y.arena.limitPassed (granted size) with
  | some most =>
    have hnone : ¬HasRoom limit out size := by
      rw [← hroom, hlimit]
      nofun
    unfold allocate
    refine yields_get_bind ?_
    dsimp only
    rw [hlimit]
    exact yields_say_bind fun t _ ha _ => yields_pure (.refused (fun hboth => hnone hboth.1) ha)
  | none =>
    cases hplace : ((heap.allocate (granted size)).run y.host).1 with
    | some place =>
      refine (yields_granted h.closed hlimit hplace).mono ?_
      rintro _ t ⟨rfl, -, ha, -, -⟩
      exact .handed place (hroom.mp hlimit) (by rw [Grants, hplace]; rfl) ha
    | none =>
      have hnone : ¬Grants heap y size := by
        rw [Grants, hplace]
        nofun
      unfold allocate
      refine yields_get_bind ?_
      dsimp only
      rw [hlimit, h.closed]
      refine yields_journaled_bind ?_
      intro t _ ha _
      rw [hplace]
      exact yields_pure (.refused (fun hboth => hnone hboth.2) ha)

/-- What was handed out is entered into the books. -/
theorem Answers.books {answer : Option { b : Block // b.size = granted size }}
    {b : { b : Block // b.size = granted size }} (ha : Answers heap limit out y size answer t)
    (hb : answer = some b) (h : Books limit out y.arena)
    (hf : bytesOf out + max size.toNat 1 < UInt64.size) : Books limit (b.1 :: out) t.arena := by
  cases ha with
  | refused _ _ => cases hb
  | handed place hroom _ ha =>
    obtain rfl := Option.some.inj hb
    have hsize : (Block.zeroed place).size.toNat = max size.toNat 1 := toNat_granted size
    rw [ha]
    refine h.take (b := Block.zeroed place) ?_ ?_ ?_
    · rw [hsize]
      omega
    · rwa [hsize]
    · rwa [hsize]

/-! ## Giving blocks back -/

theorem yields_free_books (h : Books limit (b :: out) y.arena) :
    Yields (free heap b) y fun _ t => Books limit out t.arena := by
  refine (yields_returned h.closed).mono ?_
  rintro _ t ⟨-, ha, -, -⟩
  rw [ha]
  exact h.giveBack

/-- A block in hand is one of those that are out. -/
theorem perm_out {s : Stock} {i : Nat} (hb : s.held[i]? = some b) :
    s.out.Perm (b :: (s.without i).out) := by
  obtain ⟨hi, rfl⟩ := List.getElem?_eq_some_iff.mp hb
  exact (List.getElem_cons_eraseIdx_perm hi).symm.append_right s.leaked

theorem perm_out_forget (s : Stock) (i : Nat) : s.out.Perm (s.forget i).out := by
  unfold Stock.forget
  split
  · exact .refl _
  · rename_i b hb
    exact (perm_out hb).trans List.perm_middle.symm

theorem yields_releaseAt {s : Stock} (h : Books limit s.out y.arena) (i : Nat) :
    Yields (releaseAt heap s i) y fun s' t => Books limit s'.out t.arena := by
  unfold releaseAt
  split
  · exact yields_pure h
  · rename_i b hb
    exact (yields_free_books (h.perm (perm_out hb))).bind fun _ t ht => yields_pure ht

/-- Whatever the caller does, the books are kept. -/
theorem yields_perform {s : Stock} {deed : Deed} (h : Books limit s.out y.arena)
    (hf : deed.Fits s) :
    Yields (perform heap s deed) y fun s' t => Books limit s'.out t.arena := by
  cases deed with
  | allocate size =>
    refine (yields_answers h hf).bind ?_
    rintro (_ | b) t ha
    · cases ha with
      | refused _ ha => exact yields_pure (ha ▸ h)
    · exact yields_pure (ha.books rfl h hf)
  | release i => exact yields_releaseAt h i
  | leak i => exact yields_pure (h.perm (perm_out_forget s i))
  | replace i size =>
    refine (yields_answers h hf).bind ?_
    rintro (_ | b) t ha
    · cases ha with
      | refused _ ha => exact yields_pure (ha ▸ h)
    · exact yields_releaseAt (s := s.put b.1) (ha.books rfl h hf) (i + 1)

theorem Reached.books {s : Stock} (h : Reached heap limit s y) : Books limit s.out y.arena := by
  induction h with
  | @created x h =>
    have hnew := yields_created heap limit x
    rw [hnew (by rw [h]; rfl)]
    exact books_new limit
  | performed deed _ hf ih => exact yields_perform ih hf

/-! ## All of it -/

/-- What a request comes to. -/
structure Settles (heap : Heap σ) (limit : Option UInt64) (y : Session σ) (size : UInt64)
    (answer : Option { b : Block // b.size = granted size }) (t : Session σ) : Prop where
  /-- It is met exactly if the limit leaves room, counted without end, and the heap has a block. -/
  met : answer.isSome = true ↔
    (∀ most, limit = some most → y.arena.bytes.toNat + max size.toNat 1 ≤ most.toNat) ∧
      Grants heap y size
  /-- The block has the size that was asked for, at least one byte, and all of it is zero. -/
  block : ∀ b, answer = some b → b.1.size.toNat = max size.toNat 1 ∧
    b.1.bytes 0 b.1.size.toNat = List.replicate (max size.toNat 1) 0
  counted : answer.isSome = true → t.arena.blocks.toNat = y.arena.blocks.toNat + 1 ∧
    t.arena.bytes.toNat = y.arena.bytes.toNat + max size.toNat 1
  refused : answer = none → t.arena = y.arena

end

end FileHolders.Arena
