import FileHolders.Memory.Arena
import FileHolders.Proofs.Emission

/-!
# Blocks that are handed out

An arena that is open hands out a block where its limit leaves room for it and the heap has it, and
takes every block back.  What each of the two leaves is said here to the letter, so that a reading
for which there is memory is only about what the kernel answers.  Where there is none, the limit or
the heap refuses.

    (∀ l, a.limit = some l → a.bytes + size ≤ l) → a.limitPassed size = none   (limitPassed_eq_none)
    Yields (allocate heap size) y (Granted heap place y)                            (yields_granted)
    Yields (free heap b) y fun _ => Returned heap b y                              (yields_returned)
-/

namespace FileHolders

open FileHolders.Action

namespace Arena

variable {σ : Type}

/-- A new arena has handed out nothing. -/
theorem yields_created (heap : Heap σ) (limit : Option UInt64) (x : Session σ) :
    Yields (create heap limit) x fun a t => a.isOk = true → t.arena = { limit } := by
  unfold create
  refine yields_journaled_bind ?_
  intro t _ _ _
  split
  · exact yields_pure nofun
  · exact yields_say_bind fun u _ _ _ => yields_modifyArena_bind
      fun v _ harena _ => yields_pure fun _ => harena

/-- A limit that leaves room is not passed. -/
theorem limitPassed_eq_none {a : Arena} {size : UInt64}
    (h : ∀ limit, a.limit = some limit → a.bytes.toNat + size.toNat ≤ limit.toNat) :
    a.limitPassed size = none := by
  rw [limitPassed, Option.filter_eq_none_iff]
  intro limit hlimit
  have hle := h limit hlimit
  rw [decide_eq_true_eq, UInt64.lt_iff_toNat_lt, Word.toNat_addSat]
  omega

/-- The heap has a block for a request. -/
def Grants (heap : Heap σ) (y : Session σ) (size : UInt64) : Prop :=
  ((heap.allocate (granted size)).run y.host).1.isSome = true

/-- A request is refused: the limit would be passed, the heap was given back, or it has no block. -/
def Refuses (heap : Heap σ) (y : Session σ) (size : UInt64) : Prop :=
  (y.arena.limitPassed (granted size)).isSome = true ∨ y.arena.closed = true ∨ ¬Grants heap y size

theorem opened_of_not_refuses {heap : Heap σ} {y : Session σ} {size : UInt64}
    (h : ¬Refuses heap y size) : y.arena.closed = false :=
  Bool.eq_false_iff.mpr fun hclosed => h (.inr (.inl hclosed))

/-- What is left after a block was handed out at a place. -/
structure Granted (heap : Heap σ) {size : UInt64} (place : Placement (granted size)) (y : Session σ)
    (a : Option { b : Block // b.size = granted size }) (t : Session σ) : Prop where
  block : a = some ⟨Block.zeroed place, rfl⟩
  host : t.host = ((heap.allocate (granted size)).run y.host).2
  arena : t.arena = y.arena.take (granted size)
  guess : t.guess = y.guess
  journal : t.journal = y.journal.push (.allocated (granted size) (some place.address))

theorem yields_granted {heap : Heap σ} {size : UInt64} {place : Placement (granted size)}
    {y : Session σ} (hopen : y.arena.closed = false)
    (hlimit : y.arena.limitPassed (granted size) = none)
    (hplace : ((heap.allocate (granted size)).run y.host).1 = some place) :
    Yields (allocate heap size) y (Granted heap place y) := by
  unfold allocate
  refine yields_get_bind ?_
  dsimp only
  rw [hlimit, hopen]
  show Granted heap place y _ _
  rw [if_neg Bool.false_ne_true, run_bind, run_journaled, hplace]
  exact ⟨rfl, rfl, rfl, rfl, rfl⟩

/-- What is left after a block came back. -/
structure Returned (heap : Heap σ) (b : Block) (y t : Session σ) : Prop where
  host : t.host = ((heap.release b.address b.size).run y.host).2
  arena : t.arena = y.arena.giveBack b.size
  guess : t.guess = y.guess
  journal : t.journal = y.journal.push (.released b.address b.size)

theorem yields_returned {heap : Heap σ} {b : Block} {y : Session σ}
    (hopen : y.arena.closed = false) :
    Yields (free heap b) y fun _ => Returned heap b y := by
  unfold free
  refine yields_get_bind ?_
  dsimp only
  rw [hopen]
  exact ⟨rfl, rfl, rfl, rfl⟩

end Arena

end FileHolders
