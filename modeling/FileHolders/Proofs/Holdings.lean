import FileHolders.Proofs.Readings
import Mathlib.Algebra.BigOperators.Group.Multiset.Basic
import Mathlib.Data.Multiset.AddSub

/-!
# What a heap has handed out

The journal of a search is read in order, and at each moment it says which blocks the heap handed
out and did not get back, and how far the heap itself has come (`Holdings`).  `Holdings.Allows` says
what may happen next: blocks are only asked for and given back while the heap is in use, what is
given back is live, and the heap is only given back when nothing is.

Where only what is allowed happens, at most three blocks are live and their bytes are within the
limit at any moment; if the end finds none live and the heap not in use, each block was given back as
often as it was handed out, and before the heap.

    h.Lawful limit es → Fits limit h.live → Fits limit (h.after es).live              (Fits.after)
    Lawful limit es → at the end nothing is live → HeapBalanced limit es     (heapBalanced_of_lawful)

The size of a block is not enough to tell it from another, and neither is its address: the heap may
hand out an address again after it got it back.  So the live blocks are a multiset of both.
-/

namespace FileHolders

/-! ## Holdings -/

/-- Where a block lies and how large it is. -/
abbrev Extent := UInt64 × UInt64

/-- Where a block lies and how large it is. -/
def Block.extent (b : Block) : Extent := (b.address, b.size)

/-- How far a heap has come. -/
inductive Holdings.Phase where
  | absent
  | inUse
  /-- It was to be given back and that failed. -/
  | ending
  | gone
deriving DecidableEq, Repr

/-- What a heap has handed out at a moment of the journal. -/
structure Holdings where
  phase : Holdings.Phase := .absent
  /-- The blocks that were handed out and not given back. -/
  live : Multiset Extent := 0

namespace Holdings

/-- The bytes of some blocks. -/
def bytes (live : Multiset Extent) : Nat := (live.map fun b => b.2.toNat).sum

/-- No more than three blocks, and no more bytes than the limit.  Bytes are counted up to the largest
word, so a limit that large is none. -/
structure Fits (limit : Option UInt64) (live : Multiset Extent) : Prop where
  blocks : live.card ≤ 3
  bytes : ∀ most, limit = some most → min (Holdings.bytes live) (UInt64.size - 1) ≤ most.toNat

/-- The holdings after an event. -/
def step (h : Holdings) : Event → Holdings
  | .heapCreated created => if created then { h with phase := .inUse } else h
  | .allocated size (some address) => { h with live := (address, size) ::ₘ h.live }
  | .released address size => { h with live := h.live.erase (address, size) }
  | .heapDestroyed destroyed => { h with phase := if destroyed then .gone else .ending }
  | _ => h

/-- The holdings after some events. -/
def after (h : Holdings) (events : List Event) : Holdings := events.foldl step h

/-- What may happen next. -/
def Allows (limit : Option UInt64) (h : Holdings) : Event → Prop
  | .heapCreated _ => h.phase = .absent
  | .allocated size address =>
    h.phase = .inUse ∧ ∀ a, address = some a → Fits limit ((a, size) ::ₘ h.live)
  | .released address size => h.phase = .inUse ∧ (address, size) ∈ h.live
  | .heapDestroyed _ => (h.phase = .inUse ∨ h.phase = .ending) ∧ h.live = 0
  | _ => True

/-- Every one of the events may happen when it does. -/
def Lawful (limit : Option UInt64) (h : Holdings) : List Event → Prop
  | [] => True
  | e :: events => h.Allows limit e ∧ (h.step e).Lawful limit events

/-- Whether an event hands out a block. -/
def grants (b : Extent) : Event → Bool
  | .allocated size (some address) => (address, size) = b
  | _ => false

/-- Whether an event gives a block back. -/
def returns (b : Extent) : Event → Bool
  | .released address size => (address, size) = b
  | _ => false

/-! ## Lemmas -/

@[simp] theorem bytes_cons (b : Extent) (live : Multiset Extent) :
    bytes (b ::ₘ live) = b.2.toNat + bytes live := by
  simp [bytes]

variable {limit : Option UInt64} {h : Holdings} {events : List Event}

theorem after_nil (h : Holdings) : h.after [] = h := rfl

theorem after_cons (h : Holdings) (e : Event) (events : List Event) :
    h.after (e :: events) = (h.step e).after events := rfl

theorem after_append (h : Holdings) (events more : List Event) :
    h.after (events ++ more) = (h.after events).after more := List.foldl_append

theorem lawful_append (limit : Option UInt64) (h : Holdings) (events more : List Event) :
    h.Lawful limit (events ++ more) ↔
      h.Lawful limit events ∧ (h.after events).Lawful limit more := by
  induction events generalizing h with
  | nil => simp [Lawful, after_nil]
  | cons e events ih => rw [List.cons_append, Lawful, Lawful, ih, after_cons, and_assoc]

/-- What is lawful as a whole is allowed at each of its moments. -/
theorem Lawful.allows {before rest : List Event} {e : Event}
    (hlaw : h.Lawful limit (before ++ e :: rest)) : (h.after before).Allows limit e :=
  ((lawful_append limit h before (e :: rest)).mp hlaw).2.1

/-! ### Other events -/

/-- What does not concern the heap leaves the holdings alone. -/
theorem step_eq_self {e : Event} (he : e.isHeap = false) (h : Holdings) : h.step e = h := by
  cases e <;> simp_all [Event.isHeap, step]

theorem allows_of_not_isHeap {e : Event} (he : e.isHeap = false) (limit : Option UInt64)
    (h : Holdings) : h.Allows limit e := by
  cases e <;> simp_all [Event.isHeap, Allows]

theorem lawful_of_no_heap (hn : ∀ e ∈ events, e.isHeap = false) (limit : Option UInt64)
    (h : Holdings) : h.Lawful limit events ∧ h.after events = h := by
  induction events with
  | nil => exact ⟨trivial, rfl⟩
  | cons e events ih =>
    obtain ⟨he, hrest⟩ := List.forall_mem_cons.mp hn
    rw [Lawful, after_cons, step_eq_self he]
    exact ⟨⟨allows_of_not_isHeap he limit h, (ih hrest).1⟩, (ih hrest).2⟩

/-! ### The live blocks fit -/

theorem fits_zero (limit : Option UInt64) : Fits limit 0 := ⟨by simp, by simp [bytes]⟩

theorem Fits.of_cons {b : Extent} {live : Multiset Extent} (hf : Fits limit (b ::ₘ live)) :
    Fits limit live := by
  refine ⟨?_, ?_⟩
  · have hblocks := hf.blocks
    rw [Multiset.card_cons] at hblocks
    omega
  · intro most hm
    have hbytes := hf.bytes most hm
    rw [bytes_cons] at hbytes
    omega

theorem Fits.step {e : Event} (hf : Fits limit h.live) (ha : h.Allows limit e) :
    Fits limit (h.step e).live := by
  cases e with
  | heapCreated created =>
    cases created <;> exact hf
  | allocated size address =>
    cases address with
    | none => exact hf
    | some a => exact ha.2 a rfl
  | released address size =>
    have hlive := Multiset.cons_erase ha.2
    rw [← hlive] at hf
    exact hf.of_cons
  | heapDestroyed destroyed => exact hf
  | _ => exact hf

theorem Fits.after (hf : Fits limit h.live) (hlaw : h.Lawful limit events) :
    Fits limit (h.after events).live := by
  induction events generalizing h with
  | nil => exact hf
  | cons e events ih => exact ih (hf.step hlaw.1) hlaw.2

/-! ### How far the heap has come -/

/-- Once the heap was to be given back it is not used any more. -/
theorem Lawful.not_inUse (hlaw : h.Lawful limit events)
    (hp : h.phase = .ending ∨ h.phase = .gone) :
    (h.after events).phase = .ending ∨ (h.after events).phase = .gone := by
  induction events generalizing h with
  | nil => exact hp
  | cons e events ih =>
    refine ih hlaw.2 ?_
    have hallows := hlaw.1
    cases e with
    | heapCreated created =>
      rcases hp with hp | hp <;> simp [Allows, hp] at hallows
    | allocated size address =>
      rcases hp with hp | hp <;> simp [Allows, hp] at hallows
    | released address size => exact hp
    | heapDestroyed destroyed => cases destroyed <;> simp [Holdings.step]
    | _ => exact hp

/-- Where the heap is in use, no attempt to give it back was made before. -/
theorem Lawful.not_destroyed (hlaw : h.Lawful limit events)
    (hp : (h.after events).phase = .inUse) (destroyed : Bool) :
    .heapDestroyed destroyed ∉ events := by
  intro hmem
  obtain ⟨before, rest, rfl⟩ := List.append_of_mem hmem
  obtain ⟨-, -, hrest⟩ := (lawful_append _ _ before _).mp hlaw
  rw [after_append, after_cons] at hp
  have hover : ((h.after before).step (.heapDestroyed destroyed)).phase = .ending ∨
      ((h.after before).step (.heapDestroyed destroyed)).phase = .gone := by
    cases destroyed <;> simp [Holdings.step]
  rcases hrest.not_inUse hover with hend | hend <;> rw [hend] at hp <;> cases hp

/-- A heap that is gone is not called any more. -/
theorem Lawful.no_heap_of_gone (hlaw : h.Lawful limit events) (hp : h.phase = .gone) :
    ∀ e ∈ events, e.isHeap = false := by
  induction events generalizing h with
  | nil => simp
  | cons e events ih =>
    have he : e.isHeap = false := by
      have hallows := hlaw.1
      cases e <;> simp_all [Allows, Event.isHeap]
    refine List.forall_mem_cons.mpr ⟨he, ih hlaw.2 ?_⟩
    rw [step_eq_self he]
    exact hp

/-- A heap that is in use and is not at the end was to be given back in between. -/
theorem Lawful.destroyed_of_inUse (hlaw : h.Lawful limit events) (hp : h.phase = .inUse)
    (hend : (h.after events).phase ≠ .inUse) : ∃ destroyed, .heapDestroyed destroyed ∈ events := by
  induction events generalizing h with
  | nil => exact absurd hp hend
  | cons e events ih =>
    have hlater : (h.step e).phase = .inUse →
        ∃ destroyed, .heapDestroyed destroyed ∈ e :: events := by
      intro hs
      obtain ⟨destroyed, hmem⟩ := ih hlaw.2 hs hend
      exact ⟨destroyed, List.mem_cons_of_mem _ hmem⟩
    cases e with
    | heapCreated created =>
      have hallows : h.phase = .absent := hlaw.1
      rw [hp] at hallows
      cases hallows
    | allocated size address => cases address <;> exact hlater hp
    | heapDestroyed destroyed => exact ⟨destroyed, List.mem_cons_self⟩
    | _ => exact hlater hp

/-! ### Each block is given back as often as it is handed out -/

/-- A block that is live and not live at the end is given back in between, while the heap is in use. -/
theorem Lawful.returned_of_live {b : Extent} (hlaw : h.Lawful limit events) (hb : b ∈ h.live)
    (hp : h.phase ≠ .absent) (hend : (h.after events).live = 0) :
    ∃ during rest, events = during ++ .released b.1 b.2 :: rest ∧
      (h.after during).phase = .inUse := by
  induction events generalizing h with
  | nil =>
    rw [after_nil] at hend
    rw [hend] at hb
    exact absurd hb (Multiset.notMem_zero b)
  | cons e events ih =>
    -- the block stays live over `e`: look further on
    have hlater : b ∈ (h.step e).live → (h.step e).phase ≠ .absent →
        ∃ during rest, e :: events = during ++ .released b.1 b.2 :: rest ∧
          (h.after during).phase = .inUse := by
      intro hb' hp'
      obtain ⟨during, rest, rfl, hphase⟩ := ih hlaw.2 hb' hp' hend
      exact ⟨e :: during, rest, rfl, hphase⟩
    cases e with
    | heapCreated created => exact absurd hlaw.1 hp
    | allocated size address =>
      cases address with
      | none => exact hlater hb hp
      | some a => exact hlater (Multiset.mem_cons_of_mem hb) hp
    | released address size =>
      by_cases hsame : (address, size) = b
      · subst hsame
        exact ⟨[], events, rfl, hlaw.1.1⟩
      · exact hlater ((Multiset.mem_erase_of_ne (Ne.symm hsame)).mpr hb) hp
    | heapDestroyed destroyed =>
      obtain ⟨-, hlive⟩ := hlaw.1
      rw [hlive] at hb
      exact absurd hb (Multiset.notMem_zero b)
    | _ => exact hlater hb hp

/-- What an event hands out is live after it, and what it gives back was. -/
theorem count_step (b : Extent) {e : Event} (ha : h.Allows limit e) :
    (h.step e).live.count b + (if returns b e then 1 else 0) =
      h.live.count b + (if grants b e then 1 else 0) := by
  cases e with
  | heapCreated created => cases created <;> rfl
  | allocated size address =>
    cases address with
    | none => simp [Holdings.step, grants, returns]
    | some a =>
      by_cases hsame : (a, size) = b
      · simp [Holdings.step, grants, returns, hsame]
      · simp [Holdings.step, grants, returns, hsame, Multiset.count_cons_of_ne (Ne.symm hsame)]
  | released address size =>
    by_cases hsame : (address, size) = b
    · have hpos : 0 < h.live.count b := Multiset.count_pos.mpr (hsame ▸ ha.2)
      simp only [Holdings.step, grants, returns, hsame, Multiset.count_erase_self, decide_true,
        if_true, if_false, Bool.false_eq_true]
      omega
    · simp [Holdings.step, grants, returns, hsame, Multiset.count_erase_of_ne (Ne.symm hsame)]
  | _ => simp [Holdings.step, grants, returns]

theorem count_after (b : Extent) (hlaw : h.Lawful limit events) :
    (h.after events).live.count b + events.countP (returns b) =
      h.live.count b + events.countP (grants b) := by
  induction events generalizing h with
  | nil => rfl
  | cons e events ih =>
    have hstep := count_step b hlaw.1
    have hrest := ih hlaw.2
    rw [after_cons, List.countP_cons, List.countP_cons]
    omega

end Holdings

/-! ## Balanced heaps -/

/-- The events leave the heap in order. -/
structure HeapBalanced (limit : Option UInt64) (events : List Event) : Prop where
  /-- Every event may happen when it does. -/
  allowed : ∀ before e rest, events = before ++ e :: rest →
    (({} : Holdings).after before).Allows limit e
  /-- At any moment there are at most three live blocks, and their bytes are within the limit. -/
  fits : ∀ before, before <+: events → Holdings.Fits limit (({} : Holdings).after before).live
  /-- A block that was handed out is given back later, and before the heap. -/
  returned : ∀ before size address rest,
    events = before ++ .allocated size (some address) :: rest →
    ∃ during after, rest = during ++ .released address size :: after ∧
      ∀ destroyed, .heapDestroyed destroyed ∉ before ++ during
  /-- No block is given back more often or less often than it is handed out. -/
  once : ∀ b, events.countP (Holdings.returns b) = events.countP (Holdings.grants b)
  /-- Nothing is live when the heap is to be given back, and that is tried for every heap. -/
  emptied : ∀ before destroyed rest, events = before ++ .heapDestroyed destroyed :: rest →
    (({} : Holdings).after before).live = 0
  ended : ∀ before rest, events = before ++ .heapCreated true :: rest →
    ∃ destroyed, .heapDestroyed destroyed ∈ rest
  /-- A heap that was given back is not called again. -/
  gone : ∀ before rest, events = before ++ .heapDestroyed true :: rest →
    ∀ e ∈ rest, e.isHeap = false

/-- Lawful events that end with nothing live and the heap out of use. -/
theorem heapBalanced_of_lawful {limit : Option UInt64} {events : List Event}
    (hlaw : ({} : Holdings).Lawful limit events) (hend : (({} : Holdings).after events).live = 0)
    (hphase : (({} : Holdings).after events).phase ≠ .inUse) : HeapBalanced limit events where
  allowed := by
    rintro before e rest rfl
    exact hlaw.allows
  fits := by
    rintro before ⟨rest, rfl⟩
    exact (Holdings.fits_zero limit).after ((Holdings.lawful_append _ _ before rest).mp hlaw).1
  returned := by
    rintro before size address rest rfl
    obtain ⟨hbefore, ⟨hinUse, -⟩, hlater⟩ := (Holdings.lawful_append _ _ before _).mp hlaw
    rw [Holdings.after_append, Holdings.after_cons] at hend
    have hlive : (address, size) ∈
        ((({} : Holdings).after before).step (.allocated size (some address))).live :=
      Multiset.mem_cons_self _ _
    have hpresent :
        ((({} : Holdings).after before).step (.allocated size (some address))).phase ≠ .absent := by
      show (({} : Holdings).after before).phase ≠ .absent
      rw [hinUse]
      decide
    obtain ⟨during, after, rfl, hp⟩ := hlater.returned_of_live hlive hpresent hend
    refine ⟨during, after, rfl, ?_⟩
    intro destroyed hmem
    rcases List.mem_append.mp hmem with hmem | hmem
    · exact hbefore.not_destroyed hinUse destroyed hmem
    · exact ((Holdings.lawful_append _ _ during _).mp hlater).1.not_destroyed hp destroyed hmem
  once := by
    intro b
    have hcount := Holdings.count_after b hlaw
    rw [hend] at hcount
    simpa using hcount
  emptied := by
    rintro before destroyed rest rfl
    exact hlaw.allows.2
  ended := by
    rintro before rest rfl
    obtain ⟨-, -, hrest⟩ := (Holdings.lawful_append _ _ before _).mp hlaw
    rw [Holdings.after_append, Holdings.after_cons] at hphase
    exact hrest.destroyed_of_inUse rfl hphase
  gone := by
    rintro before rest rfl
    obtain ⟨-, -, hrest⟩ := (Holdings.lawful_append _ _ before _).mp hlaw
    exact hrest.no_heap_of_gone rfl

end FileHolders
