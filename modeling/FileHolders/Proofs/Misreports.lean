import FileHolders.Proofs.Rounds
import FileHolders.Proofs.Supply
import FileHolders.Proofs.World
import Mathlib.Tactic.Ring

/-!
# Names that are misreported at first

A kernel may call a buffer too short some times over and name no size that is of any help.  Each
time the buffer is exchanged for one of twice the size.  Once the kernel tells the truth, one
exchange more is enough.  So the name is read, whichever buffer was at hand and whatever it held, if
there are two attempts more than there are misreports and no size is over the ceiling.

    Told h handle units R k buffer x → k + 2 ≤ attempts →
      Yields (query h settings handle attempts buffer) x fun a _ => Holds units a
                                                                           (yields_query_of_told)
    units.length ≤ 32766 → Resolves h handle units                                      (resolves)
-/

namespace FileHolders

open FileHolders.Action

variable {σ : Type}

namespace Name

/-! ## The kernel -/

/-- The name is written into a buffer that has room for it; a shorter one is refused for its length,
with the size that is needed. -/
def Tells (units : List UInt16) (b : Block) (a : QueryReply) : Prop :=
  if b.size.toNat < sizeFor units then
    a.status.kind = .bufferTooSmall ∧ a.length = some (sizeFor units).toUInt32
  else a.status.kind = .success ∧ (b.withContents a.contents).HoldsName units

/-- The buffer is called too short, and no larger size is named. -/
def Misleads (b : Block) (a : QueryReply) : Prop :=
  a.status.kind = .bufferTooSmall ∧ (a.length.getD 0).toNat ≤ b.size.toNat

/-- The sizes that the heap is asked for after a first buffer of a size, if the name needs a size
and is misreported so many times. -/
def growth (needed : Nat) : Nat → Nat → List Nat
  | 0, size => if size < needed then [needed] else []
  | k + 1, size => 2 * size :: growth needed k (2 * size)

theorem mem_growth {needed k size s : Nat} (h : s ∈ growth needed k size) :
    s = needed ∨ k ≠ 0 ∧ s ≤ size * 2 ^ k := by
  induction k generalizing size with
  | zero =>
    unfold growth at h
    split at h
    · exact .inl (List.mem_singleton.mp h)
    · cases h
  | succ k ih =>
    have hpow : size * 2 ^ (k + 1) = 2 * size * 2 ^ k := by ring
    rw [growth, List.mem_cons] at h
    rcases h with rfl | h
    · refine .inr ⟨by omega, ?_⟩
      rw [hpow]
      exact Nat.le_mul_of_pos_right _ (Nat.two_pow_pos k)
    · rcases ih h with hneeded | ⟨-, hle⟩
      · exact .inl hneeded
      · exact .inr ⟨by omega, by omega⟩

/-! ## Exchanging the buffer -/

/-- A session with a buffer in which the heap has blocks of some sizes to put in its place, one
after the other.  `R` tells with which states of the host the kernel will misreport how often. -/
structure Supplied (h : Host σ) (R : Nat → σ → Prop) (sizes : List Nat) (buffer : Block)
    (x : Session σ) : Prop where
  opened : x.arena.closed = false
  pos : 0 < buffer.size.toNat
  /-- A block lies in the address space as a whole. -/
  inside : buffer.address.toNat + buffer.size.toNat ≤ UInt64.size
  /-- The new buffer is handed out while the old one is still there. -/
  limit : (buffer.size.toNat :: sizes).IsChain fun old new => ∀ limit, x.arena.limit = some limit →
    (x.arena.bytes - buffer.size).toNat + old + new ≤ limit.toNat
  allocate : ∀ {k y}, R k y → ∀ size : UInt64, size.toNat ∈ sizes →
    (∃ place, ((h.heap.allocate size).run y).1 = some place ∧
      place.address.toNat + size.toNat ≤ UInt64.size) ∧
    R k ((h.heap.allocate size).run y).2
  release : ∀ {k y}, R k y → ∀ address size, R k ((h.heap.release address size).run y).2

section

variable {h : Host σ} {settings : Settings} {handle : HandleId} {units : List UInt16}
  {R : Nat → σ → Prop} {k new : Nat} {sizes : List Nat} {buffer : Block} {x : Session σ}

theorem Supplied.of_same (hx : Supplied h R sizes buffer x) {y : Session σ}
    (ha : y.arena = x.arena) (byte : Nat → UInt8) :
    Supplied h R sizes (buffer.withContents byte) y where
  opened := by
    rw [ha]
    exact hx.opened
  pos := hx.pos
  inside := hx.inside
  limit := by
    rw [ha]
    exact hx.limit
  allocate := hx.allocate
  release := hx.release

/-- The limit leaves room for the next block besides the one in hand. -/
theorem Supplied.limitPassed_eq_none (hx : Supplied h R (new :: sizes) buffer x) {size : UInt64}
    (hsize : size.toNat = new) : x.arena.limitPassed size = none := by
  refine Arena.limitPassed_eq_none fun limit hlimit => ?_
  have hroom := (List.isChain_cons_cons.mp hx.limit).1 limit hlimit
  have hbytes : x.arena.bytes.toNat ≤ (x.arena.bytes - buffer.size).toNat + buffer.size.toNat := by
    have hx := x.arena.bytes.toNat_lt
    have hb := buffer.size.toNat_lt
    rw [UInt64.toNat_sub]
    omega
  omega

/-- With the next block in the place of the one in hand there are the blocks that come after it. -/
theorem Supplied.after (hx : Supplied h R (new :: sizes) buffer x) {larger : Block}
    {y : Session σ} (hnew : 0 < new) (hsize : larger.size.toNat = new)
    (hinside : larger.address.toNat + larger.size.toNat ≤ UInt64.size)
    (harena : y.arena = (x.arena.take larger.size).giveBack buffer.size) :
    Supplied h R sizes larger y where
  opened := by
    rw [harena]
    exact hx.opened
  pos := by
    rw [hsize]
    exact hnew
  inside := hinside
  limit := by
    have hbytes : y.arena.bytes - larger.size = x.arena.bytes - buffer.size := by
      rw [harena]
      show x.arena.bytes + larger.size - buffer.size - larger.size = _
      grind
    have hlimit : y.arena.limit = x.arena.limit := by
      rw [harena]
      rfl
    rw [hbytes, hlimit, hsize]
    exact (List.isChain_cons_cons.mp hx.limit).2
  allocate := fun hR size hs => hx.allocate hR size (List.mem_cons_of_mem _ hs)
  release := hx.release

/-- A larger block is handed out, and then the short one comes back. -/
theorem Supplied.exchange (hx : Supplied h R (new :: sizes) buffer x) (hR : R k x.host)
    {size : UInt64} (hsize : size.toNat = new) (hnew : 0 < new) :
    Yields (Arena.allocate h.heap size) x fun b y => ∃ larger, b = some larger ∧
      larger.1.size.toNat = new ∧
      Yields (Arena.free h.heap buffer) y fun _ z =>
        R k z.host ∧ Supplied h R sizes larger.1 z := by
  have hgranted : (Arena.granted size).toNat = new := by
    rw [Arena.toNat_granted]
    omega
  obtain ⟨⟨place, hplace, hinside⟩, hnext⟩ :=
    hx.allocate hR (Arena.granted size) (by rw [hgranted]; exact List.mem_cons_self)
  refine (Arena.yields_granted hx.opened (hx.limitPassed_eq_none hgranted) hplace).mono ?_
  intro b y hy
  have hopen : y.arena.closed = false := by
    rw [hy.arena]
    exact hx.opened
  refine ⟨_, hy.block, hgranted, (Arena.yields_returned hopen).mono ?_⟩
  intro _ z hz
  constructor
  · rw [hz.host, hy.host]
    exact hx.release hnext _ _
  · refine hx.after hnew hgranted hinside ?_
    rw [hz.arena, hy.arena]
    rfl

/-! ## The queries -/

/-- A session in which a name can be asked for in a buffer.  `R` tells with which states of the host
the kernel will misreport how often. -/
structure Told (h : Host σ) (handle : HandleId) (units : List UInt16) (R : Nat → σ → Prop)
    (k : Nat) (buffer : Block) (x : Session σ) : Prop where
  state : R k x.host
  misleads : ∀ {k y}, R (k + 1) y → ∀ b,
    Misleads b ((h.queryObject handle infoClass b).run y).1 ∧
      R k ((h.queryObject handle infoClass b).run y).2
  tells : ∀ {y}, R 0 y → ∀ b, Tells units b ((h.queryObject handle infoClass b).run y).1 ∧
    R 0 ((h.queryObject handle infoClass b).run y).2
  supplied : Supplied h R (growth (sizeFor units) k buffer.size.toNat) buffer x

/-- What the queries end with: a success, and the name in the buffer. -/
def Holds (units : List UInt16) (a : Block × Except Fault Status) : Prop :=
  ∃ status, a.2 = .ok status ∧ status.isSuccess = true ∧ read a.1 = .ok ⟨units⟩

theorem yields_query_of_room (hx : Told h handle units R 0 buffer x)
    (hunits : units.length ≤ 32766) (hlong : sizeFor units ≤ buffer.size.toNat) (attempts : Nat) :
    Yields (query h settings handle attempts buffer) x fun a _ => Holds units a := by
  obtain ⟨hanswer, -⟩ := hx.tells hx.state buffer
  rw [Tells, if_neg (Nat.not_lt.mpr hlong)] at hanswer
  obtain ⟨hkind, hholds⟩ := hanswer
  unfold query
  refine yields_journaled_bind ?_
  intro t _ _ _
  rw [if_pos (by rw [hkind]; decide)]
  exact yields_pure ⟨_, rfl, Status.isSuccess_of_kind_eq_success hkind,
    read_of_holdsName hunits hholds hlong hx.supplied.inside⟩

/-- A query that finds the buffer too short goes on with a larger one. -/
theorem yields_query_of_short {post : Block × Except Fault Status → Session σ → Prop}
    (hx : Supplied h R (new :: sizes) buffer x)
    (hkind : ((h.queryObject handle infoClass buffer).run x.host).1.status.kind = .bufferTooSmall)
    (hnext : R k ((h.queryObject handle infoClass buffer).run x.host).2)
    (hnew : (nextSize buffer.size
      (((h.queryObject handle infoClass buffer).run x.host).1.length.getD 0)).toNat = new)
    (hpos : 0 < new) (hceiling : new ≤ settings.nameBufferCeiling.toNat) {rest : Nat}
    (hmore : ∀ larger y, larger.size.toNat = new → R k y.host → Supplied h R sizes larger y →
      Yields (query h settings handle (rest + 1) larger) y post) :
    Yields (query h settings handle (rest + 2) buffer) x post := by
  unfold query
  refine yields_journaled_bind ?_
  intro t ht ha _
  rw [if_neg (by rw [hkind]; decide)]
  dsimp only
  rw [if_neg (by rw [UInt64.lt_iff_toNat_lt, hnew]; omega)]
  refine yields_say_bind ?_
  intro u hu hua _
  have hstate : R k u.host := by
    rw [hu, ht]
    exact hnext
  have hfilled := hx.of_same (hua.trans ha)
    ((h.queryObject handle infoClass buffer).run x.host).1.contents
  refine (hfilled.exchange hstate hnew hpos).bind ?_
  rintro _ v ⟨larger, rfl, hsize, hfree⟩
  refine hfree.bind ?_
  rintro _ w ⟨hw, hsupplied⟩
  exact hmore larger.1 w hsize hw hsupplied

theorem yields_query_of_told (hunits : units.length ≤ 32766) {attempts : Nat}
    (hattempts : k + 2 ≤ attempts)
    (hceiling : ∀ s ∈ growth (sizeFor units) k buffer.size.toNat,
      s ≤ settings.nameBufferCeiling.toNat)
    (hx : Told h handle units R k buffer x) :
    Yields (query h settings handle attempts buffer) x fun a _ => Holds units a := by
  obtain ⟨rest, rfl⟩ : ∃ rest, attempts = rest + 2 := ⟨attempts - 2, by omega⟩
  -- each misreport that is left uses up one attempt, so that two are there for the true answers
  induction k generalizing rest buffer x with
  | zero =>
    by_cases hlong : sizeFor units ≤ buffer.size.toNat
    · exact yields_query_of_room hx hunits hlong _
    · have hshort := Nat.lt_of_not_le hlong
      have hsupplied := hx.supplied
      rw [growth, if_pos hshort] at hsupplied hceiling
      obtain ⟨hanswer, hnext⟩ := hx.tells hx.state buffer
      rw [Tells, if_pos hshort] at hanswer
      obtain ⟨hkind, hlength⟩ := hanswer
      refine yields_query_of_short hsupplied hkind hnext ?_ (by unfold sizeFor; omega)
        (hceiling _ (List.mem_singleton_self _)) ?_
      · have hasked : (sizeFor units).toUInt32.toNat = sizeFor units :=
          UInt32.toNat_ofNat_of_lt' (by unfold sizeFor; show _ < 4294967296; omega)
        rw [hlength, Option.getD_some, toNat_nextSize _ buffer.small, hasked, if_pos hshort]
      · intro larger y hsize hy hlarger
        refine yields_query_of_room ⟨hy, hx.misleads, hx.tells, ?_⟩ hunits hsize.ge _
        rw [growth, if_neg (by omega)]
        exact hlarger
  | succ k ih =>
    obtain ⟨⟨hkind, hlength⟩, hnext⟩ := hx.misleads hx.state buffer
    have hpos := hx.supplied.pos
    rw [growth] at hceiling
    refine yields_query_of_short hx.supplied hkind hnext ?_ (by omega)
      (hceiling _ List.mem_cons_self) ?_
    · rw [toNat_nextSize _ buffer.small, if_neg (Nat.not_lt.mpr hlength)]
    · intro larger y hsize hy hlarger
      obtain ⟨rest, rfl⟩ : ∃ fewer, rest = fewer + 1 := ⟨rest - 1, by omega⟩
      rw [← hsize] at hlarger hceiling
      exact ih (fun s hs => hceiling s (List.mem_cons_of_mem _ hs))
        ⟨hy, hx.misleads, hx.tells, hlarger⟩ rest (by omega)

/-! ## The name -/

/-- The name that is asked for in a buffer is the one that the kernel tells, if there are enough
attempts and no size is over the ceiling. -/
theorem ask_of_told (hunits : units.length ≤ 32766) (hhas : h.has x.host .queryObject = true)
    (hx : Told h handle units R k buffer x)
    (hattempts : k + 2 ≤ settings.nameAttempts.toNat)
    (hceiling : k = 0 ∨ buffer.size.toNat * 2 ^ k ≤ settings.nameBufferCeiling.toNat)
    (hneeded : sizeFor units ≤ settings.nameBufferCeiling.toNat) :
    Yields (ask h settings handle buffer) x fun a _ => a.2 = .ok ⟨units⟩ := by
  unfold ask
  refine Host.yields_has_bind ?_
  rw [if_pos hhas]
  have hgrowth : ∀ s ∈ growth (sizeFor units) k buffer.size.toNat,
      s ≤ settings.nameBufferCeiling.toNat := by
    intro s hs
    have hle := mem_growth hs
    omega
  refine (yields_query_of_told hunits hattempts hgrowth hx).bind ?_
  rintro ⟨last, _⟩ t ⟨status, rfl, hsuccess, hread⟩
  dsimp only
  rw [if_pos hsuccess, hread]
  exact yields_note_bind fun u _ _ _ => yields_pure rfl

/-- What the buffer held before does not matter. -/
theorem Told.withContents (hx : Told h handle units R k buffer x) (contents : Nat → UInt8) :
    Told h handle units R k (buffer.withContents contents) x :=
  ⟨hx.state, hx.misleads, hx.tells, hx.supplied.of_same rfl contents⟩

end

/-- The name of a handle is read in every buffer with every contents. -/
structure Resolves (h : Host σ) (handle : HandleId) (units : List UInt16) : Prop where
  /-- With two attempts more than there are misreports, and no size over the ceiling. -/
  told : ∀ {settings : Settings} {R : Nat → σ → Prop} {k : Nat} {buffer : Block} {x : Session σ},
    h.has x.host .queryObject = true → Told h handle units R k buffer x →
    k + 2 ≤ settings.nameAttempts.toNat →
    buffer.size.toNat * 2 ^ k ≤ settings.nameBufferCeiling.toNat →
    sizeFor units ≤ settings.nameBufferCeiling.toNat → ∀ contents,
      ((ask h settings handle (buffer.withContents contents)).run x).1.2 = .ok ⟨units⟩
  /-- With the ordinary settings, if nothing is misreported. -/
  ordinary : ∀ {R : Nat → σ → Prop} {buffer : Block} {x : Session σ},
    h.has x.host .queryObject = true → Told h handle units R 0 buffer x → ∀ contents,
      ((ask h {} handle (buffer.withContents contents)).run x).1.2 = .ok ⟨units⟩

/-- Every name that a kernel object can have is read. -/
theorem resolves (h : Host σ) (handle : HandleId) (units : List UInt16)
    (hunits : units.length ≤ 32766) : Resolves h handle units where
  told := by
    intro settings R k buffer x hhas hx hattempts hceiling hneeded contents
    exact ask_of_told hunits hhas (hx.withContents contents) hattempts (.inr hceiling) hneeded
  ordinary := by
    intro R buffer x hhas hx contents
    refine ask_of_told hunits hhas (hx.withContents contents) (by decide) (.inl rfl) ?_
    show sizeFor units ≤ 131072
    unfold sizeFor
    omega

/-! ## A host that misreports -/

/-- A host whose state says how often it will still misreport. -/
def evasive (units : List UInt16) : Host Nat where
  heap := .general fun _ => pure (some 0)
  ownPid := 4
  has := fun _ _ => true
  queryTable := fun _ b => pure { status := .lengthMismatch, length := none, contents := b.byte }
  queryObject := fun _ _ b left =>
    match left with
    | 0 => (World.fill b (nameBytes b.address units), 0)
    | left + 1 => ({ status := .lengthMismatch, length := none, contents := b.byte }, left)
  openProcess := fun _ _ => pure { status := .accessDenied, handle := none }
  duplicate := fun _ _ => pure { status := .accessDenied, handle := none }
  close := fun _ => pure .success
  fileKind := fun _ => pure .disk
  imagePath := fun _ => pure none

theorem tells_fill (units : List UInt16) (b : Block) :
    Tells units b (World.fill b (nameBytes b.address units)) := by
  rw [Tells, ← length_nameBytes b.address units]
  split
  · rename_i hshort
    exact World.fill_of_short hshort
  · rename_i hroom
    obtain ⟨hkind, hspells⟩ := World.fill_of_room hroom
    rw [length_nameBytes] at hroom
    exact ⟨hkind, holdsName_of_spells hspells (Nat.le_of_not_lt hroom)⟩

theorem told_evasive (handle : HandleId) {units : List UInt16} {k : Nat} {buffer : Block}
    {x : Session Nat} (hstate : x.host = k) (hopened : x.arena.closed = false)
    (hlimit : x.arena.limit = none) (hpos : 0 < buffer.size.toNat)
    (hinside : buffer.address.toNat + buffer.size.toNat ≤ UInt64.size)
    (hsmall : ∀ s ∈ growth (sizeFor units) k buffer.size.toNat, s + 15 < 0x8000000000000000) :
    Told (evasive units) handle units (fun k y => y = k) k buffer x where
  state := hstate
  misleads := by
    rintro k _ rfl b
    exact ⟨⟨rfl, Nat.zero_le _⟩, rfl⟩
  tells := by
    rintro _ rfl b
    exact ⟨tells_fill units b, rfl⟩
  supplied :=
    { opened := hopened
      pos := hpos
      inside := hinside
      limit := by
        refine (List.pairwise_of_forall ?_).isChain
        intro old new limit hl
        rw [hlimit] at hl
        cases hl
      allocate := by
        rintro k y hy size hsize
        have hs := hsmall _ hsize
        have hrun : ((evasive units).heap.allocate size).run y =
            (some ⟨0, by omega⟩, y) := by
          show (dite _ _ _ : StateM Nat (Option (Placement size))).run y = _
          rw [dif_pos hs]
          rfl
        rw [hrun]
        have hlt := size.toNat_lt_size
        exact ⟨⟨_, rfl, by show 0 + size.toNat ≤ _; omega⟩, hy⟩
      release := fun hy _ _ => hy }

/-- A buffer of 8 bytes, which are left from an earlier query. -/
def leftover : Block where
  address := 0
  size := 8
  byte := fun _ => 0xFF
  small := by decide

/-- A name of a lone surrogate and a letter: after two misreports with four attempts, and with the
ordinary settings. -/
theorem resolves_sample :
    ((ask (evasive [0xD800, 0x61]) { nameAttempts := 4 } ⟨8⟩ leftover).run { host := 2 }).1.2 =
        .ok ⟨[0xD800, 0x61]⟩ ∧
      ((ask (evasive [0xD800, 0x61]) {} ⟨8⟩ leftover).run { host := 0 }).1.2 =
        .ok ⟨[0xD800, 0x61]⟩ := by
  have hresolves := resolves (evasive [0xD800, 0x61]) ⟨8⟩ [0xD800, 0x61] (by decide)
  have hinside : leftover.address.toNat + leftover.size.toNat ≤ UInt64.size := by decide
  have hnever : Told (evasive [0xD800, 0x61]) ⟨8⟩ [0xD800, 0x61] (fun k y => y = k) 0 leftover
      { host := 0 } := told_evasive ⟨8⟩ rfl rfl rfl (by decide) hinside (by decide)
  have htwice : Told (evasive [0xD800, 0x61]) ⟨8⟩ [0xD800, 0x61] (fun k y => y = k) 2 leftover
      { host := 2 } := told_evasive ⟨8⟩ rfl rfl rfl (by decide) hinside (by decide)
  have hsame : leftover.withContents leftover.byte = leftover := rfl
  rw [← hsame]
  constructor
  · exact hresolves.told rfl htwice (by decide) (by decide) (by decide) leftover.byte
  · exact hresolves.ordinary rfl hnever leftover.byte

end Name

end FileHolders
