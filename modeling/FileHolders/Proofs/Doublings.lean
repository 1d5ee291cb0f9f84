import FileHolders.Proofs.Supply
import FileHolders.Proofs.TableRounds
import FileHolders.Proofs.World
import Mathlib.Data.Nat.Find
import Mathlib.Order.Bounds.Defs

/-!
# Reading a table of any size

A kernel that shows its table writes it into every buffer that has room for it and calls every other
buffer too short.  Then a reading doubles its first guess until the table has room, and gives all of
its records; if the ceiling comes first, it ends with the first size over the ceiling.  A size that
is small enough to be kept is the only one that the next reading tries.

    doublings guess needed = the least k with needed ≤ firstSize guess * 2 ^ k   (lt_doublings_iff)
    Yields (read h settings) x fun a t => ∃ k, ReadAfter settings records x k a t
                                                                         (yields_read_of_readable)
    Readable h settings records R x → ReadWhole h settings records x                  (read_whole)
-/

namespace FileHolders

open FileHolders.Action

variable {σ : Type}

namespace Table

/-! ## Sizes -/

/-- The first size that a reading tries. -/
def firstSize (guess : UInt64) : Nat := max guess.toNat 1

theorem firstSize_pos (guess : UInt64) : 0 < firstSize guess := by
  unfold firstSize
  omega

theorem two_pow_mono (first : Nat) {i j : Nat} (hij : i ≤ j) : first * 2 ^ i ≤ first * 2 ^ j :=
  Nat.mul_le_mul_left first (Nat.pow_le_pow_right (by decide) hij)

theorem exists_reaches (guess : UInt64) (needed : Nat) : ∃ k, needed ≤ firstSize guess * 2 ^ k :=
  ⟨needed, Nat.le_trans (Nat.le_of_lt Nat.lt_two_pow_self)
    (Nat.le_mul_of_pos_left _ (firstSize_pos guess))⟩

/-- How often the first size is doubled until it comes to what is needed. -/
def doublings (guess : UInt64) (needed : Nat) : Nat := Nat.find (exists_reaches guess needed)

/-- The least size that comes to what is needed. -/
def enough (guess : UInt64) (needed : Nat) : Nat := firstSize guess * 2 ^ doublings guess needed

/-- The sizes from the first one on that double it so often. -/
def sizesTo (guess : UInt64) (k : Nat) : List Nat :=
  (List.range (k + 1)).map fun i => firstSize guess * 2 ^ i

theorem le_enough (guess : UInt64) (needed : Nat) : needed ≤ enough guess needed :=
  Nat.find_spec (exists_reaches guess needed)

/-- All sizes before that one are too small, and no size after it. -/
theorem lt_doublings_iff {guess : UInt64} {needed k : Nat} :
    k < doublings guess needed ↔ firstSize guess * 2 ^ k < needed := by
  constructor
  · intro hk
    exact Nat.lt_of_not_le (Nat.find_min (exists_reaches guess needed) hk)
  · intro hsmall
    by_contra hk
    have hle := two_pow_mono (firstSize guess) (Nat.le_of_not_lt hk)
    have henough := le_enough guess needed
    unfold enough at henough
    omega

/-- A size that a reading asks the heap for: one that comes of doubling the first size as often as
the table needs it, and at the first time or not over the ceiling. -/
def Tried (settings : Settings) (guess : UInt64) (needed : Nat) (size : UInt64) : Prop :=
  ∃ i ≤ doublings guess needed, size.toNat = firstSize guess * 2 ^ i ∧
    (i = 0 ∨ size ≤ settings.tableCeiling)

theorem toNat_granted_first (guess : UInt64) :
    (Arena.granted (max guess 1)).toNat = firstSize guess := by
  have hone : (1 : UInt64).toNat = 1 := rfl
  rw [Arena.toNat_granted, Word.toNat_max, hone, firstSize]
  omega

theorem tried_first (settings : Settings) (guess : UInt64) (needed : Nat) :
    Tried settings guess needed (Arena.granted (max guess 1)) :=
  ⟨0, Nat.zero_le _, by rw [toNat_granted_first, Nat.pow_zero, Nat.mul_one], .inl rfl⟩

/-! ## The kernel -/

/-- The table is written into a buffer that has room for it; a shorter one is refused for its
length. -/
def Shows (records : List Record) (b : Block) (a : QueryReply) : Prop :=
  if b.size.toNat < sizeFor records.length then a.status.kind = .bufferTooSmall
  else a.status.kind = .success ∧ (b.withContents a.contents).HoldsTable records

section

variable {records : List Record} {b : Block} {a : QueryReply}

theorem Shows.short_iff (h : Shows records b a) :
    a.status.kind = .bufferTooSmall ↔ b.size.toNat < sizeFor records.length := by
  unfold Shows at h
  split at h
  · rename_i hshort
    exact iff_of_true h hshort
  · rename_i hroom
    exact iff_of_false (by rw [h.1]; decide) hroom

theorem Shows.of_success (h : Shows records b a) (hk : a.status.kind = .success) :
    sizeFor records.length ≤ b.size.toNat ∧ (b.withContents a.contents).HoldsTable records := by
  unfold Shows at h
  split at h
  · rw [h] at hk
    cases hk
  · rename_i hroom
    exact ⟨Nat.le_of_not_lt hroom, h.2⟩

/-- There is no other answer. -/
theorem Shows.success_or_short (h : Shows records b a) :
    a.status.kind = .success ∨ a.status.kind = .bufferTooSmall := by
  unfold Shows at h
  split at h
  · exact .inr h
  · exact .inl h.1

end

/-- A session in which a table can be read.  `R` tells in which states the host shows it and has the
blocks for it; the limit of the arena leaves room for each of them. -/
structure Readable (h : Host σ) (settings : Settings) (records : List Record) (R : σ → Prop)
    (x : Session σ) : Prop where
  state : R x.host
  has : h.has x.host .queryTable = true
  queryTable : ∀ {y}, R y → ∀ b, Shows records b ((h.queryTable infoClass b).run y).1 ∧
    R ((h.queryTable infoClass b).run y).2
  opened : x.arena.closed = false
  limit : ∀ size, Tried settings x.guess (sizeFor records.length) size →
    ∀ limit, x.arena.limit = some limit → x.arena.bytes.toNat + size.toNat ≤ limit.toNat
  allocate : ∀ {y}, R y → ∀ size, Tried settings x.guess (sizeFor records.length) size →
    (∃ place, ((h.heap.allocate size).run y).1 = some place) ∧ R ((h.heap.allocate size).run y).2
  release : ∀ {y}, R y → ∀ address size, R ((h.heap.release address size).run y).2

/-! ## The rounds of a reading -/

section

variable {h : Host σ} {settings : Settings} {records : List Record} {R : σ → Prop}
  {x : Session σ} {k : Nat} {m n : Moment σ Block}

/-- What is kept from round to round, besides what any reading keeps: the host shows the table, and
the sizes were doubled for want of room and not over the ceiling. -/
structure Shown (settings : Settings) (records : List Record) (R : σ → Prop) (x : Session σ)
    (k : Nat) (m : Moment σ Block) : Prop where
  keeps : Keeps x.arena x.guess (firstSize x.guess) k m
  state : R m.session.host
  within : k ≤ doublings x.guess (sizeFor records.length)
  under : k = 0 ∨ firstSize x.guess * 2 ^ k ≤ settings.tableCeiling.toNat

/-- A block of a size that is tried is handed out while nothing else of the reading is out. -/
theorem yields_allocate_of_tried (hx : Readable h settings records R x) {y : Session σ}
    {size : UInt64} (hy : R y.host) (ha : y.arena = x.arena)
    (hsize : Tried settings x.guess (sizeFor records.length) (Arena.granted size)) :
    Yields (Arena.allocate h.heap size) y fun b t => ∃ place, Arena.Granted h.heap place y b t ∧
      R t.host := by
  obtain ⟨⟨place, hplace⟩, hnext⟩ := hx.allocate hy _ hsize
  have hopen : y.arena.closed = false := by
    rw [ha]
    exact hx.opened
  have hlimit : y.arena.limitPassed (Arena.granted size) = none := by
    rw [ha]
    exact Arena.limitPassed_eq_none (hx.limit _ hsize)
  refine (Arena.yields_granted hopen hlimit hplace).mono fun b t hb => ⟨place, hb, ?_⟩
  rw [hb.host]
  exact hnext

/-- A round that ends since a block was refused. -/
def isRefusal : Block ⊕ Except Fault Block → Bool
  | .inr (.error (.outOfMemory _)) => true
  | _ => false

/-- A round leaves the host as one that shows the table, and no block is refused in it. -/
theorem yields_round_of_shown (hx : Readable h settings records R x)
    (hm : Shown settings records R x k m) :
    Yields (round h settings m.hand) m.session fun a t => R t.host ∧ isRefusal a = false := by
  obtain ⟨hshows, hnext⟩ := hx.queryTable hm.state m.hand
  unfold round
  refine yields_journaled_bind ?_
  intro t ht ha _
  rw [← ht] at hnext
  split
  · exact yields_pure ⟨hnext, rfl⟩
  · rename_i hk
    have hshort := hshows.short_iff.mp hk
    have hopen : t.arena.closed = false := by
      rw [ha, hm.keeps.arena]
      exact hx.opened
    refine (Arena.yields_returned hopen).bind ?_
    intro _ u hu
    have hustate : R u.host := by
      rw [hu.host]
      exact hx.release hnext _ _
    -- the short block is back, so the limit has to leave room for the larger one only
    have huarena : u.arena = x.arena := by
      rw [hu.arena, ha, hm.keeps.arena, Arena.giveBack_take]
    split
    · exact yields_say_bind fun v hv _ _ => yields_pure ⟨by rw [hv]; exact hustate, rfl⟩
    · rename_i hc
      refine yields_say_bind ?_
      intro v hv hva _
      obtain ⟨hdouble, hgranted⟩ :=
        toNat_granted_double m.hand (hm.keeps.pos (firstSize_pos x.guess))
      have hsize : Tried settings x.guess (sizeFor records.length)
          (Arena.granted (Word.double m.hand.size)) := by
        refine ⟨k + 1, ?_, ?_, .inr ?_⟩
        · rw [hm.keeps.size] at hshort
          exact lt_doublings_iff.mpr hshort
        · rw [hgranted, hm.keeps.size]
          ring
        · rw [UInt64.lt_iff_toNat_lt, hdouble] at hc
          rw [UInt64.le_iff_toNat_le, hgranted]
          omega
      refine (yields_allocate_of_tried hx (by rw [hv]; exact hustate) (hva.trans huarena)
        hsize).bind ?_
      rintro _ w ⟨place, hw, hstate⟩
      rw [hw.block]
      exact yields_pure ⟨hstate, rfl⟩
  · rename_i hk hs
    exact absurd hshows.success_or_short (not_or.mpr ⟨hk, hs⟩)

theorem Shown.shows (hm : Shown settings records R x k m) (hx : Readable h settings records R x) :
    Shows records m.hand (answerAt h m) := (hx.queryTable hm.state m.hand).1

theorem Shown.step (hx : Readable h settings records R x)
    (hm : Shown settings records R x k m) (hl : m.Leads (round h settings) n) :
    Shown settings records R x (k + 1) n := by
  have hnext := hm.keeps.step (firstSize_pos x.guess) hl
  obtain ⟨hshort, -, hceiling, -⟩ := doubles_of_leads hl (hm.keeps.pos (firstSize_pos x.guess))
  rw [(hm.shows hx).short_iff, hm.keeps.size] at hshort
  rw [UInt64.le_iff_toNat_le, hnext.size] at hceiling
  exact ⟨hnext, (hl.of_yields (yields_round_of_shown hx hm)).1, lt_doublings_iff.mpr hshort,
    .inr hceiling⟩

/-- The reading ends with the round in which the table has room, or with the first one after which
twice the size is over the ceiling. -/
inductive EndsAfter (settings : Settings) (records : List Record) (guess : UInt64) (k : Nat) :
    Except Fault Block → Prop
  | filled {b : Block} (hk : k = doublings guess (sizeFor records.length))
      (hsize : b.size.toNat = firstSize guess * 2 ^ k) (hb : b.HoldsTable records) :
      EndsAfter settings records guess k (.ok b)
  | overCeiling {requested : UInt64} (hk : k < doublings guess (sizeFor records.length))
      (hr : requested.toNat = firstSize guess * 2 ^ (k + 1))
      (hc : settings.tableCeiling < requested) :
      EndsAfter settings records guess k (.error (.overCeiling requested settings.tableCeiling))

theorem Shown.of_ends (hx : Readable h settings records R x)
    (hm : Shown settings records R x k m) {a : Except Fault Block} {t : Session σ}
    (he : m.Ends (round h settings) a t) : EndsAfter settings records x.guess k a := by
  have hshows := hm.shows hx
  have hsize := hm.keeps.size
  have hover : (answerAt h m).status.kind = .bufferTooSmall →
      k < doublings x.guess (sizeFor records.length) := by
    rw [hshows.short_iff, hsize]
    exact lt_doublings_iff.mpr
  cases round_of_ends he with
  | filled hkind _ _ =>
    obtain ⟨hroom, hholds⟩ := hshows.of_success hkind
    refine .filled ?_ hsize hholds
    rw [hsize] at hroom
    have hlast : ¬ k < doublings x.guess (sizeFor records.length) := by
      rw [lt_doublings_iff]
      omega
    have hwithin := hm.within
    omega
  | overCeiling hkind hc _ _ =>
    refine .overCeiling (hover hkind) ?_ hc
    rw [(toNat_granted_double m.hand (hm.keeps.pos (firstSize_pos x.guess))).1, hsize]
    ring
  | refused _ _ _ _ _ => cases (he.of_yields (yields_round_of_shown hx hm)).2
  | failed hkind hshort _ _ => exact absurd hshows.success_or_short (not_or.mpr ⟨hkind, hshort⟩)

end

/-! ## The reading -/

/-- The sizes of the table queries among events, in their order. -/
def queriedSizes (events : List Event) : List Nat :=
  (events.filterMap Event.tableQuery?).map fun q => q.1.toNat

theorem queriedSizes_append_of_isHeap {events more : List Event}
    (h : ∀ e ∈ events, e.isHeap = true) : queriedSizes (events ++ more) = queriedSizes more := by
  rw [queriedSizes, List.filterMap_append, filterMap_tableQuery?_of_isHeap h, List.nil_append,
    queriedSizes]

/-- A reading that doubled its first size `k` times. -/
structure ReadAfter (settings : Settings) (records : List Record) (x : Session σ) (k : Nat)
    (a : Except Fault Table) (t : Session σ) : Prop where
  within : k ≤ doublings x.guess (sizeFor records.length)
  under : k = 0 ∨ firstSize x.guess * 2 ^ k ≤ settings.tableCeiling.toNat
  sizes : ∃ events, t.journal.toList = x.journal.toList ++ events ∧
    queriedSizes events = sizesTo x.guess k
  ends : ∃ filled, EndsAfter settings records x.guess k filled ∧ a = filled.map Table.mk ∧
    t.guess = match filled with
      | .error _ => x.guess
      | .ok b => nextGuess x.guess b.size settings.guessCeiling

section

variable {h : Host σ} {settings : Settings} {records : List Record} {R : σ → Prop}
  {x : Session σ}

theorem sizes_of_keeps {before : Arena} {guess : UInt64} {first : Nat} {ms : List (Moment σ Block)}
    (hk : ∀ k n, ms[k]? = some n → Keeps before guess first k n) :
    ms.map (fun m => m.hand.size.toNat) = (List.range ms.length).map fun k => first * 2 ^ k := by
  apply List.ext_getElem?
  intro k
  rw [List.getElem?_map, List.getElem?_map]
  cases hn : ms[k]? with
  | none =>
    rw [List.getElem?_eq_none_iff] at hn
    rw [List.getElem?_eq_none (by simpa using hn)]
    rfl
  | some n =>
    obtain ⟨hlt, -⟩ := List.getElem?_eq_some_iff.mp hn
    rw [List.getElem?_range hlt]
    exact congrArg some (hk k n hn).size

/-- The rounds of a reading, from the first buffer on. -/
theorem readAfter_of_rounds (hx : Readable h settings records R x) {m : Moment σ Block}
    (hm : Shown settings records R x 0 m) {rest : List (Moment σ Block)}
    {a : Except Fault Block} {u t : Session σ} (hr : Rounds (round h settings) (m :: rest) a u)
    {events : List Event} (hj : m.session.journal.toList = x.journal.toList ++ events)
    (he : ∀ e ∈ events, e.isHeap = true) (ht : Closes settings a u t) :
    ReadAfter settings records x rest.length (a.map Table.mk) t := by
  have hshown := hr.at_index hm fun hm hl => hm.step hx hl
  obtain ⟨n, hlast, hends⟩ := hr.ended
  have hn := hshown rest.length n (by
    rw [List.getLast?_eq_getElem?] at hlast
    exact hlast)
  obtain ⟨more, hmore, hqueries⟩ := hr.traces emits_round
  refine ⟨hn.within, hn.under, ⟨events ++ more, ?_, ?_⟩, a, hn.of_ends hx hends, rfl, ?_⟩
  · rw [ht.journal, hmore, hj, List.append_assoc]
  · rw [queriedSizes_append_of_isHeap he, queriedSizes, hqueries, List.map_map]
    exact sizes_of_keeps fun k n hk => (hshown k n hk).keeps
  · rw [ht.guess]
    have hend := end_of_rounds hr hm.keeps (firstSize_pos x.guess)
    cases a with
    | error fault => exact hend.2
    | ok filled =>
      show nextGuess u.guess _ _ = nextGuess x.guess _ _
      rw [hend.2]

theorem yields_read_of_readable (hx : Readable h settings records R x) :
    Yields (read h settings) x fun a t => ∃ k, ReadAfter settings records x k a t := by
  unfold read
  refine Host.yields_has_bind ?_
  rw [if_pos hx.has]
  refine yields_get_bind ?_
  refine (yields_allocate_of_tried hx hx.state rfl (tried_first settings _ _)).bind ?_
  rintro _ y ⟨place, hy, hstate⟩
  rw [hy.block]
  have hm : Shown settings records R x 0 ⟨Block.zeroed place, y⟩ := by
    refine ⟨⟨?_, hy.arena, hy.guess⟩, hstate, Nat.zero_le _, .inl rfl⟩
    rw [Nat.pow_zero, Nat.mul_one]
    exact toNat_granted_first x.guess
  have hj : y.journal.toList = x.journal.toList ++
      [.allocated (Arena.granted (max x.guess 1)) (some place.address)] := by
    rw [hy.journal, Array.toList_push]
  have hheap : ∀ e ∈ [Event.allocated (Arena.granted (max x.guess 1)) (some place.address)],
      e.isHeap = true := by simp [Event.isHeap]
  refine (fill_in_rounds h settings ⟨Block.zeroed place, y⟩).bind ?_
  rintro (fault | filled) u ⟨rest, hr⟩
  · exact yields_pure ⟨_, readAfter_of_rounds hx hm hr hj hheap ⟨rfl, rfl, rfl⟩⟩
  · refine yields_remember_bind fun v hva hvj hvg => yields_log_bind fun _ => ?_
    exact yields_pure ⟨_, readAfter_of_rounds hx hm hr hj hheap ⟨hva, hvj, hvg⟩⟩

theorem ReadAfter.queried {k : Nat} (hk : ReadAfter settings records x k
    ((read h settings).run x).1 ((read h settings).run x).2) :
    queriedSizes (eventsOf (read h settings) x) = sizesTo x.guess k := by
  obtain ⟨events, hj, hsizes⟩ := hk.sizes
  rw [eventsOf_eq hj, hsizes]

/-- A reading only ends early over the ceiling, where no reading goes on. -/
theorem ReadAfter.le {τ : Type} {y : Session τ} {a b : Except Fault Table} {t : Session σ}
    {u : Session τ} {j k : Nat} (hj : ReadAfter settings records x j a t)
    (hk : ReadAfter settings records y k b u) (hguess : y.guess = x.guess) : k ≤ j := by
  by_contra hlt
  obtain ⟨_, hends, -⟩ := hj.ends
  have hwithin := hk.within
  have hunder := hk.under
  rw [hguess] at hwithin hunder
  cases hends with
  | filled hlast _ _ => omega
  | overCeiling _ hr hc =>
    have hle := two_pow_mono (firstSize x.guess) (by omega : j + 1 ≤ k)
    rw [UInt64.lt_iff_toNat_lt, hr] at hc
    omega

end

/-! ## What a reading comes to -/

/-- What a reading of a table comes to, and the readings after it. -/
structure ReadWhole (h : Host σ) (settings : Settings) (records : List Record) (x : Session σ) :
    Prop where
  /-- If the least size that is enough is not over the ceiling, or the first one is enough, the
  table is read with as many doublings as it needs. -/
  found : doublings x.guess (sizeFor records.length) = 0 ∨
      enough x.guess (sizeFor records.length) ≤ settings.tableCeiling.toNat →
    ∃ table, ((read h settings).run x).1 = .ok table ∧ table.records = records ∧
      table.size.toNat = records.length ∧ table.claimed.toNat = records.length ∧
      queriedSizes (eventsOf (read h settings) x) =
        sizesTo x.guess (doublings x.guess (sizeFor records.length))
  /-- Otherwise the reading ends with the first doubled size over the ceiling. -/
  overCeiling : doublings x.guess (sizeFor records.length) ≠ 0 →
    settings.tableCeiling.toNat < enough x.guess (sizeFor records.length) →
    ∃ k requested, IsLeast { i | settings.tableCeiling.toNat < firstSize x.guess * 2 ^ (i + 1) } k ∧
      requested.toNat = firstSize x.guess * 2 ^ (k + 1) ∧
      ((read h settings).run x).1 = .error (.overCeiling requested settings.tableCeiling) ∧
      queriedSizes (eventsOf (read h settings) x) = sizesTo x.guess k
  /-- A size that is kept is the only one that is tried for the next table, if that has room in
  it. -/
  kept : ∀ table, ((read h settings).run x).1 = .ok table →
    enough x.guess (sizeFor records.length) ≤ settings.guessCeiling.toNat →
    ∀ {τ : Type} (g : Host τ) (later : List Record) (S : τ → Prop) (y : Session τ),
      y.guess = ((read h settings).run x).2.guess →
      later.length ≤ (enough x.guess (sizeFor records.length) - 16) / 40 →
      Readable g settings later S y →
      queriedSizes (eventsOf (read g settings) y) = [enough x.guess (sizeFor records.length)]
  /-- If the size is too large to be kept, the same table takes the same sizes again. -/
  repeated : ∀ table, ((read h settings).run x).1 = .ok table →
    settings.guessCeiling.toNat < enough x.guess (sizeFor records.length) →
    ∀ {τ : Type} (g : Host τ) (S : τ → Prop) (y : Session τ),
      y.guess = ((read h settings).run x).2.guess → Readable g settings records S y →
      queriedSizes (eventsOf (read g settings) y) = queriedSizes (eventsOf (read h settings) x)

section

variable {h : Host σ} {settings : Settings} {records : List Record} {R : σ → Prop}
  {x : Session σ}

/-- A reading that succeeds has doubled the first size as often as the table needs it. -/
theorem ReadAfter.of_ok {k : Nat} {table : Table} {t : Session σ}
    (hk : ReadAfter settings records x k (.ok table) t) :
    k = doublings x.guess (sizeFor records.length) ∧ table.block.HoldsTable records ∧
      table.block.size.toNat = enough x.guess (sizeFor records.length) ∧
      t.guess = nextGuess x.guess table.block.size settings.guessCeiling := by
  obtain ⟨_, hends, ha, hguess⟩ := hk.ends
  cases hends with
  | filled hlast hsize hholds =>
    cases ha
    exact ⟨hlast, hholds, by rw [hsize, hlast, enough], hguess⟩
  | overCeiling _ _ _ => cases ha

theorem ReadAfter.ok_of_fits {k : Nat} {a : Except Fault Table} {t : Session σ}
    (hk : ReadAfter settings records x k a t)
    (hfits : doublings x.guess (sizeFor records.length) = 0 ∨
      enough x.guess (sizeFor records.length) ≤ settings.tableCeiling.toNat) :
    ∃ table, a = .ok table := by
  obtain ⟨_, hends, ha, -⟩ := hk.ends
  cases hends with
  | filled _ _ _ => exact ⟨_, ha⟩
  | overCeiling hlt hr hc =>
    have hle : firstSize x.guess * 2 ^ (k + 1) ≤ enough x.guess (sizeFor records.length) :=
      two_pow_mono (firstSize x.guess) hlt
    rw [UInt64.lt_iff_toNat_lt, hr] at hc
    omega

theorem ReadAfter.overCeiling_of_not_fits {k : Nat} {a : Except Fault Table} {t : Session σ}
    (hk : ReadAfter settings records x k a t)
    (hmore : doublings x.guess (sizeFor records.length) ≠ 0)
    (hover : settings.tableCeiling.toNat < enough x.guess (sizeFor records.length)) :
    ∃ requested, requested.toNat = firstSize x.guess * 2 ^ (k + 1) ∧
      settings.tableCeiling < requested ∧
      a = .error (.overCeiling requested settings.tableCeiling) := by
  obtain ⟨_, hends, ha, -⟩ := hk.ends
  cases hends with
  | filled hlast _ _ =>
    have hunder := hk.under
    rw [hlast] at hunder
    unfold enough at hover
    omega
  | overCeiling _ hr hc => exact ⟨_, hr, hc, ha⟩

/-- Where a reading ends over the ceiling, no size before was over it. -/
theorem ReadAfter.isLeast {k : Nat} {a : Except Fault Table} {t : Session σ}
    (hk : ReadAfter settings records x k a t)
    (hover : settings.tableCeiling.toNat < firstSize x.guess * 2 ^ (k + 1)) :
    IsLeast { i | settings.tableCeiling.toNat < firstSize x.guess * 2 ^ (i + 1) } k := by
  refine ⟨hover, ?_⟩
  intro i (hi : settings.tableCeiling.toNat < _)
  by_contra hlt
  have hle := two_pow_mono (firstSize x.guess) (by omega : i + 1 ≤ k)
  have hunder := hk.under
  omega

/-- A size that was kept is the first one, and enough for every table that has room in it. -/
theorem doublings_of_kept {guess last : UInt64} {needed : Nat} {later : List Record}
    (hkept : guess.toNat = enough last needed) (hneeded : 16 ≤ needed)
    (hlater : later.length ≤ (enough last needed - 16) / 40) :
    firstSize guess = enough last needed ∧ doublings guess (sizeFor later.length) = 0 := by
  have henough := le_enough last needed
  have hfirst : firstSize guess = enough last needed := by
    rw [firstSize, hkept]
    omega
  have hnone : ¬ 0 < doublings guess (sizeFor later.length) := by
    rw [lt_doublings_iff, hfirst, sizeFor]
    omega
  exact ⟨hfirst, by omega⟩

/-- Where the kernel shows its table and the heap has the blocks, a reading comes to that. -/
theorem read_whole (hx : Readable h settings records R x) : ReadWhole h settings records x := by
  obtain ⟨k, hk⟩ : ∃ k, ReadAfter settings records x k ((read h settings).run x).1
      ((read h settings).run x).2 := yields_read_of_readable hx
  refine ⟨?_, ?_, ?_, ?_⟩
  · intro hfits
    obtain ⟨table, hok⟩ := hk.ok_of_fits hfits
    obtain ⟨hlast, hholds, hsize, -⟩ := (hok ▸ hk).of_ok
    have hroom : sizeFor records.length ≤ table.block.size.toNat := by
      rw [hsize]
      exact le_enough _ _
    have hlength := toNat_length_of_sizeFor_le hroom
    refine ⟨table, hok, records_of_holdsTable hholds hroom, ?_, ?_, ?_⟩
    · rw [size_of_holdsTable hholds hroom, hlength]
    · rw [claimed_of_holdsTable hholds hroom, hlength]
    · rw [hk.queried, hlast]
  · intro hmore hover
    obtain ⟨requested, hr, hc, herror⟩ := hk.overCeiling_of_not_fits hmore hover
    rw [UInt64.lt_iff_toNat_lt, hr] at hc
    exact ⟨k, requested, hk.isLeast hc, hr, herror, hk.queried⟩
  · intro table hok hkept τ g later S y hguess hlater hy
    obtain ⟨-, -, hsize, hnext⟩ := (hok ▸ hk).of_ok
    have hsame : y.guess.toNat = enough x.guess (sizeFor records.length) := by
      rw [hguess, hnext, nextGuess, if_pos, hsize]
      rw [UInt64.le_iff_toNat_le, hsize]
      exact hkept
    -- the size that was kept is the first one now, and there is none before it to double
    obtain ⟨hfirst, hnone⟩ := doublings_of_kept hsame (Nat.le_add_right 16 _) hlater
    obtain ⟨j, hj⟩ : ∃ j, ReadAfter settings later y j ((read g settings).run y).1
        ((read g settings).run y).2 := yields_read_of_readable hy
    obtain rfl : j = 0 := by
      have hwithin := hj.within
      omega
    rw [hj.queried, sizesTo, hfirst]
    simp
  · intro table hok hlarge τ g S y hguess hy
    obtain ⟨-, -, hsize, hnext⟩ := (hok ▸ hk).of_ok
    have hsame : y.guess = x.guess := by
      rw [hguess, hnext, nextGuess, if_neg]
      rw [UInt64.le_iff_toNat_le, hsize]
      omega
    obtain ⟨j, hj⟩ : ∃ j, ReadAfter settings records y j ((read g settings).run y).1
        ((read g settings).run y).2 := yields_read_of_readable hy
    obtain rfl : j = k := Nat.le_antisymm (hk.le hj hsame) (hj.le hk hsame.symm)
    rw [hj.queried, hk.queried, sizesTo, sizesTo, hsame]

/-- A host that is steady in a world shows the table of the world. -/
theorem Readable.of_steady {w : World} {room : Nat} {R : σ → Hand → Prop} {hand : Hand}
    (hs : Steady h w room R) (hstate : R x.host hand) (hhas : w.has .queryTable = true)
    (hopened : x.arena.closed = false) (hlimit : x.arena.limit = none)
    (hroom : ∀ size, Tried settings x.guess (sizeFor w.table.length) size → size.toNat ≤ room) :
    Readable h settings w.table (fun y => R y hand) x where
  state := hstate
  has := (hs.has hstate .queryTable).trans hhas
  queryTable := fun hy b => hs.queryTable hy b
  opened := hopened
  limit := by
    intro size _ limit hl
    rw [hlimit] at hl
    cases hl
  allocate := by
    intro y hy size hsize
    obtain ⟨⟨place, hplace, -⟩, hnext⟩ := hs.allocate hy size (hroom size hsize)
    exact ⟨⟨place, hplace⟩, hnext⟩
  release := fun hy address size => hs.release hy address size

/-- Three records need 136 bytes, so a first guess of 20 is doubled three times. -/
theorem read_whole_sample :
    ∃ table, ((read (World.sample.host 4) {}).run { host := .empty, guess := 20 }).1 = .ok table ∧
      table.records = World.sample.table ∧
      queriedSizes (eventsOf (read (World.sample.host 4) {}) { host := .empty, guess := 20 }) =
        [20, 40, 80, 160] := by
  have hthree : doublings 20 (sizeFor World.sample.table.length) = 3 := by
    have htwo : 2 < doublings 20 (sizeFor World.sample.table.length) :=
      lt_doublings_iff.mpr (by decide)
    have hfour : ¬ 3 < doublings 20 (sizeFor World.sample.table.length) := by
      rw [lt_doublings_iff]
      decide
    omega
  have hx : Readable (World.sample.host 4) {} World.sample.table (fun y => y = .empty)
      { host := .empty, guess := 20 } := by
    refine Readable.of_steady (World.steady_host World.sample 4 (by decide : 0x10000000 < _)) rfl
      rfl rfl rfl ?_
    rintro size ⟨i, -, hsize, rfl | hceiling⟩
    · rw [hsize]
      decide
    · exact UInt64.le_iff_toNat_le.mp hceiling
  obtain ⟨table, hok, hrecords, -, -, hsizes⟩ := (read_whole hx).found (.inr (by
    rw [enough, hthree]
    decide))
  refine ⟨table, hok, hrecords, ?_⟩
  rw [hsizes, hthree]
  decide

end

end Table

end FileHolders
