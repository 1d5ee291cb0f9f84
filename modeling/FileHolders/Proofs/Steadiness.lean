import FileHolders.Proofs.Supply
import FileHolders.Proofs.World
import FileHolders.Name.Reading
import FileHolders.Table.Reading
import Mathlib.Tactic.Ring

/-!
# Readings on a steady host

The arena, the handle table and the names are followed on a host that is steady in a world.  `Calm`
says what the caller has in hand, and that the arena counts as many bytes as are out.  The table
that is read is that of the world, and so is the name, whichever buffer is at hand.

    Yields (Table.read host settings) y fun a _ => a.map records = .ok w.table        (yields_read)
    Yields (Name.ask host settings h b) y fun a _ => a.2.toOption = answer w pid value  (yields_ask)
-/

namespace FileHolders

open FileHolders.Action

variable {σ : Type}

/-! ## Calm sessions -/

/-- The state of the host and the counts of the arena, as far as a search depends on them. -/
structure Calm (R : σ → Hand → Prop) (limit : Option UInt64) (y : Session σ) (hand : Hand)
    (bytes : UInt64) : Prop where
  host : R y.host hand
  limit : y.arena.limit = limit
  bytes : y.arena.bytes = bytes
  opened : y.arena.closed = false

/-- The arena may hand out as many bytes as that. -/
def Affords (limit : Option UInt64) (total : Nat) : Prop :=
  ∀ l, limit = some l → total ≤ l.toNat

theorem Affords.of_le {limit : Option UInt64} {total less : Nat} (h : Affords limit total)
    (hl : less ≤ total) : Affords limit less :=
  fun l hlimit => Nat.le_trans hl (h l hlimit)

section

variable {R : σ → Hand → Prop} {limit : Option UInt64} {y t : Session σ} {hand : Hand}
  {bytes : UInt64}

/-- After a call of the host. -/
theorem Calm.called (h : Calm R limit y hand bytes) {next : Hand} {state : σ}
    (ht : t.host = state) (hs : R state next) (ha : t.arena = y.arena) :
    Calm R limit t next bytes := by
  refine ⟨by rw [ht]; exact hs, ?_, ?_, ?_⟩
  · rw [ha]
    exact h.limit
  · rw [ha]
    exact h.bytes
  · rw [ha]
    exact h.opened

theorem Calm.of_same (h : Calm R limit y hand bytes) (hh : t.host = y.host)
    (ha : t.arena = y.arena) : Calm R limit t hand bytes := h.called hh h.host ha

end

section

variable {host : Host σ} {w : World} {room : Nat} {R : σ → Hand → Prop} {limit : Option UInt64}
  {settings : Settings} {y : Session σ} {hand : Hand} {bytes : UInt64}

theorem Host.yields_provides_bind {β : Type} (h : Steady host w room R) (hy : R y.host hand)
    {c : Capability} {f : Bool → Action σ β} {post : β → Session σ → Prop}
    (hf : Yields (f (w.has c)) y post) : Yields (host.provides c >>= f) y post := by
  show Yields (f (host.has y.host c)) y post
  rw [h.has hy]
  exact hf

/-! ## The arena -/

namespace Arena

theorem yields_create (h : Steady host w room R) (hy : R y.host hand) :
    Yields (create host.heap limit) y fun a t =>
      a = .ok () ∧ Calm R limit t hand 0 ∧ t.guess = y.guess := by
  obtain ⟨hok, hnext⟩ := h.create hy
  unfold create
  refine yields_journaled_bind ?_
  intro t ht _ hg
  rw [hok]
  refine yields_say_bind ?_
  intro u hu _ hug
  refine ⟨rfl, ⟨?_, rfl, rfl, rfl⟩, hug.trans hg⟩
  show R u.host hand
  rw [hu, ht]
  exact hnext

/-- A block is granted where the limit affords it. -/
theorem yields_allocate (h : Steady host w room R) (hy : Calm R limit y hand bytes)
    {size : UInt64} (hsize : (granted size).toNat ≤ room)
    (hlimit : Affords limit (bytes.toNat + (granted size).toNat)) :
    Yields (allocate host.heap size) y fun a t =>
      (∃ b, a = some b ∧ b.1.address.toNat + b.1.size.toNat ≤ UInt64.size) ∧
        Calm R limit t hand (bytes + granted size) := by
  obtain ⟨⟨place, hplace, haddress⟩, hnext⟩ := h.allocate hy.host _ hsize
  have hroom : y.arena.limitPassed (granted size) = none := by
    refine limitPassed_eq_none ?_
    rw [hy.limit, hy.bytes]
    exact hlimit
  refine (yields_granted hy.opened hroom hplace).mono ?_
  intro a t ht
  refine ⟨⟨_, ht.block, haddress⟩, ?_, ?_, ?_, ?_⟩
  · rw [ht.host]
    exact hnext
  · rw [ht.arena]
    exact hy.limit
  · rw [ht.arena, ← hy.bytes]
    rfl
  · rw [ht.arena]
    exact hy.opened

theorem yields_free (h : Steady host w room R) (hy : Calm R limit y hand bytes) (b : Block) :
    Yields (free host.heap b) y fun _ t => Calm R limit t hand (bytes - b.size) := by
  refine (yields_returned hy.opened).mono ?_
  intro _ t ht
  refine ⟨?_, ?_, ?_, ?_⟩
  · rw [ht.host]
    exact h.release hy.host _ _
  · rw [ht.arena]
    exact hy.limit
  · rw [ht.arena, ← hy.bytes]
    rfl
  · rw [ht.arena]
    exact hy.opened

end Arena

/-! ## The handle table -/

namespace Table

/-- A block that is long enough is filled with the table of the world. -/
theorem yields_fill_of_long (h : Steady host w room R) {block : Block} {total : Nat}
    (hy : Calm R limit y hand block.size)
    (hlong : sizeFor w.table.length ≤ block.size.toNat) (htotal : block.size.toNat ≤ total) :
    Yields (fill host settings block) y fun a t => ∃ filled : Block, a = .ok filled ∧
      (⟨filled⟩ : Table).records = w.table ∧ filled.size.toNat ≤ total ∧
        Calm R limit t hand filled.size := by
  obtain ⟨hanswer, hnext⟩ := h.queryTable hy.host block
  rw [World.AnswersTable, if_neg (by omega)] at hanswer
  obtain ⟨hkind, hholds⟩ := hanswer
  rw [fill.eq_def]
  refine yields_journaled_bind ?_
  intro t ht ha _
  rw [hkind]
  refine yields_pure ⟨_, rfl, ?_, htotal, ?_⟩
  · exact records_of_holdsTable hholds (by rw [Block.size_withContents]; omega)
  · exact hy.called ht hnext ha

/-- A table that needs no more than `k` doublings of the block is read, and its own block is the only
one that is out. -/
theorem yields_fill (h : Steady host w room R) (k : Nat) {block : Block}
    (hy : Calm R limit y hand block.size)
    (hneeded : sizeFor w.table.length ≤ block.size.toNat * 2 ^ k)
    (hceiling : k = 0 ∨ block.size.toNat * 2 ^ k ≤ settings.tableCeiling.toNat)
    (hroom : block.size.toNat * 2 ^ k ≤ room)
    (hlimit : Affords limit (block.size.toNat * 2 ^ k)) :
    Yields (fill host settings block) y fun a t => ∃ filled : Block, a = .ok filled ∧
      (⟨filled⟩ : Table).records = w.table ∧ filled.size.toNat ≤ block.size.toNat * 2 ^ k ∧
        Calm R limit t hand filled.size := by
  induction k generalizing block y with
  | zero => exact yields_fill_of_long h hy (by omega) (by omega)
  | succ k ih =>
    have hpow : block.size.toNat * 2 ^ (k + 1) = 2 * block.size.toNat * 2 ^ k := by ring
    have hpos : 2 * block.size.toNat ≤ 2 * block.size.toNat * 2 ^ k :=
      Nat.le_mul_of_pos_right _ (Nat.two_pow_pos k)
    by_cases hlong : sizeFor w.table.length ≤ block.size.toNat
    · exact yields_fill_of_long h hy hlong (by omega)
    · obtain ⟨hanswer, hnext⟩ := h.queryTable hy.host block
      rw [World.AnswersTable, if_pos (by omega)] at hanswer
      have hdouble : (Word.double block.size).toNat = 2 * block.size.toNat := by
        have hsmall := block.small
        have hs := Word.size_eq
        rw [Word.toNat_double]
        omega
      have hpositive : 0 < block.size.toNat := by
        apply Nat.pos_of_ne_zero
        intro hzero
        rw [hzero, sizeFor] at hneeded
        omega
      have hgranted : (Arena.granted (Word.double block.size)).toNat = 2 * block.size.toNat := by
        rw [Arena.toNat_granted, hdouble]
        omega
      rw [fill.eq_def]
      refine yields_journaled_bind ?_
      intro t ht ha _
      rw [hanswer]
      -- the short block comes back before the longer one is asked for
      refine (Arena.yields_free h (hy.called ht hnext ha) block).bind ?_
      intro _ u hu
      rw [UInt64.sub_self] at hu
      rw [if_neg (by rw [UInt64.lt_iff_toNat_lt, hdouble]; omega)]
      refine yields_say_bind ?_
      intro v hv hva _
      refine (Arena.yields_allocate h (hu.of_same hv hva) (by omega) (hlimit.of_le ?_)).bind ?_
      · rw [hgranted, UInt64.toNat_zero]
        omega
      rintro _ x ⟨⟨⟨larger, hsize⟩, rfl, -⟩, hx⟩
      rw [UInt64.zero_add, ← hsize] at hx
      have htotal : block.size.toNat * 2 ^ (k + 1) = larger.size.toNat * 2 ^ k := by
        rw [hpow, hsize, hgranted]
      rw [htotal] at hneeded hceiling hroom hlimit ⊢
      exact ih hx hneeded (by omega) hroom hlimit

theorem yields_remember (y : Session σ) (size ceiling : UInt64) :
    Yields (remember size ceiling) y fun _ t => t.host = y.host ∧ t.arena = y.arena := ⟨rfl, rfl⟩

/-- The table of the world is read, unless the query is missing. -/
theorem yields_read (h : Steady host w room R) (k : Nat) (hy : Calm R limit y hand 0)
    (hneeded : sizeFor w.table.length ≤ (max y.guess 1).toNat * 2 ^ k)
    (hceiling : k = 0 ∨ (max y.guess 1).toNat * 2 ^ k ≤ settings.tableCeiling.toNat)
    (hroom : (max y.guess 1).toNat * 2 ^ k ≤ room)
    (hlimit : Affords limit ((max y.guess 1).toNat * 2 ^ k)) :
    Yields (read host settings) y fun a t =>
      if w.has .queryTable then ∃ table : Table, a = .ok table ∧ table.records = w.table ∧
        table.block.size.toNat ≤ (max y.guess 1).toNat * 2 ^ k ∧
          Calm R limit t hand table.block.size
      else a = .error (.missing .queryTable) ∧ Calm R limit t hand 0 := by
  unfold read
  refine Host.yields_provides_bind h hy.host ?_
  cases hc : w.has .queryTable with
  | false => exact yields_pure ⟨rfl, hy⟩
  | true =>
    rw [if_pos rfl]
    refine yields_get_bind ?_
    have hgranted : (Arena.granted (max y.guess 1)).toNat = (max y.guess 1).toNat := by
      have hone : (1 : UInt64).toNat = 1 := rfl
      rw [Arena.toNat_granted, Word.toNat_max, hone]
      omega
    have hle : (max y.guess 1).toNat ≤ (max y.guess 1).toNat * 2 ^ k :=
      Nat.le_mul_of_pos_right _ (Nat.two_pow_pos k)
    refine (Arena.yields_allocate h hy (by omega) (hlimit.of_le ?_)).bind ?_
    · rw [hgranted, UInt64.toNat_zero]
      omega
    rintro _ t ⟨⟨⟨block, hsize⟩, rfl, -⟩, ht⟩
    rw [UInt64.zero_add, ← hsize] at ht
    rw [← hgranted, ← hsize] at hneeded hceiling hroom hlimit
    refine (yields_fill h k ht hneeded hceiling hroom hlimit).bind ?_
    rintro _ u ⟨filled, rfl, hrecords, hfilled, hu⟩
    rw [hsize, hgranted] at hfilled
    refine (yields_remember u filled.size settings.guessCeiling).bind ?_
    rintro _ v ⟨hv, hva⟩
    refine yields_say_bind ?_
    intro z hz hza _
    exact yields_pure
      ⟨⟨filled⟩, rfl, hrecords, hfilled, hu.of_same (hz.trans hv) (hza.trans hva)⟩

end Table

/-! ## Names -/

/-- The most that a name buffer takes up. -/
def Settings.nameRoom (settings : Settings) : Nat := max settings.nameBufferCeiling.toNat 1

/-- Names can be read next to `base` bytes that are out: there is a second attempt, no name is above
the ceiling, and two name buffers may be out at a time. -/
structure Suits (settings : Settings) (w : World) (room base : Nat) : Prop where
  attempts : 2 ≤ settings.nameAttempts.toNat
  initial : settings.nameBufferInitial.toNat ≤ settings.nameBufferCeiling.toNat
  names : ∀ pid value n, w.name pid value = .ok n →
    Name.sizeFor n.units ≤ settings.nameBufferCeiling.toNat
  granted : settings.nameRoom ≤ room
  limit : Affords settings.arenaLimit (base + 2 * settings.nameRoom)

/-- A name buffer is out besides `base` bytes. -/
structure Ready (R : σ → Hand → Prop) (settings : Settings) (base : UInt64) (y : Session σ)
    (hand : Hand) (buffer : Block) : Prop where
  calm : Calm R settings.arenaLimit y hand (base + buffer.size)
  inside : buffer.address.toNat + buffer.size.toNat ≤ UInt64.size
  small : buffer.size.toNat ≤ settings.nameRoom

section

variable {base : UInt64} {t : Session σ} {buffer : Block}

theorem Ready.called (h : Ready R settings base y hand buffer) {next : Hand} {state : σ}
    (ht : t.host = state) (hs : R state next) (ha : t.arena = y.arena) :
    Ready R settings base t next buffer :=
  ⟨h.calm.called ht hs ha, h.inside, h.small⟩

theorem Ready.of_same (h : Ready R settings base y hand buffer) (hh : t.host = y.host)
    (ha : t.arena = y.arena) : Ready R settings base t hand buffer :=
  ⟨h.calm.of_same hh ha, h.inside, h.small⟩

theorem Ready.withContents (h : Ready R settings base y hand buffer) (byte : Nat → UInt8) :
    Ready R settings base y hand (buffer.withContents byte) :=
  ⟨h.calm, h.inside, h.small⟩

end

namespace Name

variable {base : UInt64} {buffer : Block} {handle : HandleId} {pid value : UInt64}

/-- What a query ends with: the answer of the world, with the name in the buffer. -/
def Answered (w : World) (pid value : UInt64) (last : Block) (status : Status) : Prop :=
  match w.name pid value with
  | .ok n => status.kind = .success ∧ last.HoldsName n.units ∧ sizeFor n.units ≤ last.size.toNat
  | .error failure => status = failure

/-- A buffer that is long enough is filled with the name of the world. -/
theorem yields_query_of_long (h : Steady host w room R) {attempts : Nat}
    (hy : Ready R settings base y hand buffer) (hr : hand.Refers host.ownPid handle pid value)
    (hlong : ∀ n, w.name pid value = .ok n → sizeFor n.units ≤ buffer.size.toNat) :
    Yields (query host settings handle attempts buffer) y fun a t =>
      (∃ status, a.2 = .ok status ∧ Answered w pid value a.1 status) ∧
        Ready R settings base t hand a.1 := by
  obtain ⟨hanswer, hnext⟩ := h.queryObject hy.calm.host hr buffer
  unfold query
  refine yields_journaled_bind ?_
  intro t ht ha _
  have hready : Ready R settings base t hand buffer := hy.called ht hnext ha
  unfold World.AnswersName at hanswer
  cases hn : w.name pid value with
  | ok n =>
    rw [hn] at hanswer
    dsimp only at hanswer
    rw [if_neg (Nat.not_lt.mpr (hlong n hn))] at hanswer
    obtain ⟨hkind, hholds⟩ := hanswer
    rw [if_pos (by rw [hkind]; decide)]
    refine yields_pure ⟨⟨_, rfl, ?_⟩, hready.withContents _⟩
    rw [Answered, hn]
    exact ⟨hkind, hholds, hlong n hn⟩
  | error failure =>
    rw [hn] at hanswer
    have hother := (w.kind_name pid value failure hn).2
    rw [if_pos (by rw [hanswer]; exact hother)]
    refine yields_pure ⟨⟨_, rfl, ?_⟩, hready.withContents _⟩
    rw [Answered, hn]
    exact hanswer

theorem yields_query (h : Steady host w room R) (hs : Suits settings w room base.toNat)
    {attempts : Nat} (hattempts : 2 ≤ attempts) (hy : Ready R settings base y hand buffer)
    (hr : hand.Refers host.ownPid handle pid value) :
    Yields (query host settings handle attempts buffer) y fun a t =>
      (∃ status, a.2 = .ok status ∧ Answered w pid value a.1 status) ∧
        Ready R settings base t hand a.1 := by
  by_cases hlong : ∀ n, w.name pid value = .ok n → sizeFor n.units ≤ buffer.size.toNat
  · exact yields_query_of_long h hy hr hlong
  · push Not at hlong
    obtain ⟨n, hn, hshort⟩ := hlong
    obtain ⟨hanswer, hnext⟩ := h.queryObject hy.calm.host hr buffer
    rw [World.AnswersName, hn] at hanswer
    dsimp only at hanswer
    rw [if_pos hshort] at hanswer
    obtain ⟨hkind, hlength⟩ := hanswer
    obtain ⟨rest, rfl⟩ : ∃ rest, attempts = rest + 2 := ⟨attempts - 2, by omega⟩
    have hunits : n.units.length ≤ 32766 := w.size_name pid value n hn
    have hasked : (sizeFor n.units).toUInt32.toNat = sizeFor n.units :=
      UInt32.toNat_ofNat_of_lt' (by unfold sizeFor; show _ < 4294967296; omega)
    have hneeded : (nextSize buffer.size (sizeFor n.units).toUInt32).toNat = sizeFor n.units := by
      rw [toNat_nextSize _ buffer.small, hasked, if_pos hshort]
    have hceiling := hs.names pid value n hn
    have hsize : (Arena.granted (nextSize buffer.size (sizeFor n.units).toUInt32)).toNat =
        sizeFor n.units := by
      rw [Arena.toNat_granted, hneeded, sizeFor]
      omega
    unfold query
    refine yields_journaled_bind ?_
    intro t ht ha _
    rw [if_neg (by rw [hkind]; decide), hlength]
    dsimp only [Option.getD_some]
    rw [if_neg (by rw [UInt64.lt_iff_toNat_lt, hneeded]; omega)]
    refine yields_say_bind ?_
    intro u hu hua _
    have hready : Ready R settings base u hand buffer :=
      (hy.called ht hnext ha).of_same hu hua
    have hroom : sizeFor n.units ≤ settings.nameRoom := by
      unfold Settings.nameRoom
      omega
    have hsmall := hy.small
    have htotal : (base + buffer.size).toNat ≤ base.toNat + buffer.size.toNat := by
      rw [UInt64.toNat_add]
      exact Nat.mod_le _ _
    have hfits := hs.granted
    refine (Arena.yields_allocate h hready.calm (by omega) (hs.limit.of_le (by omega))).bind ?_
    rintro _ v ⟨⟨⟨larger, hlarger⟩, rfl, hinside⟩, hv⟩
    rw [← hlarger] at hv hsize
    refine (Arena.yields_free h hv _).bind ?_
    intro _ z hz
    -- both blocks were out, which is why the limit has to afford two
    have hback : base + buffer.size + larger.size - buffer.size = base + larger.size := by
      rw [UInt64.add_assoc, UInt64.add_comm buffer.size, ← UInt64.add_assoc,
        UInt64.add_sub_cancel]
    rw [Block.size_withContents, hback] at hz
    refine yields_query_of_long h ⟨hz, hinside, by omega⟩ hr ?_
    intro n' hn'
    rw [hn] at hn'
    cases hn'
    omega

/-- What a world answers to the question for a name. -/
def answer (w : World) (pid value : UInt64) : Option Name :=
  if w.has .queryObject then (w.name pid value).toOption else none

theorem yields_ask (h : Steady host w room R) (hs : Suits settings w room base.toNat)
    (hy : Ready R settings base y hand buffer) (hr : hand.Refers host.ownPid handle pid value) :
    Yields (ask host settings handle buffer) y fun a t =>
      a.2.toOption = answer w pid value ∧ Ready R settings base t hand a.1 := by
  unfold ask answer
  refine Host.yields_provides_bind h hy.calm.host ?_
  cases hc : w.has .queryObject with
  | false => exact yields_pure ⟨rfl, hy⟩
  | true =>
    rw [if_pos rfl, if_pos rfl]
    refine (yields_query h hs hs.attempts hy hr).bind ?_
    rintro ⟨last, _⟩ t ⟨⟨status, rfl, hanswered⟩, ht⟩
    dsimp only
    unfold Answered at hanswered
    cases hn : w.name pid value with
    | ok n =>
      rw [hn] at hanswered
      obtain ⟨hkind, hholds, hsize⟩ := hanswered
      have hread : read last = .ok n :=
        read_of_holdsName (w.size_name pid value n hn) hholds hsize ht.inside
      rw [if_pos (Status.isSuccess_of_kind_eq_success hkind), hread]
      refine yields_note_bind ?_
      intro u hu hua _
      exact yields_pure ⟨rfl, ht.of_same hu hua⟩
    | error failure =>
      rw [hn] at hanswered
      dsimp only at hanswered
      rw [hanswered, if_neg (by simp [(w.kind_name pid value failure hn).1])]
      exact yields_pure ⟨rfl, ht⟩

end Name

end

end FileHolders
