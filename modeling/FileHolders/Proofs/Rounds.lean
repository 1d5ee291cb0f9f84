import FileHolders.Proofs.Readings
import FileHolders.Proofs.Supply
import Mathlib.Data.List.Chain

/-!
# Rounds of a loop

A loop does its rounds one after the other, each in the session that the one before it left.  A
round either gives what the next one works on or ends the loop.  A loop is followed through the
moments at which its rounds begin: what it had in hand each time, and the session.

    loop i = round i >>= Sum.elim loop pure → ∃ rest, Rounds round (m :: rest) a t (exists_rounds)
    I 0 m → (I k m → m.Leads round n → I (k + 1) n) → ms[k]? = some n → I k n   (Rounds.at_index)
    ((allocate heap size).run s).1 = none ↔ Refuses heap s size         (Arena.allocate_eq_none_iff)

The blocks that such a loop exchanges come from the arena, so what the arena does with one block is
said here to the letter: its counts, and what it leaves in the journal.
-/

namespace FileHolders

open FileHolders.Action

variable {σ ι α β : Type}

/-! ## Moments -/

/-- A moment at which a round begins: what is in hand, and the session. -/
structure Moment (σ ι : Type) where
  hand : ι
  session : Session σ

namespace Moment

/-- The round that begins at a moment leads to another moment. -/
def Leads (round : ι → Action σ (ι ⊕ α)) (m n : Moment σ ι) : Prop :=
  (round m.hand).run m.session = (.inl n.hand, n.session)

/-- The round that begins at a moment ends the loop. -/
def Ends (round : ι → Action σ (ι ⊕ α)) (m : Moment σ ι) (a : α) (t : Session σ) : Prop :=
  (round m.hand).run m.session = (.inr a, t)

variable {round : ι → Action σ (ι ⊕ α)} {m n : Moment σ ι} {a : α} {t : Session σ}
  {post : ι ⊕ α → Session σ → Prop}

theorem Leads.of_yields (h : m.Leads round n) (hp : Yields (round m.hand) m.session post) :
    post (.inl n.hand) n.session := by
  rwa [Yields, h] at hp

theorem Ends.of_yields (h : m.Ends round a t) (hp : Yields (round m.hand) m.session post) :
    post (.inr a) t := by
  rwa [Yields, h] at hp

end Moment

/-- The moments at which the rounds of a loop begin, and what the loop comes to. -/
inductive Rounds (round : ι → Action σ (ι ⊕ α)) : List (Moment σ ι) → α → Session σ → Prop
  | last {m : Moment σ ι} {a : α} {t : Session σ} (h : m.Ends round a t) : Rounds round [m] a t
  | again {m n : Moment σ ι} {rest : List (Moment σ ι)} {a : α} {t : Session σ}
      (h : m.Leads round n) (hr : Rounds round (n :: rest) a t) :
      Rounds round (m :: n :: rest) a t

/-- A loop whose rounds make something smaller ends, and goes in rounds. -/
theorem exists_rounds {round : ι → Action σ (ι ⊕ α)} {loop : ι → Action σ α}
    (hloop : ∀ i, loop i = round i >>= Sum.elim loop pure) (size : ι → Nat)
    (hsize : ∀ m n : Moment σ ι, m.Leads round n → size n.hand < size m.hand) (m : Moment σ ι) :
    ∃ rest, Rounds round (m :: rest) ((loop m.hand).run m.session).1
      ((loop m.hand).run m.session).2 := by
  induction hk : size m.hand using Nat.strongRecOn generalizing m with
  | ind k ih =>
    rw [hloop, run_bind]
    cases hrun : (round m.hand).run m.session with
    | mk answer t =>
      cases answer with
      | inr a => exact ⟨[], .last hrun⟩
      | inl next =>
        have hleads : m.Leads round ⟨next, t⟩ := hrun
        obtain ⟨rest, hrest⟩ := ih _ (hk ▸ hsize _ _ hleads) ⟨next, t⟩ rfl
        exact ⟨⟨next, t⟩ :: rest, .again hleads hrest⟩

namespace Rounds

variable {round : ι → Action σ (ι ⊕ α)} {m : Moment σ ι} {ms rest : List (Moment σ ι)} {a : α}
  {t : Session σ}

theorem chain (h : Rounds round ms a t) : ms.IsChain (Moment.Leads round) := by
  induction h with
  | last _ => exact List.isChain_singleton _
  | again h _ ih => exact List.isChain_cons_cons.mpr ⟨h, ih⟩

theorem ended (h : Rounds round ms a t) : ∃ m, ms.getLast? = some m ∧ m.Ends round a t := by
  induction h with
  | last h => exact ⟨_, rfl, h⟩
  | again _ _ ih => exact ih

/-- A round leads to another one or ends the loop. -/
theorem leads_or_ends (h : Rounds round ms a t) (hm : m ∈ ms) :
    (∃ n ∈ ms, m.Leads round n) ∨ m.Ends round a t := by
  induction h with
  | last h =>
    obtain rfl := List.mem_singleton.mp hm
    exact .inr h
  | again h _ ih =>
    rcases List.mem_cons.mp hm with rfl | hm
    · exact .inl ⟨_, by simp, h⟩
    · rcases ih hm with ⟨n, hn, hl⟩ | he
      · exact .inl ⟨n, List.mem_cons_of_mem _ hn, hl⟩
      · exact .inr he

section

variable {I : Nat → Moment σ ι → Prop}

/-- What holds at the first moment and is kept by each round, by the number of rounds before. -/
theorem at_index_from (h : Rounds round (m :: rest) a t) {k : Nat} (hm : I k m)
    (hstep : ∀ {k m n}, I k m → m.Leads round n → I (k + 1) n) :
    ∀ i n, (m :: rest)[i]? = some n → I (k + i) n := by
  generalize hms : m :: rest = ms at h
  induction h generalizing m rest k with
  | last _ =>
    obtain ⟨rfl, rfl⟩ := List.cons.inj hms
    rintro (_ | i) n hn
    · obtain rfl := Option.some.inj hn
      exact hm
    · cases hn
  | again h _ ih =>
    obtain ⟨rfl, rfl⟩ := List.cons.inj hms
    rintro (_ | i) n hn
    · obtain rfl := Option.some.inj hn
      exact hm
    · have hlater := ih (hstep hm h) rfl i n hn
      rwa [Nat.add_right_comm] at hlater

variable (h : Rounds round (m :: rest) a t) (hm : I 0 m)
  (hstep : ∀ {k m n}, I k m → m.Leads round n → I (k + 1) n)

include h hm hstep

theorem at_index (k : Nat) (n : Moment σ ι) (hn : (m :: rest)[k]? = some n) : I k n := by
  have hk := h.at_index_from hm hstep k n hn
  rwa [Nat.zero_add] at hk

/-- Where only so many rounds may come before another one, there are no more rounds than that. -/
theorem length_le {bound : Nat} (hlt : ∀ {k n}, I k n → k < bound) :
    (m :: rest).length ≤ bound := by
  have hlast := h.at_index hm hstep rest.length _
    (List.getElem?_eq_getElem (by simp : rest.length < (m :: rest).length))
  rw [List.length_cons]
  exact hlt hlast

/-- How each round stands to the next. -/
theorem chain_of {R : Moment σ ι → Moment σ ι → Prop}
    (hleads : ∀ {k m n}, I k m → m.Leads round n → R m n) : (m :: rest).IsChain R := by
  refine h.chain.imp_of_mem_imp ?_
  intro m' n hm' _ hl
  obtain ⟨k, hk⟩ := List.mem_iff_getElem?.mp hm'
  exact hleads (h.at_index hm hstep k m' hk) hl

end

/-- If each round leaves one trace in the journal, the loop leaves one for each round. -/
theorem traces {view : Event → Option β} {asked : Moment σ ι → β}
    (h : Rounds round (m :: rest) a t)
    (hround : ∀ m : Moment σ ι, Emits (round m.hand) m.session fun events _ =>
      events.filterMap view = [asked m]) :
    ∃ events, t.journal.toList = m.session.journal.toList ++ events ∧
      events.filterMap view = (m :: rest).map asked := by
  generalize hms : m :: rest = ms at h
  induction h generalizing m rest with
  | last h =>
    obtain ⟨rfl, rfl⟩ := List.cons.inj hms
    obtain ⟨events, hj, hview⟩ := hround m
    rw [h] at hj
    exact ⟨events, hj, hview⟩
  | again h _ ih =>
    obtain ⟨rfl, rfl⟩ := List.cons.inj hms
    obtain ⟨events, hj, hview⟩ := hround m
    rw [h] at hj
    obtain ⟨more, hk, hlater⟩ := ih rfl
    refine ⟨events ++ more, ?_, ?_⟩
    · rw [hk, hj, List.append_assoc]
    · rw [List.filterMap_append, hview, hlater]
      rfl

end Rounds

/-- An action that first asks whether an entry point is there. -/
theorem Host.yields_has_bind {h : Host σ} {c : Capability} {f : Bool → Action σ α} {s : Session σ}
    {post : α → Session σ → Prop} (hf : Yields (f (h.has s.host c)) s post) :
    Yields (h.provides c >>= f) s post := hf

/-! ## Blocks of the arena -/

namespace Arena

/-- Asking for a block, to the letter. -/
inductive Allocates (heap : Heap σ) (size : UInt64) (s : Session σ) :
    Option { b : Block // b.size = granted size } → Session σ → Prop
  | refused {t : Session σ} (hr : Refuses heap s size) (ha : t.arena = s.arena)
      (hg : t.guess = s.guess) : Allocates heap size s none t
  | allocated {t : Session σ} (b : { b : Block // b.size = granted size })
      (hr : ¬Refuses heap s size) (ha : t.arena = s.arena.take b.1.size) (hg : t.guess = s.guess)
      (hj : t.journal = s.journal.push (.allocated b.1.size (some b.1.address))) :
      Allocates heap size s (some b) t

/-- Giving a block back, to the letter. -/
structure Frees (b : Block) (s t : Session σ) : Prop where
  arena : t.arena = s.arena.giveBack b.size
  guess : t.guess = s.guess
  journal : s.arena.closed = false → t.journal = s.journal.push (.released b.address b.size)

theorem yields_allocates (heap : Heap σ) (size : UInt64) (s : Session σ) :
    Yields (allocate heap size) s (Allocates heap size s) := by
  unfold allocate
  apply yields_get_bind
  dsimp only
  split
  · rename_i limit hlimit
    have hr : Refuses heap s size := .inl (by rw [hlimit]; rfl)
    exact yields_say_bind fun t _ ha hg => yields_pure (.refused hr ha hg)
  · rename_i hlimit
    split
    · rename_i hclosed
      exact yields_pure (.refused (.inr (.inl hclosed)) rfl rfl)
    · rename_i hopen
      cases hplace : ((heap.allocate (granted size)).run s.host).1 with
      | none =>
        have hr : Refuses heap s size := .inr (.inr (by simp [Grants, hplace]))
        refine yields_journaled_bind ?_
        intro t _ ha hg
        rw [hplace]
        exact yields_pure (.refused hr ha hg)
      | some place =>
        have hr : ¬Refuses heap s size := by simp [Refuses, Grants, hlimit, hopen, hplace]
        show Allocates heap size s _ _
        rw [run_bind, run_journaled, hplace]
        exact .allocated ⟨Block.zeroed place, rfl⟩ hr rfl rfl rfl

/-- Nothing is handed out exactly where the request is refused. -/
theorem allocate_eq_none_iff {heap : Heap σ} {size : UInt64} {s : Session σ} :
    ((allocate heap size).run s).1 = none ↔ Refuses heap s size := by
  have hyields := yields_allocates heap size s
  unfold Yields at hyields
  generalize (allocate heap size).run s = answer at hyields ⊢
  cases answer with
  | mk a t =>
    cases hyields with
    | refused hr _ _ => simp [hr]
    | allocated b hr _ _ _ => simp [hr]

theorem yields_frees (heap : Heap σ) (b : Block) (s : Session σ) :
    Yields (free heap b) s fun _ t => Frees b s t := by
  unfold free
  apply yields_get_bind
  dsimp only
  cases ho : s.arena.closed with
  | true => exact ⟨rfl, rfl, fun h => absurd (ho.symm.trans h) (by decide)⟩
  | false => exact ⟨rfl, rfl, fun _ => rfl⟩

theorem giveBack_take (a : Arena) (size : UInt64) : (a.take size).giveBack size = a := by
  cases a
  simp [take, giveBack]

end Arena

end FileHolders
