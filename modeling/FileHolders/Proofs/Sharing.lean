import FileHolders.Proofs.Guesses
import FileHolders.Proofs.Schedules
import Mathlib.Logic.Function.Basic

/-!
# Searches that share the first guess

Any number of searches share one first guess.  Each of them looks at it once, and is done with it
once it has gathered its table; in which order these happen is open.  A search that is done may
leave a guess that is less than the one that another search left in between, but no guess is ever
left that did not come from a search that was allowed to leave it.

    follow? parties e moves = some next → P next        for every schedule                  (Always)
    e.guess = guess ∨ e.guess is the size of a block that a party gathered     (Stems.guess_stems)
    guess ≤ p.after guess                                                              (le_after)
    GuessShared parties guess                                                      (guess_shared)
-/

namespace FileHolders

open FileHolders.Action

/-! ## Parties -/

/-- A search and the session in which it begins.  Where searches share a machine, what the others do
to it shows in the answers that each of them gets, and a host may answer anything. -/
structure Party where
  σ : Type
  search : Search σ
  session : Session σ

namespace Party

/-- The session in which the party looks at the guess, if it comes so far. -/
def looks? (p : Party) : Option (Session p.σ) := p.search.looks? p.session

/-- What the party does between looking at the guess and being done with it. -/
def gather (p : Party) (looked : UInt64) : Action p.σ (Except Fault Block) :=
  Table.gather p.search.host p.search.settings looked

/-- What the party gathers from a session on, with the guess that it has looked at. -/
def gathered (p : Party) (looked : UInt64) (y : Session p.σ) : Except Fault Block :=
  ((p.gather looked).run y).1

/-- The largest size that the party leaves as a guess. -/
def ceiling (p : Party) : UInt64 := p.search.settings.guessCeiling

/-- The guess after the party's whole search, if no other party does anything meanwhile. -/
def after (p : Party) (guess : UInt64) : UInt64 :=
  (p.search.run.run { p.session with guess }).2.guess

end Party

/-! ## Schedules -/

/-- How far a party is with the guess. -/
inductive Phase where
  | waiting
  /-- It has looked at the guess, which was this, and is gathering the table. -/
  | gathering (looked : UInt64)
  | done (answer : Except Fault Block)

/-- The guess and the parties at one moment. -/
structure Sharing (ι : Type) where
  guess : UInt64
  phase : ι → Phase := fun _ => .waiting

namespace Sharing

/-- A move of a party. -/
inductive Move (ι : Type) where
  | look (i : ι)
  | finish (i : ι)

variable {ι : Type} [DecidableEq ι] (parties : ι → Party)

/-- A party that waits looks at the guess. -/
def look? (e : Sharing ι) (i : ι) : Option (Sharing ι) :=
  match e.phase i, (parties i).looks? with
  | .waiting, some _ => some { e with phase := Function.update e.phase i (.gathering e.guess) }
  | _, _ => none

/-- A party that has looked at the guess has gathered the table and settles: that is what changes
the guess, which may be another one by then. -/
def finish? (e : Sharing ι) (i : ι) : Option (Sharing ι) :=
  match e.phase i, (parties i).looks? with
  | .gathering looked, some y =>
    let gathered := ((parties i).gather looked).run { y with guess := e.guess }
    let settled := (Table.settle (parties i).search.settings gathered.1).run gathered.2
    some {
      guess := settled.2.guess
      phase := Function.update e.phase i (.done gathered.1) }
  | _, _ => none

/-- What a move leads to, if the party can make it. -/
def step? (e : Sharing ι) : Move ι → Option (Sharing ι)
  | .look i => e.look? parties i
  | .finish i => e.finish? parties i

/-- What a schedule leads to, if each of its moves can be made when it comes. -/
def follow? (e : Sharing ι) (moves : List (Move ι)) : Option (Sharing ι) :=
  moves.foldlM (step? parties) e

/-- Whatever the schedule, this holds after it. -/
def Always (guess : UInt64) (P : Sharing ι → Prop) : Prop :=
  ∀ moves e, follow? parties { guess } moves = some e → P e

/-! ## What a move does -/

/-- A party has looked at the guess. -/
structure Looks (e : Sharing ι) (i : ι) (next : Sharing ι) : Prop where
  phase : e.phase i = .waiting
  next : next = { e with phase := Function.update e.phase i (.gathering e.guess) }

/-- A party has finished. -/
structure Finishes (e : Sharing ι) (i : ι) (looked : UInt64) (y : Session (parties i).σ)
    (next : Sharing ι) : Prop where
  phase : e.phase i = .gathering looked
  looks : (parties i).looks? = some y
  next : next = {
    guess := Table.guessAfter (parties i).search.settings e.guess ((parties i).gathered looked y)
    phase := Function.update e.phase i (.done ((parties i).gathered looked y)) }

variable {parties} {e next : Sharing ι} {i : ι}

theorem looks_of_look? (h : e.look? parties i = some next) : e.Looks i next := by
  unfold look? at h
  split at h
  · rename_i hphase _
    exact ⟨hphase, (Option.some.inj h).symm⟩
  · cases h

theorem finish?_eq_some {looked : UInt64} {y : Session (parties i).σ}
    (hphase : e.phase i = .gathering looked) (hlooks : (parties i).looks? = some y) :
    e.finish? parties i = some {
      guess := Table.guessAfter (parties i).search.settings e.guess ((parties i).gathered looked y)
      phase := Function.update e.phase i (.done ((parties i).gathered looked y)) } := by
  have hgather := Table.ignoresGuess_gather (parties i).search.host (parties i).search.settings
    looked y e.guess
  unfold finish?
  rw [hphase, hlooks]
  dsimp only
  rw [Party.gather, hgather, Table.guess_settle]
  rfl

theorem finishes_of_finish? (h : e.finish? parties i = some next) :
    ∃ looked y, e.Finishes parties i looked y next := by
  cases hphase : e.phase i with
  | gathering looked =>
    cases hlooks : (parties i).looks? with
    | some y =>
      rw [finish?_eq_some hphase hlooks] at h
      exact ⟨looked, y, hphase, hlooks, (Option.some.inj h).symm⟩
    | none => simp [finish?, hphase, hlooks] at h
  | waiting => simp [finish?, hphase] at h
  | done answer => simp [finish?, hphase] at h

/-! ## Where the guess comes from -/

/-- The first guess of all, or its first size so many times doubled. -/
def Doubled (guess g : UInt64) : Prop := g = guess ∨ ∃ k, g.toNat = Table.firstSize guess * 2 ^ k

theorem Doubled.firstSize {guess g : UInt64} (h : Doubled guess g) :
    ∃ k, Table.firstSize g = Table.firstSize guess * 2 ^ k := by
  rcases h with rfl | ⟨k, hk⟩
  · exact ⟨0, by rw [pow_zero, Nat.mul_one]⟩
  · have hpos := Nat.mul_pos (Table.firstSize_pos guess) (Nat.two_pow_pos k)
    refine ⟨k, ?_⟩
    rw [Table.firstSize, hk]
    omega

/-- The size that is gathered with such a guess is such a size. -/
theorem Doubled.size {guess looked : UInt64} {p : Party} {y : Session p.σ} {filled : Block}
    (h : Doubled guess looked) (hf : p.gathered looked y = .ok filled) :
    ∃ k, filled.size.toNat = Table.firstSize guess * 2 ^ k := by
  obtain ⟨j, hj⟩ := h.firstSize
  obtain ⟨k, hk⟩ := Table.gather_doublings hf
  refine ⟨j + k, ?_⟩
  rw [hk, hj, Nat.mul_assoc, Nat.pow_add]

/-- A party has looked at such a guess, and has gathered with such a guess what it gathered. -/
def PhaseStems (guess : UInt64) (p : Party) : Phase → Prop
  | .waiting => True
  | .gathering looked => Doubled guess looked
  | .done answer => ∃ looked y, Doubled guess looked ∧ p.looks? = some y ∧
      answer = p.gathered looked y

/-- The guess at a moment is the first one, or the size of what some party gathered that is not over
the party's ceiling. -/
def GuessStems (parties : ι → Party) (guess : UInt64) (e : Sharing ι) : Prop :=
  e.guess = guess ∨ ∃ i filled, e.phase i = .done (.ok filled) ∧
    filled.size ≤ (parties i).ceiling ∧ e.guess = filled.size

/-- What every move keeps. -/
structure Stems (parties : ι → Party) (guess : UInt64) (e : Sharing ι) : Prop where
  guess_stems : GuessStems parties guess e
  phases : ∀ i, PhaseStems guess (parties i) (e.phase i)

section

variable {guess : UInt64}

omit [DecidableEq ι] in
theorem Stems.doubled (h : Stems parties guess e) : Doubled guess e.guess := by
  rcases h.guess_stems with hguess | ⟨i, filled, hdone, -, hguess⟩
  · exact .inl hguess
  · have hphase := h.phases i
    rw [hdone] at hphase
    obtain ⟨looked, y, hlooked, -, hanswer⟩ := hphase
    rw [hguess]
    exact .inr (hlooked.size hanswer.symm)

/-- What a party does with its phase is nothing to the others. -/
theorem phases_update (h : ∀ j, PhaseStems guess (parties j) (e.phase j)) {phase : Phase}
    (hi : PhaseStems guess (parties i) phase) :
    ∀ j, PhaseStems guess (parties j) (Function.update e.phase i phase j) :=
  (Function.forall_update_iff e.phase fun j phase => PhaseStems guess (parties j) phase).mpr
    ⟨hi, fun j _ => h j⟩

/-- A party that is done stays so. -/
theorem GuessStems.update (h : GuessStems parties guess e) {phase : Phase}
    (hi : ∀ answer, e.phase i ≠ .done answer) :
    GuessStems parties guess { e with phase := Function.update e.phase i phase } := by
  rcases h with hguess | ⟨j, filled, hdone, hle, hguess⟩
  · exact .inl hguess
  · have hj : j ≠ i := by
      rintro rfl
      exact hi _ hdone
    exact .inr ⟨j, filled, (Function.update_of_ne hj ..).trans hdone, hle, hguess⟩

theorem Stems.look (h : Stems parties guess e) (hl : e.Looks i next) :
    Stems parties guess next := by
  obtain ⟨hphase, rfl⟩ := hl
  exact ⟨h.guess_stems.update (by simp [hphase]), phases_update h.phases h.doubled⟩

theorem Stems.finish {looked : UInt64} {y : Session (parties i).σ} (h : Stems parties guess e)
    (hf : e.Finishes parties i looked y next) : Stems parties guess next := by
  obtain ⟨hphase, hlooks, rfl⟩ := hf
  have hlooked : Doubled guess looked := by
    have hi := h.phases i
    rwa [hphase] at hi
  refine ⟨?_, phases_update h.phases ⟨looked, y, hlooked, hlooks, rfl⟩⟩
  rcases Table.guessAfter_cases (parties i).search.settings e.guess
    ((parties i).gathered looked y) with hkept | ⟨filled, hok, hle, hleft⟩
  · rw [hkept]
    exact h.guess_stems.update (by simp [hphase])
  · rw [hleft, hok]
    exact .inr ⟨i, filled, Function.update_self .., hle, rfl⟩

theorem Stems.step {move : Move ι} (h : Stems parties guess e)
    (hs : e.step? parties move = some next) : Stems parties guess next := by
  cases move with
  | look i => exact h.look (looks_of_look? hs)
  | finish i =>
    obtain ⟨looked, y, hf⟩ := finishes_of_finish? hs
    exact h.finish hf

variable (parties guess)

/-- Whatever the schedule, the guess stems from the parties. -/
theorem always_stems : Always parties guess (Stems parties guess) := by
  intro moves e he
  refine holds_of_foldlM (fun _ _ _ h hs => h.step hs) ?_ he
  exact ⟨.inl rfl, fun _ => trivial⟩

end

/-! ## One search after the other -/

/-- A party that looks and finishes at once has changed the guess as its whole search does. -/
theorem follow?_alone {y : Session (parties i).σ} (hphase : e.phase i = .waiting)
    (hlooks : (parties i).looks? = some y) : ∃ next,
      e.follow? parties [.look i, .finish i] = some next ∧
        next.guess = (parties i).after e.guess := by
  have hlook : e.look? parties i =
      some { e with phase := Function.update e.phase i (.gathering e.guess) } := by
    rw [look?, hphase, hlooks]
  have hfinish := finish?_eq_some
    (e := { e with phase := Function.update e.phase i (.gathering e.guess) })
    (Function.update_self i _ e.phase) hlooks
  have hfollow : e.follow? parties [.look i, .finish i] =
      (e.look? parties i).bind fun mid => mid.finish? parties i := by
    simp [follow?, step?]
  have hafter : (parties i).search.looks? { (parties i).session with guess := e.guess } =
      some { y with guess := e.guess } := by
    rw [Search.looks?_with_guess, ← Party.looks?, hlooks]
    rfl
  rw [hlook, Option.bind_some, hfinish] at hfollow
  refine ⟨_, hfollow, ?_⟩
  rw [Party.after, Search.guess_run hafter, Table.ignoresGuess_gather]
  rfl

/-- A party that does not come to the guess leaves it alone. -/
theorem after_of_not_looks {p : Party} (h : p.looks? = none) (guess : UInt64) :
    p.after guess = guess := by
  refine Search.guess_run_of_not_looks ?_
  rw [Search.looks?_with_guess, ← Party.looks?, h]
  rfl

/-- No search by itself makes the guess less. -/
theorem le_after (p : Party) (guess : UInt64) : guess ≤ p.after guess := by
  cases h : p.search.looks? { p.session with guess } with
  | none => exact UInt64.le_of_eq (Search.guess_run_of_not_looks h).symm
  | some y =>
    rw [Party.after, Search.guess_run h]
    rcases Table.guessAfter_cases p.search.settings guess _ with hkept | ⟨filled, hok, -, hleft⟩
    · exact UInt64.le_of_eq hkept.symm
    · obtain ⟨k, hk⟩ := Table.gather_doublings hok
      rw [hleft, UInt64.le_iff_toNat_le, hk]
      have hfirst : guess.toNat ≤ Table.firstSize guess := Nat.le_max_left ..
      exact hfirst.trans (Nat.le_mul_of_pos_right _ (Nat.two_pow_pos k))

/-- The guess before each of some searches that run one after the other, and after the last. -/
def guessesInTurn (guess : UInt64) : List Party → List UInt64
  | [] => [guess]
  | p :: rest => guess :: guessesInTurn (p.after guess) rest

theorem le_of_mem_guessesInTurn {later guess : UInt64} {ps : List Party}
    (h : later ∈ guessesInTurn guess ps) : guess ≤ later := by
  induction ps generalizing guess with
  | nil => exact UInt64.le_of_eq (List.mem_singleton.mp h).symm
  | cons p rest ih =>
    rcases List.mem_cons.mp h with rfl | h
    · exact UInt64.le_refl _
    · exact UInt64.le_trans (le_after p guess) (ih h)

theorem pairwise_guessesInTurn (guess : UInt64) (ps : List Party) :
    (guessesInTurn guess ps).Pairwise (· ≤ ·) := by
  induction ps generalizing guess with
  | nil => exact List.pairwise_singleton _ _
  | cons p rest ih =>
    refine List.pairwise_cons.mpr ⟨fun later hlater => ?_, ih _⟩
    exact UInt64.le_trans (le_after p guess) (le_of_mem_guessesInTurn hlater)

/-! ## All of it -/

/-- What becomes of a guess that any number of searches share. -/
structure GuessShared (parties : ι → Party) (guess : UInt64) : Prop where
  /-- The guess is the first one, or the size of the block of a reading that has succeeded, not over
  the ceiling of its search. -/
  stems : Always parties guess fun e => e.guess = guess ∨ ∃ i filled,
    e.phase i = .done (.ok filled) ∧ filled.size ≤ (parties i).ceiling ∧ e.guess = filled.size
  /-- What a party has ended with is what it gathers with a guess that it has looked at. -/
  gathered : Always parties guess fun e => ∀ i answer, e.phase i = .done answer →
    ∃ looked y, (parties i).looks? = some y ∧ answer = (parties i).gathered looked y
  /-- A party that has succeeded leaves its size, unless that is over its ceiling.  The last one
  wins. -/
  leaves : ∀ (e next : Sharing ι) i, e.step? parties (.finish i) = some next → ∃ answer,
    next.phase i = .done answer ∧ next.guess = match answer with
      | .error _ => e.guess
      | .ok filled => if filled.size ≤ (parties i).ceiling then filled.size else e.guess
  /-- The guess never exceeds the first one and the ceilings of the searches that succeeded. -/
  bounded : Always parties guess fun e => ∀ bound, guess ≤ bound →
    (∀ i filled, e.phase i = .done (.ok filled) → (parties i).ceiling ≤ bound) → e.guess ≤ bound
  doubled : Always parties guess fun e => e.guess = guess ∨
    ∃ k, e.guess.toNat = max guess.toNat 1 * 2 ^ k
  /-- Between looking and finishing, and while the table is gone through, a party neither looks at
  the guess nor changes it. -/
  unaware : ∀ i, (∀ looked, IgnoresGuess ((parties i).gather looked)) ∧
    ∀ table p, IgnoresGuess ((parties i).search.goThrough table p)
  /-- A party that looks and finishes at once does to the guess what its whole search does. -/
  alone : ∀ (e : Sharing ι) i y, e.phase i = .waiting → (parties i).looks? = some y → ∃ next,
    e.follow? parties [.look i, .finish i] = some next ∧ next.guess = (parties i).after e.guess
  /-- A party that cannot do that leaves the guess alone. -/
  absent : ∀ i, (parties i).looks? = none → ∀ g, (parties i).after g = g
  /-- One search after the other, the guess is never less than before. -/
  inTurn : ∀ order : List ι, (guessesInTurn guess (order.map parties)).Pairwise (· ≤ ·)

/-- Whatever the machines answer and however the searches take turns, the guess is one that a search
may leave; where no two are at it together, it never gets less. -/
theorem guess_shared (parties : ι → Party) (guess : UInt64) : GuessShared parties guess where
  stems := fun moves e he => (always_stems parties guess moves e he).guess_stems
  gathered := by
    intro moves e he i answer hdone
    have hphase := (always_stems parties guess moves e he).phases i
    rw [hdone] at hphase
    obtain ⟨looked, y, -, hlooks, hanswer⟩ := hphase
    exact ⟨looked, y, hlooks, hanswer⟩
  leaves := by
    intro e next i hs
    obtain ⟨looked, y, -, -, rfl⟩ := finishes_of_finish? hs
    refine ⟨(parties i).gathered looked y, Function.update_self .., ?_⟩
    cases (parties i).gathered looked y with
    | error fault => rfl
    | ok filled => rfl
  bounded := by
    intro moves e he bound hfirst hceilings
    rcases (always_stems parties guess moves e he).guess_stems with
      hguess | ⟨i, filled, hdone, hle, hguess⟩
    · exact hguess ▸ hfirst
    · rw [hguess]
      exact UInt64.le_trans hle (hceilings i filled hdone)
  doubled := fun moves e he => (always_stems parties guess moves e he).doubled
  unaware := fun i =>
    ⟨fun looked => Table.ignoresGuess_gather _ _ looked, (parties i).search.ignoresGuess_goThrough⟩
  alone := fun _ _ _ hphase hlooks => follow?_alone hphase hlooks
  absent := fun _ hnot guess => after_of_not_looks hnot guess
  inTurn := fun order => pairwise_guessesInTurn guess (order.map parties)

end Sharing

end FileHolders
