import FileHolders.Proofs.Doublings
import FileHolders.Proofs.SideBySide
import FileHolders.Proofs.Upkeep

/-!
# What a search does with the first guess

A search looks at the first guess once, where it begins to read the table, and changes it once at
most, where the reading has succeeded.  In between it gathers the table, and for that as for all the
rest of the search it makes no difference what the guess is by then.

    IgnoresGuess x → (x.run s).2.guess = s.guess                               (IgnoresGuess.guess)
    read h settings = gather h settings guess >>= settle settings, guess looked at first   (read_eq)
    IgnoresGuess (gather h settings guess)                                    (ignoresGuess_gather)
    gather gives a block of size firstSize guess * 2 ^ k                          (gather_doublings)
    s.looks? x = some y → (s.run.run x).2.guess = ((Table.read s.host s.settings).run y).2.guess
                                                                                    (guess_run)
-/

namespace FileHolders

open FileHolders.Action

variable {σ α β : Type}

/-! ## Actions that ignore the guess -/

/-- The action neither looks at the guess nor changes it. -/
def IgnoresGuess (x : Action σ α) : Prop :=
  ∀ s guess, x.run { s with guess } = ((x.run s).1, { (x.run s).2 with guess })

/-- The sessions have these guesses and are the same otherwise. -/
structure Session.Guessing (a b : UInt64) (s t : Session σ) : Prop where
  first : s.guess = a
  second : t = { s with guess := b }

theorem coupling_guessing (a b : UInt64) :
    Coupling (Session.Guessing a b : Session σ → Session σ → Prop) where
  host := by
    rintro s _ ⟨-, rfl⟩
    rfl
  arena := by
    rintro s _ ⟨-, rfl⟩
    rfl
  called := by
    rintro s _ host e ⟨hs, rfl⟩
    exact ⟨hs, rfl⟩
  said := by
    rintro s _ entry ⟨hs, rfl⟩
    exact ⟨hs, rfl⟩
  counted := by
    rintro s _ f ⟨hs, rfl⟩
    exact ⟨hs, rfl⟩

/-- What goes for every coupling goes for the one of two guesses. -/
theorem ignoresGuess_of_respects {x : Action σ α}
    (h : ∀ {R : Session σ → Session σ → Prop}, Coupling R → Respects R x) : IgnoresGuess x := by
  intro s guess
  obtain ⟨hanswer, -, hafter⟩ :=
    h (coupling_guessing s.guess guess) s { s with guess } ⟨rfl, rfl⟩
  exact Prod.ext hanswer.symm hafter

namespace IgnoresGuess

theorem guess {x : Action σ α} (h : IgnoresGuess x) (s : Session σ) :
    (x.run s).2.guess = s.guess := congrArg (fun r => r.2.guess) (h s s.guess)

theorem guess_bind {f : α → Action σ β} (hf : ∀ a, IgnoresGuess (f a)) (x : Action σ α)
    (s : Session σ) : ((x >>= f).run s).2.guess = (x.run s).2.guess := by
  rw [run_bind, (hf _).guess]

end IgnoresGuess

/-! ## The reading of the table -/

theorem Host.run_provides_bind (h : Host σ) (c : Capability) (f : Bool → Action σ α)
    (y : Session σ) : (h.provides c >>= f).run y = (f (h.has y.host c)).run y := rfl

namespace Table

variable (h : Host σ) (settings : Settings)

/-- What a reading does between looking at the guess and changing it. -/
def gather (guess : UInt64) : Action σ (Except Fault Block) := do
  match ← Arena.allocate h.heap (max guess 1) with
  | none => pure (.error (.outOfMemory (max guess 1)))
  | some block => fill h settings block.1

/-- What a reading does with the block that it has filled. -/
def settle : Except Fault Block → Action σ (Except Fault Table)
  | .error fault => pure (.error fault)
  | .ok filled => do
    remember filled.size settings.guessCeiling
    debug s!"handle table: {Table.size ⟨filled⟩} entries in a {filled.size} byte buffer"
    pure (.ok ⟨filled⟩)

/-- A reading looks at the guess, gathers and settles. -/
theorem read_eq : read h settings = (do
    if ← h.provides .queryTable then
      let guess := (← get).guess
      gather h settings guess >>= settle settings
    else pure (.error (.missing .queryTable))) := by
  unfold read gather
  refine bind_congr fun offered => ?_
  split
  · refine bind_congr fun s => ?_
    rw [bind_assoc]
    refine bind_congr fun block => ?_
    cases block with
    | none => rfl
    | some block =>
      refine bind_congr fun filled => ?_
      cases filled with
      | error fault => rfl
      | ok filled => rfl
  · rfl

variable {h settings}

/-- A reading for which the entry point is there. -/
theorem run_read {y : Session σ} (hy : h.has y.host .queryTable = true) :
    (read h settings).run y = (gather h settings y.guess >>= settle settings).run y := by
  rw [read_eq, Host.run_provides_bind, if_pos hy]
  rfl

theorem run_read_of_missing {y : Session σ} (hy : h.has y.host .queryTable = false) :
    (read h settings).run y = (.error (.missing .queryTable), y) := by
  rw [read_eq, Host.run_provides_bind, hy]
  rfl

variable (h settings)

theorem ignoresGuess_gather (guess : UInt64) : IgnoresGuess (gather h settings guess) := by
  refine ignoresGuess_of_respects fun hR => ?_
  unfold gather
  refine (hR.allocate h.heap _).bind ?_
  rintro (_ | block)
  · exact respects_pure _
  · exact hR.fill h settings block.1

/-- The guess after a reading has ended. -/
def guessAfter (guess : UInt64) : Except Fault Block → UInt64
  | .error _ => guess
  | .ok filled => nextGuess guess filled.size settings.guessCeiling

theorem guess_settle (answer : Except Fault Block) (t : Session σ) :
    ((settle settings answer).run t).2.guess = guessAfter settings t.guess answer := by
  cases answer with
  | error fault => rfl
  | ok filled => rfl

/-- A reading that has ended keeps the guess, or leaves the size that it came to. -/
theorem guessAfter_cases (guess : UInt64) (answer : Except Fault Block) :
    guessAfter settings guess answer = guess ∨ ∃ filled, answer = .ok filled ∧
      filled.size ≤ settings.guessCeiling ∧ guessAfter settings guess answer = filled.size := by
  cases answer with
  | error fault => exact .inl rfl
  | ok filled =>
    by_cases hle : filled.size ≤ settings.guessCeiling
    · exact .inr ⟨filled, rfl, hle, if_pos hle⟩
    · exact .inl (if_neg hle)

variable {h settings}

/-- What was gathered has the first size, so many times doubled. -/
theorem gather_doublings {guess : UInt64} {y : Session σ} {filled : Block}
    (hf : ((gather h settings guess).run y).1 = .ok filled) :
    ∃ k, filled.size.toNat = firstSize guess * 2 ^ k := by
  have hgathers : Yields (gather h settings guess) y fun a _ =>
      ∀ filled, a = .ok filled → ∃ k, filled.size.toNat = firstSize guess * 2 ^ k := by
    unfold gather
    refine (Arena.yields_allocates h.heap _ y).bind ?_
    rintro _ t (⟨-, -, -⟩ | ⟨b, -, ha, hg, -⟩)
    · exact yields_pure nofun
    · have hkeeps : Keeps y.arena y.guess (firstSize guess) 0 ⟨b.1, t⟩ := by
        refine ⟨?_, ha, hg⟩
        rw [pow_zero, Nat.mul_one, b.2, toNat_granted_first]
      obtain ⟨rest, hr⟩ := fill_in_rounds h settings ⟨b.1, t⟩
      intro filled hfilled
      obtain ⟨m, hlast, hends⟩ := hr.ended
      obtain ⟨k, hk⟩ := List.mem_iff_getElem?.mp (List.mem_of_getLast? hlast)
      have hsize := (keeps_of_rounds hr hkeeps (firstSize_pos guess) k m hk).size
      rw [hfilled] at hends
      cases round_of_ends hends with
      | filled _ _ _ => exact ⟨k, hsize⟩
  exact hgathers filled hf

end Table

/-! ## The whole search -/

namespace Search

variable (s : Search σ)

/-- The session in which a search looks at the guess.  It does not come so far without a target, an
arena and the entry point. -/
def looks? (x : Session σ) : Option (Session σ) :=
  if s.text.isEmpty then none
  else
    match (Arena.create s.host.heap s.settings.arenaLimit).run
        ((info s.openingMessage).run x).2 with
    | (.error _, _) => none
    | (.ok (), y) => if s.host.has y.host .queryTable then some y else none

/-- Up to there the guess makes no difference. -/
theorem ignoresGuess_create : IgnoresGuess (info s.openingMessage >>= fun _ =>
    Arena.create s.host.heap s.settings.arenaLimit) :=
  ignoresGuess_of_respects fun hR => (hR.say _ _).bind fun _ => hR.create _ _

/-- Nor does it where the table is gone through. -/
theorem ignoresGuess_goThrough (table : Table) (p : Progress) :
    IgnoresGuess (s.goThrough table p) := ignoresGuess_of_respects fun hR => hR.goThrough s table p

theorem ignoresGuess_conclude (p : Progress) : IgnoresGuess (s.conclude p) :=
  ignoresGuess_of_respects fun hR =>
    (hR.send p _).bind fun _ => (hR.say _ _).bind fun _ => respects_pure _

/-- After the survey as well. -/
theorem ignoresGuess_end (p : Progress) : IgnoresGuess (Arena.destroy s.host.heap >>= fun answer =>
    Arena.warnIfUnreleased answer >>= fun _ => s.conclude p) :=
  ignoresGuess_of_respects fun hR => (hR.destroy _).bind fun answer =>
    (hR.warnIfUnreleased answer).bind fun _ =>
      (hR.send p _).bind fun _ => (hR.say _ _).bind fun _ => respects_pure _

theorem guess_survey (p : Progress) (y : Session σ) :
    ((s.survey p).run y).2.guess = ((Table.read s.host s.settings).run y).2.guess := by
  unfold survey
  refine IgnoresGuess.guess_bind ?_ _ y
  rintro (fault | table)
  · exact ignoresGuess_of_respects fun hR => (hR.say _ _).bind fun _ => hR.send p _
  · exact ignoresGuess_of_respects fun hR => (hR.goThrough s table p).bind fun _ =>
      (hR.free s.host.heap _).bind fun _ => respects_pure _

variable {s} {x y : Session σ}

theorem looks?_eq_some (h : s.looks? x = some y) : s.text.isEmpty = false ∧
    (Arena.create s.host.heap s.settings.arenaLimit).run ((info s.openingMessage).run x).2 =
      (.ok (), y) ∧ s.host.has y.host .queryTable = true := by
  unfold looks? at h
  split at h
  · cases h
  · rename_i ht
    rw [Bool.not_eq_true] at ht
    split at h
    · cases h
    · rename_i t hcreate
      split at h
      · rename_i hthere
        obtain rfl := Option.some.inj h
        exact ⟨ht, hcreate, hthere⟩
      · cases h

theorem guess_of_created {answer : Except ArenaFault Unit}
    (h : (Arena.create s.host.heap s.settings.arenaLimit).run ((info s.openingMessage).run x).2 =
      (answer, y)) : y.guess = x.guess := by
  have hguess := s.ignoresGuess_create.guess x
  rwa [run_bind, h] at hguess

/-- A search that looks at the guess leaves what its reading leaves. -/
theorem guess_run (h : s.looks? x = some y) : (s.run.run x).2.guess = Table.guessAfter s.settings
    x.guess ((Table.gather s.host s.settings x.guess).run y).1 := by
  obtain ⟨ht, hcreate, hthere⟩ := looks?_eq_some h
  have hy := guess_of_created hcreate
  rw [s.run_eq_of_created ht hcreate, (s.ignoresGuess_end _).guess, s.guess_survey,
    Table.run_read hthere, run_bind, Table.guess_settle,
    (Table.ignoresGuess_gather s.host s.settings _).guess, hy]

/-- Any other search leaves the guess that it found. -/
theorem guess_run_of_not_looks (h : s.looks? x = none) : (s.run.run x).2.guess = x.guess := by
  cases ht : s.text.isEmpty with
  | true =>
    rw [s.run_eq_conclude_of_isEmpty x ht, (s.ignoresGuess_conclude _).guess]
    rfl
  | false =>
    cases hcreate : (Arena.create s.host.heap s.settings.arenaLimit).run
        ((info s.openingMessage).run x).2 with
    | mk answer y =>
      have hy := guess_of_created hcreate
      cases answer with
      | error fault =>
        rw [s.run_eq_conclude x ht, (s.ignoresGuess_conclude _).guess]
        unfold surveyed surveyInArena
        rw [run_bind, hcreate]
        have hsaid : IgnoresGuess (warn s!"Could not create the search arena: {fault.message}" >>=
            fun _ => send {} (unreadableLine (.arena fault)) : Action σ Progress) :=
          ignoresGuess_of_respects fun hR => (hR.say _ _).bind fun _ => hR.send _ _
        exact (hsaid.guess y).trans hy
      | ok _ =>
        have hmissing : s.host.has y.host .queryTable = false := by
          simpa [looks?, ht, hcreate] using h
        rw [s.run_eq_of_created ht hcreate, (s.ignoresGuess_end _).guess, s.guess_survey,
          Table.run_read_of_missing hmissing, hy]

/-- Where a search looks at the guess does not depend on the guess. -/
theorem looks?_with_guess (s : Search σ) (x : Session σ) (guess : UInt64) :
    s.looks? { x with guess } = (s.looks? x).map fun y => { y with guess } := by
  have hcreate := s.ignoresGuess_create x guess
  rw [run_bind, run_bind] at hcreate
  unfold looks?
  split
  · rfl
  · rw [hcreate]
    cases (Arena.create s.host.heap s.settings.arenaLimit).run
        ((info s.openingMessage).run x).2 with
    | mk answer y =>
      cases answer with
      | error fault => rfl
      | ok _ =>
        dsimp only
        split
        · rfl
        · rfl

end Search

end FileHolders
