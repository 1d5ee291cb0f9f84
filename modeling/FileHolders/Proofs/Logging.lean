import FileHolders.Proofs.SideBySide

/-!
# The log decides nothing

A search writes into the log and never reads it: begun in two sessions that differ in their logs
alone, it gives the same answer, writes the same events and ends in sessions that differ in their
logs alone.

    IgnoresLog s.run                                                             (ignoresLog_run)
    s.Alike t → eventsOf x s = eventsOf x t                                 (IgnoresLog.eventsOf)
-/

namespace FileHolders

open FileHolders.Action

variable {σ α : Type}

/-! ## Actions that ignore the log -/

/-- The sessions differ in their logs alone. -/
structure Session.Alike (s t : Session σ) : Prop where
  host : s.host = t.host
  arena : s.arena = t.arena
  guess : s.guess = t.guess
  journal : s.journal = t.journal

/-- What the action does is the same whatever the log has in it. -/
def IgnoresLog (x : Action σ α) : Prop :=
  ∀ s t, s.Alike t → (x.run s).1 = (x.run t).1 ∧ (x.run s).2.Alike (x.run t).2

/-- The events of an action that ignores the log are the same too. -/
theorem IgnoresLog.eventsOf {x : Action σ α} (hx : IgnoresLog x) {s t : Session σ}
    (h : s.Alike t) : Action.eventsOf x s = Action.eventsOf x t := by
  rw [Action.eventsOf, Action.eventsOf, (hx s t h).2.journal, h.journal]

/-! ## The search -/

theorem coupling_alike : Coupling (Session.Alike : Session σ → Session σ → Prop) where
  host := fun h => h.host
  arena := fun h => h.arena
  called := fun _ e h => ⟨rfl, h.arena, h.guess, congrArg (·.push e) h.journal⟩
  said := fun _ h => ⟨h.host, h.arena, h.guess, h.journal⟩
  counted := fun f h => ⟨h.host, congrArg f h.arena, h.guess, h.journal⟩

theorem Table.ignoresLog_remember (size ceiling : UInt64) :
    IgnoresLog (remember size ceiling : Action σ Unit) :=
  fun _ _ h => ⟨rfl, h.host, h.arena, congrArg (nextGuess · size ceiling) h.guess, h.journal⟩

theorem Table.ignoresLog_read (h : Host σ) (settings : Settings) :
    IgnoresLog (read h settings) := by
  show Respects Session.Alike (read h settings)
  unfold read
  refine (coupling_alike.provides h _).bind fun offered => ?_
  split
  · refine respects_get_bind (fun s t ha => by rw [ha.guess]) fun s => ?_
    refine (coupling_alike.allocate h.heap _).bind ?_
    rintro (_ | block)
    · exact respects_pure _
    · refine (coupling_alike.fill h settings block.1).bind ?_
      rintro (fault | filled)
      · exact respects_pure _
      · refine Respects.bind (ignoresLog_remember _ _) fun _ => ?_
        exact (coupling_alike.say _ _).bind fun _ => respects_pure _
  · exact respects_pure _

/-- What a search does is the same whatever was logged before it. -/
theorem Search.ignoresLog_run (s : Search σ) : IgnoresLog s.run :=
  coupling_alike.run s (Table.ignoresLog_read s.host s.settings)

end FileHolders
