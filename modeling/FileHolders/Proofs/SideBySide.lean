import FileHolders.Proofs.Course

/-!
# Runs side by side

The parts of a search look at the host and at the arena, and change both by what they are told.  So
two sessions with the same host and the same arena give the same answers, and what is kept by the
same change in both sessions is kept by the parts of a search.  Only the reading of the table also
looks at the first guess; nothing looks at the log.

    Respects R x → (∀ a, Respects R (f a)) → Respects R (x >>= f)                   (Respects.bind)
    Coupling R → Respects R (Table.fill h settings block)                           (Coupling.fill)
    Coupling R → Respects R (s.goThrough table p)                              (Coupling.goThrough)
    Coupling R → Respects R (Table.read s.host s.settings) → Respects R s.run        (Coupling.run)
-/

namespace FileHolders

open FileHolders.Action

variable {σ α β : Type} {R : Session σ → Session σ → Prop}

/-! ## Couplings -/

/-- A relation between sessions with the same host and the same arena that is kept where both are
changed in the same way. -/
structure Coupling (R : Session σ → Session σ → Prop) : Prop where
  host : ∀ {s t}, R s t → s.host = t.host
  arena : ∀ {s t}, R s t → s.arena = t.arena
  called : ∀ {s t} (host : σ) (e : Event), R s t →
    R { s with host, journal := s.journal.push e } { t with host, journal := t.journal.push e }
  said : ∀ {s t} (entry : LogEntry), R s t →
    R { s with log := s.log.push entry } { t with log := t.log.push entry }
  counted : ∀ {s t} (f : Arena → Arena), R s t →
    R { s with arena := f s.arena } { t with arena := f t.arena }

/-- From sessions that are related the action gives the same answer and leads to such sessions. -/
def Respects (R : Session σ → Session σ → Prop) (x : Action σ α) : Prop :=
  ∀ s t, R s t → (x.run s).1 = (x.run t).1 ∧ R (x.run s).2 (x.run t).2

theorem respects_pure (a : α) : Respects R (pure a : Action σ α) := fun _ _ h => ⟨rfl, h⟩

theorem Respects.bind {x : Action σ α} {f : α → Action σ β} (hx : Respects R x)
    (hf : ∀ a, Respects R (f a)) : Respects R (x >>= f) := by
  intro s t h
  obtain ⟨hanswer, hafter⟩ := hx s t h
  rw [run_bind, run_bind, hanswer]
  exact hf _ _ _ hafter

/-- An action that reads the sessions first, but only what is the same in both. -/
theorem respects_get_bind {g : Session σ → Action σ α} (hg : ∀ s t, R s t → g s = g t)
    (hx : ∀ s, Respects R (g s)) : Respects R (get >>= g) := by
  intro s t h
  show ((g s).run s).1 = ((g t).run t).1 ∧ R ((g s).run s).2 ((g t).run t).2
  rw [hg s t h]
  exact hx t s t h

theorem respects_onlyIf {condition : Bool} {x : Action σ Unit} (hx : Respects R x) :
    Respects R (onlyIf condition x) := by
  unfold onlyIf
  cases condition with
  | false => exact respects_pure ()
  | true => exact hx

/-- Two ways to go on in the same manner. -/
theorem respects_ite_bind {c : Prop} [Decidable c] {x y : Action σ α} {f : α → Action σ β}
    (hx : Respects R x) (hy : Respects R y) (hf : ∀ a, Respects R (f a)) :
    Respects R (if c then x >>= f else y >>= f) := by
  split
  · exact hx.bind hf
  · exact hy.bind hf

namespace Coupling

variable (hR : Coupling R)

include hR

/-! ## Single actions -/

theorem say (level : Level) (message : String) :
    Respects R (say level message : Action σ Unit) := fun _ _ h => ⟨rfl, hR.said _ h⟩

theorem modifyArena (f : Arena → Arena) : Respects R (modifyArena f : Action σ Unit) :=
  fun _ _ h => ⟨rfl, hR.counted f h⟩

theorem journaled (call : StateM σ α) (event : α → Event) :
    Respects R (journaled call event) := by
  intro s t h
  rw [run_journaled, run_journaled, hR.host h]
  exact ⟨rfl, hR.called _ _ h⟩

theorem note (e : Event) : Respects R (note e : Action σ Unit) := by
  intro s t h
  have hafter := hR.called s.host e h
  have hhost : { t with host := s.host, journal := t.journal.push e } =
      { t with journal := t.journal.push e } := by
    rw [hR.host h]
  rw [hhost] at hafter
  exact ⟨rfl, hafter⟩

theorem provides (h : Host σ) (c : Capability) : Respects R (h.provides c) :=
  respects_get_bind (fun s t hst => by rw [hR.host hst]) fun _ => respects_pure _

/-! ## The arena -/

theorem create (heap : Heap σ) (limit : Option UInt64) : Respects R (Arena.create heap limit) := by
  unfold Arena.create
  refine (hR.journaled _ _).bind ?_
  rintro (fault | _)
  · exact respects_pure _
  · refine (hR.say _ _).bind fun _ => ?_
    exact (hR.modifyArena _).bind fun _ => respects_pure _

theorem allocate (heap : Heap σ) (size : UInt64) : Respects R (Arena.allocate heap size) := by
  unfold Arena.allocate
  refine respects_get_bind (fun s t h => by rw [hR.arena h]) fun s => ?_
  dsimp only
  split
  · exact (hR.say _ _).bind fun _ => respects_pure _
  · split
    · exact respects_pure _
    · refine (hR.journaled _ _).bind ?_
      rintro (_ | place)
      · exact respects_pure _
      · exact (hR.modifyArena _).bind fun _ => respects_pure _

theorem free (heap : Heap σ) (b : Block) : Respects R (Arena.free heap b) := by
  unfold Arena.free
  refine respects_get_bind (fun s t h => by rw [hR.arena h]) fun s => ?_
  exact (respects_onlyIf (hR.journaled _ _)).bind fun _ => hR.modifyArena _

theorem close (heap : Heap σ) : Respects R (Arena.close heap) := by
  unfold Arena.close
  refine respects_get_bind (fun s t h => by rw [hR.arena h]) fun s => ?_
  refine (respects_onlyIf (hR.say _ _)).bind fun _ => ?_
  split
  · exact respects_pure _
  · refine (hR.journaled _ _).bind fun destroyed => ?_
    split
    · exact (hR.modifyArena _).bind fun _ => respects_pure _
    · exact respects_pure _

theorem warnIfUnreleased (answer : Except ArenaFault Unit) :
    Respects R (Arena.warnIfUnreleased answer : Action σ Unit) := by
  cases answer with
  | ok _ => exact respects_pure ()
  | error fault => exact hR.say _ _

theorem destroy (heap : Heap σ) : Respects R (Arena.destroy heap) := by
  unfold Arena.destroy
  refine (hR.close heap).bind fun first => (hR.close heap).bind fun second => ?_
  exact (hR.warnIfUnreleased second).bind fun _ => respects_pure first

/-! ## The table and names -/

theorem fill (h : Host σ) (settings : Settings) (block : Block) :
    Respects R (Table.fill h settings block) := by
  induction block using Table.fill.induct with
  | case1 block ih =>
    rw [Table.fill]
    refine (hR.journaled _ _).bind fun reply => ?_
    split
    · exact respects_pure _
    · refine (hR.free h.heap block).bind fun _ => ?_
      split
      · exact (hR.say _ _).bind fun _ => respects_pure _
      · refine (hR.say _ _).bind fun _ => (hR.allocate h.heap _).bind ?_
        rintro (_ | larger)
        · exact respects_pure _
        · exact ih larger.1 larger.2
    · exact (hR.free h.heap block).bind fun _ => respects_pure _

theorem query (h : Host σ) (settings : Settings) (handle : HandleId) (attempts : Nat)
    (buffer : Block) : Respects R (Name.query h settings handle attempts buffer) := by
  induction attempts using Nat.strongRecOn generalizing buffer with
  | ind attempts ih =>
    rw [Name.query.eq_def]
    refine (hR.journaled _ _).bind fun reply => ?_
    dsimp only
    split
    · exact respects_pure _
    · split
      · exact respects_pure _
      · exact respects_pure _
      · rename_i more
        split
        · exact (hR.say _ _).bind fun _ => respects_pure _
        · refine (hR.say _ _).bind fun _ => (hR.allocate h.heap _).bind ?_
          rintro (_ | larger)
          · exact respects_pure _
          · refine (hR.free h.heap _).bind fun _ => ?_
            exact ih (more + 1) (by omega) larger.1

theorem ask (h : Host σ) (settings : Settings) (handle : HandleId) (buffer : Block) :
    Respects R (Name.ask h settings handle buffer) := by
  unfold Name.ask
  refine (hR.provides h _).bind fun offered => ?_
  split
  · refine (hR.query h settings handle _ buffer).bind ?_
    rintro ⟨last, fault | status⟩
    · exact respects_pure _
    · dsimp only
      split
      · split
        · exact respects_pure _
        · exact (hR.note _).bind fun _ => respects_pure _
      · exact respects_pure _
  · exact respects_pure _

/-! ## Handles and owners -/

theorem release (host : Host σ) (h : Held) : Respects R (h.release host) := by
  unfold Held.release
  split
  · exact (hR.journaled _ _).bind fun _ => respects_onlyIf (hR.say _ _)
  · exact respects_pure ()

theorem openProcess (host : Host σ) (pid : UInt64) (access : UInt32) :
    Respects R (Held.openProcess host pid access) := by
  unfold Held.openProcess
  split
  · exact respects_pure _
  · refine (hR.provides host _).bind fun offered => ?_
    split
    · exact (hR.journaled _ _).bind fun _ => respects_pure _
    · exact respects_pure _

theorem duplicate (host : Host σ) (process : Held) (value : UInt64) :
    Respects R (Held.duplicate host process value) := by
  unfold Held.duplicate
  split
  · exact respects_pure _
  · refine (hR.provides host _).bind fun offered => ?_
    split
    · exact (hR.journaled _ _).bind fun _ => respects_pure _
    · exact respects_pure _

theorem letGo (host : Host σ) (owner : Owner) : Respects R (owner.letGo host) := by
  unfold Owner.letGo
  split
  · refine (hR.say _ _).bind fun _ => ?_
    exact (hR.release host _).bind fun _ => respects_pure _
  · exact respects_pure _

/-! ## The search -/

theorem send (p : Progress) (text : String) :
    Respects R (Search.send p text : Action σ Progress) := by
  unfold Search.send
  split
  · exact respects_pure p
  · exact (hR.note _).bind fun _ => respects_pure _

variable (s : Search σ)

theorem tell (process : Held) (r : Record) (p : Progress) :
    Respects R (s.tell process r p) := by
  unfold Search.tell
  split
  · exact respects_pure p
  · refine (hR.journaled _ _).bind fun _ => (hR.say _ _).bind fun _ => ?_
    refine (hR.send p _).bind fun _ => ?_
    exact (hR.note _).bind fun _ => respects_pure _

theorem report (process : Held) (r : Record) (p : Progress) :
    Respects R (s.report process r p) := by
  rw [Search.report_eq]
  split
  · exact hR.tell s process r _
  · exact (hR.send p _).bind fun _ => hR.tell s process r _

theorem examine (process handle : Held) (r : Record) (buffer : Block) (p : Progress) :
    Respects R (s.examine process handle r buffer p) := by
  unfold Search.examine
  refine (hR.journaled _ _).bind fun kind => ?_
  split
  · exact respects_pure _
  · refine (hR.ask s.host s.settings handle.id buffer).bind ?_
    rintro ⟨last, fault | name⟩
    · exact (hR.say _ _).bind fun _ => respects_pure _
    · dsimp only
      split
      · exact (hR.report s process r _).bind fun _ => respects_pure _
      · exact respects_pure _

theorem inspect (process : Held) (r : Record) (buffer : Block) (p : Progress) :
    Respects R (s.inspect process r buffer p) := by
  unfold Search.inspect
  refine (hR.duplicate s.host process _).bind ?_
  rintro (fault | handle)
  · exact (hR.say _ _).bind fun _ => respects_pure _
  · refine (hR.examine s process handle r buffer _).bind fun result => ?_
    exact (hR.release s.host handle).bind fun _ => respects_pure _

theorem openOwner (pid : UInt64) (p : Progress) : Respects R (s.openOwner pid p) := by
  have hlets : ∀ (owner : Owner), Respects R (p.owner.letGo s.host >>= fun _ => pure owner) :=
    fun owner => (hR.letGo s.host p.owner).bind fun _ => respects_pure owner
  unfold Search.openOwner
  refine (hR.openProcess s.host pid _).bind ?_
  rintro (fault | process)
  · refine (hR.say _ _).bind fun _ => ?_
    dsimp only
    split
    · exact (hlets (.outOfReach pid)).bind fun _ => respects_pure _
    · exact (hlets (.outOfReach pid)).bind fun _ => respects_pure _
  · exact (hlets (.opened pid process)).bind fun _ => respects_pure _

theorem turnTo (pid : UInt64) (p : Progress) : Respects R (s.turnTo pid p) := by
  rw [Search.turnTo_eq]
  split
  · refine (hR.letGo s.host p.owner).bind fun owner => ?_
    refine (hR.note _).bind fun _ => ?_
    split
    · exact (hR.say _ _).bind fun _ => respects_pure _
    · unfold Search.takeOver
      split
      · refine Respects.bind ?_ fun _ => respects_pure _
        exact (hR.letGo s.host owner).bind fun _ => respects_pure _
      · exact hR.openOwner s pid _
  · exact respects_pure p

theorem step (r : Record) (buffer : Block) (p : Progress) : Respects R (s.step r buffer p) := by
  rw [Search.step_eq]
  refine (hR.note _).bind fun _ => (hR.turnTo s r.pid _).bind fun turned => ?_
  split
  · exact respects_pure _
  · unfold Search.attend
    split
    · exact respects_pure _
    · split
      · exact respects_pure _
      · exact hR.inspect s _ r buffer turned

theorem walk (records : List Record) (buffer : Block) (p : Progress) :
    Respects R (s.walk records buffer p) := by
  induction records generalizing buffer p with
  | nil => exact respects_pure _
  | cons r rest ih =>
    unfold Search.walk
    refine (hR.step s r buffer p).bind ?_
    rintro ⟨last, next⟩
    dsimp only
    split
    · exact respects_pure _
    · exact ih last next

theorem goThrough (table : Table) (p : Progress) : Respects R (s.goThrough table p) := by
  unfold Search.goThrough
  refine (hR.allocate s.host.heap _).bind ?_
  rintro (_ | buffer)
  · exact hR.send p _
  · refine (hR.walk s table.records buffer.1 p).bind fun walked => ?_
    refine (hR.letGo s.host _).bind fun _ => ?_
    exact (hR.free s.host.heap _).bind fun _ => respects_pure _

/-! ## The whole search

All of it respects a coupling that the reading of the table respects. -/

section

variable (hread : Respects R (Table.read s.host s.settings))

include hread

theorem survey (p : Progress) : Respects R (s.survey p) := by
  unfold Search.survey
  refine hread.bind ?_
  rintro (fault | table)
  · exact (hR.say _ _).bind fun _ => hR.send p _
  · refine (hR.goThrough s table p).bind fun _ => ?_
    exact (hR.free s.host.heap _).bind fun _ => respects_pure _

theorem surveyInArena (p : Progress) : Respects R (s.surveyInArena p) := by
  unfold Search.surveyInArena
  refine (hR.create s.host.heap _).bind ?_
  rintro (fault | _)
  · exact (hR.say _ _).bind fun _ => hR.send p _
  · refine (hR.survey s hread p).bind fun _ => ?_
    refine (hR.destroy s.host.heap).bind fun answer => ?_
    exact (hR.warnIfUnreleased answer).bind fun _ => respects_pure _

theorem run : Respects R s.run := by
  have hempty : Respects R (do
      warn "Empty target path, nothing to search for"
      pure {} : Action σ Progress) := (hR.say _ _).bind fun _ => respects_pure _
  unfold Search.run
  refine (hR.say _ _).bind fun _ => ?_
  refine respects_ite_bind hempty (hR.surveyInArena s hread {}) fun p => ?_
  refine (hR.send p _).bind fun _ => ?_
  exact (hR.say _ _).bind fun _ => respects_pure _

end

end Coupling

end FileHolders
