import FileHolders.Proofs.Advance

/-!
# What a search does without its heap

Most parts of a search have nothing to do with its heap: they write no event of the heap, and the
counts of the arena stay as they are.  A part made of such parts is one.

    Idles x → (∀ a, Idles (f a)) → Idles (x >>= f)                                 (Idles.bind)
    Idles (s.turnTo pid p)                                                    (idles_turnTo)
    Idles (s.report process r p)                                              (idles_report)
-/

namespace FileHolders

open FileHolders.Action

variable {σ α β : Type}

/-! ## Idle actions -/

/-- The action calls the heap for nothing and leaves the counts of the arena alone. -/
def Idles (x : Action σ α) : Prop :=
  ∀ s, Emits x s (fun events _ => ∀ e ∈ events, e.isHeap = false) ∧
    (x.run s).2.arena = s.arena

theorem idles_pure (a : α) : Idles (pure a : Action σ α) :=
  fun _ => ⟨emits_pure (by simp), rfl⟩

theorem idles_say (level : Level) (message : String) : Idles (say level message : Action σ Unit) :=
  fun _ => ⟨emits_say (by simp), rfl⟩

theorem idles_note {e : Event} (h : e.isHeap = false) : Idles (note e : Action σ Unit) :=
  fun _ => ⟨emits_note (by simpa using h), rfl⟩

theorem idles_journaled {call : StateM σ α} {event : α → Event}
    (h : ∀ a, (event a).isHeap = false) : Idles (journaled call event) :=
  fun _ => ⟨emits_journaled (by simpa using h), rfl⟩

theorem idles_provides (h : Host σ) (c : Capability) : Idles (h.provides c) :=
  fun _ => ⟨⟨[], (List.append_nil _).symm, by simp⟩, rfl⟩

theorem Idles.bind {x : Action σ α} {f : α → Action σ β} (hx : Idles x)
    (hf : ∀ a, Idles (f a)) : Idles (x >>= f) := by
  intro s
  obtain ⟨hemits, harena⟩ := hx s
  refine ⟨hemits.bind ?_, ?_⟩
  · intro events a t _ he
    exact (hf a t).1.mono fun more _ hm => List.forall_mem_append.mpr ⟨he, hm⟩
  · rw [run_bind, (hf _ _).2, harena]

theorem idles_onlyIf {condition : Bool} {x : Action σ Unit} (hx : Idles x) :
    Idles (onlyIf condition x) := by
  unfold onlyIf
  cases condition with
  | false => exact idles_pure ()
  | true => exact hx

/-! ## Of a search -/

theorem Arena.idles_warnIfUnreleased (answer : Except ArenaFault Unit) :
    Idles (warnIfUnreleased answer : Action σ Unit) := by
  cases answer with
  | ok _ => exact idles_pure ()
  | error fault => exact idles_say _ _

theorem Table.idles_remember (size ceiling : UInt64) :
    Idles (remember size ceiling : Action σ Unit) :=
  fun s => ⟨(emits_remember size ceiling s).mono fun _ _ he => by simp [he], rfl⟩

theorem Held.idles_release (host : Host σ) (h : Held) : Idles (h.release host) := by
  unfold release
  split
  · exact (idles_journaled fun _ => rfl).bind fun _ => idles_onlyIf (idles_say _ _)
  · exact idles_pure ()

theorem Held.idles_openProcess (host : Host σ) (pid : UInt64) (access : UInt32) :
    Idles (openProcess host pid access) := by
  unfold openProcess
  split
  · exact idles_pure _
  · refine (idles_provides host _).bind fun offered => ?_
    split
    · exact (idles_journaled fun _ => rfl).bind fun _ => idles_pure _
    · exact idles_pure _

theorem Held.idles_duplicate (host : Host σ) (process : Held) (value : UInt64) :
    Idles (duplicate host process value) := by
  unfold duplicate
  split
  · exact idles_pure _
  · refine (idles_provides host _).bind fun offered => ?_
    split
    · exact (idles_journaled fun _ => rfl).bind fun _ => idles_pure _
    · exact idles_pure _

theorem Owner.idles_letGo (host : Host σ) (owner : Owner) : Idles (owner.letGo host) := by
  unfold letGo
  split
  · exact (idles_say _ _).bind fun _ => (Held.idles_release host _).bind fun _ => idles_pure _
  · exact idles_pure _

namespace Search

variable (s : Search σ)

theorem idles_send (p : Progress) (text : String) : Idles (send p text : Action σ Progress) := by
  unfold send
  split
  · exact idles_pure p
  · exact (idles_note rfl).bind fun _ => idles_pure _

theorem idles_tell (process : Held) (r : Record) (p : Progress) : Idles (s.tell process r p) := by
  unfold tell
  split
  · exact idles_pure p
  · refine (idles_journaled fun _ => rfl).bind fun _ => ?_
    refine (idles_say _ _).bind fun _ => (idles_send p _).bind fun _ => ?_
    exact (idles_note rfl).bind fun _ => idles_pure _

theorem idles_report (process : Held) (r : Record) (p : Progress) :
    Idles (s.report process r p) := by
  rw [report_eq]
  split
  · exact s.idles_tell process r _
  · exact (idles_send p _).bind fun headed => s.idles_tell process r _

theorem idles_openOwner (pid : UInt64) (p : Progress) : Idles (s.openOwner pid p) := by
  have hlets : ∀ owner : Owner, Idles (p.owner.letGo s.host >>= fun _ => pure owner) :=
    fun owner => (p.owner.idles_letGo s.host).bind fun _ => idles_pure owner
  unfold openOwner
  refine (Held.idles_openProcess s.host pid _).bind ?_
  rintro (fault | process)
  · refine (idles_say _ _).bind fun _ => ?_
    dsimp only
    split
    · exact (hlets (.outOfReach pid)).bind fun _ => idles_pure _
    · exact (hlets (.outOfReach pid)).bind fun _ => idles_pure _
  · exact (hlets (.opened pid process)).bind fun _ => idles_pure _

theorem idles_turnTo (pid : UInt64) (p : Progress) : Idles (s.turnTo pid p) := by
  rw [turnTo_eq]
  split
  · refine (p.owner.idles_letGo s.host).bind fun owner => (idles_note rfl).bind fun _ => ?_
    split
    · exact (idles_say _ _).bind fun _ => idles_pure _
    · unfold takeOver
      split
      · refine Idles.bind ?_ fun _ => idles_pure _
        exact (owner.idles_letGo s.host).bind fun _ => idles_pure _
      · exact s.idles_openOwner pid _
  · exact idles_pure p

theorem idles_conclude (p : Progress) : Idles (s.conclude p) :=
  (idles_send p _).bind fun _ => (idles_say _ _).bind fun _ => idles_pure _

end Search

end FileHolders
