import FileHolders.Memory.Arena

/-!
# What an action writes into the journal

An action never takes anything out of the journal.  `Emits x s post` says that the action `x`, begun
in the session `s`, adds some events and gives an answer, and that the two are as `post` says.  The
rules build such a statement along the text of an action, so that what a whole search writes is read
off its parts.

    Emits x s P → (∀ es a, P es a → Emits (f a) _ fun fs b => Q (es ++ fs) b) →
      Emits (x >>= f) s Q                                                      (Emits.bind)
    Emits x s P → P (eventsOf x s) (x.run s).1                                 (Emits.eventsOf)

What an action does to the session otherwise is said by `Yields x s post`: its answer and the session
that it ends in are as `post` says.
-/

namespace FileHolders.Action

variable {σ α β : Type}

/-! ## Running an action -/

theorem run_bind (x : Action σ α) (f : α → Action σ β) (s : Session σ) :
    (x >>= f).run s = (f (x.run s).1).run (x.run s).2 := rfl

/-- The events that an action adds to the journal. -/
def eventsOf (x : Action σ α) (s : Session σ) : List Event :=
  (x.run s).2.journal.toList.drop s.journal.size

/-- The action only adds to the journal, and what it adds and answers is as `post` says. -/
def Emits (x : Action σ α) (s : Session σ) (post : List Event → α → Prop) : Prop :=
  ∃ events, (x.run s).2.journal.toList = s.journal.toList ++ events ∧ post events (x.run s).1

/-! ## Rules -/

/-- What comes after the events that were there before is what an action added. -/
theorem eventsOf_eq {x : Action σ α} {s : Session σ} {events : List Event}
    (h : (x.run s).2.journal.toList = s.journal.toList ++ events) : eventsOf x s = events := by
  rw [eventsOf, h, ← Array.length_toList, List.drop_left]

theorem Emits.eventsOf {x : Action σ α} {s : Session σ} {post : List Event → α → Prop}
    (h : Emits x s post) : post (eventsOf x s) (x.run s).1 := by
  obtain ⟨events, hj, hp⟩ := h
  rw [eventsOf_eq hj]
  exact hp

/-- What was added, put after what was there, is the journal. -/
theorem Emits.journal {x : Action σ α} {s : Session σ} {post : List Event → α → Prop}
    (h : Emits x s post) :
    (x.run s).2.journal.toList = s.journal.toList ++ Action.eventsOf x s := by
  obtain ⟨events, hj, -⟩ := h
  rw [eventsOf_eq hj, hj]

theorem Emits.mono {x : Action σ α} {s : Session σ} {post weaker : List Event → α → Prop}
    (h : Emits x s post) (hw : ∀ events a, post events a → weaker events a) :
    Emits x s weaker := by
  obtain ⟨events, hj, hp⟩ := h
  exact ⟨events, hj, hw _ _ hp⟩

theorem Emits.bind {x : Action σ α} {f : α → Action σ β} {s : Session σ}
    {mid : List Event → α → Prop} {post : List Event → β → Prop} (hx : Emits x s mid)
    (hf : ∀ events a t, x.run s = (a, t) → mid events a →
      Emits (f a) t fun more b => post (events ++ more) b) :
    Emits (x >>= f) s post := by
  obtain ⟨events, hj, hm⟩ := hx
  obtain ⟨more, hk, hp⟩ := hf events (x.run s).1 (x.run s).2 rfl hm
  refine ⟨events ++ more, ?_, hp⟩
  rw [run_bind, hk, hj, List.append_assoc]

/-- What holds of the events of two actions, and of one list of events after another. -/
theorem Emits.append_bind {x : Action σ α} {f : α → Action σ β} {s : Session σ}
    {said : List Event → Prop} (happend : ∀ events more, said events → said more →
      said (events ++ more))
    (hx : Emits x s fun events _ => said events)
    (hf : ∀ a t, Emits (f a) t fun events _ => said events) :
    Emits (x >>= f) s fun events _ => said events := by
  refine hx.bind ?_
  intro events a t _ he
  exact (hf a t).mono fun more _ hm => happend events more he hm

theorem emits_pure {a : α} {s : Session σ} {post : List Event → α → Prop} (h : post [] a) :
    Emits (pure a) s post :=
  ⟨[], (List.append_nil _).symm, h⟩

theorem emits_note {e : Event} {s : Session σ} {post : List Event → Unit → Prop}
    (h : post [e] ()) : Emits (note e) s post := by
  refine ⟨[e], ?_, h⟩
  show (s.journal.push e).toList = _
  rw [Array.toList_push]

theorem emits_journaled {call : StateM σ α} {event : α → Event} {s : Session σ}
    {post : List Event → α → Prop} (h : ∀ a, post [event a] a) :
    Emits (journaled call event) s post := by
  refine ⟨[event (call.run s.host).1], ?_, h _⟩
  rw [run_journaled, Array.toList_push]

theorem emits_say {level : Level} {message : String} {s : Session σ}
    {post : List Event → Unit → Prop} (h : post [] ()) : Emits (say level message) s post :=
  ⟨[], (List.append_nil _).symm, h⟩

theorem emits_modifyArena {f : Arena → Arena} {s : Session σ} {post : List Event → Unit → Prop}
    (h : post [] ()) : Emits (modifyArena f) s post :=
  ⟨[], (List.append_nil _).symm, h⟩

theorem emits_onlyIf {condition : Bool} {x : Action σ Unit} {s : Session σ}
    {post : List Event → Unit → Prop} (hx : condition = true → Emits x s post)
    (hn : condition = false → post [] ()) : Emits (onlyIf condition x) s post := by
  unfold onlyIf
  cases condition with
  | false => exact emits_pure (hn rfl)
  | true => exact hx rfl

/-! ## Rules for an action and what follows it -/

section

variable {f : α → Action σ β} {s : Session σ} {post : List Event → β → Prop}

/-- An action that leaves the journal alone. -/
theorem Emits.silent_bind {x : Action σ α} (hx : Emits x s fun events _ => events = [])
    (h : ∀ a t, Emits (f a) t post) : Emits (x >>= f) s post := by
  refine hx.bind ?_
  rintro _ a t - rfl
  exact h a t

theorem emits_say_bind {g : Unit → Action σ β} {level : Level} {message : String}
    (h : ∀ t, Emits (g ()) t post) : Emits (say level message >>= g) s post :=
  Emits.silent_bind (emits_say rfl) fun _ t => h t

theorem emits_modifyArena_bind {g : Unit → Action σ β} {change : Arena → Arena}
    (h : ∀ t, Emits (g ()) t post) : Emits (modifyArena change >>= g) s post :=
  Emits.silent_bind (emits_modifyArena rfl) fun _ t => h t

/-- An action that reads the session first. -/
theorem emits_get_bind {g : Session σ → Action σ β} (h : Emits (g s) s post) :
    Emits (get >>= g) s post := h

theorem emits_note_bind {g : Unit → Action σ β} {e : Event}
    (h : ∀ t, Emits (g ()) t fun more b => post (e :: more) b) :
    Emits (note e >>= g) s post := by
  refine (emits_note rfl : Emits (note e) s fun events _ => events = [e]).bind ?_
  rintro _ - t - rfl
  exact h t

theorem emits_journaled_bind {call : StateM σ α} {event : α → Event}
    (h : ∀ a t, Emits (f a) t fun more b => post (event a :: more) b) :
    Emits (journaled call event >>= f) s post := by
  refine (emits_journaled fun _ => rfl :
    Emits (journaled call event) s fun events a => events = [event a]).bind ?_
  rintro _ a t - rfl
  exact h a t

end

/-! ## Answers and sessions -/

/-- The answer of the action and the session that it ends in are as `post` says. -/
def Yields (x : Action σ α) (s : Session σ) (post : α → Session σ → Prop) : Prop :=
  post (x.run s).1 (x.run s).2

theorem Yields.mono {x : Action σ α} {s : Session σ} {post weaker : α → Session σ → Prop}
    (h : Yields x s post) (hw : ∀ a t, post a t → weaker a t) : Yields x s weaker :=
  hw _ _ h

theorem Yields.bind {x : Action σ α} {f : α → Action σ β} {s : Session σ}
    {mid : α → Session σ → Prop} {post : β → Session σ → Prop} (hx : Yields x s mid)
    (hf : ∀ a t, mid a t → Yields (f a) t post) : Yields (x >>= f) s post :=
  hf _ _ hx

theorem yields_pure {a : α} {s : Session σ} {post : α → Session σ → Prop} (h : post a s) :
    Yields (pure a) s post := h

/-- What was shown of an action goes with what it comes to. -/
theorem Yields.and_run {x : Action σ α} {s : Session σ} {post : α → Session σ → Prop}
    (h : Yields x s post) : Yields x s fun a t => post a t ∧ x.run s = (a, t) := ⟨h, rfl⟩

/-- What was shown of the events of an action goes with what is shown of its session. -/
theorem Yields.and_emits {x : Action σ α} {s : Session σ} {post : α → Session σ → Prop}
    {written : List Event → α → Prop} (h : Yields x s post) (he : Emits x s written) :
    Yields x s fun a t => post a t ∧ ∃ events, written events a :=
  ⟨h, _, he.eventsOf⟩

section

variable {f : α → Action σ β} {g : Unit → Action σ β} {s : Session σ}
  {post : β → Session σ → Prop}

/-- An action that reads the session first. -/
theorem yields_get_bind {g : Session σ → Action σ β} (h : Yields (g s) s post) :
    Yields (get >>= g) s post := h

theorem yields_note_bind {e : Event}
    (h : ∀ t : Session σ, t.host = s.host → t.arena = s.arena → t.guess = s.guess →
      Yields (g ()) t post) :
    Yields (note e >>= g) s post :=
  h _ rfl rfl rfl

theorem yields_say_bind {level : Level} {message : String}
    (h : ∀ t : Session σ, t.host = s.host → t.arena = s.arena → t.guess = s.guess →
      Yields (g ()) t post) :
    Yields (say level message >>= g) s post :=
  h _ rfl rfl rfl

theorem yields_journaled_bind {call : StateM σ α} {event : α → Event}
    (h : ∀ t : Session σ, t.host = (call.run s.host).2 → t.arena = s.arena → t.guess = s.guess →
      Yields (f (call.run s.host).1) t post) :
    Yields (journaled call event >>= f) s post :=
  h _ rfl rfl rfl

theorem yields_modifyArena_bind {change : Arena → Arena}
    (h : ∀ t : Session σ, t.host = s.host → t.arena = change s.arena → t.guess = s.guess →
      Yields (g ()) t post) :
    Yields (modifyArena change >>= g) s post :=
  h _ rfl rfl rfl

/-- A call of which the session has an event more. -/
theorem yields_call_bind {call : StateM σ α} {event : α → Event}
    (h : ∀ t : Session σ, (journaled call event).run s = ((call.run s.host).1, t) →
      t.arena = s.arena → t.guess = s.guess →
      t.journal = s.journal.push (event (call.run s.host).1) →
      Yields (f (call.run s.host).1) t post) :
    Yields (journaled call event >>= f) s post :=
  h _ rfl rfl rfl rfl

theorem yields_event_bind {e : Event}
    (h : ∀ t : Session σ, t.arena = s.arena → t.guess = s.guess → t.journal = s.journal.push e →
      Yields (g ()) t post) :
    Yields (note e >>= g) s post :=
  h _ rfl rfl rfl

/-- A message, after which only the log is another one. -/
theorem yields_log_bind {level : Level} {message : String}
    (h : ∀ log, Yields (g ()) { s with log } post) : Yields (say level message >>= g) s post :=
  h _

/-- A message that may be written at the end. -/
theorem yields_onlyIf_say {condition : Bool} {level : Level} {message : String}
    {post : Unit → Session σ → Prop}
    (h : ∀ t : Session σ, t.host = s.host → t.arena = s.arena → t.guess = s.guess → post () t) :
    Yields (onlyIf condition (say level message)) s post := by
  unfold onlyIf
  cases condition with
  | false => exact h s rfl rfl rfl
  | true => exact h _ rfl rfl rfl

end

end FileHolders.Action
