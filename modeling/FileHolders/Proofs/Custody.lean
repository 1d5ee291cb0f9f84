import FileHolders.Session
import FileHolders.Table

/-!
# Which handles are in custody

The journal of a search is read in order, and at each moment it says which handles were handed out
and not closed, the newest first, which process is at hand and which handle stands for the object of
the record (`Custody`).  `Custody.Allows` says what may happen next: only the newest handle is
closed, only the process at hand is asked for its handles and its program, and only the handle that
stands for the record is looked at.

Where only what is allowed happens, at most one process and one duplicate are in custody at any
moment, and if the end finds none, each handle was closed as often as it was handed out.

    c.Lawful own es → Sound own c → Sound own (c.after own es)                   (Sound.after)
    c.Lawful own es → (c.after own es).live = [] → Accounted own es              (accounted_of_lawful)

The stand-in for the caller's own process is never handed out in this sense and never closed, also
where the host answers with it.
-/

namespace FileHolders

/-! ## Custody -/

/-- What a handle was handed out for. -/
inductive Custody.Kind where
  | process
  | duplicate
deriving DecidableEq, Repr

/-- Which handles a search has at a moment of its journal. -/
structure Custody where
  /-- The record that the search turned to last. -/
  record : Option Record := none
  /-- The process at hand: its id and the handle that stands for it. -/
  process : Option (UInt64 × HandleId) := none
  /-- The handle that was handed out for the object of the record. -/
  lent : Option HandleId := none
  /-- The handles that were handed out and not closed, the newest first. -/
  live : List (Custody.Kind × HandleId) := []

namespace Custody

/-- The handle that a successful call hands out. -/
def given (handle : Option HandleId) : HandleId := handle.getD .zero

/-- The live handles after one was handed out.  The stand-in for the caller is none. -/
def take (c : Custody) (kind : Kind) (h : HandleId) : List (Kind × HandleId) :=
  if h = .ownProcess then c.live else (kind, h) :: c.live

/-- The custody after an event.  The caller's own process comes to hand without a call: where the
search goes on at one of its records. -/
def step (own : UInt64) (c : Custody) : Event → Custody
  | .record pid value access => { c with record := some ⟨pid, value, access⟩, lent := none }
  | .polled cancelled =>
    { c with
      process :=
        if cancelled = false ∧ c.record.map Record.pid = some own then some (own, .ownProcess)
        else none }
  | .opened pid _ status handle =>
    if status.isSuccess then
      { c with process := some (pid, given handle), live := c.take .process (given handle) }
    else c
  | .duplicated _ _ status handle =>
    if status.isSuccess then
      { c with lent := some (given handle), live := c.take .duplicate (given handle) }
    else c
  | .closed _ _ =>
    match c.live with
    | [] => c
    | (.process, _) :: rest => { c with process := none, live := rest }
    | (.duplicate, _) :: rest => { c with lent := none, live := rest }
  | _ => c

/-- The custody after some events. -/
def after (own : UInt64) (c : Custody) (events : List Event) : Custody := events.foldl (step own) c

/-- Whether a handle stands for the object of the record: it was handed out for it, or the process
at hand is the stand-in for the caller and it is the handle of the record itself. -/
def Lends (c : Custody) (handle : HandleId) : Prop :=
  c.lent = some handle ∨
    ∃ r, c.record = some r ∧ c.process = some (r.pid, .ownProcess) ∧ handle = .ofWord r.handleValue

/-- Whether a handle stands for the process of the record. -/
def Stands (c : Custody) (handle : HandleId) : Prop :=
  ∃ r, c.record = some r ∧ c.process = some (r.pid, handle)

/-- What may happen next.  A duplicate is closed before the search turns to the next record, and
the process is closed before the search asks whether it was cancelled. -/
def Allows (own : UInt64) (c : Custody) : Event → Prop
  | .record _ _ _ => ∀ d, (.duplicate, d) ∉ c.live
  | .polled _ => c.live = []
  | .opened pid _ _ _ => pid ≠ own ∧ c.live = [] ∧ ∃ r, c.record = some r ∧ r.pid = pid
  | .duplicated source value _ _ =>
    c.Stands source ∧ c.live = [(.process, source)] ∧
      ∃ r, c.record = some r ∧ r.pid ≠ own ∧ r.handleValue = value
  | .image handle _ => c.Stands handle
  | .classified handle _ => c.Lends handle
  | .object handle _ _ _ => c.Lends handle
  | .closed handle _ => ∃ kind rest, c.live = (kind, handle) :: rest
  | _ => True

/-- Every one of the events may happen when it does. -/
def Lawful (own : UInt64) (c : Custody) : List Event → Prop
  | [] => True
  | e :: events => c.Allows own e ∧ Lawful own (c.step own e) events

/-- The custodies that a search can be in: nothing is live, or one process other than the caller's,
or that process and one duplicate.  A handle that stands for something is live or the stand-in for
the caller. -/
inductive Sound (own : UInt64) (c : Custody) : Prop
  | clear (hl : c.live = []) (hp : ∀ pid h, c.process = some (pid, h) → h = .ownProcess)
      (hd : ∀ d, c.lent = some d → d = .ownProcess)
  | entered (pid : UInt64) (h : HandleId) (hl : c.live = [(.process, h)])
      (hp : c.process = some (pid, h)) (hpid : pid ≠ own) (hh : h ≠ .ownProcess)
      (hd : ∀ d, c.lent = some d → d = .ownProcess)
  | holding (pid : UInt64) (h d : HandleId) (hl : c.live = [(.duplicate, d), (.process, h)])
      (hp : c.process = some (pid, h)) (hpid : pid ≠ own) (hh : h ≠ .ownProcess)
      (hd : c.lent = some d) (hdh : d ≠ .ownProcess)

/-! ## Lemmas -/

theorem after_append (own : UInt64) (c : Custody) (events more : List Event) :
    c.after own (events ++ more) = (c.after own events).after own more := List.foldl_append

theorem after_cons (own : UInt64) (c : Custody) (e : Event) (events : List Event) :
    c.after own (e :: events) = (c.step own e).after own events := rfl

theorem after_nil (own : UInt64) (c : Custody) : c.after own [] = c := rfl

theorem after_eq_self {own : UInt64} {c : Custody} {events : List Event}
    (h : ∀ e ∈ events, c.step own e = c) : c.after own events = c := by
  induction events with
  | nil => rfl
  | cons e events ih =>
    rw [after_cons, h e List.mem_cons_self]
    exact ih fun e' he' => h e' (List.mem_cons_of_mem e he')

theorem lawful_append (own : UInt64) (c : Custody) (events more : List Event) :
    c.Lawful own (events ++ more) ↔
      c.Lawful own events ∧ (c.after own events).Lawful own more := by
  induction events generalizing c with
  | nil => simp [Lawful, after_nil]
  | cons e events ih => rw [List.cons_append, Lawful, Lawful, ih, after_cons, and_assoc]

/-- What is lawful as a whole is allowed at each of its moments. -/
theorem Lawful.allows {own : UInt64} {c : Custody} {before rest : List Event} {e : Event}
    (h : c.Lawful own (before ++ e :: rest)) : (c.after own before).Allows own e :=
  ((lawful_append own c before (e :: rest)).mp h).2.1

theorem lawful_cons (own : UInt64) (c : Custody) (e : Event) (events : List Event) :
    c.Lawful own (e :: events) ↔ c.Allows own e ∧ (c.step own e).Lawful own events := Iff.rfl

theorem lawful_nil (own : UInt64) (c : Custody) : c.Lawful own [] := trivial

/-! ### What is live makes sense -/

theorem sound_start (own : UInt64) : Sound own {} :=
  .clear rfl (by simp) (by simp)

theorem take_ownProcess (c : Custody) (kind : Kind) : c.take kind .ownProcess = c.live := by
  simp [take]

theorem take_of_ne (c : Custody) (kind : Kind) {h : HandleId} (hh : h ≠ .ownProcess) :
    c.take kind h = (kind, h) :: c.live := by
  simp [take, hh]

/-- What is allowed leads from one sound custody to another. -/
theorem Sound.step {own : UInt64} {c : Custody} {e : Event} (hc : Sound own c)
    (ha : c.Allows own e) : Sound own (c.step own e) := by
  cases e with
  | record pid value access =>
    cases hc with
    | clear hl hp _ => exact .clear hl hp (by simp [Custody.step])
    | entered pid h hl hp hpid hh _ =>
      exact .entered pid h hl hp hpid hh (by simp [Custody.step])
    | holding pid h d hl _ _ _ _ _ => exact absurd (by simp [hl]) (ha d)
  | polled cancelled =>
    cases hc with
    | clear _ _ hd =>
      refine .clear ha ?_ hd
      intro pid h
      simp only [Custody.step]
      split
      · rintro ⟨⟩
        rfl
      · simp
    | entered _ _ hl _ _ _ _ => exact absurd (ha.symm.trans hl) (by simp)
    | holding _ _ _ hl _ _ _ _ _ => exact absurd (ha.symm.trans hl) (by simp)
  | opened pid access status handle =>
    obtain ⟨hpid, hl, -⟩ := ha
    cases hc with
    | clear _ hp hd =>
      simp only [Custody.step]
      split
      · by_cases hh : given handle = .ownProcess
        · refine .clear (by simp only [hh, take_ownProcess, hl]) ?_ hd
          rintro _ _ ⟨⟩
          exact hh
        · exact .entered pid (given handle) (by simp only [take_of_ne _ _ hh, hl]) rfl hpid hh hd
      · exact .clear hl hp hd
    | entered _ _ hl' _ _ _ _ => exact absurd (hl.symm.trans hl') (by simp)
    | holding _ _ _ hl' _ _ _ _ _ => exact absurd (hl.symm.trans hl') (by simp)
  | duplicated source value status handle =>
    obtain ⟨-, hl, -⟩ := ha
    cases hc with
    | clear hl' _ _ => exact absurd (hl.symm.trans hl') (by simp)
    | entered pid h hl' hp hpid hh hd =>
      simp only [Custody.step]
      split
      · by_cases hd' : given handle = .ownProcess
        · refine .entered pid h (by simp only [hd', take_ownProcess, hl']) hp hpid hh ?_
          rintro _ ⟨⟩
          exact hd'
        · exact .holding pid h (given handle) (by simp only [take_of_ne _ _ hd', hl']) hp hpid hh
            rfl hd'
      · exact .entered pid h hl' hp hpid hh hd
    | holding _ _ _ hl' _ _ _ _ _ => exact absurd (hl.symm.trans hl') (by simp)
  | closed handle status =>
    obtain ⟨kind, rest, hl⟩ := ha
    cases hc with
    | clear hl' _ _ => exact absurd (hl.symm.trans hl') (by simp)
    | entered _ _ hl' _ _ _ hd =>
      simp only [Custody.step, hl']
      exact .clear rfl (by simp) hd
    | holding pid h d hl' hp hpid hh _ _ =>
      simp only [Custody.step, hl']
      exact .entered pid h rfl hp hpid hh (by simp)
  | _ => exact hc

theorem Sound.after {own : UInt64} {c : Custody} {events : List Event} (h : Sound own c)
    (hl : c.Lawful own events) : Sound own (c.after own events) := by
  induction events generalizing c with
  | nil => exact h
  | cons e events ih => exact ih (h.step hl.1) hl.2

/-! ### What is handed out comes back -/

/-- An event leaves the live handles, adds one, or closes the newest. -/
theorem live_step (own : UInt64) (c : Custody) (e : Event) :
    (∃ more, (c.step own e).live = more ++ c.live) ∨
      (∃ handle status, e = .closed handle status ∧ (c.step own e).live = c.live.tail) := by
  have htake : ∀ kind handle, ∃ more, c.take kind handle = more ++ c.live := by
    intro kind handle
    by_cases hh : handle = .ownProcess
    · exact ⟨[], by rw [hh, take_ownProcess]; rfl⟩
    · exact ⟨[(kind, handle)], by rw [take_of_ne _ _ hh]; rfl⟩
  cases e with
  | opened pid access status handle =>
    left
    simp only [Custody.step]
    split
    · exact htake _ _
    · exact ⟨[], rfl⟩
  | duplicated source value status handle =>
    left
    simp only [Custody.step]
    split
    · exact htake _ _
    · exact ⟨[], rfl⟩
  | closed handle status =>
    right
    refine ⟨handle, status, rfl, ?_⟩
    simp only [Custody.step]
    split <;> simp_all
  | _ => exact .inl ⟨[], rfl⟩

/-- A handle that is live and not live at the end is closed in between, when it is the newest.  Up to
then it stays live, and so do the handles below it. -/
theorem Lawful.closed_of_live {own : UInt64} {kind : Kind} {h : HandleId}
    {below : List (Kind × HandleId)} {events : List Event} {c : Custody}
    {above : List (Kind × HandleId)} (hlaw : c.Lawful own events)
    (hc : c.live = above ++ (kind, h) :: below) (hend : (c.after own events).live = []) :
    ∃ during status rest, events = during ++ .closed h status :: rest ∧
      (∀ part, part <+: during → (kind, h) :: below <:+ (c.after own part).live) ∧
      (c.after own (during ++ [.closed h status])).live = below := by
  induction events generalizing c above with
  | nil =>
    rw [after_nil, hc] at hend
    exact absurd hend (by simp)
  | cons e events ih =>
    have hnow : (kind, h) :: below <:+ c.live := ⟨above, hc.symm⟩
    -- the handle stays live over `e`: look further on
    have hlater : ∀ above', (c.step own e).live = above' ++ (kind, h) :: below →
        ∃ during status rest, e :: events = during ++ .closed h status :: rest ∧
          (∀ part, part <+: during → (kind, h) :: below <:+ (c.after own part).live) ∧
          (c.after own (during ++ [.closed h status])).live = below := by
      intro above' hc'
      obtain ⟨during, status, rest, rfl, hpart, hclosed⟩ := ih hlaw.2 hc' hend
      refine ⟨e :: during, status, rest, rfl, ?_, hclosed⟩
      rintro (_ | ⟨first, part⟩) hp
      · exact hnow
      · obtain ⟨rfl, hrest⟩ := List.cons_prefix_cons.mp hp
        exact hpart part hrest
    rcases live_step own c e with ⟨more, hs⟩ | ⟨handle, status, rfl, hs⟩
    · exact hlater (more ++ above) (by rw [hs, hc, List.append_assoc])
    · cases above with
      | cons top above => exact hlater above (by rw [hs, hc]; rfl)
      | nil =>
        obtain ⟨⟨kind', rest', hl⟩, -⟩ := hlaw
        rw [hc] at hl
        obtain rfl : h = handle := congrArg Prod.snd (List.cons.inj hl).1
        refine ⟨[], status, events, rfl, ?_, ?_⟩
        · intro part hp
          rw [List.prefix_nil.mp hp]
          exact hnow
        · rw [List.nil_append, after_cons, after_nil, hs, hc]
          rfl

/-! ### Each handle is closed as often as it is handed out -/

/-- Whether an event hands out a handle, other than the stand-in for the caller. -/
def handsOut (h : HandleId) : Event → Bool
  | .opened _ _ status handle | .duplicated _ _ status handle =>
    status.isSuccess && given handle = h && h ≠ .ownProcess
  | _ => false

/-- Whether an event closes a handle. -/
def closes (h : HandleId) : Event → Bool
  | .closed handle _ => handle = h
  | _ => false

theorem live_of_handsOut (own : UInt64) (c : Custody) {h : HandleId} {e : Event}
    (he : handsOut h e = true) : ∃ kind, (c.step own e).live = (kind, h) :: c.live := by
  cases e with
  | opened pid access status handle =>
    obtain ⟨⟨hs, rfl⟩, hh⟩ : (status.isSuccess = true ∧ given handle = h) ∧ h ≠ .ownProcess := by
      simpa [handsOut] using he
    exact ⟨.process, by simp [Custody.step, hs, take_of_ne _ _ hh]⟩
  | duplicated source value status handle =>
    obtain ⟨⟨hs, rfl⟩, hh⟩ : (status.isSuccess = true ∧ given handle = h) ∧ h ≠ .ownProcess := by
      simpa [handsOut] using he
    exact ⟨.duplicate, by simp [Custody.step, hs, take_of_ne _ _ hh]⟩
  | _ => cases he

/-- How often a handle is live. -/
def mass (c : Custody) (h : HandleId) : Nat := c.live.countP (·.2 = h)

theorem mass_take (c : Custody) (kind : Kind) (handle h : HandleId) :
    (c.take kind handle).countP (·.2 = h) =
      c.mass h + if handle = h ∧ h ≠ .ownProcess then 1 else 0 := by
  unfold take mass
  by_cases hh : handle = .ownProcess
  · have hn : ¬ (handle = h ∧ h ≠ .ownProcess) := fun hx => hx.2 (hx.1 ▸ hh)
    rw [if_pos hh, if_neg hn]
    rfl
  · by_cases hx : handle = h
    · subst hx
      simp [hh]
    · simp [hh, hx]

theorem mass_step {own : UInt64} {c : Custody} {e : Event} (ha : c.Allows own e) (h : HandleId) :
    (c.step own e).mass h + (if closes h e then 1 else 0) =
      c.mass h + (if handsOut h e then 1 else 0) := by
  cases e with
  | opened pid access status handle =>
    cases hs : status.isSuccess with
    | false => simp [Custody.step, handsOut, closes, hs]
    | true =>
      have ht := mass_take c .process (given handle) h
      simp only [Custody.step, handsOut, closes, hs, mass] at ht ⊢
      simpa using ht
  | duplicated source value status handle =>
    cases hs : status.isSuccess with
    | false => simp [Custody.step, handsOut, closes, hs]
    | true =>
      have ht := mass_take c .duplicate (given handle) h
      simp only [Custody.step, handsOut, closes, hs, mass] at ht ⊢
      simpa using ht
  | closed handle status =>
    obtain ⟨kind, rest, hl⟩ := ha
    cases kind <;> simp [Custody.step, handsOut, closes, mass, hl, List.countP_cons]
  | _ => simp [Custody.step, handsOut, closes, mass]

/-- Along lawful events, what is handed out and not closed is what is live. -/
theorem mass_after {own : UInt64} {c : Custody} {events : List Event} (hl : c.Lawful own events)
    (h : HandleId) :
    (c.after own events).mass h + events.countP (closes h) =
      c.mass h + events.countP (handsOut h) := by
  induction events generalizing c with
  | nil => simp [after_nil]
  | cons e events ih =>
    have hstep := mass_step hl.1 h
    have hrest := ih hl.2
    rw [after_cons, List.countP_cons, List.countP_cons]
    omega

end Custody

/-! ## Accounts -/

/-- The events of a search that accounts for every handle. -/
structure Accounted (own : UInt64) (events : List Event) : Prop where
  /-- Every event may happen when it does. -/
  allowed : ∀ before e rest, events = before ++ e :: rest →
    (({} : Custody).after own before).Allows own e
  /-- At any moment at most one process and one duplicate are live. -/
  sound : ∀ before, before <+: events → Custody.Sound own (({} : Custody).after own before)
  /-- What is handed out is closed later, as the newest handle, and is live until then. -/
  closed : ∀ before e rest h, events = before ++ e :: rest → Custody.handsOut h e = true →
    ∃ kind during status after, rest = during ++ .closed h status :: after ∧
      (∀ part, part <+: during →
        (kind, h) :: (({} : Custody).after own before).live <:+
          (({} : Custody).after own (before ++ e :: part)).live) ∧
      (({} : Custody).after own (before ++ e :: (during ++ [.closed h status]))).live =
        (({} : Custody).after own before).live
  /-- No handle is closed more often or less often than it is handed out. -/
  once : ∀ h, events.countP (Custody.closes h) = events.countP (Custody.handsOut h)
  /-- The stand-in for the caller is never closed. -/
  neverOwn : ∀ status, .closed .ownProcess status ∉ events
  /-- Nothing is live at the end. -/
  settled : (({} : Custody).after own events).live = []

namespace Custody

theorem accounted_of_lawful {own : UInt64} {events : List Event}
    (hlaw : ({} : Custody).Lawful own events) (hend : (({} : Custody).after own events).live = []) :
    Accounted own events where
  allowed := by
    rintro before e rest rfl
    exact hlaw.allows
  sound := by
    rintro before ⟨rest, rfl⟩
    exact (sound_start own).after ((lawful_append own _ before rest).mp hlaw).1
  closed := by
    rintro before e rest h rfl hout
    obtain ⟨kind, hlive⟩ := live_of_handsOut own (({} : Custody).after own before) hout
    obtain ⟨-, -, hlater⟩ := (lawful_append own _ before (e :: rest)).mp hlaw
    rw [after_append, after_cons] at hend
    obtain ⟨during, status, after, hrest, hpart, hclosed⟩ :=
      hlater.closed_of_live (by rw [hlive, List.nil_append]) hend
    refine ⟨kind, during, status, after, hrest, ?_, ?_⟩
    · intro part hp
      rw [after_append, after_cons]
      exact hpart part hp
    · rw [after_append, after_cons]
      exact hclosed
  once := by
    intro h
    have hmass := mass_after hlaw h
    simp only [mass, hend, List.countP_nil] at hmass
    omega
  neverOwn := by
    intro status hmem
    obtain ⟨before, rest, rfl⟩ := List.append_of_mem hmem
    have hsound := (sound_start own).after ((lawful_append own _ before _).mp hlaw).1
    obtain ⟨kind, below, hl⟩ := hlaw.allows
    cases hsound with
    | clear hl' _ _ => simp [hl'] at hl
    | entered _ _ hl' _ _ hh _ =>
      exact hh (congrArg Prod.snd (List.cons.inj (hl'.symm.trans hl)).1)
    | holding _ _ _ hl' _ _ _ _ hd =>
      exact hd (congrArg Prod.snd (List.cons.inj (hl'.symm.trans hl)).1)
  settled := hend

end Custody

end FileHolders
