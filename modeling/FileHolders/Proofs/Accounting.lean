import FileHolders.Proofs.Course
import FileHolders.Proofs.Custody

/-!
# A search accounts for every handle

The rules of the course of a search are followed with the custody of the handles.  Looking at a
handle leaves the custody as it is, a handle that is let go is the newest one, and between two
records only the process at hand is live.

    Tracks s.host.ownPid c p.owner → s.Steps r p es next →
      c.Lawful s.host.ownPid es ∧ Tracks s.host.ownPid (c.after _ es) next.owner  (lawful_of_steps)
    Accounted s.host.ownPid (eventsOf s.run x)                             (handles_accounted_for)
-/

namespace FileHolders

namespace Custody

/-! ## Events that move no handle -/

/-- Whether an event neither moves nor uses a handle. -/
def isQuiet : Event → Bool
  | .table _ _ _ | .heapCreated _ | .allocated _ _ | .released _ _ | .heapDestroyed _ => true
  | .named _ _ | .line _ | .holder _ => true
  | _ => false

theorem isQuiet_of_isHeap {e : Event} (h : e.isHeap = true) : isQuiet e = true := by
  cases e <;> simp_all [Event.isHeap, isQuiet]

theorem isQuiet_of_isTable {e : Event} (h : e.isTable = true) : isQuiet e = true := by
  cases e <;> simp_all [Event.isTable, isQuiet]

theorem step_of_isQuiet (own : UInt64) (c : Custody) {e : Event} (h : isQuiet e = true) :
    c.step own e = c := by
  cases e <;> simp_all [isQuiet, Custody.step]

theorem allows_of_isQuiet (own : UInt64) (c : Custody) {e : Event} (h : isQuiet e = true) :
    c.Allows own e := by
  cases e <;> simp_all [isQuiet, Allows]

/-- Events that are lawful in a custody and leave it as it is. -/
def Idle (own : UInt64) (c : Custody) (events : List Event) : Prop :=
  c.Lawful own events ∧ c.after own events = c

theorem Idle.append {own : UInt64} {c : Custody} {events more : List Event}
    (h : c.Idle own events) (hm : c.Idle own more) : c.Idle own (events ++ more) := by
  constructor
  · rw [lawful_append, h.2]
    exact ⟨h.1, hm.1⟩
  · rw [after_append, h.2, hm.2]

theorem idle_of_forall {own : UInt64} {c : Custody} {events : List Event}
    (h : ∀ e ∈ events, c.Allows own e ∧ c.step own e = c) : c.Idle own events := by
  refine ⟨?_, after_eq_self fun e he => (h e he).2⟩
  induction events with
  | nil => exact lawful_nil own c
  | cons e events ih =>
    obtain ⟨ha, hs⟩ := h e List.mem_cons_self
    rw [lawful_cons, hs]
    exact ⟨ha, ih fun e' he' => h e' (List.mem_cons_of_mem e he')⟩

theorem idle_of_isQuiet {own : UInt64} {c : Custody} {events : List Event}
    (h : ∀ e ∈ events, isQuiet e = true) : c.Idle own events :=
  idle_of_forall fun e he => ⟨allows_of_isQuiet own c (h e he), step_of_isQuiet own c (h e he)⟩

theorem idle_of_isHeap {own : UInt64} {c : Custody} {events : List Event}
    (h : ∀ e ∈ events, e.isHeap = true) : c.Idle own events :=
  idle_of_isQuiet fun e he => isQuiet_of_isHeap (h e he)

theorem idle_of_reading {own : UInt64} {c : Custody} {events : List Event}
    (h : Table.Reading events) : c.Idle own events :=
  idle_of_isQuiet fun e he => (h e he).elim isQuiet_of_isHeap isQuiet_of_isTable

/-! ## The custody along a search -/

/-- Asking for a name only looks at the handle that is asked about. -/
theorem idle_of_asks {σ : Type} {host : Host σ} {own : UInt64} {c : Custody} {handle : HandleId}
    {events : List Event} {answer : Except Fault Name} (h : Name.Asks host handle events answer)
    (hc : c.Lends handle) : c.Idle own events := by
  have hconcerns : ∀ e, Name.Concerns handle e → c.Allows own e ∧ c.step own e = c := by
    rintro e (he | ⟨size, status, rfl⟩)
    · have hq := isQuiet_of_isHeap he
      exact ⟨allows_of_isQuiet own c hq, step_of_isQuiet own c hq⟩
    · exact ⟨hc, rfl⟩
  cases h with
  | @read asking size status name _ _ ha =>
    apply Idle.append
    · exact idle_of_forall fun e he => hconcerns e (ha e he)
    · exact ⟨⟨hc, trivial, trivial⟩, rfl⟩
  | failed _ _ ha => exact idle_of_forall fun e he => hconcerns e (ha e he)
  | missing _ => exact ⟨trivial, rfl⟩

section

variable {σ : Type} {s : Search σ} {own : UInt64} {c : Custody}

theorem idle_of_sends {p next : Progress} {text : String} {events : List Event}
    (h : Search.Sends p text events next) : c.Idle own events := by
  cases h with
  | repeated _ => exact ⟨trivial, rfl⟩
  | sent _ => exact ⟨⟨trivial, trivial⟩, rfl⟩

theorem idle_of_heads {p next : Progress} {events : List Event}
    (h : Search.Heads s p events next) : c.Idle own events := by
  cases h with
  | done _ => exact ⟨trivial, rfl⟩
  | first _ hs => exact idle_of_sends hs

theorem idle_of_reports {process : Held} {r : Record} {p next : Progress} {events : List Event}
    (h : Search.Reports s process r p events next) (hc : c.Stands process.id) :
    c.Idle own events := by
  cases h with
  | known hh _ => exact idle_of_heads hh
  | @found _ lines _ _ path hh _ hs =>
    have hholder : c.Idle own [.holder ⟨r.pid, path, r.handleValue, r.grantedAccess⟩] :=
      ⟨⟨trivial, trivial⟩, rfl⟩
    have himage : c.Idle own [.image process.id path] := ⟨⟨hc, trivial⟩, rfl⟩
    exact (idle_of_heads hh).append (himage.append ((idle_of_sends hs).append hholder))

theorem idle_of_examines {process handle : Held} {r : Record} {p next : Progress}
    {events : List Event} (h : Search.Examines s process handle r p events next)
    (hl : c.Lends handle.id) (hs : c.Stands process.id) : c.Idle own events := by
  have hkind : ∀ kind, c.Idle own [.classified handle.id kind] :=
    fun _ => ⟨⟨hl, trivial⟩, rfl⟩
  cases h with
  | passed kind _ => exact hkind kind
  | unnamed ha => exact (hkind .disk).append (idle_of_asks ha hl)
  | uncovered ha _ => exact (hkind .disk).append (idle_of_asks ha hl)
  | covered ha _ hr =>
    exact (hkind .disk).append ((idle_of_asks ha hl).append (idle_of_reports hr hs))

/-! ### Handing out and closing -/

/-- What a handle in hand adds to the live handles. -/
def share (kind : Kind) (h : Held) : List (Kind × HandleId) :=
  if h.owned then [(kind, h.id)] else []

theorem share_acquired (kind : Kind) (id : HandleId) (c : Custody) :
    c.take kind id = share kind (.acquired id) ++ c.live := by
  by_cases h : id = .ownProcess
  · simp [take, share, Held.acquired, h]
  · simp [take, share, Held.acquired, h]

/-- Letting a handle go closes it exactly if it is live. -/
theorem lawful_of_releases (own : UInt64) {h : Held} {events : List Event}
    (hr : h.Releases events) (kind : Kind) {rest : List (Kind × HandleId)}
    (hc : c.live = share kind h ++ rest) :
    c.Lawful own events ∧ (c.after own events).live = rest ∧
      (c.after own events).record = c.record ∧
      (kind = .duplicate → (c.after own events).process = c.process) := by
  cases hr with
  | closed status ho =>
    have hl : c.live = (kind, h.id) :: rest := by simpa [share, ho] using hc
    refine ⟨⟨⟨kind, rest, hl⟩, trivial⟩, ?_⟩
    rw [after_cons, after_nil]
    cases kind with
    | process => simp [Custody.step, hl]
    | duplicate => simp [Custody.step, hl]
  | borrowed ho =>
    have hl : c.live = rest := by simpa [share, ho] using hc
    exact ⟨trivial, hl, rfl, fun _ => rfl⟩

/-- Inspecting a handle leaves the live handles and the process at hand as they were. -/
theorem lawful_of_inspects (own : UInt64) {process : Held} {r : Record} {p next : Progress}
    {events : List Event}
    (h : Search.Inspects s process r p events next) (hr : c.record = some r)
    (hp : c.process = some (r.pid, process.id)) (hl : c.live = share .process process)
    (hown : process.isOwnProcess = false → r.pid ≠ own ∧ process.owned = true) :
    c.Lawful own events ∧ (c.after own events).live = c.live ∧
      (c.after own events).record = c.record ∧ (c.after own events).process = c.process := by
  have hs : c.Stands process.id := ⟨r, hr, hp⟩
  -- what may happen to the duplicate, once it is in hand
  have hbrought : ∀ {d : Custody} {handle : Held} {q : Progress} {examining closing : List Event},
      d.live = share .duplicate handle ++ c.live → d.record = c.record → d.process = c.process →
      d.Lends handle.id → Search.Examines s process handle r q examining next →
      handle.Releases closing →
      d.Lawful own (examining ++ closing) ∧ (d.after own (examining ++ closing)).live = c.live ∧
        (d.after own (examining ++ closing)).record = c.record ∧
        (d.after own (examining ++ closing)).process = c.process := by
    intro d handle q examining closing hlive hrec hproc hlends he hc
    obtain ⟨hlaw, hsame⟩ : d.Idle own examining :=
      idle_of_examines he hlends ⟨r, hrec ▸ hr, hproc ▸ hp⟩
    obtain ⟨hlaw', hlive', hrec', hproc'⟩ := lawful_of_releases own hc .duplicate hlive
    rw [lawful_append, after_append, hsame]
    exact ⟨⟨hlaw, hlaw'⟩, hlive', hrec'.trans hrec, (hproc' rfl).trans hproc⟩
  have hallowed : process.isOwnProcess = false → ∀ status handle,
      c.Allows own (.duplicated process.id r.handleValue status handle) := by
    intro hn status handle
    obtain ⟨hpid, howned⟩ := hown hn
    exact ⟨hs, by simpa [share, howned] using hl, r, hr, hpid, rfl⟩
  cases h with
  | failed hd =>
    cases hd with
    | refused status handle hn _ hf =>
      refine ⟨⟨hallowed hn status handle, trivial⟩, ?_⟩
      simp [after_cons, after_nil, Custody.step, hf]
    | missing _ _ => exact ⟨trivial, rfl, rfl, rfl⟩
  | examined hd he hc =>
    cases hd with
    | own ho =>
      have hid : process.id = .ownProcess := by simpa [Held.isOwnProcess] using ho
      rw [List.nil_append]
      exact hbrought rfl rfl rfl (.inr ⟨r, hr, hid ▸ hp, rfl⟩) he hc
    | brought status handle hn _ hok =>
      rw [List.cons_append, List.nil_append, lawful_cons, after_cons, and_assoc]
      refine ⟨hallowed hn status handle, ?_⟩
      simp only [Custody.step, hok, if_true]
      exact hbrought (share_acquired .duplicate _ c) rfl rfl (.inl rfl) he hc

/-! ### Owners -/

/-- The live handles of an owner at hand. -/
def ownerShare : Owner → List (Kind × HandleId)
  | .opened _ process => share .process process
  | _ => []

theorem duplicate_notMem_ownerShare (owner : Owner) (d : HandleId) :
    (Kind.duplicate, d) ∉ ownerShare owner := by
  cases owner with
  | opened pid process =>
    unfold ownerShare share
    split <;> simp
  | _ => simp [ownerShare]

/-- The custody agrees with the owner that the search has at hand: only its process is live, and a
process other than the stand-in for the caller was handed out for another process. -/
structure Tracks (own : UInt64) (c : Custody) (owner : Owner) : Prop where
  live : c.live = ownerShare owner
  process : ∀ pid process, owner = .opened pid process → c.process = some (pid, process.id) ∧
    (process.isOwnProcess = false → pid ≠ own ∧ process.owned = true)

theorem tracks_of_live {own : UInt64} {c : Custody} {owner : Owner} (hl : c.live = [])
    (ho : owner.process? = none) : Tracks own c owner := by
  cases owner with
  | none => exact ⟨hl, by simp⟩
  | opened pid process => cases ho
  | outOfReach pid => exact ⟨hl, by simp⟩

theorem lawful_of_letsGo {owner : Owner} {events : List Event} (h : owner.LetsGo events)
    (ht : Tracks own c owner) :
    c.Lawful own events ∧ (c.after own events).live = [] ∧
      (c.after own events).record = c.record := by
  cases h with
  | @opened pid process _ hr =>
    have hl : c.live = share .process process ++ [] := by simpa [ownerShare] using ht.live
    obtain ⟨hlaw, hlive, hrec, -⟩ := lawful_of_releases own hr .process hl
    exact ⟨hlaw, hlive, hrec⟩
  | other ho =>
    refine ⟨trivial, ?_, rfl⟩
    rw [after_nil, ht.live]
    cases owner with
    | none => rfl
    | opened pid process => cases ho
    | outOfReach pid => rfl

/-- Opening a process for the record at hand. -/
theorem lawful_of_opens {host : Host σ} {r : Record} {access : UInt32} {events : List Event}
    {answer : Except Fault Held} (h : Held.Opens host r.pid access events answer)
    (hl : c.live = []) (hr : c.record = some r)
    (ho : r.pid = host.ownPid → c.process = some (r.pid, .ownProcess)) :
    c.Lawful host.ownPid events ∧ (c.after host.ownPid events).record = some r ∧
      (∀ process, answer = .ok process →
        Tracks host.ownPid (c.after host.ownPid events) (.opened r.pid process)) ∧
      (∀ fault, answer = .error fault → (c.after host.ownPid events).live = []) := by
  have hallowed : r.pid ≠ host.ownPid → ∀ status handle,
      c.Allows host.ownPid (.opened r.pid access status handle) :=
    fun hp _ _ => ⟨hp, hl, r, hr, rfl⟩
  cases h with
  | own hp =>
    refine ⟨trivial, hr, ?_, by simp⟩
    rintro process ⟨⟩
    refine ⟨by rw [after_nil, hl]; rfl, ?_⟩
    rintro pid process ⟨⟩
    exact ⟨ho hp, fun hn => absurd hn (by decide)⟩
  | opened status handle hp _ hs =>
    refine ⟨⟨hallowed hp status handle, trivial⟩, ?_⟩
    rw [after_cons, after_nil]
    simp only [Custody.step, hs, if_true]
    refine ⟨hr, ?_, by simp⟩
    rintro process ⟨⟩
    refine ⟨by simp [share_acquired, ownerShare, hl, given], ?_⟩
    rintro pid process ⟨⟩
    refine ⟨rfl, fun hn => ⟨hp, ?_⟩⟩
    simpa [Held.acquired, Held.isOwnProcess] using hn
  | refused status handle hp _ hs =>
    refine ⟨⟨hallowed hp status handle, trivial⟩, ?_⟩
    rw [after_cons, after_nil]
    simp only [Custody.step, hs]
    exact ⟨hr, by simp, fun _ _ => hl⟩
  | missing _ _ => exact ⟨trivial, hr, by simp, fun _ _ => hl⟩

theorem lawful_of_takesOver {r : Record} {p next : Progress} {events : List Event}
    (h : Search.TakesOver s r.pid p events next) (hl : c.live = []) (hr : c.record = some r)
    (ho : r.pid = s.host.ownPid → c.process = some (r.pid, .ownProcess)) :
    c.Lawful s.host.ownPid events ∧ (c.after s.host.ownPid events).record = some r ∧
      Tracks s.host.ownPid (c.after s.host.ownPid events) next.owner ∧
      next.owner.pid? = some r.pid := by
  cases h with
  | remembered _ => exact ⟨trivial, hr, tracks_of_live hl rfl, rfl⟩
  | opened _ hopens =>
    obtain ⟨hlaw, hrec, hok, -⟩ := lawful_of_opens hopens hl hr ho
    exact ⟨hlaw, hrec, hok _ rfl, rfl⟩
  | refused _ hopens =>
    obtain ⟨hlaw, hrec, -, herr⟩ := lawful_of_opens hopens hl hr ho
    exact ⟨hlaw, hrec, tracks_of_live (herr _ rfl) rfl, rfl⟩

/-- Turning to the owner of the record at hand. -/
theorem lawful_of_turns {r : Record} {p next : Progress} {events : List Event}
    (h : Search.Turns s r.pid p events next) (ht : Tracks s.host.ownPid c p.owner)
    (hr : c.record = some r) :
    c.Lawful s.host.ownPid events ∧ (c.after s.host.ownPid events).record = some r ∧
      Tracks s.host.ownPid (c.after s.host.ownPid events) next.owner ∧
      (next.cancelled = false → next.owner.pid? = some r.pid) := by
  cases h with
  | stays hstart => exact ⟨trivial, hr, ht, fun _ => by simpa [Owner.startsRun] using hstart⟩
  | cancelled _ hgo _ =>
    obtain ⟨hlaw, hlive, hrec⟩ := lawful_of_letsGo hgo ht
    rw [lawful_append, after_append]
    exact ⟨⟨hlaw, hlive, trivial⟩, hrec.trans hr, tracks_of_live hlive rfl, by simp⟩
  | @goesOn closing opening next _ hgo _ htake =>
    obtain ⟨hlaw, hlive, hrec⟩ := lawful_of_letsGo hgo ht
    rw [lawful_append, after_append, lawful_cons, after_cons]
    have hpolled : ((c.after s.host.ownPid closing).step s.host.ownPid (.polled false)).record =
        some r := hrec.trans hr
    obtain ⟨hlaw', hrec', htracks, hpid⟩ := lawful_of_takesOver htake
      (c := (c.after s.host.ownPid closing).step s.host.ownPid (.polled false)) hlive hpolled
      (by intro hown; simp [Custody.step, hrec.trans hr, hown])
    exact ⟨⟨hlaw, hlive, hlaw'⟩, hrec', htracks, fun _ => hpid⟩

theorem lawful_of_attends {r : Record} {p next : Progress} {events : List Event}
    (h : Search.Attends s r p events next) (ht : Tracks own c p.owner) (hr : c.record = some r)
    (hpid : p.owner.pid? = some r.pid) :
    c.Lawful own events ∧ Tracks own (c.after own events) next.owner := by
  cases h with
  | unreached _ => exact ⟨trivial, ht⟩
  | ignored _ _ => exact ⟨trivial, ht⟩
  | @inspected process _ _ ho _ hi =>
    obtain ⟨pid, howner⟩ := Owner.opened_of_process? ho
    obtain rfl : pid = r.pid := by simpa [howner, Owner.pid?] using hpid
    obtain ⟨hproc, hproper⟩ := ht.process _ _ howner
    have hlive : c.live = share .process process := by rw [ht.live, howner]; rfl
    obtain ⟨hlaw, hlive', -, hproc'⟩ := lawful_of_inspects own hi hr hproc hlive hproper
    rw [hi.sameStand.owner]
    refine ⟨hlaw, hlive'.trans ht.live, ?_⟩
    intro pid held he
    exact ⟨hproc'.trans (ht.process pid held he).1, (ht.process pid held he).2⟩

/-- Taking a record is lawful, and the custody still agrees with the owner at hand. -/
theorem lawful_of_steps {r : Record} {p next : Progress} {events : List Event}
    (h : Search.Steps s r p events next) (ht : Tracks s.host.ownPid c p.owner) :
    c.Lawful s.host.ownPid events ∧
      Tracks s.host.ownPid (c.after s.host.ownPid events) next.owner := by
  have hbefore : ∀ d, (Kind.duplicate, d) ∉ c.live := by
    rw [ht.live]
    exact duplicate_notMem_ownerShare p.owner
  have hbegun : Tracks s.host.ownPid
      (c.step s.host.ownPid (.record r.pid r.handleValue r.grantedAccess)) p.owner :=
    ⟨ht.live, ht.process⟩
  cases h with
  | stopped hturn _ =>
    obtain ⟨hlaw, -, htracks, -⟩ := lawful_of_turns hturn hbegun rfl
    exact ⟨⟨hbefore, hlaw⟩, htracks⟩
  | attended hturn hc hattend =>
    obtain ⟨hlaw, hrec, htracks, hpid⟩ := lawful_of_turns hturn hbegun rfl
    obtain ⟨hlaw', htracks'⟩ := lawful_of_attends hattend htracks hrec (hpid hc)
    rw [lawful_cons, after_cons, lawful_append, after_append]
    exact ⟨⟨hbefore, hlaw, hlaw'⟩, htracks'⟩

theorem lawful_of_walks {records : List Record} {p next : Progress} {events : List Event}
    (h : Search.Walks s records p events next) (ht : Tracks s.host.ownPid c p.owner) :
    c.Lawful s.host.ownPid events ∧
      Tracks s.host.ownPid (c.after s.host.ownPid events) next.owner := by
  induction h generalizing c with
  | done p => exact ⟨trivial, ht⟩
  | stopped h _ => exact lawful_of_steps h ht
  | goesOn h _ _ ih =>
    obtain ⟨hlaw, htracks⟩ := lawful_of_steps h ht
    obtain ⟨hlaw', htracks'⟩ := ih htracks
    rw [lawful_append, after_append]
    exact ⟨⟨hlaw, hlaw'⟩, htracks'⟩

/-- Going through the table closes whatever it handed out. -/
theorem lawful_of_goesThrough {records : List Record} {p next : Progress} {events : List Event}
    (h : Search.GoesThrough s records p events next) (hl : c.live = [])
    (ho : p.owner.process? = none) :
    c.Lawful s.host.ownPid events ∧ (c.after s.host.ownPid events).live = [] := by
  cases h with
  | noBuffer hh hs =>
    obtain ⟨hlaw, hsame⟩ : c.Idle s.host.ownPid _ := (idle_of_isHeap hh).append (idle_of_sends hs)
    exact ⟨hlaw, by rw [hsame, hl]⟩
  | @walked taking walking closing giving next htake hw hgo hgive =>
    obtain ⟨htlaw, htsame⟩ : c.Idle s.host.ownPid taking := idle_of_isHeap htake
    obtain ⟨hwlaw, hwtracks⟩ := lawful_of_walks hw (tracks_of_live hl ho)
    obtain ⟨hglaw, hglive, -⟩ := lawful_of_letsGo hgo hwtracks
    simp only [lawful_append, after_append, htsame]
    obtain ⟨hflaw, hfsame⟩ := idle_of_isHeap hgive
      (c := (c.after s.host.ownPid walking).after s.host.ownPid closing)
    exact ⟨⟨htlaw, hwlaw, hglaw, hflaw⟩, by rw [hfsame, hglive]⟩

theorem lawful_of_surveys {records : List Record} {p next : Progress} {events : List Event}
    (h : Search.Surveys s records p events next) (hl : c.live = [])
    (ho : p.owner.process? = none) :
    c.Lawful s.host.ownPid events ∧ (c.after s.host.ownPid events).live = [] := by
  cases h with
  | unreadable fault hr hs =>
    obtain ⟨hlaw, hsame⟩ : c.Idle s.host.ownPid _ := (idle_of_reading hr).append (idle_of_sends hs)
    exact ⟨hlaw, by rw [hsame, hl]⟩
  | @read reading going giving next hr hg hf =>
    obtain ⟨hrlaw, hrsame⟩ : c.Idle s.host.ownPid reading := idle_of_reading hr
    obtain ⟨hglaw, hglive⟩ := lawful_of_goesThrough hg hl ho
    obtain ⟨hflaw, hfsame⟩ := idle_of_isHeap hf (c := c.after s.host.ownPid going)
    simp only [lawful_append, after_append, hrsame]
    exact ⟨⟨hrlaw, hglaw, hflaw⟩, by rw [hfsame, hglive]⟩

theorem lawful_of_prepares {records : List Record} {p : Progress} {events : List Event}
    (h : Search.Prepares s records events p) (hl : c.live = []) :
    c.Lawful s.host.ownPid events ∧ (c.after s.host.ownPid events).live = [] := by
  cases h with
  | empty _ => exact ⟨trivial, hl⟩
  | noArena fault _ hh hs =>
    obtain ⟨hlaw, hsame⟩ : c.Idle s.host.ownPid _ := (idle_of_isHeap hh).append (idle_of_sends hs)
    exact ⟨hlaw, by rw [hsame, hl]⟩
  | @surveyed creating surveying giving _ _ hh hs hg =>
    obtain ⟨hclaw, hcsame⟩ : c.Idle s.host.ownPid creating := idle_of_isHeap hh
    obtain ⟨hslaw, hslive⟩ := lawful_of_surveys hs hl rfl
    obtain ⟨hglaw, hgsame⟩ := idle_of_isHeap hg (c := c.after s.host.ownPid surveying)
    simp only [lawful_append, after_append, hcsame]
    exact ⟨⟨hclaw, hslaw, hglaw⟩, by rw [hgsame, hslive]⟩

/-- A run is lawful from a moment at which nothing is live, and nothing is live after it. -/
theorem lawful_of_runs {records : List Record} {outcome : Outcome} {events : List Event}
    (h : Search.Runs s records events outcome) (hl : c.live = []) :
    c.Lawful s.host.ownPid events ∧ (c.after s.host.ownPid events).live = [] := by
  cases h with
  | @ended preparing closing p next hp hs =>
    obtain ⟨hplaw, hplive⟩ := lawful_of_prepares hp hl
    obtain ⟨hclaw, hcsame⟩ : (c.after s.host.ownPid preparing).Idle s.host.ownPid closing :=
      idle_of_sends hs
    rw [lawful_append, after_append, hcsame]
    exact ⟨⟨hplaw, hclaw⟩, hplive⟩

end

end Custody

/-! ## The whole search -/

/-- A search accounts for every handle, whatever the host answers and wherever it is cancelled. -/
theorem Search.handles_accounted_for {σ : Type} (s : Search σ) (x : Session σ) :
    Accounted s.host.ownPid (Action.eventsOf s.run x) := by
  have hstart : ({} : Custody).live = [] := rfl
  obtain ⟨hlaw, hend⟩ := Custody.lawful_of_runs (s.emits_run x).eventsOf hstart
  exact Custody.accounted_of_lawful hlaw hend

end FileHolders
