import FileHolders.Name.Reading
import FileHolders.Proofs.Emission
import FileHolders.Table.Reading

/-!
# What readings leave in the journal

The arena only leaves events of the heap.  Reading the handle table leaves table queries between
them, and asking for a name leaves name queries about one handle.  A name that was read comes right
after a query that succeeded.

    Emits (Arena.allocate heap size) x fun es _ => ∀ e ∈ es, e.isHeap          (Arena.emits_allocate)
    Emits (Table.read h settings) x fun es _ => Table.Reading es               (Table.emits_read)
    Emits (Name.ask h settings handle b) x fun es a => Name.Asks h handle es a.2      (Name.emits_ask)
-/

namespace FileHolders

open FileHolders.Action

variable {σ : Type}

/-! ## Events of the heap and of the table -/

/-- Whether an event tells of the heap. -/
def Event.isHeap : Event → Bool
  | .heapCreated _ | .allocated _ _ | .released _ _ | .heapDestroyed _ => true
  | _ => false

/-- Whether an event is a query for the handle table. -/
def Event.isTable : Event → Bool
  | .table _ _ _ => true
  | _ => false

/-- There is a moment at which an entry point is there. -/
def Host.Offers (h : Host σ) (c : Capability) : Prop := ∃ x, h.has x c = true

/-- There is a moment at which an entry point is missing. -/
def Host.Lacks (h : Host σ) (c : Capability) : Prop := ∃ x, h.has x c = false

/-- An action that first asks whether an entry point is there. -/
theorem Host.emits_has_bind {α : Type} {h : Host σ} {c : Capability} {f : Bool → Action σ α}
    {x : Session σ} {post : List Event → α → Prop} (hf : Emits (f (h.has x.host c)) x post) :
    Emits (h.provides c >>= f) x post := hf

/-- The same where only what is so at some moment counts. -/
theorem Host.emits_provides_bind {α : Type} {h : Host σ} {c : Capability} {f : Bool → Action σ α}
    {x : Session σ} {post : List Event → α → Prop} (ht : h.Offers c → Emits (f true) x post)
    (hf : h.Lacks c → Emits (f false) x post) : Emits (h.provides c >>= f) x post := by
  refine emits_has_bind ?_
  cases hc : h.has x.host c with
  | true => exact ht ⟨x.host, hc⟩
  | false => exact hf ⟨x.host, hc⟩

namespace Arena

theorem emits_create (heap : Heap σ) (limit : Option UInt64) (x : Session σ) :
    Emits (create heap limit) x fun events _ => ∀ e ∈ events, e.isHeap = true := by
  unfold create
  refine emits_journaled_bind ?_
  rintro (fault | _) t
  · exact emits_pure (by simp [Event.isHeap])
  · refine emits_say_bind fun t => emits_modifyArena_bind fun t => emits_pure ?_
    simp [Event.isHeap]

theorem emits_allocate (heap : Heap σ) (size : UInt64) (x : Session σ) :
    Emits (allocate heap size) x fun events _ => ∀ e ∈ events, e.isHeap = true := by
  unfold allocate
  apply emits_get_bind
  dsimp only
  split
  · exact emits_say_bind fun t => emits_pure (by simp)
  · split
    · exact emits_pure (by simp)
    · refine emits_journaled_bind ?_
      rintro (_ | place) t
      · exact emits_pure (by simp [Event.isHeap])
      · exact emits_modifyArena_bind fun t => emits_pure (by simp [Event.isHeap])

theorem emits_free (heap : Heap σ) (b : Block) (x : Session σ) :
    Emits (free heap b) x fun events _ => ∀ e ∈ events, e.isHeap = true := by
  unfold free
  apply emits_get_bind
  dsimp only
  unfold onlyIf
  split
  · refine emits_journaled_bind fun _ t => emits_modifyArena ?_
    simp [Event.isHeap]
  · exact Emits.silent_bind (emits_pure rfl) fun _ t => emits_modifyArena (by simp)

theorem emits_close (heap : Heap σ) (x : Session σ) :
    Emits (close heap) x fun events _ => ∀ e ∈ events, e.isHeap = true := by
  unfold close
  apply emits_get_bind
  dsimp only
  refine Emits.silent_bind (emits_onlyIf (fun _ => emits_say rfl) fun _ => rfl) ?_
  intro _ t
  split
  · exact emits_pure (by simp)
  · refine emits_journaled_bind fun destroyed t => ?_
    split
    · exact emits_modifyArena_bind fun t => emits_pure (by simp [Event.isHeap])
    · exact emits_pure (by simp [Event.isHeap])

theorem emits_warnIfUnreleased (answer : Except ArenaFault Unit) (x : Session σ) :
    Emits (warnIfUnreleased answer) x fun events _ => events = [] := by
  cases answer with
  | ok _ => exact emits_pure rfl
  | error fault => exact emits_say rfl

theorem emits_destroy (heap : Heap σ) (x : Session σ) :
    Emits (destroy heap) x fun events _ => ∀ e ∈ events, e.isHeap = true := by
  unfold destroy
  refine (emits_close heap x).bind fun first answer t _ hf => ?_
  refine (emits_close heap t).bind fun second answer' u _ hs => ?_
  refine Emits.silent_bind (emits_warnIfUnreleased answer' u) fun _ v => emits_pure ?_
  simp only [List.append_nil]
  exact List.forall_mem_append.mpr ⟨hf, hs⟩

end Arena

/-- What is read off other events than those of the heap is not there. -/
theorem filterMap_eq_nil_of_isHeap {α : Type} {f : Event → Option α} {events : List Event}
    (hf : ∀ e : Event, e.isHeap = true → f e = none) (h : ∀ e ∈ events, e.isHeap = true) :
    events.filterMap f = [] :=
  List.filterMap_eq_nil_iff.mpr fun e he => hf e (h e he)

/-! ## The table -/

namespace Table

/-- Events of reading the table. -/
def Reading (events : List Event) : Prop := ∀ e ∈ events, e.isHeap = true ∨ e.isTable = true

theorem reading_of_isHeap {events : List Event} (h : ∀ e ∈ events, e.isHeap = true) :
    Reading events := fun e he => Or.inl (h e he)

theorem Reading.append {events more : List Event} (h : Reading events) (hm : Reading more) :
    Reading (events ++ more) := List.forall_mem_append.mpr ⟨h, hm⟩

theorem emits_fill (h : Host σ) (settings : Settings) (block : Block) (x : Session σ) :
    Emits (fill h settings block) x fun events _ => Reading events := by
  induction block using fill.induct generalizing x with
  | case1 block ih =>
    rw [fill]
    refine emits_journaled_bind fun reply t => ?_
    have hquery : Reading [.table infoClass block.size reply.status] := by
      simp [Reading, Event.isTable]
    split
    · exact emits_pure hquery
    · refine (Arena.emits_free h.heap block t).bind fun freed _ u _ hf => ?_
      have hfreed := hquery.append (reading_of_isHeap hf)
      split
      · exact emits_say_bind fun v => emits_pure (by simpa using hfreed)
      · refine emits_say_bind fun v => ?_
        refine (Arena.emits_allocate h.heap _ v).bind ?_
        rintro allocated (_ | larger) w - ha
        · exact emits_pure (by simpa using hfreed.append (reading_of_isHeap ha))
        · refine (ih larger.1 larger.2 w).mono fun more _ hm => ?_
          simpa using (hfreed.append (reading_of_isHeap ha)).append hm
    · refine (Arena.emits_free h.heap block t).bind fun freed _ u _ hf => ?_
      exact emits_pure (by simpa using hquery.append (reading_of_isHeap hf))

theorem emits_remember (size ceiling : UInt64) (x : Session σ) :
    Emits (remember size ceiling) x fun events _ => events = [] :=
  ⟨[], (List.append_nil _).symm, rfl⟩

theorem emits_read (h : Host σ) (settings : Settings) (x : Session σ) :
    Emits (read h settings) x fun events _ => Reading events := by
  unfold read
  refine Host.emits_provides_bind (fun _ => ?_) (fun _ => emits_pure (by simp [Reading]))
  apply emits_get_bind
  dsimp only
  refine (Arena.emits_allocate h.heap _ x).bind ?_
  rintro allocated (_ | block) t - ha
  · exact emits_pure (by simpa using reading_of_isHeap ha)
  · refine (emits_fill h settings block.1 t).bind ?_
    rintro filling (fault | filled) u - hf
    · exact emits_pure (by simpa using (reading_of_isHeap ha).append hf)
    · refine Emits.silent_bind (emits_remember _ _ u) fun _ v => emits_say_bind fun w => ?_
      exact emits_pure (by simpa using (reading_of_isHeap ha).append hf)

end Table

/-! ## Names -/

namespace Name

/-- Whether an event belongs to asking for the name of a handle. -/
def Concerns (handle : HandleId) (e : Event) : Prop :=
  e.isHeap = true ∨ ∃ size status, e = .object handle infoClass size status

/-- What a series of name queries leaves behind.  If it ends with a status, that is the status of
its last query. -/
inductive Queries (handle : HandleId) : List Event → Except Fault Status → Prop
  | answered {events : List Event} (size : UInt64) (status : Status)
      (h : ∀ e ∈ events, Concerns handle e) :
      Queries handle (events ++ [.object handle infoClass size status]) (.ok status)
  | refused {events : List Event} (fault : Fault) (h : ∀ e ∈ events, Concerns handle e) :
      Queries handle events (.error fault)

/-- What asking for a name leaves behind. -/
inductive Asks (host : Host σ) (handle : HandleId) : List Event → Except Fault Name → Prop
  | read {events : List Event} (size : UInt64) (status : Status) (name : Name)
      (ho : host.Offers .queryObject) (hs : status.isSuccess = true)
      (h : ∀ e ∈ events, Concerns handle e) :
      Asks host handle
        (events ++ [.object handle infoClass size status, .named handle name.units]) (.ok name)
  | failed {events : List Event} (fault : Fault) (ho : host.Offers .queryObject)
      (h : ∀ e ∈ events, Concerns handle e) : Asks host handle events (.error fault)
  | missing (hl : host.Lacks .queryObject) : Asks host handle [] (.error (.missing .queryObject))

theorem concerns_of_isHeap {handle : HandleId} {events : List Event}
    (h : ∀ e ∈ events, e.isHeap = true) : ∀ e ∈ events, Concerns handle e :=
  fun e he => Or.inl (h e he)

/-- Queries that follow what belongs to the same asking. -/
theorem Queries.after {handle : HandleId} {events more : List Event} {answer : Except Fault Status}
    (he : ∀ e ∈ events, Concerns handle e) (hm : Queries handle more answer) :
    Queries handle (events ++ more) answer := by
  cases hm with
  | answered size status h =>
    rw [← List.append_assoc]
    exact .answered size status (List.forall_mem_append.mpr ⟨he, h⟩)
  | refused fault h => exact .refused fault (List.forall_mem_append.mpr ⟨he, h⟩)

theorem emits_query (h : Host σ) (settings : Settings) (handle : HandleId) (attempts : Nat)
    (buffer : Block) (x : Session σ) :
    Emits (query h settings handle attempts buffer) x fun events a =>
      Queries handle events a.2 := by
  induction attempts using Nat.strongRecOn generalizing buffer x with
  | ind attempts ih =>
    rw [query.eq_def]
    refine emits_journaled_bind fun reply t => ?_
    have hlast : Queries handle ([] ++ [.object handle infoClass buffer.size reply.status])
        (.ok reply.status) := .answered buffer.size reply.status (by simp)
    have hquery : ∀ e ∈ [Event.object handle infoClass buffer.size reply.status],
        Concerns handle e := by
      simp [Concerns]
    dsimp only
    split
    · exact emits_pure hlast
    · split
      · exact emits_pure hlast
      · exact emits_pure hlast
      · rename_i rest
        split
        · exact emits_say_bind fun u => emits_pure hlast
        · refine emits_say_bind fun u => ?_
          refine (Arena.emits_allocate h.heap _ u).bind ?_
          rintro allocated (_ | larger) v - ha
          · refine emits_pure ?_
            simpa using (Queries.refused (.outOfMemory _) (concerns_of_isHeap ha)).after hquery
          · refine (Arena.emits_free h.heap _ v).bind fun freed _ w _ hf => ?_
            refine (ih (rest + 1) (by omega) larger.1 w).mono fun more a hm => ?_
            exact ((hm.after (concerns_of_isHeap hf)).after (concerns_of_isHeap ha)).after hquery

theorem emits_ask (h : Host σ) (settings : Settings) (handle : HandleId) (buffer : Block)
    (x : Session σ) :
    Emits (ask h settings handle buffer) x fun events a => Asks h handle events a.2 := by
  unfold ask
  refine Host.emits_provides_bind (fun ho => ?_) (fun hl => emits_pure (.missing hl))
  refine (emits_query h settings handle _ buffer x).bind ?_
  rintro querying ⟨last, answer⟩ t - hq
  cases hq with
  | refused fault hc => exact emits_pure (by simpa using Asks.failed fault ho hc)
  | @answered asking size status hc =>
    have hall : ∀ e ∈ asking ++ [.object handle infoClass size status], Concerns handle e := by
      refine List.forall_mem_append.mpr ⟨hc, ?_⟩
      simp [Concerns]
    have hfailed : ∀ fault : Fault, Asks h handle
        (asking ++ [.object handle infoClass size status]) (.error fault) :=
      fun fault => .failed fault ho hall
    dsimp only
    split
    · rename_i hs
      split
      · exact emits_pure (by simpa using hfailed _)
      · rename_i name _
        refine emits_note_bind fun u => emits_pure ?_
        simpa using Asks.read size status name ho hs hc
    · exact emits_pure (by simpa using hfailed _)

end Name

/-! ## Events of the host -/

/-- Whether an event is a call of the host, its heap included. -/
def Event.isHost : Event → Bool
  | .record _ _ _ | .polled _ | .named _ _ | .line _ | .holder _ => false
  | _ => true

/-- Events that are calls of the host only. -/
def Hosted (events : List Event) : Prop := ∀ e ∈ events, e.isHost = true

theorem hosted_nil : Hosted [] := by simp [Hosted]

theorem hosted_singleton {e : Event} (h : e.isHost = true) : Hosted [e] := by simpa [Hosted] using h

theorem hosted_of_isHeap {events : List Event} (h : ∀ e ∈ events, e.isHeap = true) :
    Hosted events := by
  intro e he
  have hheap := h e he
  cases e <;> simp_all [Event.isHeap, Event.isHost]

theorem hosted_of_reading {events : List Event} (h : Table.Reading events) : Hosted events := by
  intro e he
  have hread := h e he
  cases e <;> simp_all [Event.isHeap, Event.isTable, Event.isHost]

theorem hosted_of_concerns {handle : HandleId} {events : List Event}
    (h : ∀ e ∈ events, Name.Concerns handle e) : Hosted events := by
  intro e he
  rcases h e he with hheap | ⟨size, status, rfl⟩
  · cases e <;> simp_all [Event.isHeap, Event.isHost]
  · rfl

/-- What is read off other events than calls of the host is not there. -/
theorem Hosted.filterMap_eq_nil {α : Type} {f : Event → Option α} {events : List Event}
    (h : Hosted events) (hf : ∀ e : Event, e.isHost = true → f e = none) :
    events.filterMap f = [] :=
  List.filterMap_eq_nil_iff.mpr fun e he => hf e (h e he)

end FileHolders
