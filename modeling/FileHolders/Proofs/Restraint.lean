import FileHolders.Proofs.Cancelling
import FileHolders.Proofs.Grounds

/-!
# What a search leaves alone

A query about a pipe may never come back, so no handle is asked for its name before it was found to
be of a disk file: between that answer and the query there are only queries about the same handle
that found the buffer too short.  A record of the caller never leads to a process that is opened or a
handle that is duplicated, and if the search is told to pass the caller over, nothing at all is asked
about such a record.

    Emits (s.examine process handle r buffer p) x fun es _ => Cleared (callsIn es)
                                                                            (emits_examine_cleared)
    Cleared calls → Cleared more → Cleared (calls ++ more)                         (Cleared.append)
    s.Walks rs p es next → Spares s es                                            (spares_of_walks)
    DiskOnlySparingOwn s (eventsOf s.run x) outcome.holders              (run_disk_only_sparing_own)

The first is about the calls of the kernel alone: blocks are exchanged between the queries.
-/

namespace FileHolders

open FileHolders.Action

variable {σ α β : Type}

/-! ## Calls that must be left out -/

/-- Whether an event gets hold of a process or a handle. -/
def Event.acquires : Event → Bool
  | .opened _ _ _ _ | .duplicated _ _ _ _ => true
  | _ => false

/-- Whether an event asks for something about a process or a handle that is at hand. -/
def Event.looks : Event → Bool
  | .classified _ _ | .object _ _ _ _ | .image _ _ => true
  | _ => false

/-- A query about a handle that found the buffer too short. -/
def FellShort (handle : HandleId) (e : Event) : Prop :=
  ∃ infoClass size status, e = .object handle infoClass size status ∧
    status.kind = .bufferTooSmall

/-- Each query about a handle comes after the answer that the handle is of a disk file, with nothing
in between but queries about it that found the buffer too short. -/
def Cleared (calls : List Event) : Prop :=
  ∀ before rest handle infoClass size status,
    calls = before ++ .object handle infoClass size status :: rest →
    ∃ front asked, before = front ++ .classified handle .disk :: asked ∧
      ∀ e ∈ asked, FellShort handle e

/-- The calls of asking for a name: a query is only made again where the one before fell short. -/
def Retries (handle : HandleId) (calls : List Event) : Prop :=
  ∀ before e rest, calls = before ++ e :: rest →
    (∃ infoClass size status, e = .object handle infoClass size status) ∧
      ∀ q ∈ before, FellShort handle q

/-- An event comes of a record: the search turned to the record before it, and to no other since. -/
def ComesOf (r : Record) (e : Event) (events : List Event) : Prop :=
  ∃ before between rest, recordsIn between = [] ∧
    events = before ++ .record r.pid r.handleValue r.grantedAccess :: (between ++ e :: rest)

/-! ## Queries about handles -/

section

variable {calls more events : List Event} {handle : HandleId}

theorem Cleared.append (h : Cleared calls) (hm : Cleared more) : Cleared (calls ++ more) := by
  intro before rest handle infoClass size status hsplit
  rcases List.append_eq_append_iff.mp hsplit with ⟨front, rfl, hfront⟩ | ⟨front, hcalls, hfront⟩
  · obtain ⟨front', asked, rfl, hasked⟩ := hm _ _ _ _ _ _ hfront
    exact ⟨calls ++ front', asked, (List.append_assoc ..).symm, hasked⟩
  · cases front with
    | nil =>
      rw [List.append_nil] at hcalls
      obtain ⟨front', asked, hnone, hasked⟩ := hm [] _ _ _ _ _ hfront.symm
      exact absurd hnone (by simp)
    | cons e front =>
      obtain ⟨rfl, -⟩ := List.cons.inj hfront
      exact h _ _ _ _ _ _ hcalls

theorem cleared_of_no_object (h : ∀ e ∈ events, ∀ handle infoClass size status,
    e ≠ .object handle infoClass size status) : Cleared (callsIn events) := by
  intro before rest handle infoClass size status hsplit
  have hmem : .object handle infoClass size status ∈ callsIn events := by simp [hsplit]
  exact absurd rfl (h _ (List.mem_filter.mp hmem).1 _ _ _ _)

theorem cleared_of_outer (h : Outer events) : Cleared (callsIn events) := by
  apply cleared_of_no_object
  rintro _ he handle infoClass size status rfl
  cases h _ he

theorem retries_nil : Retries handle [] := by simp [Retries]

theorem retries_singleton (infoClass : UInt32) (size : UInt64) (status : Status) :
    Retries handle [.object handle infoClass size status] := by
  rintro (_ | ⟨first, before⟩) e rest hsplit
  · obtain ⟨rfl, -⟩ := List.cons.inj hsplit
    exact ⟨⟨_, _, _, rfl⟩, by simp⟩
  · exact absurd (List.cons.inj hsplit).2 (by simp)

theorem Retries.again (h : Retries handle calls) {infoClass : UInt32} {size : UInt64}
    {status : Status} (hs : status.kind = .bufferTooSmall) :
    Retries handle (.object handle infoClass size status :: calls) := by
  rintro (_ | ⟨first, before⟩) e rest hsplit
  · obtain ⟨rfl, -⟩ := List.cons.inj hsplit
    exact ⟨⟨_, _, _, rfl⟩, by simp⟩
  · obtain ⟨rfl, hrest⟩ := List.cons.inj hsplit
    obtain ⟨he, hbefore⟩ := h before e rest hrest
    exact ⟨he, List.forall_mem_cons.mpr ⟨⟨_, _, _, rfl, hs⟩, hbefore⟩⟩

/-- Asking for a name after the handle was found to be of a disk file. -/
theorem Retries.cleared (h : Retries handle calls) :
    Cleared (.classified handle .disk :: calls) := by
  rintro (_ | ⟨first, asked⟩) rest handle' infoClass size status hsplit
  · cases hsplit
  · obtain ⟨rfl, hcalls⟩ := List.cons.inj hsplit
    obtain ⟨⟨_, _, _, hobject⟩, hasked⟩ := h asked _ rest hcalls
    cases hobject
    exact ⟨[], asked, rfl, hasked⟩

end

theorem callsIn_cons {e : Event} (h : e.isCall = true) (events : List Event) :
    callsIn (e :: events) = e :: callsIn events := List.filter_cons_of_pos h

theorem Name.emits_query_retries (h : Host σ) (settings : Settings) (handle : HandleId)
    (attempts : Nat) (buffer : Block) (x : Session σ) :
    Emits (Name.query h settings handle attempts buffer) x fun events _ =>
      Retries handle (callsIn events) := by
  induction attempts using Nat.strongRecOn generalizing buffer x with
  | ind attempts ih =>
    rw [Name.query.eq_def]
    refine emits_journaled_bind ?_
    intro reply t
    have hlast : Retries handle
        (callsIn [.object handle Name.infoClass buffer.size reply.status]) :=
      retries_singleton _ _ _
    dsimp only
    split
    · exact emits_pure hlast
    · rename_i hkind
      have hshort : reply.status.kind = .bufferTooSmall := by simpa using hkind
      split
      · exact emits_pure hlast
      · exact emits_pure hlast
      · rename_i rest
        split
        · exact emits_say_bind fun u => emits_pure hlast
        · refine emits_say_bind ?_
          intro u
          refine (Arena.emits_allocate h.heap _ u).bind ?_
          rintro allocated (_ | larger) v - ha
          · refine emits_pure ?_
            rw [callsIn_cons rfl, callsIn_append, callsIn_of_isHeap ha]
            exact hlast
          · refine (Arena.emits_free h.heap _ v).bind ?_
            intro freed _ w _ hf
            refine (ih (rest + 1) (by omega) larger.1 w).mono ?_
            intro more _ hm
            rw [callsIn_cons rfl, callsIn_append, callsIn_append, callsIn_of_isHeap ha,
              callsIn_of_isHeap hf]
            exact hm.again hshort

theorem Name.emits_ask_retries (h : Host σ) (settings : Settings) (handle : HandleId)
    (buffer : Block) (x : Session σ) :
    Emits (Name.ask h settings handle buffer) x fun events _ =>
      Retries handle (callsIn events) := by
  unfold Name.ask
  refine Host.emits_provides_bind (fun _ => ?_) (fun _ => emits_pure retries_nil)
  refine (Name.emits_query_retries h settings handle _ buffer x).bind ?_
  rintro querying ⟨last, fault | status⟩ t - hq
  · exact emits_pure (by simpa using hq)
  · dsimp only
    split
    · split
      · exact emits_pure (by simpa using hq)
      · refine emits_note_bind fun u => emits_pure ?_
        rw [callsIn_append]
        simpa [callsIn, Event.isCall] using hq
    · exact emits_pure (by simpa using hq)

/-- What is asked in two actions one after the other, each on its own grounds. -/
theorem Emits.cleared_bind {x : Action σ α} {f : α → Action σ β} {s : Session σ}
    (hx : Emits x s fun events _ => Cleared (callsIn events))
    (hf : ∀ a t, Emits (f a) t fun events _ => Cleared (callsIn events)) :
    Emits (x >>= f) s fun events _ => Cleared (callsIn events) := by
  refine hx.append_bind ?_ hf
  intro events more he hm
  rw [callsIn_append]
  exact he.append hm

theorem emits_pure_cleared (a : α) (x : Session σ) :
    Emits (pure a) x fun events _ => Cleared (callsIn events) :=
  emits_pure (cleared_of_outer (by simp [Outer]))

theorem emits_say_cleared (level : Level) (message : String) (x : Session σ) :
    Emits (say level message) x fun events _ => Cleared (callsIn events) :=
  emits_say (cleared_of_outer (by simp [Outer]))

namespace Search

/-! ### Along the course of a search -/

section

variable {s : Search σ} {p next : Progress} {events : List Event}

theorem Turns.looks_eq_false {pid : UInt64} (h : Turns s pid p events next) :
    ∀ e ∈ events, e.looks = false :=
  h.forall_mem (fun _ _ => rfl) (fun _ => rfl) (fun _ _ _ _ => rfl)

theorem Reports.not_object {process : Held} {r : Record}
    (h : Reports s process r p events next) : ∀ e ∈ events, ∀ handle infoClass size status,
      e ≠ .object handle infoClass size status := by
  rintro _ he handle infoClass size status rfl
  have hheads : ∀ {heading : List Event} {headed : Progress}, Heads s p heading headed →
      .object handle infoClass size status ∉ heading := by
    intro heading headed hh hmem
    obtain ⟨_, hline⟩ := (lines_of_heads hh).1 _ hmem
    cases hline
  cases h with
  | known hh _ => exact hheads hh he
  | found path hh _ hs =>
    rcases List.mem_append.mp he with he | he
    · exact hheads hh he
    · rcases List.mem_append.mp ((List.mem_cons.mp he).resolve_left nofun) with he | he
      · obtain ⟨_, hline⟩ := lines_of_sends hs _ he
        cases hline
      · simp at he

end

variable (s : Search σ)

theorem emits_examine_cleared (process handle : Held) (r : Record) (buffer : Block) (p : Progress)
    (x : Session σ) :
    Emits (s.examine process handle r buffer p) x fun events _ => Cleared (callsIn events) := by
  unfold examine
  refine emits_journaled_bind ?_
  intro kind t
  split
  · refine emits_pure (cleared_of_no_object ?_)
    simp
  · rename_i hk
    obtain rfl : kind = .disk := by simpa using hk
    refine (Name.emits_ask_retries s.host s.settings handle.id buffer t).bind ?_
    rintro asking ⟨last, fault | name⟩ u - ha
    · refine emits_say_bind fun v => emits_pure ?_
      rw [List.append_nil, callsIn_cons rfl]
      exact ha.cleared
    · dsimp only
      split
      · refine (s.emits_report process r _ u).bind ?_
        intro reporting next v _ hr
        refine emits_pure ?_
        rw [List.append_nil, callsIn_cons rfl, callsIn_append]
        exact Cleared.append ha.cleared (cleared_of_no_object hr.not_object)
      · refine emits_pure ?_
        rw [List.append_nil, callsIn_cons rfl]
        exact ha.cleared

theorem emits_inspect_cleared (process : Held) (r : Record) (buffer : Block) (p : Progress)
    (x : Session σ) :
    Emits (s.inspect process r buffer p) x fun events _ => Cleared (callsIn events) := by
  unfold inspect
  refine Emits.cleared_bind ((Held.emits_duplicate s.host process r.handleValue x).mono ?_) ?_
  · intro events answer hd
    apply cleared_of_no_object
    cases hd <;> simp
  · rintro (fault | handle) t
    · exact Emits.cleared_bind (emits_say_cleared _ _ t) fun _ u => emits_pure_cleared _ u
    · refine Emits.cleared_bind (s.emits_examine_cleared process handle r buffer _ t) ?_
      intro result u
      refine Emits.cleared_bind ((handle.emits_release s.host u).mono ?_) fun _ v =>
        emits_pure_cleared _ v
      intro events _ hr
      apply cleared_of_no_object
      cases hr <;> simp

theorem emits_step_cleared (r : Record) (buffer : Block) (p : Progress) (x : Session σ) :
    Emits (s.step r buffer p) x fun events _ => Cleared (callsIn events) := by
  rw [step_eq]
  refine Emits.cleared_bind (emits_note (cleared_of_no_object (by simp))) ?_
  intro _ t
  refine Emits.cleared_bind ((s.emits_turnTo r.pid _ t).mono ?_) ?_
  · intro events next ht
    apply cleared_of_no_object
    rintro _ he handle infoClass size status rfl
    cases ht.looks_eq_false _ he
  · intro turned u
    split
    · exact emits_pure_cleared _ u
    · unfold attend
      split
      · exact emits_pure_cleared _ u
      · split
        · exact emits_pure_cleared _ u
        · exact s.emits_inspect_cleared _ r buffer turned u

theorem emits_walk_cleared (records : List Record) (buffer : Block) (p : Progress)
    (x : Session σ) :
    Emits (s.walk records buffer p) x fun events _ => Cleared (callsIn events) := by
  induction records generalizing buffer p x with
  | nil => exact emits_pure_cleared _ x
  | cons r rest ih =>
    unfold walk
    refine Emits.cleared_bind (s.emits_step_cleared r buffer p x) ?_
    rintro ⟨last, next⟩ t
    dsimp only
    split
    · exact emits_pure_cleared _ t
    · exact ih last next t

/-- A whole search asks for no name before it knows that the handle is of a disk file. -/
theorem emits_run_cleared (x : Session σ) :
    Emits s.run x fun events _ => Cleared (callsIn events) := by
  have hparts : s.PartByPart fun events => Cleared (callsIn events) := by
    constructor
    · intro events more he hm
      rw [callsIn_append]
      exact he.append hm
    · exact fun hh => cleared_of_outer (outer_of_isHeap hh)
    · exact fun x => (Table.emits_read s.host s.settings x).mono fun _ _ hr =>
        cleared_of_outer (outer_of_reading hr)
    · exact s.emits_walk_cleared
    · exact fun hl => cleared_of_outer (outer_of_letsGo hl)
    · exact fun hs => cleared_of_outer (outer_of_sends hs)
  exact hparts.emits_run x

end Search

/-! ## Records of the caller -/

section

variable {r : Record} {e : Event} {events more : List Event}

theorem ComesOf.mem (h : ComesOf r e events) : e ∈ events := by
  obtain ⟨before, between, rest, -, rfl⟩ := h
  simp

/-- An event that comes of a record comes of it in one of two parts, or the record is in the first
part and the event in the second, before any record there. -/
theorem ComesOf.of_append (h : ComesOf r e (events ++ more)) :
    ComesOf r e events ∨ ComesOf r e more ∨ r ∈ recordsIn events ∧
      ∃ front rest, more = front ++ e :: rest ∧ recordsIn front = [] := by
  obtain ⟨before, between, rest, hbetween, hsplit⟩ := h
  rcases List.append_eq_append_iff.mp hsplit with ⟨front, rfl, hfront⟩ | ⟨front, rfl, hfront⟩
  · exact .inr (.inl ⟨front, between, rest, hbetween, hfront⟩)
  · cases front with
    | nil => exact .inr (.inl ⟨[], between, rest, hbetween, hfront.symm⟩)
    | cons first front =>
      obtain ⟨rfl, hrest⟩ := List.cons.inj hfront
      have hmem : ∀ part, r ∈ recordsIn (before ++
          .record r.pid r.handleValue r.grantedAccess :: part) := by
        intro part
        rw [recordsIn_append, recordsIn_record]
        simp
      rcases List.append_eq_append_iff.mp hrest with ⟨part, rfl, hpart⟩ | ⟨part, rfl, hpart⟩
      · cases part with
        | nil => exact .inr (.inr ⟨hmem _, [], rest, hpart.symm, rfl⟩)
        | cons first part =>
          obtain ⟨rfl, rfl⟩ := List.cons.inj hpart
          exact .inl ⟨before, between, part, hbetween, rfl⟩
      · rw [recordsIn_append] at hbetween
        exact .inr (.inr ⟨hmem _, part, rest, hpart, (List.append_eq_nil_iff.mp hbetween).2⟩)

theorem ComesOf.of_cons {r' : Record} (hn : recordsIn events = [])
    (h : ComesOf r e (.record r'.pid r'.handleValue r'.grantedAccess :: events)) :
    r = r' ∧ e ∈ events := by
  obtain ⟨before, between, rest, hbetween, hsplit⟩ := h
  cases before with
  | nil =>
    obtain ⟨hr, rfl⟩ := List.cons.inj hsplit
    cases r
    cases r'
    simp only [Event.record.injEq] at hr
    obtain ⟨rfl, rfl, rfl⟩ := hr
    exact ⟨rfl, by simp⟩
  | cons first before =>
    obtain ⟨-, hrest⟩ := List.cons.inj hsplit
    rw [hrest] at hn
    rw [List.append_eq, recordsIn_append, recordsIn_record] at hn
    exact absurd hn (by simp)

/-- The record that an event comes of is the one that the custody knows of. -/
theorem ComesOf.record_eq (h : ComesOf r e events) (own : UInt64) (c : Custody) :
    ∃ before rest, events = before ++ e :: rest ∧ (c.after own before).record = some r := by
  obtain ⟨before, between, rest, hbetween, rfl⟩ := h
  have hkeeps : ∀ {events : List Event} {c : Custody}, recordsIn events = [] →
      (c.after own events).record = c.record := by
    intro events
    induction events with
    | nil => intro c _; rfl
    | cons e events ih =>
      intro c hn
      cases hr : e.record? with
      | some r' => rw [recordsIn, List.filterMap_cons_some hr] at hn; cases hn
      | none =>
        rw [recordsIn_cons hr] at hn
        rw [Custody.after_cons, ih hn]
        cases e <;> simp_all [Event.record?, Custody.step] <;> split <;> rfl
  refine ⟨before ++ .record r.pid r.handleValue r.grantedAccess :: between, rest, by simp, ?_⟩
  rw [Custody.after_append, Custody.after_cons, hkeeps hbetween]
  rfl

end

/-- Nothing is opened and nothing duplicated for a record of the caller. -/
theorem ComesOf.acquires_eq_false {own : UInt64} {r : Record} {e : Event} {events : List Event}
    (h : ComesOf r e events) (hlaw : ({} : Custody).Lawful own events) (hr : r.pid = own) :
    e.acquires = false := by
  obtain ⟨before, rest, rfl, hrecord⟩ := h.record_eq own {}
  have hallows := hlaw.allows
  cases e with
  | opened pid access status handle =>
    obtain ⟨hpid, -, r', hr', rfl⟩ := hallows
    obtain rfl : r = r' := Option.some.inj (hrecord.symm.trans hr')
    exact absurd hr hpid
  | duplicated source value status handle =>
    obtain ⟨-, -, r', hr', hpid, -⟩ := hallows
    obtain rfl : r = r' := Option.some.inj (hrecord.symm.trans hr')
    exact absurd hr hpid
  | _ => rfl

/-- The search looks at nothing for a record of the caller, and reports none. -/
structure Spares (s : Search σ) (events : List Event) (holders : List Holder) : Prop where
  looks : ∀ r e, ComesOf r e events → r.pid = s.host.ownPid → e.looks = false
  holders : ∀ h ∈ holders, h.pid ≠ s.host.ownPid

section

variable {s : Search σ} {p next : Progress} {events : List Event} {c : Custody}

/-- A search that passes the caller over looks at nothing for its records. -/
theorem looks_of_steps {r : Record} (h : Search.Steps s r p events next)
    (ht : c.Tracks s.host.ownPid p.owner) (hi : s.options.ignoreSelf = true)
    (hr : r.pid = s.host.ownPid) : ∀ e ∈ events, e.looks = false := by
  cases h with
  | stopped hturn _ => exact List.forall_mem_cons.mpr ⟨rfl, hturn.looks_eq_false⟩
  | @attended turning attending turned _ hturn hc hattend =>
    have hbegun : (c.step s.host.ownPid
        (.record r.pid r.handleValue r.grantedAccess)).Tracks s.host.ownPid p.owner :=
      ⟨ht.live, ht.process⟩
    obtain ⟨-, -, htracks, hpid⟩ := Custody.lawful_of_turns hturn hbegun rfl
    refine List.forall_mem_cons.mpr ⟨rfl, List.forall_mem_append.mpr ⟨hturn.looks_eq_false, ?_⟩⟩
    cases hattend with
    | unreached _ => simp
    | ignored _ _ => simp
    | @inspected process _ _ ho hmay _ =>
      -- the process at hand is the caller's, which the search passes over
      obtain ⟨pid, howner⟩ := Owner.opened_of_process? ho
      obtain rfl : pid = r.pid := by simpa [howner, Owner.pid?] using hpid hc
      have hown : process.isOwnProcess = true := by
        by_contra hforeign
        rw [Bool.not_eq_true] at hforeign
        exact ((htracks.process _ _ howner).2 hforeign).1 hr
      simp [Search.mayInspect, hi, hown] at hmay

theorem spares_of_steps {r : Record} (h : Search.Steps s r p events next)
    (ht : c.Tracks s.host.ownPid p.owner) (hi : s.options.ignoreSelf = true)
    (hp : ∀ h ∈ p.holders.toList, h.pid ≠ s.host.ownPid) :
    Spares s events next.holders.toList := by
  have hlooks := looks_of_steps h ht hi
  obtain ⟨more, rfl, hfinds⟩ := finds_of_steps h
  refine ⟨?_, ?_⟩
  · intro r' e hcomes hown
    obtain ⟨rfl, hmem⟩ := hcomes.of_cons hfinds.recordsIn
    exact hlooks hown e (List.mem_cons_of_mem _ hmem)
  · cases hfinds with
    | nothing _ _ hh _ => rwa [hh]
    | again _ _ hh _ => rwa [hh]
    | @found front trail closing _ holder handle process _ htrail _ hrecord _ hh _ =>
      rw [hh, Array.toList_push]
      refine List.forall_mem_append.mpr ⟨hp, ?_⟩
      rintro h hmem hown
      obtain rfl := List.mem_singleton.mp hmem
      have hr : r.pid = s.host.ownPid := by rw [← hrecord]; exact hown
      -- a holder is only reported after its handle was looked at
      cases htrail with
      | intro _ _ _ _ _ _ _ _ =>
        have hlook := hlooks hr (.classified handle .disk) (by simp)
        cases hlook

/-- What a walk does first is to turn to a record. -/
theorem record_of_walks {records : List Record} {e : Event} {front rest : List Event}
    (h : Search.Walks s records p (front ++ e :: rest) next) (hn : recordsIn front = []) :
    ∃ r, e.record? = some r := by
  obtain ⟨r, more, hbegin⟩ : ∃ (r : Record) (more : List Event), front ++ e :: rest =
      Event.record r.pid r.handleValue r.grantedAccess :: more := by
    generalize hall : front ++ e :: rest = events at h
    cases h with
    | done _ => simp at hall
    | stopped hs _ =>
      obtain ⟨more, rfl, -⟩ := finds_of_steps hs
      exact ⟨_, more, rfl⟩
    | goesOn hs _ _ =>
      obtain ⟨more, rfl, -⟩ := finds_of_steps hs
      exact ⟨_, _, rfl⟩
  cases front with
  | nil =>
    obtain ⟨rfl, -⟩ := List.cons.inj hbegin
    exact ⟨r, rfl⟩
  | cons first front =>
    obtain ⟨rfl, -⟩ := List.cons.inj hbegin
    rw [recordsIn_record] at hn
    cases hn

theorem spares_of_walks {records : List Record} (h : Search.Walks s records p events next)
    (ht : c.Tracks s.host.ownPid p.owner) (hi : s.options.ignoreSelf = true)
    (hp : ∀ h ∈ p.holders.toList, h.pid ≠ s.host.ownPid) :
    Spares s events next.holders.toList := by
  induction h generalizing c with
  | done p =>
    refine ⟨?_, hp⟩
    intro r e hcomes
    cases hcomes.mem
  | stopped h _ => exact spares_of_steps h ht hi hp
  | goesOn h _ hw ih =>
    have hstep := spares_of_steps h ht hi hp
    have hrest := ih (Custody.lawful_of_steps h ht).2 hstep.holders
    refine ⟨?_, hrest.holders⟩
    intro r e hcomes hown
    rcases hcomes.of_append with hcomes | hcomes | ⟨-, front, rest, rfl, hfront⟩
    · exact hstep.looks r e hcomes hown
    · exact hrest.looks r e hcomes hown
    · obtain ⟨_, hrecord⟩ := record_of_walks hw hfront
      cases e <;> simp_all [Event.record?, Event.looks]

theorem spares_of_runs {records : List Record} {outcome : Outcome}
    (h : Search.Runs s records events outcome) (hi : s.options.ignoreSelf = true) :
    Spares s events outcome.holders := by
  have houter : ∀ {events : List Event}, Outer events → ∀ e ∈ events, e.looks = false := by
    intro events ho e he
    have hone := ho e he
    cases e <;> simp_all [Event.isOuter, Event.isHeap, Event.isTable, Event.looks]
  rcases h.walks with ⟨ho, hh⟩ | ⟨front, walking, closing, q, rfl, hf, hc, hw, hh⟩
  · refine ⟨?_, by simp [hh]⟩
    intro r e hcomes _
    exact houter ho e hcomes.mem
  · have hstart : ({} : Custody).Tracks s.host.ownPid ({} : Progress).owner :=
      Custody.tracks_of_live rfl rfl
    have hwalk := spares_of_walks hw hstart hi (by simp)
    refine ⟨?_, by rw [hh]; exact hwalk.holders⟩
    intro r e hcomes hown
    have hmem := hcomes.mem
    rcases hcomes.of_append with hcomes | hcomes | ⟨hrecord, -⟩
    · exact houter hf e hcomes.mem
    · rcases hcomes.of_append with hcomes | hcomes | ⟨-, _, _, rfl, -⟩
      · exact hwalk.looks r e hcomes hown
      · exact houter hc e hcomes.mem
      · exact houter hc e (by simp)
    · have hnone : recordsIn front = [] := by
        apply List.filterMap_eq_nil_iff.mpr
        intro e he
        have hone := hf e he
        cases e <;> simp_all [Event.isOuter, Event.isHeap, Event.isTable, Event.record?]
      rw [hnone] at hrecord
      cases hrecord

end

/-! ## The whole search -/

/-- Names are only asked for on disk files, and what is the caller's own is spared. -/
structure DiskOnlySparingOwn (s : Search σ) (events : List Event) (holders : List Holder) :
    Prop where
  /-- Right before a query about a handle comes the answer that the handle is of a disk file, or
  queries about it that fell short, and that answer before them. -/
  cleared : Cleared (callsIn events)
  /-- No process is opened and no handle duplicated for a record of the caller. -/
  own : ∀ r e, ComesOf r e events → r.pid = s.host.ownPid → e.acquires = false
  /-- If the caller is passed over, nothing is asked about its records, and none is a holder. -/
  ignored : s.options.ignoreSelf = true → Spares s events holders

/-- Whatever the host answers, a search keeps away from handles that are not known to be of a disk
file, and from the caller's own. -/
theorem Search.run_disk_only_sparing_own (s : Search σ) (x : Session σ) :
    DiskOnlySparingOwn s (eventsOf s.run x) (s.run.run x).1.holders where
  cleared := (s.emits_run_cleared x).eventsOf
  own := by
    intro r e hcomes hr
    have hstart : ({} : Custody).live = [] := rfl
    obtain ⟨hlaw, -⟩ := Custody.lawful_of_runs (s.emits_run x).eventsOf hstart
    exact hcomes.acquires_eq_false hlaw hr
  ignored := spares_of_runs (s.emits_run x).eventsOf

end FileHolders
