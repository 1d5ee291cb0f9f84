import FileHolders.Proofs.Holdings
import FileHolders.Proofs.Idling
import FileHolders.Proofs.Supply

/-!
# A search gives back what its heap handed out

What each part of a search does to the blocks that are live, said once.  A part that idles does
nothing to them; a part that may exchange the block in hand ends with another one in its place; the
rest is followed as it stands.

    Exchanges limit (s.walk rs buffer p) buffer                                 (exchanges_walk)
    Counts limit 0 x.arena → Upholds limit 0 (s.survey p) x (live = 0)              (upholds_survey)
    HeapBalanced s.settings.arenaLimit (eventsOf s.run x)                            (heap_kept)

The counts of the arena are words.  They agree with the live blocks at every call of the heap: the
count of blocks is their number, and the count of bytes is their bytes up to the size of a word.
-/

namespace FileHolders

open FileHolders.Action

variable {σ α β : Type}

/-! ## Parts that keep the heap in use -/

/-- The counts of the arena agree with the live blocks. -/
structure Counts (limit : Option UInt64) (live : Multiset Extent) (a : Arena) : Prop where
  fits : Holdings.Fits limit live
  limit : a.limit = limit
  blocks : a.blocks.toNat = live.card
  bytes : a.bytes.toNat = Holdings.bytes live % UInt64.size
  closed : a.closed = false

/-- The action does what is allowed, begun where some blocks are live, and ends where the counts agree
with the blocks that are live then. -/
def Upholds (limit : Option UInt64) (live : Multiset Extent) (x : Action σ α) (s : Session σ)
    (post : α → Multiset Extent → Prop) : Prop :=
  ∃ live', Emits x s (fun events a =>
      (Holdings.mk .inUse live).Lawful limit events ∧
        (Holdings.mk .inUse live).after events = ⟨.inUse, live'⟩ ∧ post a live') ∧
    Counts limit live' (x.run s).2.arena

section

variable {limit : Option UInt64} {live : Multiset Extent} {s : Session σ}
  {f : α → Action σ β} {post : β → Multiset Extent → Prop}

theorem upholds_pure {b : β} (hc : Counts limit live s.arena) (h : post b live) :
    Upholds limit live (pure b) s post :=
  ⟨live, emits_pure ⟨trivial, rfl, h⟩, hc⟩

/-- An action that reads the session first. -/
theorem upholds_get_bind {g : Session σ → Action σ β} (h : Upholds limit live (g s) s post) :
    Upholds limit live (get >>= g) s post := h

theorem Upholds.bind {x : Action σ α} {mid : α → Multiset Extent → Prop}
    (hx : Upholds limit live x s mid)
    (hf : ∀ a t live', Counts limit live' t.arena → mid a live' → Upholds limit live' (f a) t post) :
    Upholds limit live (x >>= f) s post := by
  obtain ⟨between, ⟨events, hj, hlaw, hafter, hm⟩, hc⟩ := hx
  obtain ⟨live', ⟨more, hk, hlaw', hafter', hp⟩, hc'⟩ := hf _ _ between hc hm
  refine ⟨live', ⟨events ++ more, ?_, ?_, ?_, hp⟩, hc'⟩
  · rw [run_bind, hk, hj, List.append_assoc]
  · rw [Holdings.lawful_append, hafter]
    exact ⟨hlaw, hlaw'⟩
  · rw [Holdings.after_append, hafter, hafter']

/-- What idles leaves the live blocks and the counts as they are. -/
theorem Idles.upholds {x : Action σ α} (hx : Idles x) (hc : Counts limit live s.arena) :
    Upholds limit live x s fun _ live' => live' = live := by
  obtain ⟨hemits, harena⟩ := hx s
  refine ⟨live, hemits.mono ?_, by rw [harena]; exact hc⟩
  intro events a he
  obtain ⟨hlaw, hafter⟩ := Holdings.lawful_of_no_heap he limit ⟨.inUse, live⟩
  exact ⟨hlaw, hafter, rfl⟩

theorem Idles.upholds_bind {x : Action σ α} (hx : Idles x) (hc : Counts limit live s.arena)
    (hf : ∀ a t, Counts limit live t.arena → Upholds limit live (f a) t post) :
    Upholds limit live (x >>= f) s post := by
  refine (hx.upholds hc).bind ?_
  rintro a t _ hc' rfl
  exact hf a t hc'

/-- A call of the heap. -/
theorem upholds_journaled_bind {call : StateM σ α} {event : α → Event}
    (h : ∀ a t, t.arena = s.arena → (Holdings.mk .inUse live).Allows limit (event a) ∧
      ∃ live', (Holdings.mk .inUse live).step (event a) = ⟨.inUse, live'⟩ ∧
        Upholds limit live' (f a) t post) :
    Upholds limit live (journaled call event >>= f) s post := by
  obtain ⟨hallows, between, hstep, live', ⟨more, hk, hlaw, hafter, hp⟩, hc⟩ :=
    h ((journaled call event).run s).1 ((journaled call event).run s).2 rfl
  refine ⟨live', ⟨event (call.run s.host).1 :: more, ?_, ?_, ?_, hp⟩, hc⟩
  · rw [run_bind, hk, run_journaled, Array.toList_push, List.append_assoc]
    rfl
  · refine ⟨hallows, ?_⟩
    rw [run_journaled] at hstep
    rw [hstep]
    exact hlaw
  · rw [run_journaled] at hstep
    rw [Holdings.after_cons, hstep, hafter]

end

namespace Arena

variable {limit : Option UInt64} {live : Multiset Extent} {s : Session σ}

/-- A request that the limit lets pass fits. -/
theorem fits_of_limitPassed {a : Arena} (hc : Counts limit live a) (hcard : live.card < 3)
    {size : UInt64} (hl : a.limitPassed size = none) (address : UInt64) :
    Holdings.Fits limit ((address, size) ::ₘ live) := by
  refine ⟨by rw [Multiset.card_cons]; omega, ?_⟩
  intro most hm
  have hbefore := hc.fits.bytes most hm
  have hbytes := hc.bytes
  rw [limitPassed, hc.limit, hm] at hl
  have hle : ¬most < Word.addSat a.bytes size := by simpa using hl
  rw [UInt64.lt_iff_toNat_lt, Word.toNat_addSat] at hle
  rw [Holdings.bytes_cons]
  rw [Word.size_eq] at *
  dsimp only
  omega

theorem counts_take {a : Arena} (hc : Counts limit live a) {address size : UInt64}
    (hf : Holdings.Fits limit ((address, size) ::ₘ live)) :
    Counts limit ((address, size) ::ₘ live) (a.take size) where
  limit := hc.limit
  blocks := by
    have hcard := hf.blocks
    have hblocks := hc.blocks
    rw [Multiset.card_cons] at hcard ⊢
    show (a.blocks + 1).toNat = _
    rw [UInt64.toNat_add, hblocks]
    show (_ + 1) % _ = _
    omega
  bytes := by
    show (a.bytes + size).toNat = _
    rw [UInt64.toNat_add, hc.bytes, Holdings.bytes_cons, Word.size_eq]
    dsimp only
    omega
  closed := hc.closed
  fits := hf

theorem counts_giveBack {a : Arena} {b : Extent} (hc : Counts limit (b ::ₘ live) a) :
    Counts limit live (a.giveBack b.2) where
  limit := hc.limit
  blocks := by
    have hblocks := hc.blocks
    have hfits := hc.fits.blocks
    rw [Multiset.card_cons] at hblocks hfits
    show (a.blocks - 1).toNat = _
    rw [UInt64.toNat_sub, hblocks]
    show (_ - 1 + _) % _ = _
    omega
  bytes := by
    have hb := b.2.toNat_lt
    show (a.bytes - b.2).toNat = _
    rw [UInt64.toNat_sub, hc.bytes, Holdings.bytes_cons, Word.size_eq]
    omega
  closed := hc.closed
  fits := hc.fits.of_cons

/-- Asking for a block: it is live then, unless it was refused. -/
theorem upholds_allocate (heap : Heap σ) (size : UInt64) (hc : Counts limit live s.arena)
    (hcard : live.card < 3) :
    Upholds limit live (allocate heap size) s fun a live' =>
      live' = match a with
        | none => live
        | some b => b.1.extent ::ₘ live := by
  unfold allocate
  apply upholds_get_bind
  dsimp only
  split
  · exact (idles_say _ _).upholds_bind hc fun _ t hc' => upholds_pure hc' rfl
  · rename_i hl
    rw [hc.closed]
    refine upholds_journaled_bind ?_
    intro reply t ht
    have hfits := fits_of_limitPassed hc hcard hl
    refine ⟨⟨rfl, fun address _ => hfits address⟩, ?_⟩
    cases reply with
    | none => exact ⟨live, rfl, upholds_pure (ht ▸ hc) rfl⟩
    | some place =>
      refine ⟨(place.address, granted size) ::ₘ live, rfl, _, emits_modifyArena_bind fun u =>
        emits_pure ⟨trivial, rfl, rfl⟩, ?_⟩
      have hcounts := counts_take hc (hfits place.address)
      rw [← ht] at hcounts
      exact hcounts

/-- Giving back a block that is live. -/
theorem upholds_free (heap : Heap σ) (b : Block) (hc : Counts limit (b.extent ::ₘ live) s.arena) :
    Upholds limit (b.extent ::ₘ live) (free heap b) s fun _ live' => live' = live := by
  unfold free
  apply upholds_get_bind
  dsimp only
  rw [hc.closed, Bool.not_false, onlyIf, if_pos rfl]
  refine upholds_journaled_bind ?_
  intro _ t ht
  refine ⟨⟨rfl, Multiset.mem_cons_self _ _⟩, live, ?_, live,
    emits_modifyArena ⟨trivial, rfl, rfl⟩, ?_⟩
  · exact congrArg (Holdings.mk .inUse) (Multiset.erase_cons_head b.extent live)
  · have hcounts := counts_giveBack hc
    rw [← ht] at hcounts
    exact hcounts

/-- Starting an arena on a new heap, with no block live. -/
theorem emits_create_attempt (heap : Heap σ) (limit : Option UInt64) (s : Session σ) :
    Emits (create heap limit) s fun events a =>
      events = [.heapCreated a.isOk] ∧
        (a.isOk = true → ((create heap limit).run s).2.arena = { limit }) := by
  obtain ⟨events, hj, hp⟩ : Emits (create heap limit) s fun events a =>
      events = [.heapCreated a.isOk] := by
    unfold create
    refine emits_journaled_bind ?_
    rintro (fault | _) t
    · exact emits_pure rfl
    · exact emits_say_bind fun u => emits_modifyArena_bind fun v => emits_pure rfl
  exact ⟨events, hj, hp, yields_created heap limit s⟩

/-- Giving the heap back unless that was done before: it is closed then, or that failed. -/
theorem emits_close_attempt (heap : Heap σ) (s : Session σ) :
    Emits (close heap) s fun events a =>
      events = (if s.arena.closed then [] else [.heapDestroyed a.isOk]) ∧
        ((close heap).run s).2.arena.closed = a.isOk := by
  obtain ⟨events, hj, hp⟩ : Emits (close heap) s fun events a =>
      events = (if s.arena.closed then [] else [.heapDestroyed a.isOk]) := by
    unfold close
    apply emits_get_bind
    dsimp only
    refine Emits.silent_bind (emits_onlyIf (fun _ => emits_say rfl) fun _ => rfl) ?_
    intro _ t
    cases s.arena.closed with
    | true => exact emits_pure rfl
    | false =>
      refine emits_journaled_bind ?_
      rintro (_ | _) u
      · exact emits_pure rfl
      · exact emits_modifyArena_bind fun v => emits_pure rfl
  have hy : Yields (close heap) s fun a t => t.arena.closed = a.isOk := by
    unfold close
    apply yields_get_bind
    dsimp only
    refine (yields_onlyIf_say fun t _ ha _ => ha :
      Yields _ s fun _ t => t.arena = s.arena).bind ?_
    intro _ t ht
    cases hc : s.arena.closed with
    | true => exact yields_pure (by rw [ht, hc]; rfl)
    | false =>
      refine yields_journaled_bind ?_
      intro u _ hu _
      split
      · exact yields_modifyArena_bind fun v _ hv _ => yields_pure (by rw [hv]; rfl)
      · exact yields_pure (by rw [hu, ht, hc]; rfl)
  exact ⟨events, hj, hp, hy⟩

/-- Ending the arena: a success is the end, a failure is tried once more. -/
theorem emits_destroy_attempts (heap : Heap σ) (hc : s.arena.closed = false) :
    Emits (destroy heap) s fun events _ =>
      events = [.heapDestroyed true] ∨
        ∃ destroyed, events = [.heapDestroyed false, .heapDestroyed destroyed] := by
  unfold destroy
  refine (emits_close_attempt heap s).bind ?_
  rintro first answer t hfirst ⟨rfl, hclosed⟩
  rw [hfirst] at hclosed
  refine (emits_close_attempt heap t).bind ?_
  rintro second answer' u _ ⟨rfl, -⟩
  refine Emits.silent_bind (emits_warnIfUnreleased answer' u) fun _ v => emits_pure ?_
  rw [hc, if_neg Bool.false_ne_true, hclosed]
  cases answer with
  | ok _ => exact .inl rfl
  | error _ => exact .inr ⟨answer'.isOk, rfl⟩

/-- The first event of ending the arena is an attempt, whatever comes after it. -/
theorem emits_destroy_then (heap : Heap σ) {f : Except ArenaFault Unit → Action σ α}
    (hc : s.arena.closed = false) (hf : ∀ answer, Idles (f answer)) :
    Emits (destroy heap >>= f) s fun events _ =>
      ∃ destroyed rest, events = .heapDestroyed destroyed :: rest := by
  refine (emits_destroy_attempts heap hc).bind ?_
  intro ending answer t _ he
  refine (hf answer t).1.mono ?_
  intro more _ _
  rcases he with rfl | ⟨destroyed, rfl⟩
  · exact ⟨true, _, rfl⟩
  · exact ⟨false, _, rfl⟩

end Arena

/-! ## The table and names -/

theorem Table.upholds_fill (h : Host σ) (settings : Settings) (block : Block)
    {limit : Option UInt64} {rest : Multiset Extent} {s : Session σ}
    (hc : Counts limit (block.extent ::ₘ rest) s.arena) (hr : rest.card < 3) :
    Upholds limit (block.extent ::ₘ rest) (fill h settings block) s fun a live =>
      live = match a with
        | .error _ => rest
        | .ok filled => filled.extent ::ₘ rest := by
  induction block using fill.induct generalizing s with
  | case1 block ih =>
    rw [fill]
    refine (idles_journaled fun _ => rfl).upholds_bind hc ?_
    intro reply t ht
    split
    · exact upholds_pure ht rfl
    · refine (Arena.upholds_free h.heap block ht).bind ?_
      rintro _ u _ hu rfl
      split
      · exact (idles_say _ _).upholds_bind hu fun _ v hv => upholds_pure hv rfl
      · refine (idles_say _ _).upholds_bind hu ?_
        intro _ v hv
        refine (Arena.upholds_allocate h.heap _ hv hr).bind ?_
        rintro (_ | larger) w _ hw rfl
        · exact upholds_pure hw rfl
        · exact ih larger.1 larger.2 hw
    · refine (Arena.upholds_free h.heap block ht).bind ?_
      rintro _ u _ hu rfl
      exact upholds_pure hu rfl

/-- Reading the table: its block is live then, unless it could not be read. -/
theorem Table.upholds_read (h : Host σ) (settings : Settings) {limit : Option UInt64}
    {s : Session σ} (hc : Counts limit 0 s.arena) :
    Upholds limit 0 (read h settings) s fun a live =>
      live = match a with
        | .error _ => 0
        | .ok table => {table.block.extent} := by
  unfold read
  refine (idles_provides h .queryTable).upholds_bind hc ?_
  intro offered t ht
  split
  · apply upholds_get_bind
    dsimp only
    refine (Arena.upholds_allocate h.heap _ ht (by simp)).bind ?_
    rintro (_ | block) u _ hu rfl
    · exact upholds_pure hu rfl
    · refine (upholds_fill h settings block.1 hu (by simp)).bind ?_
      rintro (fault | filled) v _ hv rfl
      · exact upholds_pure hv rfl
      · refine (idles_remember _ _).upholds_bind hv ?_
        intro _ w hw
        exact (idles_say _ _).upholds_bind hw fun _ z hz => upholds_pure hz rfl
  · exact upholds_pure ht rfl

/-- The action may exchange the block in hand for another one; up to one more block stays as it is. -/
def Exchanges (limit : Option UInt64) (x : Action σ (Block × β)) (buffer : Block) : Prop :=
  ∀ (rest : Multiset Extent) (s : Session σ), rest.card ≤ 1 →
    Counts limit (buffer.extent ::ₘ rest) s.arena →
    Upholds limit (buffer.extent ::ₘ rest) x s fun a live => live = a.1.extent ::ₘ rest

section

variable {limit : Option UInt64} {buffer : Block}

theorem exchanges_pure (a : Block × β) (h : a.1.extent = buffer.extent) :
    Exchanges limit (pure a : Action σ (Block × β)) buffer :=
  fun _ _ _ hc => upholds_pure hc (by rw [h])

theorem Idles.exchanges_bind {x : Action σ α} {f : α → Action σ (Block × β)} (hx : Idles x)
    (hf : ∀ a, Exchanges limit (f a) buffer) : Exchanges limit (x >>= f) buffer :=
  fun rest _ hr hc => hx.upholds_bind hc fun a t ht => hf a rest t hr ht

theorem Exchanges.bind {γ : Type} {x : Action σ (Block × β)} {f : Block × β → Action σ (Block × γ)}
    (hx : Exchanges limit x buffer) (hf : ∀ a, Exchanges limit (f a) a.1) :
    Exchanges limit (x >>= f) buffer := by
  intro rest s hr hc
  refine (hx rest s hr hc).bind ?_
  rintro a t _ ht rfl
  exact hf a rest t hr ht

/-- The larger block is in hand before the shorter one is given back: there are three for a moment. -/
theorem Name.exchanges_query (h : Host σ) (settings : Settings) (handle : HandleId)
    (attempts : Nat) (buffer : Block) :
    Exchanges limit (query h settings handle attempts buffer) buffer := by
  induction attempts using Nat.strongRecOn generalizing buffer with
  | ind attempts ih =>
    rw [query.eq_def]
    refine (idles_journaled fun _ => rfl).exchanges_bind fun reply => ?_
    dsimp only
    split
    · exact exchanges_pure _ rfl
    · split
      · exact exchanges_pure _ rfl
      · exact exchanges_pure _ rfl
      · rename_i more
        split
        · exact (idles_say _ _).exchanges_bind fun _ => exchanges_pure _ rfl
        · refine (idles_say _ _).exchanges_bind fun _ => ?_
          intro rest s hr hc
          have hcard : (buffer.extent ::ₘ rest).card < 3 := by
            rw [Multiset.card_cons]
            omega
          refine (Arena.upholds_allocate h.heap _ hc hcard).bind ?_
          rintro (_ | larger) t _ ht rfl
          · exact upholds_pure ht rfl
          · dsimp only at ht ⊢
            rw [Multiset.cons_swap] at ht ⊢
            refine (Arena.upholds_free h.heap (buffer.withContents reply.contents) ht).bind ?_
            rintro _ u _ hu rfl
            exact ih (more + 1) (by omega) larger.1 rest u hr hu

theorem Name.exchanges_ask (h : Host σ) (settings : Settings) (handle : HandleId)
    (buffer : Block) : Exchanges limit (ask h settings handle buffer) buffer := by
  unfold ask
  refine (idles_provides h _).exchanges_bind fun offered => ?_
  split
  · refine (exchanges_query h settings handle _ buffer).bind ?_
    rintro ⟨last, fault | status⟩
    · exact exchanges_pure _ rfl
    · dsimp only
      split
      · split
        · exact exchanges_pure _ rfl
        · exact (idles_note rfl).exchanges_bind fun _ => exchanges_pure _ rfl
      · exact exchanges_pure _ rfl
  · exact exchanges_pure _ rfl

/-! ## The records -/

namespace Search

variable (s : Search σ)

theorem exchanges_examine (process handle : Held) (r : Record) (buffer : Block) (p : Progress) :
    Exchanges limit (s.examine process handle r buffer p) buffer := by
  unfold examine
  refine (idles_journaled fun _ => rfl).exchanges_bind fun kind => ?_
  split
  · exact exchanges_pure _ rfl
  · refine (Name.exchanges_ask s.host s.settings handle.id buffer).bind ?_
    rintro ⟨last, fault | name⟩
    · exact (idles_say _ _).exchanges_bind fun _ => exchanges_pure _ rfl
    · dsimp only
      split
      · exact (s.idles_report process r _).exchanges_bind fun _ => exchanges_pure _ rfl
      · exact exchanges_pure _ rfl

theorem exchanges_inspect (process : Held) (r : Record) (buffer : Block) (p : Progress) :
    Exchanges limit (s.inspect process r buffer p) buffer := by
  unfold inspect
  refine (Held.idles_duplicate s.host process _).exchanges_bind ?_
  rintro (fault | handle)
  · exact (idles_say _ _).exchanges_bind fun _ => exchanges_pure _ rfl
  · refine (s.exchanges_examine process handle r buffer _).bind fun result => ?_
    exact (handle.idles_release s.host).exchanges_bind fun _ => exchanges_pure _ rfl

theorem exchanges_step (r : Record) (buffer : Block) (p : Progress) :
    Exchanges limit (s.step r buffer p) buffer := by
  rw [step_eq]
  refine (idles_note rfl).exchanges_bind fun _ => ?_
  refine (s.idles_turnTo r.pid _).exchanges_bind fun turned => ?_
  split
  · exact exchanges_pure _ rfl
  · unfold attend
    split
    · exact exchanges_pure _ rfl
    · split
      · exact exchanges_pure _ rfl
      · exact s.exchanges_inspect _ r buffer turned

theorem exchanges_walk (records : List Record) (buffer : Block) (p : Progress) :
    Exchanges limit (s.walk records buffer p) buffer := by
  induction records generalizing buffer p with
  | nil => exact exchanges_pure _ rfl
  | cons r rest ih =>
    unfold walk
    refine (s.exchanges_step r buffer p).bind ?_
    rintro ⟨last, next⟩
    dsimp only
    split
    · exact exchanges_pure _ rfl
    · exact ih last next

/-! ## The whole search -/

theorem upholds_goThrough (table : Table) (p : Progress) {rest : Multiset Extent} {x : Session σ}
    (hc : Counts limit rest x.arena) (hr : rest.card ≤ 1) :
    Upholds limit rest (s.goThrough table p) x fun _ live => live = rest := by
  unfold goThrough
  refine (Arena.upholds_allocate s.host.heap _ hc (by omega)).bind ?_
  rintro (_ | buffer) t _ ht rfl
  · exact (idles_send p noBufferLine).upholds ht
  · refine (s.exchanges_walk table.records buffer.1 p rest t hr ht).bind ?_
    rintro ⟨last, next⟩ u _ hu rfl
    refine (next.owner.idles_letGo s.host).upholds_bind hu fun owner v hv => ?_
    refine (Arena.upholds_free s.host.heap last hv).bind ?_
    rintro _ w _ hw rfl
    exact upholds_pure hw rfl

theorem upholds_survey (p : Progress) {x : Session σ} (hc : Counts limit 0 x.arena) :
    Upholds limit 0 (s.survey p) x fun _ live => live = 0 := by
  unfold survey
  refine (Table.upholds_read s.host s.settings hc).bind ?_
  rintro (fault | table) t _ ht rfl
  · exact (idles_say _ _).upholds_bind ht fun _ u hu => (idles_send p _).upholds hu
  · refine (s.upholds_goThrough table p ht (by simp)).bind ?_
    rintro next u _ hu rfl
    refine (Arena.upholds_free s.host.heap table.block hu).bind ?_
    rintro _ v _ hv rfl
    exact upholds_pure hv rfl

/-- From no heap to no heap in use, and nothing live. -/
def Settles (limit : Option UInt64) (events : List Event) : Prop :=
  ({} : Holdings).Lawful limit events ∧ (({} : Holdings).after events).live = 0 ∧
    (({} : Holdings).after events).phase ≠ .inUse

theorem Settles.append {events more : List Event} (h : Settles limit events)
    (hm : ∀ e ∈ more, e.isHeap = false) : Settles limit (events ++ more) := by
  obtain ⟨hlaw, hafter⟩ :=
    Holdings.lawful_of_no_heap hm limit (({} : Holdings).after events)
  rw [Settles, Holdings.lawful_append, Holdings.after_append, hafter]
  exact ⟨⟨h.1, hlaw⟩, h.2⟩

theorem settles_of_no_heap {events : List Event} (h : ∀ e ∈ events, e.isHeap = false) :
    Settles limit events := by
  obtain ⟨hlaw, hafter⟩ := Holdings.lawful_of_no_heap h limit {}
  rw [Settles, hafter]
  exact ⟨hlaw, rfl, by decide⟩

/-- Creating a heap, working with it and giving it back with nothing live. -/
theorem settles_of_attempts {working ending : List Event}
    (hlaw : (Holdings.mk .inUse 0).Lawful limit working)
    (hafter : (Holdings.mk .inUse 0).after working = ⟨.inUse, 0⟩)
    (he : ending = [.heapDestroyed true] ∨
      ∃ destroyed, ending = [.heapDestroyed false, .heapDestroyed destroyed]) :
    Settles limit (.heapCreated true :: (working ++ ending)) := by
  obtain ⟨hlaw', hlive, hphase⟩ : (Holdings.mk .inUse 0).Lawful limit ending ∧
      ((Holdings.mk .inUse 0).after ending).live = 0 ∧
      ((Holdings.mk .inUse 0).after ending).phase ≠ .inUse := by
    rcases he with rfl | ⟨destroyed, rfl⟩
    · exact ⟨⟨⟨.inl rfl, rfl⟩, trivial⟩, rfl, by decide⟩
    · refine ⟨⟨⟨.inl rfl, rfl⟩, ⟨.inr rfl, rfl⟩, trivial⟩, rfl, ?_⟩
      cases destroyed <;> decide
  have hcreated : ({} : Holdings).step (.heapCreated true) = ⟨.inUse, 0⟩ := rfl
  refine ⟨⟨rfl, ?_⟩, ?_⟩
  · rw [hcreated, Holdings.lawful_append, hafter]
    exact ⟨hlaw, hlaw'⟩
  · rw [Holdings.after_cons, hcreated, Holdings.after_append, hafter]
    exact ⟨hlive, hphase⟩

theorem counts_start (limit : Option UInt64) : Counts limit 0 { limit } :=
  ⟨Holdings.fits_zero limit, rfl, rfl, rfl, rfl⟩

theorem emits_surveyInArena_settles (p : Progress) (x : Session σ) :
    Emits (s.surveyInArena p) x fun events _ => Settles s.settings.arenaLimit events := by
  unfold surveyInArena
  refine (Arena.emits_create_attempt s.host.heap s.settings.arenaLimit x).bind ?_
  rintro creating (fault | _) t hx ⟨rfl, harena⟩
  · have hcreating : Settles s.settings.arenaLimit [.heapCreated false] :=
      ⟨⟨rfl, trivial⟩, rfl, by decide⟩
    refine ((idles_say _ _).bind fun _ => idles_send p _) t |>.1.mono ?_
    intro events _ he
    exact hcreating.append he
  · rw [hx] at harena
    have hcounts : Counts s.settings.arenaLimit 0 t.arena := by
      rw [harena rfl]
      exact counts_start _
    obtain ⟨live, hsurvey, hcounts'⟩ := s.upholds_survey p hcounts
    refine hsurvey.bind ?_
    rintro working next u hu ⟨hlaw, hafter, rfl⟩
    rw [hu] at hcounts'
    refine (Arena.emits_destroy_attempts s.host.heap hcounts'.closed).bind ?_
    intro ending answer v _ he
    refine Emits.silent_bind (Arena.emits_warnIfUnreleased answer v) fun _ w => emits_pure ?_
    rw [List.append_nil]
    show Settles _ (.heapCreated true :: (working ++ ending))
    exact settles_of_attempts hlaw hafter he

theorem emits_run_settles (x : Session σ) :
    Emits s.run x fun events _ => Settles s.settings.arenaLimit events := by
  refine emits_run_around (fun _ => settles_of_no_heap (by simp))
    (fun _ => s.emits_surveyInArena_settles {} _) ?_
  intro preparing closing p next hsettles hs
  refine hsettles.append ?_
  cases hs with
  | repeated _ => simp
  | sent _ => simp [Event.isHeap]

/-! ### The counts when the arena ends -/

/-- The session in which a search gives up its arena, if it got one. -/
def arenaEnd (x : Session σ) : Option (Session σ) :=
  if s.text.isEmpty then none
  else
    let created := (Arena.create s.host.heap s.settings.arenaLimit).run
      ((info s.openingMessage).run x).2
    match created.1 with
    | .error _ => none
    | .ok () => some ((s.survey {}).run created.2).2

theorem arenaEnd_eq_some {x t : Session σ} (h : s.arenaEnd x = some t) :
    s.text.isEmpty = false ∧ ∃ y, (Arena.create s.host.heap s.settings.arenaLimit).run
      ((info s.openingMessage).run x).2 = (.ok (), y) ∧ t = ((s.survey {}).run y).2 := by
  cases ht : s.text.isEmpty with
  | true => simp [arenaEnd, ht] at h
  | false =>
    cases hx : (Arena.create s.host.heap s.settings.arenaLimit).run
        ((info s.openingMessage).run x).2 with
    | mk answer y =>
      cases answer with
      | error fault => simp [arenaEnd, ht, hx] at h
      | ok _ => exact ⟨rfl, y, rfl, by simpa [arenaEnd, ht, hx] using h.symm⟩

/-- A search in an arena gives it up after the survey. -/
theorem run_eq_of_created {x y : Session σ} (ht : s.text.isEmpty = false)
    (hx : (Arena.create s.host.heap s.settings.arenaLimit).run
      ((info s.openingMessage).run x).2 = (.ok (), y)) :
    s.run.run x = (Arena.destroy s.host.heap >>= fun answer =>
      Arena.warnIfUnreleased answer >>= fun _ => s.conclude ((s.survey {}).run y).1).run
        ((s.survey {}).run y).2 := by
  have harena : s.surveyed x =
      (Arena.destroy s.host.heap >>= fun answer => Arena.warnIfUnreleased answer >>= fun _ =>
        pure ((s.survey {}).run y).1).run ((s.survey {}).run y).2 := by
    unfold surveyed surveyInArena
    rw [run_bind, hx]
    rfl
  rw [s.run_eq_conclude x ht, harena]
  rfl

theorem counts_of_arenaEnd {x t : Session σ} (h : s.arenaEnd x = some t) :
    Counts s.settings.arenaLimit 0 t.arena ∧ ∃ destroyed rest,
      (s.run.run x).2.journal.toList = t.journal.toList ++ .heapDestroyed destroyed :: rest := by
  obtain ⟨ht, y, hx, rfl⟩ := s.arenaEnd_eq_some h
  obtain ⟨-, -, -, harena⟩ := Arena.emits_create_attempt s.host.heap s.settings.arenaLimit
    ((info s.openingMessage).run x).2
  rw [hx] at harena
  have hcounts : Counts s.settings.arenaLimit 0 y.arena := by
    rw [harena rfl]
    exact counts_start _
  obtain ⟨live, ⟨_, -, -, -, rfl⟩, hcounts'⟩ := s.upholds_survey {} hcounts
  refine ⟨hcounts', ?_⟩
  obtain ⟨events, hj, destroyed, rest, rfl⟩ := Arena.emits_destroy_then s.host.heap
    hcounts'.closed fun answer => (Arena.idles_warnIfUnreleased answer).bind fun _ =>
      s.idles_conclude ((s.survey {}).run y).1
  rw [s.run_eq_of_created ht hx]
  exact ⟨destroyed, rest, hj⟩

end Search

end

/-- A search keeps its heap in order, and its arena counts nothing when it is given up. -/
structure HeapKept (s : Search σ) (x : Session σ) : Prop where
  balanced : HeapBalanced s.settings.arenaLimit (eventsOf s.run x)
  /-- The next event after the session in which the arena is given up is that attempt. -/
  counted : ∀ t, s.arenaEnd x = some t → t.arena.blocks = 0 ∧ t.arena.bytes = 0 ∧
    ∃ destroyed rest,
      (s.run.run x).2.journal.toList = t.journal.toList ++ .heapDestroyed destroyed :: rest

/-- Whatever the heap answers and however a search ends, it gives back every block that it got, and
then the heap. -/
theorem Search.heap_kept (s : Search σ) (x : Session σ) : HeapKept s x where
  balanced := by
    obtain ⟨hlaw, hlive, hphase⟩ := (s.emits_run_settles x).eventsOf
    exact heapBalanced_of_lawful hlaw hlive hphase
  counted := by
    intro t ht
    obtain ⟨hcounts, hnext⟩ := s.counts_of_arenaEnd ht
    refine ⟨?_, ?_, hnext⟩
    · exact UInt64.toNat_inj.mp hcounts.blocks
    · exact UInt64.toNat_inj.mp hcounts.bytes

end FileHolders
