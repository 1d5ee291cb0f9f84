import FileHolders.Proofs.Rounds

/-!
# Asking for a name in rounds

Each round asks for the name of a handle once and uses up an attempt.  If the kernel finds the
buffer too short, a larger one is handed out and the short one goes back, unless the attempts are
used up, the larger one is over the ceiling, or it is refused.  What the kernel reports as the size
that it needs is only trusted where it is larger than the buffer, so the buffer grows from round to
round whatever is reported.

However it ends there is one buffer in the place of the one at the beginning: the arena counts as
many blocks as before, and as many bytes but for the difference of the two sizes.  It ends out of
memory exactly where the arena refused the larger buffer.

    query h settings handle n b = round h settings handle (n, b) >>= …                    (query_eq)
    Yields (round h settings handle m.hand) m.session (Round h settings handle m)    (yields_round)
    ∃ ms, AskedInRounds h settings handle buffer x ms answer t                    (asked_in_rounds)
-/

namespace FileHolders

open FileHolders.Action

variable {σ : Type}

/-- The handle of an object query, its size and its status. -/
def Event.objectQuery? : Event → Option (HandleId × UInt64 × Status)
  | .object handle _ size status => some (handle, size, status)
  | _ => none

theorem filterMap_objectQuery?_of_isHeap {events : List Event} (h : ∀ e ∈ events, e.isHeap = true) :
    events.filterMap Event.objectQuery? = [] :=
  filterMap_eq_nil_of_isHeap (fun e he => by cases e <;> first | rfl | cases he) h

/-- The counts after a block of one size took the place of a block of another. -/
def Arena.exchange (a : Arena) (old new : UInt64) : Arena :=
  { a with bytes := a.bytes - old + new }

theorem Arena.exchange_self (a : Arena) (size : UInt64) : a.exchange size size = a := by
  simp [exchange]

theorem Arena.giveBack_take_exchange (a : Arena) (old mid new : UInt64) :
    ((a.exchange old mid).take new).giveBack mid = a.exchange old new := by
  have hbytes : a.bytes - old + mid + new - mid = a.bytes - old + new := by
    rw [UInt64.add_assoc, UInt64.add_comm mid new, ← UInt64.add_assoc, UInt64.add_sub_cancel]
  simp [exchange, take, giveBack, hbytes]

namespace Name

variable (h : Host σ) (settings : Settings) (handle : HandleId)

/-! ## One round -/

/-- What a round works on: the attempts that are left, and the buffer. -/
abbrev Try := Nat × Block

/-- One round of asking for a name: the next round, or the end. -/
def round : Try → Action σ (Try ⊕ Block × Except Fault Status)
  | (attempts, buffer) => do
    let reply ← h.askObject handle infoClass buffer
    let filled := buffer.withContents reply.contents
    if reply.status.kind ≠ .bufferTooSmall then pure (.inr (filled, .ok reply.status))
    else
      match attempts with
      | 0 | 1 => pure (.inr (filled, .ok reply.status))
      | rest + 2 =>
        let size := nextSize buffer.size (reply.length.getD 0)
        if settings.nameBufferCeiling < size then
          debug s!"object name for handle {handle.render} needs {size} bytes"
          pure (.inr (filled, .ok reply.status))
        else
          debug s!"object name buffer: realloc from {buffer.size} to {size}"
          match ← Arena.allocate h.heap size with
          | none => pure (.inr (filled, .error (.outOfMemory size)))
          | some larger =>
            Arena.free h.heap filled
            pure (.inl (rest + 1, larger.1))

/-- A series of queries goes in rounds. -/
theorem query_eq (attempts : Nat) (buffer : Block) :
    query h settings handle attempts buffer = round h settings handle (attempts, buffer) >>=
      Sum.elim (fun i => query h settings handle i.1 i.2) pure := by
  rw [query.eq_def, round, bind_assoc]
  refine bind_congr fun reply => ?_
  dsimp only
  split
  · simp only [pure_bind, Sum.elim_inr]
  · split
    · simp only [pure_bind, Sum.elim_inr]
    · simp only [pure_bind, Sum.elim_inr]
    · split
      · simp only [bind_assoc, pure_bind, Sum.elim_inr]
      · rw [bind_assoc]
        refine bind_congr fun _ => ?_
        rw [bind_assoc]
        refine bind_congr fun larger => ?_
        cases larger with
        | none => simp only [pure_bind, Sum.elim_inr]
        | some larger => simp only [bind_assoc, pure_bind, Sum.elim_inl]

/-- The answer to the query that is made at a moment. -/
def answerAt (m : Moment σ Try) : QueryReply :=
  ((h.queryObject handle infoClass m.hand.2).run m.session.host).1

/-- The buffer after that query. -/
def filledAt (m : Moment σ Try) : Block := m.hand.2.withContents (answerAt h handle m).contents

/-- The size to try after that query. -/
def nextAt (m : Moment σ Try) : UInt64 :=
  nextSize m.hand.2.size ((answerAt h handle m).length.getD 0)

/-- The query that is made at a moment found the buffer too short. -/
def ShortAt (m : Moment σ Try) : Prop := (answerAt h handle m).status.kind = .bufferTooSmall

/-- The session after that query, in which a larger buffer may be asked for. -/
def askedAt (m : Moment σ Try) : Session σ :=
  ((h.askObject handle infoClass m.hand.2).run m.session).2

/-- What one round comes to, to the letter. -/
inductive Round (m : Moment σ Try) : Try ⊕ Block × Except Fault Status → Session σ → Prop
  /-- The query is the last one: it did not find the buffer too short, or nothing larger may be
  tried. -/
  | answered {t : Session σ}
      (hk : ¬ ShortAt h handle m ∨ m.hand.1 ≤ 1 ∨ settings.nameBufferCeiling < nextAt h handle m)
      (ha : t.arena = m.session.arena) (hg : t.guess = m.session.guess) :
      Round m (.inr (filledAt h handle m, .ok (answerAt h handle m).status)) t
  | refused {t : Session σ} (hk : ShortAt h handle m) (hn : 1 < m.hand.1)
      (hc : ¬ settings.nameBufferCeiling < nextAt h handle m)
      (hr : Arena.Refuses h.heap (askedAt h handle m) (nextAt h handle m))
      (ha : t.arena = m.session.arena) (hg : t.guess = m.session.guess) :
      Round m (.inr (filledAt h handle m, .error (.outOfMemory (nextAt h handle m)))) t
  | larger {t : Session σ} {n : Try} (hk : ShortAt h handle m) (hn : n.1 + 1 = m.hand.1)
      (hleft : 0 < n.1) (hc : ¬ settings.nameBufferCeiling < nextAt h handle m)
      (hr : ¬Arena.Refuses h.heap (askedAt h handle m) (nextAt h handle m))
      (hs : n.2.size = Arena.granted (nextAt h handle m))
      (ha : t.arena = (m.session.arena.take n.2.size).giveBack m.hand.2.size)
      (hg : t.guess = m.session.guess)
      (hj : t.journal.toList = m.session.journal.toList ++
        [.object handle infoClass m.hand.2.size (answerAt h handle m).status,
          .allocated n.2.size (some n.2.address), .released m.hand.2.address m.hand.2.size]) :
      Round m (.inl n) t

theorem yields_round (m : Moment σ Try) :
    Yields (round h settings handle m.hand) m.session (Round h settings handle m) := by
  obtain ⟨⟨attempts, buffer⟩, s⟩ := m
  have hanswer : ((h.queryObject handle infoClass buffer).run s.host).1 =
      answerAt h handle ⟨(attempts, buffer), s⟩ := rfl
  unfold round
  refine yields_call_bind ?_
  intro t hcall ha hg hj
  rw [hanswer] at hj ⊢
  have hasked : askedAt h handle ⟨(attempts, buffer), s⟩ = t := congrArg Prod.snd hcall
  dsimp only
  split
  · rename_i hk
    exact yields_pure (.answered (.inl hk) ha hg)
  · rename_i hk
    rw [ne_eq, not_not] at hk
    split
    · exact yields_pure (.answered (.inr (.inl (Nat.zero_le 1))) ha hg)
    · exact yields_pure (.answered (.inr (.inl (Nat.le_refl 1))) ha hg)
    · rename_i rest
      split
      · rename_i hc
        exact yields_log_bind fun _ => yields_pure (.answered (.inr (.inr hc)) ha hg)
      · rename_i hc
        refine yields_log_bind fun log => ?_
        refine (Arena.yields_allocates h.heap _ { t with log }).bind ?_
        rintro _ v (⟨hr, hva, hvg⟩ | ⟨larger, hr, hva, hvg, hvj⟩)
        · exact yields_pure (.refused hk (by simp) hc (hasked ▸ hr) (hva.trans ha) (hvg.trans hg))
        · refine (Arena.yields_frees h.heap _ v).bind ?_
          rintro _ w ⟨hwa, hwg, hwj⟩
          have hopen : v.arena.closed = false := by
            rw [hva]
            exact Arena.opened_of_not_refuses hr
          rw [hva, ha] at hwa
          refine yields_pure (.larger hk rfl (by simp) hc (hasked ▸ hr) larger.2 hwa
            (hwg.trans (hvg.trans hg)) ?_)
          rw [hwj hopen, hvj, hj]
          simp [Block.withContents]

variable {h settings handle}

theorem round_of_leads {m n : Moment σ Try} (hl : m.Leads (round h settings handle) n) :
    Round h settings handle m (.inl n.hand) n.session :=
  hl.of_yields (yields_round h settings handle m)

theorem round_of_ends {m : Moment σ Try} {a : Block × Except Fault Status} {t : Session σ}
    (he : m.Ends (round h settings handle) a t) : Round h settings handle m (.inr a) t :=
  he.of_yields (yields_round h settings handle m)

/-- Each round asks once, about the handle and with the buffer in hand. -/
theorem emits_round (m : Moment σ Try) :
    Emits (round h settings handle m.hand) m.session fun events _ =>
      events.filterMap Event.objectQuery? =
        [(handle, m.hand.2.size, (answerAt h handle m).status)] := by
  obtain ⟨⟨attempts, buffer⟩, s⟩ := m
  unfold round
  refine (emits_journaled fun _ => rfl : Emits (h.askObject handle infoClass buffer) s
    fun events reply => events = [.object handle infoClass buffer.size reply.status]).bind ?_
  rintro _ reply t hrun rfl
  obtain rfl : answerAt h handle ⟨(attempts, buffer), s⟩ = reply := congrArg Prod.fst hrun
  generalize (answerAt h handle ⟨(attempts, buffer), s⟩) = reply
  have hasked : ∀ {events : List Event}, (∀ e ∈ events, e.isHeap = true) →
      (.object handle infoClass buffer.size reply.status :: events).filterMap Event.objectQuery? =
        [(handle, buffer.size, reply.status)] := by
    intro events hheap
    show (handle, buffer.size, reply.status) :: events.filterMap Event.objectQuery? = _
    rw [filterMap_objectQuery?_of_isHeap hheap]
  dsimp only
  split
  · exact emits_pure (hasked (by simp))
  · split
    · exact emits_pure (hasked (by simp))
    · exact emits_pure (hasked (by simp))
    · split
      · exact emits_say_bind fun u => emits_pure (hasked (by simp))
      · refine emits_say_bind fun u => (Arena.emits_allocate h.heap _ u).bind ?_
        rintro allocated (_ | larger) v - ha
        · exact emits_pure (hasked (by simpa using ha))
        · refine (Arena.emits_free h.heap _ v).bind ?_
          intro freed _ w _ hf
          exact emits_pure (hasked (by simpa using List.forall_mem_append.mpr ⟨ha, hf⟩))

/-! ## All rounds -/

/-- How one round stands to the next: the buffer was too short, a larger one was handed out, which
is not over the ceiling, and the short one went back then. -/
structure Grows (h : Host σ) (settings : Settings) (handle : HandleId) (m n : Moment σ Try) :
    Prop where
  short : ShortAt h handle m
  size : n.hand.2.size.toNat =
    if m.hand.2.size.toNat < ((answerAt h handle m).length.getD 0).toNat
    then ((answerAt h handle m).length.getD 0).toNat else 2 * m.hand.2.size.toNat
  grows : m.hand.2.size < n.hand.2.size
  ceiling : n.hand.2.size ≤ settings.nameBufferCeiling
  granted : ¬Arena.Refuses h.heap (askedAt h handle m) (nextAt h handle m)
  journal : n.session.journal.toList = m.session.journal.toList ++
    [.object handle infoClass m.hand.2.size (answerAt h handle m).status,
      .allocated n.hand.2.size (some n.hand.2.address),
      .released m.hand.2.address m.hand.2.size]

/-- What is kept from round to round: the attempts that are left and those used up are those at the
beginning, and the arena counts the buffer in hand in the place of the first one. -/
structure Keeps (before : Arena) (guess first : UInt64) (attempts k : Nat) (m : Moment σ Try) :
    Prop where
  attempts : m.hand.1 + k = attempts
  left : k = 0 ∨ 0 < m.hand.1
  pos : 0 < m.hand.2.size.toNat
  arena : m.session.arena = before.exchange first m.hand.2.size
  guess : m.session.guess = guess

theorem toNat_nextAt (m : Moment σ Try) : (nextAt h handle m).toNat =
    if m.hand.2.size.toNat < ((answerAt h handle m).length.getD 0).toNat
    then ((answerAt h handle m).length.getD 0).toNat else 2 * m.hand.2.size.toNat :=
  toNat_nextSize _ m.hand.2.small

section

variable {before : Arena} {guess first : UInt64} {attempts k : Nat} {m n : Moment σ Try}

theorem grows_of_leads (hl : m.Leads (round h settings handle) n)
    (hm : 0 < m.hand.2.size.toNat) : Grows h settings handle m n := by
  have hnext : (nextAt h handle m).toNat = _ := toNat_nextAt m
  have hgrows : m.hand.2.size.toNat < (nextAt h handle m).toNat := by
    rw [hnext]
    split <;> omega
  cases round_of_leads hl with
  | larger hk _ _ hc hr hs _ _ hj =>
    have hsize : n.hand.2.size.toNat = (nextAt h handle m).toNat := by
      rw [hs, Arena.toNat_granted]
      omega
    refine ⟨hk, hsize.trans hnext, ?_, ?_, hr, hj⟩
    · rw [UInt64.lt_iff_toNat_lt, hsize]
      exact hgrows
    · rw [UInt64.lt_iff_toNat_lt] at hc
      rw [UInt64.le_iff_toNat_le, hsize]
      omega

theorem Keeps.step (hm : Keeps before guess first attempts k m)
    (hl : m.Leads (round h settings handle) n) : Keeps before guess first attempts (k + 1) n := by
  have hgrows := (grows_of_leads hl hm.pos).grows
  rw [UInt64.lt_iff_toNat_lt] at hgrows
  cases round_of_leads hl with
  | larger _ hn hleft _ _ _ ha hg _ =>
    refine ⟨?_, .inr hleft, by omega, ?_, hg.trans hm.guess⟩
    · rw [← hm.attempts, ← hn]
      omega
    · rw [ha, hm.arena, Arena.giveBack_take_exchange]

/-- Each round but the first has an attempt left. -/
theorem Keeps.index_lt (hm : Keeps before guess first attempts k m) : k < max 1 attempts := by
  have hattempts := hm.attempts
  rcases hm.left with rfl | hleft
  · omega
  · omega

end

/-! ## The end of asking -/

/-- Why the last round is the last one, and what the queries come to.  `used` is the number of the
rounds. -/
inductive Stops (h : Host σ) (settings : Settings) (handle : HandleId) (used : Nat)
    (m : Moment σ Try) : Except Fault Status → Prop
  | answered (hk : ¬ ShortAt h handle m) :
      Stops h settings handle used m (.ok (answerAt h handle m).status)
  | exhausted (hk : ShortAt h handle m) (hn : used = max 1 settings.nameAttempts.toNat) :
      Stops h settings handle used m (.ok (answerAt h handle m).status)
  | overCeiling (hk : ShortAt h handle m)
      (hc : settings.nameBufferCeiling < nextAt h handle m) :
      Stops h settings handle used m (.ok (answerAt h handle m).status)
  | refused (hk : ShortAt h handle m) (hn : used < settings.nameAttempts.toNat)
      (hc : nextAt h handle m ≤ settings.nameBufferCeiling)
      (hr : Arena.Refuses h.heap (askedAt h handle m) (nextAt h handle m)) :
      Stops h settings handle used m (.error (.outOfMemory (nextAt h handle m)))

/-- The name that a buffer holds after queries that came to a status. -/
def verdict (last : Block) : Except Fault Status → Except Fault Name
  | .error fault => .error fault
  | .ok status =>
    if status.isSuccess then read last
    else .error (.failed Capability.queryObject.entryPoint status)

/-- What asking for a name does, round by round.  `ms` are the moments at which the name is asked
for. -/
structure AskedInRounds (h : Host σ) (settings : Settings) (handle : HandleId) (buffer : Block)
    (x : Session σ) (ms : List (Moment σ Try)) (a : Block × Except Fault Name) (t : Session σ) :
    Prop where
  begins : ∀ m ∈ ms.head?, m.hand = (settings.nameAttempts.toNat, buffer) ∧ m.session = x
  /-- The name is not asked for exactly if the entry point is missing; then nothing is done. -/
  missing : ms = [] ↔ h.has x.host .queryObject = false
  unasked : ms = [] → a = (buffer, .error (.missing .queryObject)) ∧ t = x
  leads : ms.IsChain (Moment.Leads (round h settings handle))
  queries : ∃ events, t.journal.toList = x.journal.toList ++ events ∧
    events.filterMap Event.objectQuery? =
      ms.map fun m => (handle, m.hand.2.size, (answerAt h handle m).status)
  count : ms.length ≤ max 1 settings.nameAttempts.toNat
  keeps : ∀ k m, ms[k]? = some m →
    Keeps x.arena x.guess buffer.size settings.nameAttempts.toNat k m
  grows : ms.IsChain (Grows h settings handle)
  /-- The buffer at the end is that of the last query, which left it and the arena as they are. -/
  stops : ∀ m ∈ ms.getLast?, a.1 = filledAt h handle m ∧ t.arena = m.session.arena ∧
    ∃ q, Stops h settings handle ms.length m q ∧ a.2 = verdict a.1 q
  /-- One buffer is in the place of the one at the beginning. -/
  exchanged : t.arena = x.arena.exchange buffer.size a.1.size ∧ t.guess = x.guess
  /-- There is no memory exactly where the last query found the buffer too short with attempts left,
  and the arena refused the one to try next, which is not over the ceiling. -/
  refused : ∀ size, a.2 = .error (.outOfMemory size) ↔ ∃ m, ms.getLast? = some m ∧
    ShortAt h handle m ∧ ms.length < settings.nameAttempts.toNat ∧ size = nextAt h handle m ∧
    size ≤ settings.nameBufferCeiling ∧ Arena.Refuses h.heap (askedAt h handle m) size
  /-- There is only a name after a query that succeeded, for which the buffer was not too short, and
  it is the one that the buffer holds. -/
  succeeded : ∀ name, a.2 = .ok name → ∃ m, ms.getLast? = some m ∧ ¬ ShortAt h handle m ∧
    (answerAt h handle m).status.isSuccess = true ∧ read a.1 = .ok name

section

variable {buffer last : Block} {x u t : Session σ} {m : Moment σ Try}
  {rest : List (Moment σ Try)} {q : Except Fault Status}

theorem read_eq_error {b : Block} {fault : Fault} (he : read b = .error fault) :
    fault = .malformedName := by
  unfold read at he
  split at he
  · cases he
    rfl
  · dsimp only at he
    split at he
    · cases he
    · split at he
      · cases he
        rfl
      · cases he

/-- A name comes of a success and of what the buffer holds. -/
theorem verdict_eq_ok {name : Name} (hv : verdict last q = .ok name) :
    ∃ status, q = .ok status ∧ status.isSuccess = true ∧ read last = .ok name := by
  cases q with
  | error fault => cases hv
  | ok status =>
    unfold verdict at hv
    dsimp only at hv
    split at hv
    · exact ⟨status, rfl, ‹_›, hv⟩
    · cases hv

/-- Nothing else than the queries runs out of memory. -/
theorem verdict_eq_outOfMemory_iff {size : UInt64} :
    verdict last q = .error (.outOfMemory size) ↔ q = .error (.outOfMemory size) := by
  cases q with
  | error fault => simp [verdict]
  | ok status =>
    refine iff_of_false (fun hv => ?_) nofun
    unfold verdict at hv
    dsimp only at hv
    split at hv
    · cases read_eq_error hv
    · cases hv

/-- The queries run out of memory where a larger buffer was to be tried, and was refused. -/
theorem Stops.outOfMemory_iff {used : Nat} {n : Moment σ Try}
    (hs : Stops h settings handle used n q) (size : UInt64) :
    q = .error (.outOfMemory size) ↔ ShortAt h handle n ∧ used < settings.nameAttempts.toNat ∧
      size = nextAt h handle n ∧ size ≤ settings.nameBufferCeiling ∧
      Arena.Refuses h.heap (askedAt h handle n) size := by
  cases hs with
  | answered hk => exact iff_of_false nofun fun ⟨hshort, _⟩ => hk hshort
  | exhausted _ hn =>
    refine iff_of_false nofun ?_
    rintro ⟨-, hused, -⟩
    omega
  | overCeiling _ hc =>
    refine iff_of_false nofun ?_
    rintro ⟨-, -, rfl, hle, -⟩
    exact absurd hc (UInt64.not_lt.mpr hle)
  | refused hk hn hc hr =>
    constructor
    · intro he
      cases he
      exact ⟨hk, hn, rfl, hc, hr⟩
    · rintro ⟨-, -, rfl, -, -⟩
      rfl

/-- Why the queries end. -/
theorem stops_of_rounds (hr : Rounds (round h settings handle) (m :: rest) (last, q) u)
    (hm : Keeps x.arena x.guess buffer.size settings.nameAttempts.toNat 0 m) :
    ∃ n, (m :: rest).getLast? = some n ∧ last = filledAt h handle n ∧
      u.arena = n.session.arena ∧ u.guess = x.guess ∧
      Stops h settings handle (m :: rest).length n q := by
  obtain ⟨n, hlast, hends⟩ := hr.ended
  have hindex : (m :: rest)[rest.length]? = some n := by
    rw [List.getLast?_eq_getElem?] at hlast
    exact hlast
  have hn := hr.at_index hm Keeps.step _ n hindex
  have hattempts := hn.attempts
  have hleft := hn.left
  refine ⟨n, hlast, ?_⟩
  cases round_of_ends hends with
  | answered hk ha hg =>
    refine ⟨rfl, ha, hg.trans hn.guess, ?_⟩
    by_cases hshort : ShortAt h handle n
    · rcases hk with hk | hk | hk
      · exact absurd hshort hk
      · refine .exhausted hshort ?_
        rw [List.length_cons]
        omega
      · exact .overCeiling hshort hk
    · exact .answered hshort
  | refused hk hmore hc hrefused ha hg =>
    refine ⟨rfl, ha, hg.trans hn.guess, .refused hk ?_ (UInt64.not_lt.mp hc) hrefused⟩
    rw [List.length_cons]
    omega

/-- The session after the queries: at most an event is written. -/
structure Closes (u t : Session σ) : Prop where
  arena : t.arena = u.arena
  guess : t.guess = u.guess
  journal : ∃ events, t.journal.toList = u.journal.toList ++ events ∧
    events.filterMap Event.objectQuery? = []

theorem askedInRounds_cons (hthere : h.has x.host .queryObject = true)
    (hpos : 0 < buffer.size.toNat)
    (hr : Rounds (round h settings handle)
      (⟨(settings.nameAttempts.toNat, buffer), x⟩ :: rest) (last, q) u)
    (ht : Closes u t) :
    AskedInRounds h settings handle buffer x (⟨(settings.nameAttempts.toNat, buffer), x⟩ :: rest)
      (last, verdict last q) t := by
  have hkeeps : Keeps x.arena x.guess buffer.size settings.nameAttempts.toNat 0
      (⟨(settings.nameAttempts.toNat, buffer), x⟩ : Moment σ Try) :=
    ⟨rfl, .inl rfl, hpos, (Arena.exchange_self _ _).symm, rfl⟩
  obtain ⟨n, hlast, hfilled, harena, hguess, hstops⟩ := stops_of_rounds hr hkeeps
  obtain ⟨k, hk⟩ := List.mem_iff_getElem?.mp (List.mem_of_getLast? hlast)
  have hn := hr.at_index hkeeps Keeps.step k n hk
  refine ⟨?_, by simp [hthere], by simp, hr.chain, ?_,
    hr.length_le hkeeps Keeps.step Keeps.index_lt, hr.at_index hkeeps Keeps.step,
    hr.chain_of hkeeps Keeps.step fun hm hl => grows_of_leads hl hm.pos, ?_, ?_, ?_, ?_⟩
  · rintro _ ⟨⟩
    exact ⟨rfl, rfl⟩
  · obtain ⟨events, hj, hqueries⟩ := hr.traces emits_round
    obtain ⟨more, hmore, hnone⟩ := ht.journal
    refine ⟨events ++ more, ?_, ?_⟩
    · rw [hmore, hj, List.append_assoc]
    · rw [List.filterMap_append, hqueries, hnone, List.append_nil]
  · intro n' hn'
    obtain rfl : n = n' := Option.some.inj (hlast.symm.trans hn')
    exact ⟨hfilled, ht.arena.trans harena, q, hstops, rfl⟩
  · refine ⟨?_, ht.guess.trans hguess⟩
    rw [ht.arena, harena, hn.arena, hfilled]
    rfl
  · intro size
    rw [verdict_eq_outOfMemory_iff, hstops.outOfMemory_iff]
    constructor
    · exact fun hrefused => ⟨n, hlast, hrefused⟩
    · rintro ⟨n', hn', hrefused⟩
      obtain rfl : n = n' := Option.some.inj (hlast.symm.trans hn')
      exact hrefused
  · intro name hname
    obtain ⟨status, rfl, hsuccess, hread⟩ := verdict_eq_ok hname
    -- A query that found the buffer too short is no success, whatever ended the series.
    have hstatus : status = (answerAt h handle n).status := by cases hstops <;> rfl
    rw [hstatus] at hsuccess
    refine ⟨n, hlast, fun hshort => ?_, hsuccess, hread⟩
    rw [Status.isSuccess_of_kind_eq_bufferTooSmall hshort] at hsuccess
    cases hsuccess

theorem askedInRounds_nil (hmissing : h.has x.host .queryObject = false) :
    AskedInRounds h settings handle buffer x [] (buffer, .error (.missing .queryObject)) x where
  begins := by simp
  missing := by simp [hmissing]
  unasked := fun _ => ⟨rfl, rfl⟩
  leads := List.isChain_nil
  queries := ⟨[], by simp, rfl⟩
  count := by simp
  keeps := by simp
  grows := List.isChain_nil
  stops := by simp
  exchanged := ⟨(Arena.exchange_self _ _).symm, rfl⟩
  refused := fun _ => iff_of_false nofun (by simp)
  succeeded := nofun

end

/-- Whatever the kernel answers and whatever the heap refuses, a name is asked for in rounds like
that, with any buffer that an arena handed out. -/
theorem asked_in_rounds (h : Host σ) (settings : Settings) (handle : HandleId) {size : UInt64}
    (buffer : { b : Block // b.size = Arena.granted size }) (x : Session σ) :
    ∃ ms, AskedInRounds h settings handle buffer x ms ((ask h settings handle buffer).run x).1
      ((ask h settings handle buffer).run x).2 := by
  change Yields (ask h settings handle buffer) x fun a t =>
    ∃ ms, AskedInRounds h settings handle buffer x ms a t
  have hpos : 0 < buffer.1.size.toNat := by
    rw [buffer.2, Arena.toNat_granted]
    omega
  have hless : ∀ m n : Moment σ Try, m.Leads (round h settings handle) n →
      n.hand.1 < m.hand.1 := by
    intro m n hl
    cases round_of_leads hl with
    | larger _ hn _ _ _ _ _ _ _ => omega
  have hloop : ∀ i : Try, query h settings handle i.1 i.2 = round h settings handle i >>=
      Sum.elim (fun i => query h settings handle i.1 i.2) pure :=
    fun i => query_eq h settings handle i.1 i.2
  unfold ask
  refine Host.yields_has_bind ?_
  cases hthere : h.has x.host .queryObject with
  | false => exact yields_pure ⟨[], askedInRounds_nil hthere⟩
  | true =>
    have hqueries : Yields (query h settings handle settings.nameAttempts.toNat buffer) x
        fun a u => ∃ rest, Rounds (round h settings handle)
          (⟨(settings.nameAttempts.toNat, buffer.1), x⟩ :: rest) a u :=
      exists_rounds hloop Prod.fst hless ⟨(settings.nameAttempts.toNat, buffer.1), x⟩
    have hend : ∀ {last : Block} {q : Except Fault Status} {rest : List (Moment σ Try)}
        {u t : Session σ} {answer : Except Fault Name}, Rounds (round h settings handle)
          (⟨(settings.nameAttempts.toNat, buffer.1), x⟩ :: rest) (last, q) u → Closes u t →
        answer = verdict last q →
        Yields (pure (last, answer)) t fun a t =>
          ∃ ms, AskedInRounds h settings handle buffer x ms a t := by
      rintro last q rest u t _ hr ht rfl
      exact yields_pure ⟨_, askedInRounds_cons hthere hpos hr ht⟩
    have hsame : ∀ u : Session σ, Closes u u := fun u => ⟨rfl, rfl, [], by simp, rfl⟩
    refine hqueries.bind ?_
    rintro ⟨last, fault | status⟩ u ⟨rest, hr⟩
    · exact hend hr (hsame u) rfl
    · dsimp only
      split
      · rename_i hs
        split
        · rename_i fault hread
          exact hend hr (hsame u) (by rw [verdict, if_pos hs, hread])
        · rename_i name hread
          refine yields_event_bind fun t ha hg hj => ?_
          refine hend hr ⟨ha, hg, [.named handle name.units], ?_, rfl⟩ ?_
          · rw [hj, Array.toList_push]
          · rw [verdict, if_pos hs, hread]
      · rename_i hs
        exact hend hr (hsame u) (by rw [verdict, if_neg hs])

end Name

end FileHolders
