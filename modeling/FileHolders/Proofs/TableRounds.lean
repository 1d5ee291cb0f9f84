import FileHolders.Proofs.Rounds
import Mathlib.Tactic.Ring

/-!
# Reading the table in rounds

Each round of a reading asks for the table once.  If the kernel finds the buffer too short, the
buffer goes back and one of twice the size takes its place, unless that is over the ceiling or
refused.  Sizes below 2^63 double at most 62 times, so there are at most 63 rounds, whatever the
ceiling.

Nothing is left behind by a reading that fails: the arena counts what it counted before, and the
first guess is the one before.  A reading that succeeds leaves the last buffer.  A reading is out of
memory exactly where the arena refused a block that it needed.

    fill h settings b = round h settings b >>= Sum.elim (fill h settings) pure             (fill_eq)
    Yields (round h settings m.hand) m.session (Round h settings m)                  (yields_round)
    ∃ ms, ReadInRounds h settings x ms answer t                                     (read_in_rounds)
-/

namespace FileHolders

open FileHolders.Action

variable {σ : Type}

/-- The size and the status of a table query. -/
def Event.tableQuery? : Event → Option (UInt64 × Status)
  | .table _ size status => some (size, status)
  | _ => none

theorem filterMap_tableQuery?_of_isHeap {events : List Event} (h : ∀ e ∈ events, e.isHeap = true) :
    events.filterMap Event.tableQuery? = [] :=
  filterMap_eq_nil_of_isHeap (fun e he => by cases e <;> first | rfl | cases he) h

namespace Table

variable (h : Host σ) (settings : Settings)

/-! ## One round -/

/-- One round of filling a block: the next block, or the end. -/
def round (block : Block) : Action σ (Block ⊕ Except Fault Block) := do
  let reply ← h.askTable infoClass block
  match reply.status.kind with
  | .success => pure (.inr (.ok (block.withContents reply.contents)))
  | .bufferTooSmall =>
    Arena.free h.heap block
    if settings.tableCeiling < Word.double block.size then
      warn (s!"handle table would need {Word.double block.size} bytes, over the " ++
        s!"{settings.tableCeiling} byte ceiling")
      pure (.inr (.error (.overCeiling (Word.double block.size) settings.tableCeiling)))
    else
      debug s!"growing handle table buffer to {Word.double block.size} bytes"
      match ← Arena.allocate h.heap (Word.double block.size) with
      | none => pure (.inr (.error (.outOfMemory (Word.double block.size))))
      | some larger => pure (.inl larger.1)
  | _ =>
    Arena.free h.heap block
    pure (.inr (.error (.failed Capability.queryTable.entryPoint reply.status)))

/-- Filling a block goes in rounds. -/
theorem fill_eq (block : Block) :
    fill h settings block = round h settings block >>= Sum.elim (fill h settings) pure := by
  rw [fill, round, bind_assoc]
  refine bind_congr fun reply => ?_
  cases reply.status.kind with
  | bufferTooSmall =>
    rw [bind_assoc]
    refine bind_congr fun _ => ?_
    split
    · simp only [bind_assoc, pure_bind, Sum.elim_inr]
    · rw [bind_assoc]
      refine bind_congr fun _ => ?_
      rw [bind_assoc]
      refine bind_congr fun larger => ?_
      cases larger with
      | none => simp only [pure_bind, Sum.elim_inr]
      | some larger => simp only [pure_bind, Sum.elim_inl]
  | _ => simp only [bind_assoc, pure_bind, Sum.elim_inr]

/-- The answer to the query that is made at a moment. -/
def answerAt (m : Moment σ Block) : QueryReply :=
  ((h.queryTable infoClass m.hand).run m.session.host).1

/-- The session after that query and after its buffer went back, in which a larger one may be asked
for. -/
def returnedAt (m : Moment σ Block) : Session σ :=
  ((h.askTable infoClass m.hand >>= fun _ => Arena.free h.heap m.hand).run m.session).2

/-- What one round comes to, to the letter. -/
inductive Round (m : Moment σ Block) : Block ⊕ Except Fault Block → Session σ → Prop
  | filled {t : Session σ} (hk : (answerAt h m).status.kind = .success)
      (ha : t.arena = m.session.arena) (hg : t.guess = m.session.guess) :
      Round m (.inr (.ok (m.hand.withContents (answerAt h m).contents))) t
  | overCeiling {t : Session σ} (hk : (answerAt h m).status.kind = .bufferTooSmall)
      (hc : settings.tableCeiling < Word.double m.hand.size)
      (ha : t.arena = m.session.arena.giveBack m.hand.size) (hg : t.guess = m.session.guess) :
      Round m (.inr (.error (.overCeiling (Word.double m.hand.size) settings.tableCeiling))) t
  | refused {t : Session σ} (hk : (answerAt h m).status.kind = .bufferTooSmall)
      (hc : ¬ settings.tableCeiling < Word.double m.hand.size)
      (hr : Arena.Refuses h.heap (returnedAt h m) (Word.double m.hand.size))
      (ha : t.arena = m.session.arena.giveBack m.hand.size) (hg : t.guess = m.session.guess) :
      Round m (.inr (.error (.outOfMemory (Word.double m.hand.size)))) t
  | larger {t : Session σ} {b : Block} (hk : (answerAt h m).status.kind = .bufferTooSmall)
      (hc : ¬ settings.tableCeiling < Word.double m.hand.size)
      (hr : ¬Arena.Refuses h.heap (returnedAt h m) (Word.double m.hand.size))
      (hs : b.size = Arena.granted (Word.double m.hand.size))
      (ha : t.arena = (m.session.arena.giveBack m.hand.size).take b.size)
      (hg : t.guess = m.session.guess)
      (hj : t.journal.toList = m.session.journal.toList ++
        [.table infoClass m.hand.size (answerAt h m).status, .released m.hand.address m.hand.size,
          .allocated b.size (some b.address)]) :
      Round m (.inl b) t
  | failed {t : Session σ} (hk : (answerAt h m).status.kind ≠ .success)
      (hs : (answerAt h m).status.kind ≠ .bufferTooSmall)
      (ha : t.arena = m.session.arena.giveBack m.hand.size) (hg : t.guess = m.session.guess) :
      Round m (.inr (.error (.failed Capability.queryTable.entryPoint (answerAt h m).status))) t

theorem yields_round (m : Moment σ Block) :
    Yields (round h settings m.hand) m.session (Round h settings m) := by
  have hanswer : ((h.queryTable infoClass m.hand).run m.session.host).1 = answerAt h m := rfl
  unfold round
  refine yields_call_bind ?_
  intro t hcall ha hg hj
  rw [hanswer] at hj ⊢
  have hasked : (h.askTable infoClass m.hand).run m.session = (answerAt h m, t) := hcall
  split
  · rename_i hk
    exact yields_pure (.filled hk ha hg)
  · rename_i hk
    refine (Arena.yields_frees h.heap m.hand t).and_run.bind ?_
    rintro _ u ⟨⟨hua, hug, huj⟩, hback⟩
    have hu : returnedAt h m = u := by rw [returnedAt, run_bind, hasked, hback]
    rw [ha] at hua
    rw [hg] at hug
    split
    · rename_i hc
      exact yields_log_bind fun _ => yields_pure (.overCeiling hk hc hua hug)
    · rename_i hc
      refine yields_log_bind fun log => ?_
      refine (Arena.yields_allocates h.heap _ { u with log }).bind ?_
      rintro _ w (⟨hr, hwa, hwg⟩ | ⟨larger, hr, hwa, hwg, hwj⟩)
      · exact yields_pure (.refused hk hc (hu ▸ hr) (hwa.trans hua) (hwg.trans hug))
      · have hopen : t.arena.closed = false := by
          have ho := Arena.opened_of_not_refuses hr
          rw [hua, ← ha] at ho
          exact ho
        rw [hua] at hwa
        refine yields_pure (.larger hk hc (hu ▸ hr) larger.2 hwa (hwg.trans hug) ?_)
        rw [hwj, huj hopen, hj]
        simp
  · rename_i hk hs
    refine (Arena.yields_frees h.heap m.hand t).bind ?_
    rintro _ u ⟨hua, hug, -⟩
    rw [ha] at hua
    exact yields_pure (.failed hk hs hua (hug.trans hg))

variable {h settings}

theorem round_of_leads {m n : Moment σ Block} (hl : m.Leads (round h settings) n) :
    Round h settings m (.inl n.hand) n.session := hl.of_yields (yields_round h settings m)

theorem round_of_ends {m : Moment σ Block} {a : Except Fault Block} {t : Session σ}
    (he : m.Ends (round h settings) a t) : Round h settings m (.inr a) t :=
  he.of_yields (yields_round h settings m)

/-- Each round asks once, about the block in hand. -/
theorem emits_round (m : Moment σ Block) :
    Emits (round h settings m.hand) m.session fun events _ =>
      events.filterMap Event.tableQuery? = [(m.hand.size, (answerAt h m).status)] := by
  unfold round
  refine (emits_journaled fun _ => rfl : Emits (h.askTable infoClass m.hand) m.session
    fun events reply => events = [.table infoClass m.hand.size reply.status]).bind ?_
  rintro _ reply t hrun rfl
  obtain rfl : answerAt h m = reply := congrArg Prod.fst hrun
  have hasked : ∀ {events : List Event}, (∀ e ∈ events, e.isHeap = true) →
      (.table infoClass m.hand.size (answerAt h m).status :: events).filterMap Event.tableQuery? =
        [(m.hand.size, (answerAt h m).status)] := by
    intro events hheap
    show (m.hand.size, (answerAt h m).status) :: events.filterMap Event.tableQuery? = _
    rw [filterMap_tableQuery?_of_isHeap hheap]
  split
  · exact emits_pure (hasked (by simp))
  · refine (Arena.emits_free h.heap m.hand t).bind ?_
    intro freed _ u _ hf
    split
    · exact emits_say_bind fun v => emits_pure (hasked (by simpa using hf))
    · refine emits_say_bind fun v => (Arena.emits_allocate h.heap _ v).bind ?_
      rintro allocated (_ | larger) w - ha
      · exact emits_pure (hasked (by simpa using List.forall_mem_append.mpr ⟨hf, ha⟩))
      · exact emits_pure (hasked (by simpa using List.forall_mem_append.mpr ⟨hf, ha⟩))
  · refine (Arena.emits_free h.heap m.hand t).bind ?_
    intro freed _ u _ hf
    exact emits_pure (hasked (by simpa using hf))

/-! ## All rounds -/

/-- How one round stands to the next: the buffer was too short, it went back, and one of twice the
size was handed out then, which is not over the ceiling. -/
structure Doubles (h : Host σ) (settings : Settings) (m n : Moment σ Block) : Prop where
  short : (answerAt h m).status.kind = .bufferTooSmall
  size : n.hand.size.toNat = 2 * m.hand.size.toNat
  ceiling : n.hand.size ≤ settings.tableCeiling
  granted : ¬Arena.Refuses h.heap (returnedAt h m) (Word.double m.hand.size)
  journal : n.session.journal.toList = m.session.journal.toList ++
    [.table infoClass m.hand.size (answerAt h m).status, .released m.hand.address m.hand.size,
      .allocated n.hand.size (some n.hand.address)]

/-- What is kept from round to round.  Besides its buffer the reading has nothing of the arena. -/
structure Keeps (before : Arena) (guess : UInt64) (first k : Nat) (m : Moment σ Block) : Prop where
  size : m.hand.size.toNat = first * 2 ^ k
  arena : m.session.arena = before.take m.hand.size
  guess : m.session.guess = guess

/-- A size below 2^63 that is not zero can be doubled, and a block of twice the size is granted as
that. -/
theorem toNat_granted_double (b : Block) (hb : 0 < b.size.toNat) :
    (Word.double b.size).toNat = 2 * b.size.toNat ∧
      (Arena.granted (Word.double b.size)).toNat = 2 * b.size.toNat := by
  have hs := Word.size_eq
  have hsmall := b.small
  rw [Arena.toNat_granted, Word.toNat_double]
  omega

section

variable {before : Arena} {guess : UInt64} {first k : Nat} {m n : Moment σ Block}

theorem Keeps.pos (hm : Keeps before guess first k m) (hf : 0 < first) : 0 < m.hand.size.toNat := by
  rw [hm.size]
  exact Nat.mul_pos hf (Nat.two_pow_pos k)

theorem doubles_of_leads (hl : m.Leads (round h settings) n) (hm : 0 < m.hand.size.toNat) :
    Doubles h settings m n := by
  obtain ⟨hdouble, hgranted⟩ := toNat_granted_double m.hand hm
  cases round_of_leads hl with
  | larger hk hc hr hs _ _ hj =>
    rw [← hs] at hgranted
    refine ⟨hk, hgranted, ?_, hr, hj⟩
    rw [UInt64.lt_iff_toNat_lt, hdouble] at hc
    rw [UInt64.le_iff_toNat_le, hgranted]
    omega

theorem Keeps.step (hm : Keeps before guess first k m) (hf : 0 < first)
    (hl : m.Leads (round h settings) n) : Keeps before guess first (k + 1) n := by
  have hdoubles := doubles_of_leads hl (hm.pos hf)
  cases round_of_leads hl with
  | larger _ _ _ _ ha hg _ =>
    refine ⟨?_, ?_, hg.trans hm.guess⟩
    · rw [hdoubles.size, hm.size]
      ring
    · rw [ha, hm.arena, Arena.giveBack_take]

/-- No block is half as large as the address space. -/
theorem Keeps.index_lt (hm : Keeps before guess first k m) (hf : 0 < first) : k < 63 := by
  have hsmall := m.hand.small
  rw [hm.size] at hsmall
  by_contra hk
  have hpow : 2 ^ 63 ≤ 2 ^ k := Nat.pow_le_pow_right (by decide) (by omega)
  have hmul : 2 ^ k ≤ first * 2 ^ k := Nat.le_mul_of_pos_left _ hf
  omega

end

section

variable {before : Arena} {guess : UInt64} {first : Nat} {m : Moment σ Block}
  {rest : List (Moment σ Block)} {a : Except Fault Block} {t : Session σ}

theorem keeps_of_rounds (hr : Rounds (round h settings) (m :: rest) a t)
    (hm : Keeps before guess first 0 m) (hf : 0 < first) :
    ∀ k n, (m :: rest)[k]? = some n → Keeps before guess first k n :=
  hr.at_index hm fun hm hl => hm.step hf hl

/-- The last round gives up the block in hand, or the reading ends with it. -/
theorem end_of_rounds (hr : Rounds (round h settings) (m :: rest) a t)
    (hm : Keeps before guess first 0 m) (hf : 0 < first) :
    match a with
    | .error _ => t.arena = before ∧ t.guess = guess
    | .ok filled => t.arena = before.take filled.size ∧ t.guess = guess := by
  obtain ⟨n, hlast, hends⟩ := hr.ended
  obtain ⟨k, hk⟩ := List.mem_iff_getElem?.mp (List.mem_of_getLast? hlast)
  obtain ⟨-, harena, hguess⟩ := keeps_of_rounds hr hm hf k n hk
  have hback : n.session.arena.giveBack n.hand.size = before := by
    rw [harena, Arena.giveBack_take]
  cases round_of_ends hends with
  | filled _ ha hg => exact ⟨ha.trans harena, hg.trans hguess⟩
  | overCeiling _ _ ha hg => exact ⟨ha.trans hback, hg.trans hguess⟩
  | refused _ _ _ ha hg => exact ⟨ha.trans hback, hg.trans hguess⟩
  | failed _ _ ha hg => exact ⟨ha.trans hback, hg.trans hguess⟩

/-- The reading ends over the ceiling where a buffer was too short and twice its size is over the
ceiling, and nowhere else. -/
theorem overCeiling_iff_of_rounds (hr : Rounds (round h settings) (m :: rest) a t)
    (hm : Keeps before guess first 0 m) (hf : 0 < first) (requested ceiling : UInt64) :
    a = .error (.overCeiling requested ceiling) ↔
      ceiling = settings.tableCeiling ∧ settings.tableCeiling < requested ∧
        ∃ n ∈ m :: rest, (answerAt h n).status.kind = .bufferTooSmall ∧
          requested.toNat = 2 * n.hand.size.toNat := by
  have hdouble : ∀ n ∈ m :: rest, (Word.double n.hand.size).toNat = 2 * n.hand.size.toNat := by
    intro n hn
    obtain ⟨k, hk⟩ := List.mem_iff_getElem?.mp hn
    exact (toNat_granted_double n.hand ((keeps_of_rounds hr hm hf k n hk).pos hf)).1
  constructor
  · rintro rfl
    obtain ⟨n, hlast, hends⟩ := hr.ended
    have hn := List.mem_of_getLast? hlast
    cases round_of_ends hends with
    | overCeiling hk hc _ _ => exact ⟨rfl, hc, n, hn, hk, hdouble n hn⟩
  · rintro ⟨rfl, hover, n, hn, hshort, hrequested⟩
    obtain rfl : requested = Word.double n.hand.size :=
      UInt64.toNat_inj.mp (hrequested.trans (hdouble n hn).symm)
    rcases hr.leads_or_ends hn with ⟨_, -, hl⟩ | hends
    · cases round_of_leads hl with
      | larger _ hc _ _ _ _ _ => exact absurd hover hc
    · cases round_of_ends hends with
      | filled hk _ _ => rw [hshort] at hk; cases hk
      | overCeiling _ _ _ _ => rfl
      | refused _ hc _ _ _ => exact absurd hover hc
      | failed _ hs _ _ => exact absurd hshort hs

end

/-- The rounds end out of memory where the last buffer was too short and the arena refused one of
twice its size, and nowhere else. -/
theorem outOfMemory_iff_of_rounds {ms : List (Moment σ Block)} {a : Except Fault Block}
    {t : Session σ} (hr : Rounds (round h settings) ms a t) (requested : UInt64) :
    a = .error (.outOfMemory requested) ↔ ∃ m, ms.getLast? = some m ∧
      (answerAt h m).status.kind = .bufferTooSmall ∧ requested = Word.double m.hand.size ∧
      requested ≤ settings.tableCeiling ∧ Arena.Refuses h.heap (returnedAt h m) requested := by
  obtain ⟨n, hlast, hends⟩ := hr.ended
  constructor
  · rintro rfl
    cases round_of_ends hends with
    | refused hk hc hrefused _ _ => exact ⟨n, hlast, hk, rfl, UInt64.not_lt.mp hc, hrefused⟩
  · rintro ⟨m, hm, hshort, rfl, hceiling, hrefused⟩
    obtain rfl : n = m := Option.some.inj (hlast.symm.trans hm)
    cases round_of_ends hends with
    | filled hk _ _ => rw [hshort] at hk; cases hk
    | overCeiling _ hc _ _ => exact absurd hceiling (UInt64.not_le.mpr hc)
    | refused _ _ _ _ _ => rfl
    | failed _ hs _ _ => exact absurd hshort hs

/-- Filling a block goes in rounds, since the sizes grow. -/
theorem fill_in_rounds (h : Host σ) (settings : Settings) (m : Moment σ Block) :
    Yields (fill h settings m.hand) m.session fun a t =>
      ∃ rest, Rounds (round h settings) (m :: rest) a t := by
  refine exists_rounds (fill_eq h settings) (fun b => UInt64.size - b.size.toNat) ?_ m
  intro m n hl
  have hlt := size_lt_granted_double m.hand
  have hle := n.hand.size.toNat_lt_size
  cases round_of_leads hl with
  | larger _ _ _ hs _ _ _ =>
    rw [← hs] at hlt
    omega

/-! ## The reading -/

/-- Why the last round is the last one, and what the reading comes to. -/
inductive Stops (h : Host σ) (settings : Settings) (m : Moment σ Block) : Except Fault Table → Prop
  | filled (hk : (answerAt h m).status.kind = .success) :
      Stops h settings m (.ok ⟨m.hand.withContents (answerAt h m).contents⟩)
  | overCeiling (hk : (answerAt h m).status.kind = .bufferTooSmall)
      (hc : settings.tableCeiling < Word.double m.hand.size) :
      Stops h settings m
        (.error (.overCeiling (Word.double m.hand.size) settings.tableCeiling))
  | refused (hk : (answerAt h m).status.kind = .bufferTooSmall)
      (hc : Word.double m.hand.size ≤ settings.tableCeiling)
      (hr : Arena.Refuses h.heap (returnedAt h m) (Word.double m.hand.size)) :
      Stops h settings m (.error (.outOfMemory (Word.double m.hand.size)))
  | failed (hk : (answerAt h m).status.kind ≠ .success)
      (hs : (answerAt h m).status.kind ≠ .bufferTooSmall) :
      Stops h settings m
        (.error (.failed Capability.queryTable.entryPoint (answerAt h m).status))

theorem stops_of_ends {m : Moment σ Block} {a : Except Fault Block} {t : Session σ}
    (he : m.Ends (round h settings) a t) : Stops h settings m (a.map Table.mk) := by
  cases round_of_ends he with
  | filled hk _ _ => exact .filled hk
  | overCeiling hk hc _ _ => exact .overCeiling hk hc
  | refused hk hc hr _ _ => exact .refused hk (UInt64.not_lt.mp hc) hr
  | failed hk hs _ _ => exact .failed hk hs

/-- What a reading does, round by round.  `ms` are the moments at which the table is asked for. -/
structure ReadInRounds (h : Host σ) (settings : Settings) (x : Session σ)
    (ms : List (Moment σ Block)) (a : Except Fault Table) (t : Session σ) : Prop where
  /-- The first moment is the one at which the first buffer was handed out. -/
  begins : ∀ m ∈ ms.head?, ∃ b, b.1 = m.hand ∧
    (Arena.allocate h.heap (max x.guess 1)).run x = (some b, m.session)
  missing : h.has x.host .queryTable = false → ms = [] ∧ t = x
  /-- The table is only not asked for if the entry point is missing or the first buffer is
  refused. -/
  unasked : ms = [] → a = .error
      (if h.has x.host .queryTable then .outOfMemory (max x.guess 1) else .missing .queryTable) ∧
    (h.has x.host .queryTable = true → Arena.Refuses h.heap x (max x.guess 1))
  leads : ms.IsChain (Moment.Leads (round h settings))
  queries : ∃ events, t.journal.toList = x.journal.toList ++ events ∧
    events.filterMap Event.tableQuery? = ms.map fun m => (m.hand.size, (answerAt h m).status)
  count : ms.length ≤ 63
  /-- The sizes double from the first guess on, and at each query the arena counts the buffer and
  what it counted before. -/
  keeps : ∀ k m, ms[k]? = some m → Keeps x.arena x.guess (max x.guess.toNat 1) k m
  doubles : ms.IsChain (Doubles h settings)
  stops : ∀ m ∈ ms.getLast?, Stops h settings m a
  failed : ∀ fault, a = .error fault → t.arena = x.arena ∧ t.guess = x.guess
  overCeiling : ∀ requested ceiling, a = .error (.overCeiling requested ceiling) ↔
    ceiling = settings.tableCeiling ∧ settings.tableCeiling < requested ∧
      ∃ m ∈ ms, (answerAt h m).status.kind = .bufferTooSmall ∧
        requested.toNat = 2 * m.hand.size.toNat
  /-- A reading succeeds with the last buffer, which is all that the arena counts besides.  Its size
  is the next first guess unless it is too large for that. -/
  succeeded : ∀ table, a = .ok table → ∃ m, ms.getLast? = some m ∧
    (answerAt h m).status.kind = .success ∧
    table.block = m.hand.withContents (answerAt h m).contents ∧
    t.arena = x.arena.take m.hand.size ∧
    t.guess = if m.hand.size ≤ settings.guessCeiling then m.hand.size else x.guess
  /-- A reading is out of memory exactly if the arena refuses the first buffer, or the larger one
  for which the last query calls. -/
  outOfMemory : ∀ requested, a = .error (.outOfMemory requested) ↔
    (h.has x.host .queryTable = true ∧ requested = max x.guess 1 ∧
      Arena.Refuses h.heap x requested) ∨
    ∃ m, ms.getLast? = some m ∧ (answerAt h m).status.kind = .bufferTooSmall ∧
      requested = Word.double m.hand.size ∧ requested ≤ settings.tableCeiling ∧
      Arena.Refuses h.heap (returnedAt h m) requested

/-- A reading that does not come to its first round. -/
theorem readInRounds_nil {x t : Session σ} {fault : Fault} {events : List Event}
    (hj : t.journal.toList = x.journal.toList ++ events) (he : ∀ e ∈ events, e.isHeap = true)
    (ha : t.arena = x.arena) (hg : t.guess = x.guess)
    (hmissing : h.has x.host .queryTable = false → t = x)
    (hrefused : h.has x.host .queryTable = true → Arena.Refuses h.heap x (max x.guess 1))
    (hfault : fault =
      if h.has x.host .queryTable then .outOfMemory (max x.guess 1) else .missing .queryTable) :
    ReadInRounds h settings x [] (.error fault) t where
  begins := by simp
  missing := fun hn => ⟨rfl, hmissing hn⟩
  unasked := fun _ => ⟨congrArg _ hfault, hrefused⟩
  leads := List.isChain_nil
  queries := ⟨events, hj, filterMap_tableQuery?_of_isHeap he⟩
  count := by simp
  keeps := by simp
  doubles := List.isChain_nil
  stops := by simp
  failed := fun _ _ => ⟨ha, hg⟩
  overCeiling := by
    intro requested ceiling
    have hother : fault ≠ .overCeiling requested ceiling := by
      rw [hfault]
      split
      · nofun
      · nofun
    simpa using hother
  succeeded := by simp
  outOfMemory := by
    intro requested
    cases hthere : h.has x.host .queryTable with
    | false =>
      have hother : fault ≠ .outOfMemory requested := by
        rw [hfault, hthere]
        nofun
      simpa using hother
    | true =>
      have hfirst : fault = .outOfMemory (max x.guess 1) := by rw [hfault, if_pos hthere]
      constructor
      · intro he
        cases hfirst.symm.trans (Except.error.inj he)
        exact .inl ⟨rfl, rfl, hrefused hthere⟩
      · rintro (⟨-, rfl, -⟩ | ⟨m, hm, -⟩)
        · rw [hfirst]
        · cases hm

/-- The session after a reading.  A buffer that was filled leaves its size as the next guess. -/
structure Closes (settings : Settings) (a : Except Fault Block) (u t : Session σ) : Prop where
  arena : t.arena = u.arena
  journal : t.journal = u.journal
  guess : t.guess = match a with
    | .error _ => u.guess
    | .ok filled => nextGuess u.guess filled.size settings.guessCeiling

theorem yields_remember_bind {α : Type} {size ceiling : UInt64} {g : Unit → Action σ α}
    {u : Session σ} {post : α → Session σ → Prop}
    (hg : ∀ t : Session σ, t.arena = u.arena → t.journal = u.journal →
      t.guess = nextGuess u.guess size ceiling → Yields (g ()) t post) :
    Yields (remember size ceiling >>= g) u post := hg _ rfl rfl rfl

/-- A reading that comes to its first round. -/
theorem readInRounds_cons {x u t : Session σ} {m : Moment σ Block} {rest : List (Moment σ Block)}
    {a : Except Fault Block} {events : List Event}
    {b : { b : Block // b.size = Arena.granted (max x.guess 1) }}
    (hthere : h.has x.host .queryTable = true)
    (hb : (Arena.allocate h.heap (max x.guess 1)).run x = (some b, m.session)) (hm : b.1 = m.hand)
    (hj : m.session.journal.toList = x.journal.toList ++ events)
    (he : ∀ e ∈ events, e.isHeap = true) (ha : m.session.arena = x.arena.take m.hand.size)
    (hg : m.session.guess = x.guess) (hr : Rounds (round h settings) (m :: rest) a u)
    (ht : Closes settings a u t) :
    ReadInRounds h settings x (m :: rest) (a.map Table.mk) t := by
  have hfirst : 0 < max x.guess.toNat 1 := by omega
  have hkeeps : Keeps x.arena x.guess (max x.guess.toNat 1) 0 m := by
    have hone : (1 : UInt64).toNat = 1 := rfl
    refine ⟨?_, ha, hg⟩
    rw [← hm, b.2, Arena.toNat_granted, Word.toNat_max, hone]
    omega
  have hend := end_of_rounds hr hkeeps hfirst
  have hstep : ∀ {k m n}, Keeps x.arena x.guess (max x.guess.toNat 1) k m →
      m.Leads (round h settings) n → Keeps x.arena x.guess (max x.guess.toNat 1) (k + 1) n :=
    fun hm hl => hm.step hfirst hl
  refine ⟨?_, by simp [hthere], by simp, hr.chain, ?_,
    hr.length_le hkeeps hstep fun hm => hm.index_lt hfirst, hr.at_index hkeeps hstep,
    hr.chain_of hkeeps hstep fun hm hl => doubles_of_leads hl (hm.pos hfirst), ?_, ?_, ?_, ?_, ?_⟩
  · rintro _ ⟨⟩
    exact ⟨b, hm, hb⟩
  · obtain ⟨more, hmore, hqueries⟩ := hr.traces emits_round
    refine ⟨events ++ more, ?_, ?_⟩
    · rw [ht.journal, hmore, hj, List.append_assoc]
    · rw [List.filterMap_append, filterMap_tableQuery?_of_isHeap he, hqueries]
      rfl
  · intro n hn
    obtain ⟨n', hlast, hends⟩ := hr.ended
    obtain rfl : n' = n := Option.some.inj (hlast.symm.trans hn)
    exact stops_of_ends hends
  · intro fault hfault
    cases a with
    | ok filled => cases hfault
    | error cause => exact ⟨ht.arena.trans hend.1, ht.guess.trans hend.2⟩
  · intro requested ceiling
    rw [← overCeiling_iff_of_rounds hr hkeeps hfirst]
    cases a with
    | ok filled => simp [Except.map]
    | error fault => simp [Except.map]
  · rintro table htable
    cases a with
    | error fault => cases htable
    | ok filled =>
      cases htable
      obtain ⟨n, hlast, hends⟩ := hr.ended
      cases round_of_ends hends with
      | filled hk _ _ =>
        refine ⟨n, hlast, hk, rfl, ht.arena.trans hend.1, ?_⟩
        rw [ht.guess, hend.2]
        rfl
  · intro requested
    have hgranted : ¬Arena.Refuses h.heap x (max x.guess 1) := by
      rw [← Arena.allocate_eq_none_iff, hb]
      nofun
    have hfirst : ¬(h.has x.host .queryTable = true ∧ requested = max x.guess 1 ∧
        Arena.Refuses h.heap x requested) := by
      rintro ⟨-, rfl, hrefused⟩
      exact hgranted hrefused
    rw [or_iff_right hfirst, ← outOfMemory_iff_of_rounds hr]
    cases a with
    | ok filled => simp [Except.map]
    | error fault => simp [Except.map]

/-- Whatever the kernel answers, whatever the heap refuses and however high the ceiling is, a
reading goes in rounds like that. -/
theorem read_in_rounds (h : Host σ) (settings : Settings) (x : Session σ) :
    ∃ ms, ReadInRounds h settings x ms ((read h settings).run x).1 ((read h settings).run x).2 := by
  change Yields (read h settings) x fun a t => ∃ ms, ReadInRounds h settings x ms a t
  unfold read
  refine Host.yields_has_bind ?_
  split
  · rename_i hthere
    apply yields_get_bind
    dsimp only
    have hfirst : Yields (Arena.allocate h.heap (max x.guess 1)) x fun b y =>
        (Arena.allocate h.heap (max x.guess 1)).run x = (b, y) ∧
          Arena.Allocates h.heap (max x.guess 1) x b y ∧
          ∃ events, y.journal.toList = x.journal.toList ++ events ∧
            ∀ e ∈ events, e.isHeap = true :=
      ⟨rfl, Arena.yields_allocates h.heap _ x, Arena.emits_allocate h.heap _ x⟩
    refine hfirst.bind ?_
    rintro _ y ⟨hb, ⟨hr, ha, hg⟩ | ⟨b, -, ha, hg, -⟩, events, hj, he⟩
    · exact yields_pure ⟨[], readInRounds_nil hj he ha hg (by simp [hthere]) (fun _ => hr)
        (by rw [if_pos hthere])⟩
    · refine (fill_in_rounds h settings ⟨b.1, y⟩).bind ?_
      rintro (fault | filled) u ⟨rest, hr⟩
      · exact yields_pure ⟨_, readInRounds_cons hthere hb rfl hj he ha hg hr ⟨rfl, rfl, rfl⟩⟩
      · refine yields_remember_bind fun v hva hvj hvg => yields_log_bind fun _ => ?_
        exact yields_pure ⟨_, readInRounds_cons hthere hb rfl hj he ha hg hr ⟨hva, hvj, hvg⟩⟩
  · rename_i hmissing
    have hnothing : x.journal.toList = x.journal.toList ++ [] := (List.append_nil _).symm
    exact yields_pure ⟨[], readInRounds_nil hnothing (by simp) rfl rfl (fun _ => rfl)
      (fun hthere => absurd hthere hmissing) (by rw [if_neg hmissing])⟩

end Table

end FileHolders
