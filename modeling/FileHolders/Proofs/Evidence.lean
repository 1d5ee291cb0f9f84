import FileHolders.Proofs.Accounting
import Mathlib.Data.List.Chain

/-!
# The evidence for a holder

The records that a search turned to stand in its journal, so each later event belongs to the record
that was turned to last.  A holder is backed by the events of one record: the handle that stands for
it was classified as a disk file, a query for its name succeeded, the name that was read is covered
by the target, and the path is what the host answered for the process of the record.

A ledger holds the holders with the indices of their records.  It is complete: where a covered name
was read, the nearest holder up to there has the pid of that record.

    lastPid found ≠ some r.pid → Backed s (es ++ …) n holder →
      Ledger s es found → Ledger s (es ++ …) (found ++ [(n, holder)])             (Ledger.found)
    Ledger s es found → Grouped (recordsIn es) → (found.map (·.2.pid)).Nodup       (Ledger.nodup)
    Backed s es i holder → Matches s es i                                         (Backed.matches)
-/

namespace FileHolders

/-- The record that a holder was reported for. -/
def Holder.record (h : Holder) : Record := ⟨h.pid, h.handleValue, h.grantedAccess⟩

/-! ## Records in the journal -/

/-- The record that an event turns to. -/
def Event.record? : Event → Option Record
  | .record pid value access => some ⟨pid, value, access⟩
  | _ => none

/-- The records that the events turn to, in order. -/
def recordsIn (events : List Event) : List Record := events.filterMap Event.record?

/-- Whether an event tells of no record, no name and no holder. -/
def Event.isPlain : Event → Bool
  | .record _ _ _ | .named _ _ | .holder _ => false
  | _ => true

/-- Events that tell of no record, no name and no holder. -/
def Plain (events : List Event) : Prop := ∀ e ∈ events, e.isPlain = true

theorem recordsIn_append (events more : List Event) :
    recordsIn (events ++ more) = recordsIn events ++ recordsIn more := List.filterMap_append

theorem recordsIn_cons {e : Event} (h : e.record? = none) (events : List Event) :
    recordsIn (e :: events) = recordsIn events := List.filterMap_cons_none h

theorem recordsIn_record (r : Record) (events : List Event) :
    recordsIn (.record r.pid r.handleValue r.grantedAccess :: events) = r :: recordsIn events := rfl

theorem Plain.append {events more : List Event} (h : Plain events) (hm : Plain more) :
    Plain (events ++ more) := List.forall_mem_append.mpr ⟨h, hm⟩

theorem plain_nil : Plain [] := by simp [Plain]

theorem plain_singleton {e : Event} (h : e.isPlain = true) : Plain [e] := by simpa [Plain] using h

theorem Hosted.plain {events : List Event} (h : Hosted events) : Plain events := by
  intro e he
  have hhost := h e he
  cases e <;> simp_all [Event.isHost, Event.isPlain]

theorem Outer.plain {events : List Event} (h : Outer events) : Plain events := by
  intro e he
  have houter := h e he
  cases e <;> simp_all [Event.isOuter, Event.isHeap, Event.isTable, Event.isPlain]

theorem Plain.recordsIn {events : List Event} (h : Plain events) : recordsIn events = [] := by
  apply List.filterMap_eq_nil_iff.mpr
  intro e he
  have hplain := h e he
  cases e <;> simp_all [Event.isPlain, Event.record?]

theorem Plain.not_named {events : List Event} (h : Plain events) (handle : HandleId)
    (units : List UInt16) : .named handle units ∉ events := by
  intro hmem
  cases h _ hmem

/-! ## Names in the journal -/

/-- The handle and the name that an event tells of. -/
def Event.name? : Event → Option (HandleId × Name)
  | .named handle units => some (handle, ⟨units⟩)
  | _ => none

/-- The names that the events tell of, each with its handle, in order. -/
def namesIn (events : List Event) : List (HandleId × Name) := events.filterMap Event.name?

theorem namesIn_append (events more : List Event) :
    namesIn (events ++ more) = namesIn events ++ namesIn more := List.filterMap_append

theorem mem_namesIn {events : List Event} {handle : HandleId} {name : Name} :
    (handle, name) ∈ namesIn events ↔ .named handle name.units ∈ events := by
  rw [namesIn, List.mem_filterMap]
  constructor
  · rintro ⟨e, he, hname⟩
    cases e <;> cases hname
    exact he
  · exact fun he => ⟨_, he, rfl⟩

theorem Plain.namesIn {events : List Event} (h : Plain events) : namesIn events = [] := by
  apply List.eq_nil_iff_forall_not_mem.mpr
  rintro ⟨handle, name⟩ hmem
  exact h.not_named handle name.units (mem_namesIn.mp hmem)

/-- A name was noted for the record at an index: the search had turned to that record, and to no
other since. -/
def NamedAt (events : List Event) (i : Nat) (handle : HandleId) (name : Name) : Prop :=
  ∃ before rest, events = before ++ .named handle name.units :: rest ∧
    (recordsIn before).length = i + 1

/-! ## Evidence -/

variable {σ : Type}

/-- A covered name was read for the record at an index. -/
def Matches (s : Search σ) (events : List Event) (i : Nat) : Prop :=
  ∃ handle name, NamedAt events i handle name ∧ s.covers name = true

/-- Events that only send lines. -/
def Lines (events : List Event) : Prop := ∀ e ∈ events, ∃ text, e = .line text

/-- The events from the look at a handle to the report of a holder. -/
inductive Trail (s : Search σ) (holder : Holder) (handle process : HandleId) : List Event → Prop
  | intro {asking heading lines : List Event} (size : UInt64) (status : Status) (name : Name)
      (ha : ∀ e ∈ asking, Name.Concerns handle e) (hs : status.isSuccess = true)
      (hc : s.covers name = true) (hh : Lines heading) (hl : Lines lines) :
      Trail s holder handle process
        (.classified handle .disk ::
          (asking ++ .object handle Name.infoClass size status :: .named handle name.units ::
            (heading ++ .image process holder.imagePath :: (lines ++ [.holder holder]))))

/-- The events tell why a holder was reported for the record at an index: the handle that was looked
at stands for that record, and the process that was asked for its program is the record's. -/
def Backed (s : Search σ) (events : List Event) (i : Nat) (holder : Holder) : Prop :=
  ∃ before handle process trail rest, events = before ++ (trail ++ rest) ∧
    Trail s holder handle process trail ∧ (recordsIn before).length = i + 1 ∧
    (({} : Custody).after s.host.ownPid before).Lends handle ∧
    (({} : Custody).after s.host.ownPid before).Stands process

/-- The records of every process stand together. -/
def Grouped (records : List Record) : Prop :=
  ∀ (i j k : Nat) (a b c : Record), i < j → j < k → records[i]? = some a → records[j]? = some b →
    records[k]? = some c → a.pid = c.pid → b.pid = a.pid

/-- The holders that were reported, each with the index of its record. -/
structure Ledger (s : Search σ) (events : List Event) (found : List (Nat × Holder)) : Prop where
  ordered : (found.map Prod.fst).Pairwise (· < ·)
  backed : ∀ q ∈ found,
    (recordsIn events)[q.1]? = some q.2.record ∧ Backed s events q.1 q.2
  /-- Where a covered name was read, the nearest holder up to there is of the same process. -/
  complete : ∀ i, Matches s events i → ∃ r, (recordsIn events)[i]? = some r ∧
    ∃ earlier q later, found = earlier ++ q :: later ∧ q.1 ≤ i ∧ (∀ q' ∈ later, i < q'.1) ∧
      q.2.pid = r.pid
  neighbours : (found.map Prod.snd).IsChain fun a b => a.pid ≠ b.pid

/-- The process of the holder that was reported last. -/
def lastPid (found : List (Nat × Holder)) : Option UInt64 := found.getLast?.map (·.2.pid)

/-! ## Lemmas about evidence -/

theorem namedAt_append {events more : List Event} {i : Nat} {handle : HandleId} {name : Name} :
    NamedAt (events ++ more) i handle name ↔
      NamedAt events i handle name ∨ ∃ front rest,
        more = front ++ .named handle name.units :: rest ∧
          (recordsIn events).length + (recordsIn front).length = i + 1 := by
  constructor
  · rintro ⟨before, rest, he, hi⟩
    rcases List.append_eq_append_iff.mp he with ⟨front, rfl, hm⟩ | ⟨front, rfl, hm⟩
    · right
      rw [recordsIn_append, List.length_append] at hi
      exact ⟨front, rest, hm, hi⟩
    · cases front with
      | nil => exact .inr ⟨[], rest, hm.symm, by rw [List.append_nil]; exact hi⟩
      | cons e front =>
        obtain ⟨rfl, -⟩ := List.cons.inj hm
        exact .inl ⟨before, front, rfl, hi⟩
  · rintro (⟨before, rest, rfl, hi⟩ | ⟨front, rest, rfl, hi⟩)
    · exact ⟨before, rest ++ more, by simp, hi⟩
    · refine ⟨events ++ front, rest, by simp, ?_⟩
      rw [recordsIn_append, List.length_append]
      exact hi

/-- Plain events before others do not change where a name was noted. -/
theorem Plain.namedAt_append {events more : List Event} {i : Nat} {handle : HandleId} {name : Name}
    (h : Plain events) : NamedAt (events ++ more) i handle name ↔ NamedAt more i handle name := by
  have hnone : ¬NamedAt events i handle name := by
    rintro ⟨before, rest, rfl, -⟩
    exact h.not_named handle name.units (by simp)
  simp only [FileHolders.namedAt_append, or_iff_right hnone, h.recordsIn, List.length_nil,
    Nat.zero_add]
  rfl

/-- Nor do plain events behind others. -/
theorem namedAt_append_plain {events more : List Event} {i : Nat} {handle : HandleId} {name : Name}
    (h : Plain more) : NamedAt (events ++ more) i handle name ↔ NamedAt events i handle name := by
  rw [namedAt_append, or_iff_left]
  rintro ⟨front, rest, rfl, -⟩
  exact h.not_named handle name.units (by simp)

theorem Matches.of_append {s : Search σ} {events more : List Event} {i : Nat}
    (h : Matches s (events ++ more) i) :
    Matches s events i ∨ ∃ front handle units rest,
      more = front ++ .named handle units :: rest ∧ s.covers ⟨units⟩ = true ∧
        (recordsIn events).length + (recordsIn front).length = i + 1 := by
  obtain ⟨handle, name, hnamed, hc⟩ := h
  rcases namedAt_append.mp hnamed with hnamed | ⟨front, rest, hm, hi⟩
  · exact .inl ⟨handle, name, hnamed, hc⟩
  · exact .inr ⟨front, handle, name.units, rest, hm, hc, hi⟩

theorem Backed.append {s : Search σ} {events : List Event} {i : Nat} {holder : Holder}
    (h : Backed s events i holder) (more : List Event) : Backed s (events ++ more) i holder := by
  obtain ⟨before, handle, process, trail, rest, rfl, h⟩ := h
  refine ⟨before, handle, process, trail, rest ++ more, ?_, h⟩
  simp only [List.append_assoc]

/-- A holder is only backed where a covered name was read. -/
theorem Backed.matches {s : Search σ} {events : List Event} {i : Nat} {holder : Holder}
    (h : Backed s events i holder) : Matches s events i := by
  obtain ⟨before, handle, process, trail, rest, rfl, ht, hi, -, -⟩ := h
  cases ht with
  | @intro asking heading lines size status name ha _ hc _ _ =>
    have hasking : recordsIn asking = [] := (hosted_of_concerns ha).plain.recordsIn
    refine ⟨handle, name, ⟨before ++ .classified handle .disk ::
      (asking ++ [.object handle Name.infoClass size status]),
      heading ++ .image process holder.imagePath :: (lines ++ .holder holder :: rest),
      by simp, ?_⟩, hc⟩
    rw [recordsIn_append, recordsIn_cons rfl, recordsIn_append, hasking, List.nil_append,
      recordsIn_cons rfl]
    simpa [recordsIn] using hi

theorem Lines.plain {events : List Event} (h : Lines events) : Plain events := by
  intro e he
  obtain ⟨text, rfl⟩ := h e he
  rfl

section

variable {s : Search σ} {p next : Progress} {events : List Event}

theorem lines_of_sends {text : String} (h : Search.Sends p text events next) : Lines events := by
  cases h with
  | repeated _ => simp [Lines]
  | sent _ => simp [Lines]

theorem lines_of_heads (h : Search.Heads s p events next) :
    Lines events ∧ next.holders = p.holders ∧ next.lastHolder = p.lastHolder := by
  cases h with
  | done _ => exact ⟨by simp [Lines], rfl, rfl⟩
  | first _ hs =>
    obtain ⟨-, hholders, hlast⟩ := hs.sameHolders
    exact ⟨lines_of_sends hs, hholders, hlast⟩

/-- Turning to an owner tells of no record and no holder. -/
theorem plain_of_turns {pid : UInt64} (h : Search.Turns s pid p events next) : Plain events := by
  exact h.forall_mem (fun _ _ => rfl) (fun _ => rfl) (fun _ _ _ _ => rfl)

end

theorem Trail.recordsIn {s : Search σ} {holder : Holder} {handle process : HandleId}
    {events : List Event} (h : Trail s holder handle process events) : recordsIn events = [] := by
  cases h with
  | @intro asking heading lines size status name ha _ _ hh hl =>
    have hasking : FileHolders.recordsIn asking = [] := (hosted_of_concerns ha).plain.recordsIn
    have hheading : FileHolders.recordsIn heading = [] := hh.plain.recordsIn
    have hlines : FileHolders.recordsIn lines = [] := hl.plain.recordsIn
    rw [recordsIn_cons rfl, recordsIn_append, hasking, List.nil_append, recordsIn_cons rfl,
      recordsIn_cons rfl, recordsIn_append, hheading, List.nil_append, recordsIn_cons rfl,
      recordsIn_append, hlines, List.nil_append, recordsIn_cons rfl]
    rfl

/-- Where only lawful things happen, a trail is about the handle and the process of the record. -/
theorem Trail.custody {s : Search σ} {holder : Holder} {handle process : HandleId}
    {events : List Event} {own : UInt64} {c : Custody} (h : Trail s holder handle process events)
    (hlaw : c.Lawful own events) : c.Lends handle ∧ c.Stands process := by
  cases h with
  | @intro asking heading lines size status name ha _ _ hh _ =>
    obtain ⟨part, hpart⟩ : ∃ part, part = .classified handle .disk :: (asking ++
      .object handle Name.infoClass size status :: .named handle name.units :: heading) := ⟨_, rfl⟩
    have hsame : c.after own part = c := by
      apply Custody.after_eq_self
      intro e he
      rw [hpart, List.mem_cons, List.mem_append, List.mem_cons, List.mem_cons] at he
      rcases he with rfl | he | rfl | rfl | he
      · rfl
      · rcases ha e he with hheap | ⟨size, status, rfl⟩
        · exact Custody.step_of_isQuiet own c (Custody.isQuiet_of_isHeap hheap)
        · rfl
      · rfl
      · rfl
      · obtain ⟨text, rfl⟩ := hh e he
        rfl
    have himage : c.Lawful own (part ++ .image process holder.imagePath ::
        (lines ++ [.holder holder])) := by
      rw [hpart]
      simpa using hlaw
    have hstands := himage.allows
    rw [hsame] at hstands
    exact ⟨hlaw.1, hstands⟩

theorem Ledger.nil (s : Search σ) : Ledger s [] [] where
  ordered := List.Pairwise.nil
  backed := by simp
  complete := by
    rintro i ⟨handle, name, ⟨before, rest, he, -⟩, -⟩
    exact absurd he (by simp)
  neighbours := List.isChain_nil

/-- Indices in a ledger are of records that were turned to. -/
theorem Ledger.lt {s : Search σ} {events : List Event} {found : List (Nat × Holder)}
    (h : Ledger s events found) {q : Nat × Holder} (hq : q ∈ found) :
    q.1 < (recordsIn events).length :=
  (List.getElem?_eq_some_iff.mp (h.backed q hq).1).1

theorem getElem?_append_of_eq_some {records : List Record} {i : Nat} {r : Record}
    (h : records[i]? = some r) (more : List Record) : (records ++ more)[i]? = some r := by
  rw [List.getElem?_append_left (List.getElem?_eq_some_iff.mp h).1, h]

/-- More events without a covered name change nothing. -/
theorem Ledger.append {s : Search σ} {events more : List Event} {found : List (Nat × Holder)}
    (h : Ledger s events found)
    (hm : ∀ handle units, .named handle units ∈ more → s.covers ⟨units⟩ = false) :
    Ledger s (events ++ more) found where
  ordered := h.ordered
  backed := by
    intro q hq
    obtain ⟨hr, hb⟩ := h.backed q hq
    rw [recordsIn_append]
    exact ⟨getElem?_append_of_eq_some hr _, hb.append more⟩
  complete := by
    intro i hi
    rcases hi.of_append with hi | ⟨front, handle, units, rest, rfl, hc, -⟩
    · obtain ⟨r, hr, hfound⟩ := h.complete i hi
      rw [recordsIn_append]
      exact ⟨r, getElem?_append_of_eq_some hr _, hfound⟩
    · rw [hm handle units (by simp)] at hc
      cases hc
  neighbours := h.neighbours

/-- Names after a new record are names of that record. -/
theorem matches_of_record {s : Search σ} {events more : List Event} {r : Record} {i : Nat}
    (hm : recordsIn more = [])
    (hi : Matches s (events ++ .record r.pid r.handleValue r.grantedAccess :: more) i) :
    Matches s events i ∨ i = (recordsIn events).length := by
  rcases hi.of_append with hi | ⟨front, handle, units, rest, he, hc, hlen⟩
  · exact .inl hi
  · right
    cases front with
    | nil => exact absurd he (by simp)
    | cons e front =>
      obtain ⟨rfl, rfl⟩ := List.cons.inj he
      rw [List.append_eq, recordsIn_append, List.append_eq_nil_iff] at hm
      rw [recordsIn_record, hm.1] at hlen
      simpa using hlen.symm

/-- A covered name of a new record of the process that was reported last changes nothing. -/
theorem Ledger.again {s : Search σ} {events more : List Event} {found : List (Nat × Holder)}
    {r : Record} (h : Ledger s events found) (hm : recordsIn more = [])
    (hl : lastPid found = some r.pid) :
    Ledger s (events ++ .record r.pid r.handleValue r.grantedAccess :: more) found where
  ordered := h.ordered
  backed := by
    intro q hq
    obtain ⟨hr, hb⟩ := h.backed q hq
    rw [recordsIn_append]
    exact ⟨getElem?_append_of_eq_some hr _, hb.append _⟩
  complete := by
    intro i hi
    rw [recordsIn_append, recordsIn_record]
    rcases matches_of_record hm hi with hi | rfl
    · obtain ⟨r', hr', hfound⟩ := h.complete i hi
      exact ⟨r', getElem?_append_of_eq_some hr' _, hfound⟩
    · obtain ⟨q, hq, hpid⟩ : ∃ q, found.getLast? = some q ∧ q.2.pid = r.pid := by
        simpa [lastPid] using hl
      obtain ⟨earlier, rfl⟩ := List.getLast?_eq_some_iff.mp hq
      refine ⟨r, by simp, earlier, q, [], rfl, ?_, by simp, hpid⟩
      exact Nat.le_of_lt (h.lt (by simp))
  neighbours := h.neighbours

/-- A backed holder of a new record is added, if its process is not the one that was reported last. -/
theorem Ledger.found {s : Search σ} {events more : List Event} {found : List (Nat × Holder)}
    {r : Record} {holder : Holder} (h : Ledger s events found) (hm : recordsIn more = [])
    (hl : lastPid found ≠ some r.pid) (hr : holder.record = r)
    (hb : Backed s (events ++ .record r.pid r.handleValue r.grantedAccess :: more)
      (recordsIn events).length holder) :
    Ledger s (events ++ .record r.pid r.handleValue r.grantedAccess :: more)
      (found ++ [((recordsIn events).length, holder)]) where
  ordered := by
    rw [List.map_append, List.pairwise_append]
    refine ⟨h.ordered, by simp, ?_⟩
    intro i hi j hj
    obtain ⟨q, hq, rfl⟩ := List.mem_map.mp hi
    obtain rfl : j = (recordsIn events).length := by simpa using hj
    exact h.lt hq
  backed := by
    intro q hq
    rw [recordsIn_append, recordsIn_record]
    rcases List.mem_append.mp hq with hq | hq
    · obtain ⟨hr', hb'⟩ := h.backed q hq
      exact ⟨getElem?_append_of_eq_some hr' _, hb'.append _⟩
    · obtain rfl : q = ((recordsIn events).length, holder) := by simpa using hq
      exact ⟨by simp [hr], hb⟩
  complete := by
    intro i hi
    rw [recordsIn_append, recordsIn_record]
    rcases matches_of_record hm hi with hi | rfl
    · obtain ⟨r', hr', earlier, q, later, rfl, hle, hlater, hpid⟩ := h.complete i hi
      refine ⟨r', getElem?_append_of_eq_some hr' _, earlier, q,
        later ++ [((recordsIn events).length, holder)], by simp, hle, ?_, hpid⟩
      intro q' hq'
      rcases List.mem_append.mp hq' with hq' | hq'
      · exact hlater q' hq'
      · obtain rfl : q' = ((recordsIn events).length, holder) := by simpa using hq'
        exact (List.getElem?_eq_some_iff.mp hr').1
    · refine ⟨r, by simp, found, _, [], rfl, Nat.le_refl _, by simp, ?_⟩
      exact congrArg Record.pid hr
  neighbours := by
    rw [List.map_append, List.isChain_append]
    refine ⟨h.neighbours, List.isChain_singleton _, ?_⟩
    intro a ha b hb' hab
    obtain rfl : b = holder := by simpa using hb'.symm
    apply hl
    obtain ⟨q, hq, rfl⟩ : ∃ q, found.getLast? = some q ∧ q.2 = a := by simpa using ha
    rw [lastPid, hq, Option.map_some, hab]
    exact congrArg (some ∘ Record.pid) hr

theorem Grouped.of_prefix {records front : List Record} (h : Grouped records)
    (hp : front <+: records) : Grouped front := by
  obtain ⟨rest, rfl⟩ := hp
  intro i j k a b c hij hjk ha hb hc
  exact h i j k a b c hij hjk (getElem?_append_of_eq_some ha rest)
    (getElem?_append_of_eq_some hb rest) (getElem?_append_of_eq_some hc rest)

/-- Where the records of every process stand together, none is reported twice. -/
theorem Ledger.nodup {s : Search σ} {events : List Event} {found : List (Nat × Holder)}
    (h : Ledger s events found) (hg : Grouped (recordsIn events)) :
    (found.map (·.2.pid)).Nodup := by
  have hlt : ∀ {a b : Nat} {qa qb : Nat × Holder}, found[a]? = some qa → found[b]? = some qb →
      a < b → qa.1 < qb.1 := by
    intro a b qa qb ha hb hab
    obtain ⟨hal, rfl⟩ := List.getElem?_eq_some_iff.mp ha
    obtain ⟨hbl, rfl⟩ := List.getElem?_eq_some_iff.mp hb
    have hpair := List.pairwise_map.mp h.ordered
    exact List.pairwise_iff_getElem.mp hpair a b hal hbl hab
  have hrec : ∀ {a : Nat} {q : Nat × Holder}, found[a]? = some q →
      (recordsIn events)[q.1]? = some q.2.record := fun ha =>
    (h.backed _ (List.mem_of_getElem? ha)).1
  rw [List.nodup_iff_pairwise_ne, List.pairwise_map, List.pairwise_iff_getElem]
  intro a c ha hc hac hsame
  -- the holder after the one at `a` is of another process, and its record lies in between
  have hb : a + 1 < found.length := by omega
  have hne : found[a].2.pid ≠ found[a + 1].2.pid := by
    have hchain := List.isChain_iff_getElem.mp h.neighbours a (by simpa using hb)
    simpa using hchain
  have hqa : found[a]? = some found[a] := List.getElem?_eq_getElem ha
  have hqb : found[a + 1]? = some found[a + 1] := List.getElem?_eq_getElem hb
  have hqc : found[c]? = some found[c] := List.getElem?_eq_getElem hc
  rcases Nat.lt_or_ge (a + 1) c with hbc | hbc
  · have hpid := hg _ _ _ _ _ _ (hlt hqa hqb (by omega)) (hlt hqb hqc hbc) (hrec hqa) (hrec hqb)
      (hrec hqc) hsame
    exact hne hpid.symm
  · obtain rfl : c = a + 1 := by omega
    exact hne hsame

end FileHolders
