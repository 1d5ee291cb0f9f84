import FileHolders.Proofs.Report
import FileHolders.Proofs.World

/-!
# What a search comes to in a world

In a world, what is said of a record does not depend on the records before it: whether its process
is within reach, whether its handle comes to the caller, what it refers to.  So the holders are those
records that are found to hold the target, one for each run of the same process, and the counts are
counts of records and of runs of records.

    s.expectedHolders w = ((w.records.filter (s.holds w)).destutter …).map w.holder

`Account.step` gives the same, one record after the other, from what a search remembers.

    (w.records.foldl (Account.step s w) {}).holders = s.expectedHolders w
    (w.records.foldl (Account.step s w) {}).tally = s.expectedTally w              (foldl_expected)
-/

namespace FileHolders

/-! ## One record of a world -/

namespace World

/-- The records that can be read. -/
def records (w : World) : List Record := if w.has .queryTable then w.table else []

/-- Whether a process is within reach of the caller. -/
def reaches (w : World) (own pid : UInt64) : Bool :=
  pid = own || (w.has .openProcess && (w.opening pid).isSuccess)

/-- Whether a process refuses access. -/
def denies (w : World) (own pid : UInt64) : Bool :=
  pid ≠ own && w.has .openProcess && (w.opening pid).kind = .accessDenied

/-- A process that refuses access is out of reach. -/
theorem reaches_of_denies {w : World} {own pid : UInt64} (h : w.denies own pid = true) :
    w.reaches own pid = false := by
  simp only [denies, Bool.and_eq_true, decide_eq_true_eq] at h
  obtain ⟨⟨hpid, -⟩, hkind⟩ := h
  have hfailure : (w.opening pid).isSuccess = false :=
    Status.isSuccess_of_kind_eq_accessDenied hkind
  simp [reaches, hpid, hfailure]

/-- Whether the handle of a record comes to the caller once its process is within reach. -/
def brings (w : World) (own : UInt64) (r : Record) : Bool :=
  r.pid = own || (w.has .duplicate && (w.duplication r.pid r.handleValue).isSuccess)

/-- The name of the file that the handle of a record refers to. -/
def nameOf (w : World) (r : Record) : Option Name :=
  if w.has .queryObject && w.kind r.pid r.handleValue = .disk then
    (w.name r.pid r.handleValue).toOption
  else none

/-- The holder that a record is reported as. -/
def holder (w : World) (r : Record) : Holder :=
  { pid := r.pid, imagePath := w.image r.pid, handleValue := r.handleValue,
    grantedAccess := r.grantedAccess }

/-- The processes that the caller tries to open, out of those that it comes across one after the
other.  The one that refused access last is not tried again. -/
def attempted (w : World) (own : UInt64) : Option UInt64 → List UInt64 → List UInt64
  | _, [] => []
  | denied, pid :: rest =>
    if denied = some pid then attempted w own denied rest
    else pid :: attempted w own (if w.denies own pid then some pid else denied) rest

end World

/-! ## The outcome -/

namespace Search

variable {σ : Type} (s : Search σ) (w : World)

/-- Whether the search looks at the handle of a record. -/
def looksAt (r : Record) : Bool :=
  w.reaches s.host.ownPid r.pid && !(s.options.ignoreSelf && r.pid = s.host.ownPid) &&
    w.brings s.host.ownPid r

/-- The name that the search reads for a record. -/
def nameSeen (r : Record) : Option Name := if s.looksAt w r then w.nameOf r else none

/-- Whether a record is one of a handle to the target. -/
def holds (r : Record) : Bool := (s.nameSeen w r).any s.covers

/-- The holders: of each run of records that hold the target and are of one process, the first. -/
def expectedHolders : List Holder :=
  ((w.records.filter (s.holds w)).destutter fun a b => a.pid ≠ b.pid).map w.holder

/-- The counts. -/
def expectedTally : Tally :=
  let attempted := w.attempted s.host.ownPid none ((w.records.map Record.pid).destutter (· ≠ ·))
  { records := w.records.length
    attempts := attempted.length
    opened := attempted.countP (w.reaches s.host.ownPid)
    denied := attempted.countP (w.denies s.host.ownPid)
    duplicated := w.records.countP fun r => r.pid ≠ s.host.ownPid && s.looksAt w r
    named := w.records.countP fun r => (s.nameSeen w r).isSome }

/-- The outcome of a search that is not cancelled. -/
def expectedOutcome : Outcome where
  found := !(s.expectedHolders w).isEmpty
  cancelled := false
  holders := s.expectedHolders w
  tally := s.expectedTally w

/-- What the report tells up to its last line. -/
def expectedBody : List String :=
  if w.has .queryTable then s.holderLines (s.expectedHolders w)
  else [unreadableLine (.missing .queryTable)]

/-- The report: a line is not repeated right after itself. -/
def expectedLines : List String :=
  (s.expectedBody w ++
    [if (s.expectedHolders w).isEmpty then notFoundLine s.settings.applicationName s.text
      else foundLine]).destutter (· ≠ ·)

end Search

/-! ## One record after the other -/

attribute [ext] Tally

/-- Drops each element that has the key of the one that was kept before it. -/
def collapse {α : Type} (key : α → UInt64) : Option UInt64 → List α → List α
  | _, [] => []
  | last, a :: rest =>
    if last = some (key a) then collapse key last rest else a :: collapse key (some (key a)) rest

theorem destutter'_eq_collapse {α : Type} (key : α → UInt64) (a : α) (items : List α) :
    items.destutter' (fun a b => key a ≠ key b) a = a :: collapse key (some (key a)) items := by
  induction items generalizing a with
  | nil => rfl
  | cons b items ih =>
    rw [List.destutter', collapse]
    by_cases h : key a = key b
    · rw [if_neg (by simpa using h), if_pos (by rw [h]), ih]
    · rw [if_pos h, if_neg (by simpa using h), ih]

theorem collapse_none {α : Type} (key : α → UInt64) (items : List α) :
    collapse key none items = items.destutter fun a b => key a ≠ key b := by
  cases items with
  | nil => rfl
  | cons a items =>
    rw [List.destutter_cons', destutter'_eq_collapse, collapse, if_neg (by simp)]

/-- What a search remembers from record to record, and what it has gathered. -/
structure Account where
  /-- The process of the record before. -/
  current : Option UInt64 := none
  /-- The process that refused access last. -/
  denied : Option UInt64 := none
  /-- The process that was reported last. -/
  last : Option UInt64 := none
  holders : List Holder := []
  tally : Tally := {}

namespace Account

variable {σ : Type} (s : Search σ) (w : World)

/-- Whether a record of a process makes the search open it. -/
def tries (a : Account) (pid : UInt64) : Bool := a.current ≠ some pid && a.denied ≠ some pid

/-- What turning to the process of a record adds. -/
def turned (a : Account) (pid : UInt64) : Account where
  current := some pid
  denied := if a.tries pid && w.denies s.host.ownPid pid then some pid else a.denied
  last := a.last
  holders := a.holders
  tally :=
    { a.tally with
      attempts := a.tally.attempts + if a.tries pid then 1 else 0
      opened := a.tally.opened + if a.tries pid && w.reaches s.host.ownPid pid then 1 else 0
      denied := a.tally.denied + if a.tries pid && w.denies s.host.ownPid pid then 1 else 0 }

/-- What the handle of a record adds. -/
def attended (a : Account) (r : Record) : Account where
  current := a.current
  denied := a.denied
  last := if s.holds w r then some r.pid else a.last
  holders := if s.holds w r && a.last ≠ some r.pid then a.holders ++ [w.holder r] else a.holders
  tally :=
    { a.tally with
      duplicated := a.tally.duplicated +
        if r.pid ≠ s.host.ownPid && s.looksAt w r then 1 else 0
      named := a.tally.named + if (s.nameSeen w r).isSome then 1 else 0 }

/-- What one record adds. -/
def step (a : Account) (r : Record) : Account :=
  (turned s w { a with tally.records := a.tally.records + 1 } r.pid).attended s w r

theorem foldl_holders (records : List Record) (a : Account) :
    (records.foldl (step s w) a).holders =
      a.holders ++ (collapse Record.pid a.last (records.filter (s.holds w))).map w.holder := by
  induction records generalizing a with
  | nil => simp [collapse]
  | cons r records ih =>
    rw [List.foldl_cons, ih]
    cases hh : s.holds w r with
    | false => simp [step, attended, turned, hh]
    | true =>
      by_cases hl : a.last = some r.pid
      · simp [step, attended, turned, hh, hl, collapse]
      · simp [step, attended, turned, hh, hl, collapse]

/-- The counts of records. -/
theorem foldl_tally_records (records : List Record) (a : Account) :
    (records.foldl (step s w) a).tally.records = a.tally.records + records.length ∧
      (records.foldl (step s w) a).tally.duplicated = a.tally.duplicated +
        (records.countP fun r => r.pid ≠ s.host.ownPid && s.looksAt w r) ∧
      (records.foldl (step s w) a).tally.named = a.tally.named +
        (records.countP fun r => (s.nameSeen w r).isSome) := by
  induction records generalizing a with
  | nil => simp
  | cons r records ih =>
    obtain ⟨hrecords, hduplicated, hnamed⟩ := ih (step s w a r)
    rw [List.foldl_cons, hrecords, hduplicated, hnamed, List.countP_cons, List.countP_cons,
      List.length_cons]
    simp only [step, attended, turned]
    omega

/-- The counts of runs of records. -/
theorem foldl_tally_runs (records : List Record) (a : Account) :
    let attempted := w.attempted s.host.ownPid a.denied
      (collapse id a.current (records.map Record.pid))
    (records.foldl (step s w) a).tally.attempts = a.tally.attempts + attempted.length ∧
      (records.foldl (step s w) a).tally.opened =
        a.tally.opened + attempted.countP (w.reaches s.host.ownPid) ∧
      (records.foldl (step s w) a).tally.denied =
        a.tally.denied + attempted.countP (w.denies s.host.ownPid) := by
  induction records generalizing a with
  | nil => simp [collapse, World.attempted]
  | cons r records ih =>
    obtain ⟨hattempts, hopened, hdenied⟩ := ih (step s w a r)
    rw [List.foldl_cons, hattempts, hopened, hdenied, List.map_cons, collapse]
    by_cases hc : a.current = some r.pid
    · simp [step, attended, turned, tries, hc]
    · by_cases hd : a.denied = some r.pid
      · simp [step, attended, turned, tries, hc, hd, World.attempted]
      · have htries : tries { a with tally.records := a.tally.records + 1 } r.pid = true := by
          simp [tries, hc, hd]
        simp only [step, attended, turned, htries, if_neg hc, id, World.attempted, if_neg hd,
          List.countP_cons, List.length_cons, Bool.true_and, if_true]
        omega

/-- From nothing, an account of the records of a world comes to what is expected. -/
theorem foldl_expected :
    (w.records.foldl (step s w) {}).holders = s.expectedHolders w ∧
      (w.records.foldl (step s w) {}).tally = s.expectedTally w := by
  constructor
  · rw [foldl_holders, collapse_none]
    rfl
  · obtain ⟨hrecords, hduplicated, hnamed⟩ := foldl_tally_records s w w.records {}
    obtain ⟨hattempts, hopened, hdenied⟩ := foldl_tally_runs s w w.records {}
    rw [collapse_none] at hattempts hopened hdenied
    ext
    · exact hrecords.trans (Nat.zero_add _)
    · exact hattempts.trans (Nat.zero_add _)
    · exact hopened.trans (Nat.zero_add _)
    · exact hdenied.trans (Nat.zero_add _)
    · exact hduplicated.trans (Nat.zero_add _)
    · exact hnamed.trans (Nat.zero_add _)

end Account

end FileHolders
