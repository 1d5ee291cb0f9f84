import FileHolders.Proofs.NamesRead

/-!
# Holders are reported on good grounds

What the events of one record come to is read off the course of a search: no covered name, one of
the process that was reported last, or one of another process, which is reported.  A ledger is kept
along the walk, and so every search ends with one.  The names in it are those that were read out of
the buffers, so a ledger never rests on what the search only says of itself.

    s.Steps r p es next → ∃ more, es = .record … :: more ∧ Finds s r p more next      (finds_of_steps)
    Grounded s (s.snapshot x) (s.namesOf x) (eventsOf s.run x) outcome.holders      (holders_grounded)
-/

namespace FileHolders

variable {σ : Type}

/-! ## What a record comes to -/

/-- What the events of one record come to: no covered name, one of the process that was reported
last, or one of another process, which is reported. -/
inductive Finds (s : Search σ) (r : Record) (p : Progress) : List Event → Progress → Prop
  | nothing {events : List Event} {next : Progress} (hr : recordsIn events = [])
      (hn : ∀ handle units, .named handle units ∈ events → s.covers ⟨units⟩ = false)
      (hh : next.holders = p.holders) (hl : next.lastHolder = p.lastHolder) :
      Finds s r p events next
  | again {events : List Event} {next : Progress} (hr : recordsIn events = [])
      (hp : p.lastHolder = some r.pid) (hh : next.holders = p.holders)
      (hl : next.lastHolder = p.lastHolder) : Finds s r p events next
  | found {front trail closing : List Event} {next : Progress} {holder : Holder}
      {handle process : HandleId} (hf : Plain front) (ht : Trail s holder handle process trail)
      (hc : Plain closing) (hr : holder.record = r) (hp : p.lastHolder ≠ some r.pid)
      (hh : next.holders = p.holders.push holder) (hl : next.lastHolder = some r.pid) :
      Finds s r p (front ++ (trail ++ closing)) next

theorem Finds.recordsIn {s : Search σ} {r : Record} {p next : Progress} {events : List Event}
    (h : Finds s r p events next) : recordsIn events = [] := by
  cases h with
  | nothing hr _ _ _ => exact hr
  | again hr _ _ _ => exact hr
  | found hf ht hc _ _ _ _ =>
    rw [recordsIn_append, recordsIn_append, hf.recordsIn, ht.recordsIn, hc.recordsIn]
    rfl

/-- Plain events come to nothing. -/
theorem finds_of_plain (s : Search σ) (r : Record) {p next : Progress} {events : List Event}
    (h : Plain events) (hh : next.holders = p.holders) (hl : next.lastHolder = p.lastHolder) :
    Finds s r p events next :=
  .nothing h.recordsIn (fun handle units hmem => absurd hmem (h.not_named handle units)) hh hl

/-- Plain events around others do not change what they come to. -/
theorem Finds.around {s : Search σ} {r : Record} {p next : Progress}
    {front events closing : List Event} (h : Finds s r p events next) (hf : Plain front)
    (hc : Plain closing) : Finds s r p (front ++ (events ++ closing)) next := by
  have hrecords : FileHolders.recordsIn (front ++ (events ++ closing)) = [] := by
    rw [recordsIn_append, recordsIn_append, hf.recordsIn, h.recordsIn, hc.recordsIn]
    rfl
  cases h with
  | nothing _ hn hh hl =>
    refine .nothing hrecords ?_ hh hl
    intro handle units hmem
    rcases List.mem_append.mp hmem with hmem | hmem
    · exact absurd hmem (hf.not_named handle units)
    · rcases List.mem_append.mp hmem with hmem | hmem
      · exact hn handle units hmem
      · exact absurd hmem (hc.not_named handle units)
  | again _ hp hh hl => exact .again hrecords hp hh hl
  | @found front' trail closing' _ _ _ _ hf' ht hc' hr hp hh hl =>
    have hsame : front ++ (front' ++ (trail ++ closing') ++ closing) =
        (front ++ front') ++ (trail ++ (closing' ++ closing)) := by
      simp only [List.append_assoc]
    rw [hsame]
    exact .found (hf.append hf') ht (hc'.append hc) hr hp hh hl

/-- Only the holders before matter. -/
theorem Finds.congr {s : Search σ} {r : Record} {p q next : Progress} {events : List Event}
    (h : Finds s r q events next) (hh : q.holders = p.holders)
    (hl : q.lastHolder = p.lastHolder) : Finds s r p events next := by
  cases h with
  | nothing hr hn hh' hl' => exact .nothing hr hn (hh'.trans hh) (hl'.trans hl)
  | again hr hp hh' hl' => exact .again hr (hl ▸ hp) (hh'.trans hh) (hl'.trans hl)
  | found hf ht hc hr hp hh' hl' => exact .found hf ht hc hr (hl ▸ hp) (by rw [hh', hh]) hl'

/-! ### Along the course of a search -/

section

variable {s : Search σ} {p next : Progress} {events : List Event}

theorem finds_of_examines {process handle : Held} {r : Record}
    (h : Search.Examines s process handle r p events next) : Finds s r p events next := by
  cases h with
  | passed kind _ => exact finds_of_plain s r (plain_singleton rfl) rfl rfl
  | unnamed ha =>
    have hlook : Plain [.classified handle.id .disk] := plain_singleton rfl
    cases ha with
    | failed _ _ hc => exact finds_of_plain s r (hlook.append (hosted_of_concerns hc).plain) rfl rfl
    | missing _ => exact finds_of_plain s r hlook rfl rfl
  | @uncovered _ name ha hc =>
    cases ha with
    | @read asking size status _ _ _ hask =>
      have hplain : Plain asking := (hosted_of_concerns hask).plain
      refine .nothing ?_ ?_ rfl rfl
      · rw [recordsIn_cons rfl, recordsIn_append, hplain.recordsIn]
        rfl
      · intro h units hmem
        have hunits : units = name.units := by
          rcases List.mem_cons.mp hmem with hmem | hmem
          · cases hmem
          · rcases List.mem_append.mp hmem with hmem | hmem
            · exact absurd hmem (hplain.not_named h units)
            · exact (by simpa using hmem : h = handle.id ∧ units = name.units).2
        rw [hunits]
        exact hc
  | @covered _ reporting name _ ha hc hr =>
    cases ha with
    | @read asking size status _ _ hs hask =>
      cases hr with
      | known hh hl =>
        obtain ⟨hlines, hholders, hlast⟩ := lines_of_heads hh
        refine .again ?_ (hlast ▸ hl) hholders hlast
        have hasking : recordsIn asking = [] := (hosted_of_concerns hask).plain.recordsIn
        rw [List.append_assoc, recordsIn_cons rfl, recordsIn_append, hasking, List.nil_append,
          List.cons_append, List.cons_append, List.nil_append, recordsIn_cons rfl,
          recordsIn_cons rfl]
        exact hlines.plain.recordsIn
      | @found heading lines headed sent path hh hl hsend =>
        obtain ⟨hheading, hholders, hlast⟩ := lines_of_heads hh
        have hlines := lines_of_sends hsend
        obtain ⟨-, hholders', -⟩ := hsend.sameHolders
        have htrail : Trail s ⟨r.pid, path, r.handleValue, r.grantedAccess⟩ handle.id process.id _ :=
          .intro size status name hask hs hc hheading hlines
        have hfound : Finds s r p _ { sent with
            lastHolder := some r.pid
            holders := sent.holders.push ⟨r.pid, path, r.handleValue, r.grantedAccess⟩ } :=
          .found plain_nil htrail plain_nil rfl (hlast ▸ hl) (by rw [hholders', hholders]) rfl
        simpa using hfound

theorem finds_of_inspects {process : Held} {r : Record}
    (h : Search.Inspects s process r p events next) : Finds s r p events next := by
  cases h with
  | failed hd => exact finds_of_plain s r (hosted_of_duplicates hd).plain rfl rfl
  | examined hd he hr =>
    refine Finds.around ?_ (hosted_of_duplicates hd).plain (hosted_of_releases hr).plain
    apply (finds_of_examines he).congr
    · split <;> rfl
    · split <;> rfl

/-- What the events of a record come to. -/
theorem finds_of_steps {r : Record} (h : Search.Steps s r p events next) :
    ∃ more, events = .record r.pid r.handleValue r.grantedAccess :: more ∧
      Finds s r p more next := by
  cases h with
  | stopped ht _ =>
    obtain ⟨hholders, hlast, -, -⟩ := ht.sameReport
    exact ⟨_, rfl, finds_of_plain s r (plain_of_turns ht) hholders hlast⟩
  | @attended turning attending turned _ ht _ ha =>
    obtain ⟨hholders, hlast, -, -⟩ := ht.sameReport
    refine ⟨_, rfl, ?_⟩
    have hattend : Finds s r turned attending next := by
      cases ha with
      | unreached _ => exact finds_of_plain s r plain_nil rfl rfl
      | ignored _ _ => exact finds_of_plain s r plain_nil rfl rfl
      | inspected _ _ hi => exact finds_of_inspects hi
    have haround := (hattend.congr hholders hlast).around (plain_of_turns ht) plain_nil
    rw [List.append_nil] at haround
    exact haround.congr rfl rfl

/-- A search is a walk between plain events, or plain events only. -/
theorem walk_of_runs {records : List Record} {outcome : Outcome}
    (h : Search.Runs s records events outcome) :
    (Plain events ∧ outcome.holders = []) ∨
      ∃ front walking closing q, events = front ++ (walking ++ closing) ∧ Plain front ∧
        Plain closing ∧ Search.Walks s records {} walking q ∧
        outcome.holders = q.holders.toList := by
  rcases h.walks with ⟨ho, hh⟩ | ⟨front, walking, closing, q, he, hf, hc, hw, hh⟩
  · exact .inl ⟨ho.plain, hh⟩
  · exact .inr ⟨front, walking, closing, q, he, hf.plain, hc.plain, hw, hh⟩

/-- The records that a walk turns to are those at the front of the table. -/
theorem recordsIn_of_walks {records : List Record} (h : Search.Walks s records p events next) :
    recordsIn events <+: records := by
  have hstep : ∀ {r : Record} {p next : Progress} {events : List Event},
      Search.Steps s r p events next → recordsIn events = [r] := by
    intro r p next events hs
    obtain ⟨more, rfl, hfinds⟩ := finds_of_steps hs
    rw [recordsIn_record, hfinds.recordsIn]
  induction h with
  | done p => exact List.prefix_rfl
  | stopped hs _ =>
    rw [hstep hs]
    exact ⟨_, rfl⟩
  | goesOn hs _ _ ih =>
    rw [recordsIn_append, hstep hs]
    exact List.cons_prefix_cons.mpr ⟨rfl, ih⟩

/-! ### The ledger of a search -/

/-- A ledger of what a search knows. -/
structure Vouched (s : Search σ) (events : List Event) (p : Progress)
    (found : List (Nat × Holder)) : Prop where
  ledger : Ledger s events found
  holders : found.map Prod.snd = p.holders.toList
  last : lastPid found = p.lastHolder

theorem Vouched.step {r : Record} {before : List Event} {found : List (Nat × Holder)}
    (h : Vouched s before p found) (hs : Search.Steps s r p events next)
    (hlaw : ({} : Custody).Lawful s.host.ownPid (before ++ events)) :
    ∃ found', Vouched s (before ++ events) next found' := by
  obtain ⟨more, rfl, hfinds⟩ := finds_of_steps hs
  have hrecords := hfinds.recordsIn
  cases hfinds with
  | nothing _ hn hh hl =>
    refine ⟨found, h.ledger.append ?_, h.holders.trans (by rw [hh]), h.last.trans hl.symm⟩
    intro handle units hmem
    exact hn handle units (by simpa using hmem)
  | again _ hp hh hl =>
    exact ⟨found, h.ledger.again hrecords (h.last.trans hp), h.holders.trans (by rw [hh]),
      h.last.trans hl.symm⟩
  | @found front trail closing _ holder handle process hf ht hc hr hp hh hl =>
    have hsplit : before ++ .record r.pid r.handleValue r.grantedAccess ::
        (front ++ (trail ++ closing)) =
        (before ++ .record r.pid r.handleValue r.grantedAccess :: front) ++ (trail ++ closing) := by
      simp
    have hbacked : Backed s (before ++ .record r.pid r.handleValue r.grantedAccess ::
        (front ++ (trail ++ closing))) (recordsIn before).length holder := by
      rw [hsplit] at hlaw ⊢
      obtain ⟨-, hlaw⟩ := (Custody.lawful_append _ _ _ _).mp hlaw
      obtain ⟨hlends, hstands⟩ := ht.custody ((Custody.lawful_append _ _ _ _).mp hlaw).1
      refine ⟨_, handle, process, trail, closing, rfl, ht, ?_, hlends, hstands⟩
      rw [recordsIn_append, recordsIn_record, hf.recordsIn]
      simp
    refine ⟨_, h.ledger.found hrecords (h.last ▸ hp) hr hbacked, ?_, ?_⟩
    · rw [List.map_append, h.holders, hh, Array.toList_push]
      rfl
    · rw [lastPid, List.getLast?_concat, hl]
      exact congrArg (some ∘ Record.pid) hr

theorem Vouched.walk {records : List Record} {before : List Event}
    {found : List (Nat × Holder)} (hw : Search.Walks s records p events next)
    (h : Vouched s before p found)
    (hlaw : ({} : Custody).Lawful s.host.ownPid (before ++ events)) :
    ∃ found', Vouched s (before ++ events) next found' := by
  induction hw generalizing before found with
  | done p =>
    rw [List.append_nil]
    exact ⟨found, h⟩
  | stopped hs _ => exact h.step hs hlaw
  | goesOn hs _ _ ih =>
    rw [← List.append_assoc] at hlaw ⊢
    obtain ⟨found', h'⟩ := h.step hs ((Custody.lawful_append _ _ _ _).mp hlaw).1
    exact ih h' hlaw

end

/-! ## The whole search -/

/-- Of the names that were read, one or none for each record, the one at an index is covered. -/
def CoveredAt (s : Search σ) (named : List (Option (HandleId × Name))) (i : Nat) : Prop :=
  ∃ handle name, named[i]? = some (some (handle, name)) ∧ s.covers name = true

/-- The holders that a search ends with are reported on good grounds.  `named` are the names that
were read, one or none for each record. -/
structure Grounded (s : Search σ) (records : List Record) (named : List (Option (HandleId × Name)))
    (events : List Event) (holders : List Holder) : Prop where
  /-- The search turned to the first records of the table, in order. -/
  read : recordsIn events <+: records
  /-- A name stands in the journal exactly where it was read. -/
  names : ∀ i handle name,
    NamedAt events i handle name ↔ named[i]? = some (some (handle, name))
  /-- So what the ledger says of covered names it says of those that were read. -/
  covered : ∀ i, Matches s events i ↔ CoveredAt s named i
  /-- The holders stand in a ledger, each for a record of which a covered name was read. -/
  grounds : ∃ found, Ledger s events found ∧ found.map Prod.snd = holders ∧
    ∀ q ∈ found, CoveredAt s named q.1
  /-- No two neighbours are of one process. -/
  neighbours : holders.IsChain fun a b => a.pid ≠ b.pid
  /-- Where the records of every process stand together, none is reported twice. -/
  once : Grouped records → (holders.map Holder.pid).Nodup

theorem matches_iff_of_names {s : Search σ} {named : List (Option (HandleId × Name))}
    {events : List Event} (hn : ∀ i handle name,
      NamedAt events i handle name ↔ named[i]? = some (some (handle, name))) (i : Nat) :
    Matches s events i ↔ CoveredAt s named i :=
  exists₂_congr fun handle name => and_congr_left fun _ => hn i handle name

theorem grounded_of_ledger {s : Search σ} {records : List Record}
    {named : List (Option (HandleId × Name))} {events : List Event} {found : List (Nat × Holder)}
    (h : Ledger s events found) (hr : recordsIn events <+: records)
    (hn : ∀ i handle name,
      NamedAt events i handle name ↔ named[i]? = some (some (handle, name))) :
    Grounded s records named events (found.map Prod.snd) where
  read := hr
  names := hn
  covered := matches_iff_of_names hn
  grounds := ⟨found, h, rfl, fun q hq =>
    (matches_iff_of_names hn q.1).mp (h.backed q hq).2.matches⟩
  neighbours := h.neighbours
  once := by
    intro hg
    rw [List.map_map]
    exact h.nodup (hg.of_prefix hr)

/-- Whatever the host answers, a search reports its holders on good grounds. -/
theorem Search.holders_grounded (s : Search σ) (x : Session σ) :
    Grounded s (s.snapshot x) (s.namesOf x) (Action.eventsOf s.run x)
      (s.run.run x).1.holders := by
  have hruns := (s.emits_run x).eventsOf
  have hnames := s.namedAt_run_iff x
  have hstart : ({} : Custody).live = [] := rfl
  have hlaw := (Custody.lawful_of_runs hruns hstart).1
  rcases walk_of_runs hruns with
    ⟨hplain, hholders⟩ | ⟨front, walking, closing, q, he, hf, hc, hw, hh⟩
  · have hledger : Ledger s (Action.eventsOf s.run x) [] := by
      refine (Ledger.nil s).append ?_
      intro handle units hmem
      exact absurd hmem (hplain.not_named handle units)
    rw [hholders]
    refine grounded_of_ledger hledger ?_ hnames
    rw [hplain.recordsIn]
    exact List.nil_prefix
  · rw [he, ← List.append_assoc] at hlaw hnames ⊢
    have hbegin : Vouched s front {} [] := by
      refine ⟨(Ledger.nil s).append ?_, rfl, rfl⟩
      intro handle units hmem
      exact absurd hmem (hf.not_named handle units)
    obtain ⟨found, hvouched⟩ := hbegin.walk hw ((Custody.lawful_append _ _ _ _).mp hlaw).1
    have hledger : Ledger s (front ++ walking ++ closing) found := by
      refine hvouched.ledger.append ?_
      intro handle units hmem
      exact absurd hmem (hc.not_named handle units)
    rw [hh, ← hvouched.holders]
    refine grounded_of_ledger hledger ?_ hnames
    rw [recordsIn_append, recordsIn_append, hf.recordsIn, hc.recordsIn, List.nil_append,
      List.append_nil]
    exact recordsIn_of_walks hw

end FileHolders
