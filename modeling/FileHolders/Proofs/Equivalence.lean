import FileHolders.Proofs.Advance
import FileHolders.Proofs.Correspondence

/-!
# What a search finds on a steady host

A search that is not cancelled ends, on a host that is steady in a world, with the outcome and the
report that the world alone determines.

    (s.run.run x).1 = s.expectedOutcome w ∧
      linesIn (eventsOf s.run x) = s.expectedLines w                              (run_steady)
-/

namespace FileHolders

open FileHolders.Action

variable {σ : Type} {w : World} {room : Nat} {R : σ → Hand → Prop} {s : Search σ}
  {y : Session σ}

/-- There is room for what the world answers: the first guess, doubled `k` times, holds the table,
is under the ceiling where it had to be doubled, and leaves room for the names. -/
structure Fits (s : Search σ) (w : World) (room : Nat) (guess : UInt64) (k : Nat) : Prop where
  table : Table.sizeFor w.table.length ≤ (max guess 1).toNat * 2 ^ k
  ceiling : k = 0 ∨ (max guess 1).toNat * 2 ^ k ≤ s.settings.tableCeiling.toNat
  granted : (max guess 1).toNat * 2 ^ k ≤ room
  names : Suits s.settings w room ((max guess 1).toNat * 2 ^ k)

/-- What a search knows at the end of its survey. -/
structure Ended (s : Search σ) (w : World) (p : Progress) : Prop where
  holders : p.holders.toList = s.expectedHolders w
  tally : p.tally = s.expectedTally w
  goesOn : p.cancelled = false
  last : p.lastLine = (s.expectedBody w).getLast?

theorem Suits.of_le {settings : Settings} {base less : Nat} (h : Suits settings w room base)
    (hl : less ≤ base) : Suits settings w room less :=
  ⟨h.attempts, h.initial, h.names, h.granted, h.limit.of_le (by omega)⟩

namespace Search

theorem yields_goThrough (h : Steady s.host w room R) (hn : s.cancellation = .never)
    {table : Table} (hs : Suits s.settings w room table.block.size.toNat)
    (hrecords : table.records = w.records) (hhas : w.has .queryTable = true)
    (hy : Calm R s.settings.arenaLimit y .empty table.block.size) :
    Yields (s.goThrough table {}) y fun next t => Ended s w next ∧
      Calm R s.settings.arenaLimit t .empty table.block.size := by
  have hsize : (Arena.granted s.settings.nameBufferInitial).toNat ≤ s.settings.nameRoom := by
    have hinitial := hs.initial
    rw [Arena.toNat_granted, Settings.nameRoom]
    omega
  have hroom := hs.granted
  unfold goThrough
  refine (Arena.yields_allocate h hy (by omega) (hs.limit.of_le (by omega))).bind ?_
  rintro _ t ⟨⟨⟨buffer, hbuffer⟩, rfl, hinside⟩, ht⟩
  rw [← hbuffer] at ht
  have hready : Ready R s.settings table.block.size t .empty buffer :=
    ⟨ht, hinside, by rw [hbuffer]; exact hsize⟩
  have hstart : Stands s w {} .empty := ⟨.none, by rintro pid ⟨⟩, rfl⟩
  have hwalk := (yields_walk h hs hn table.records hready hstart).and_emits
    (s.emits_walk table.records buffer {} t)
  refine hwalk.bind ?_
  rintro ⟨last, next⟩ u ⟨⟨haccount, hand, hstands, hu⟩, events, hwalks⟩
  dsimp only at haccount hstands hu hwalks ⊢
  refine (Owner.yields_letGo h hu hstands.keeps).bind ?_
  rintro _ v ⟨rfl, hv⟩
  refine (Arena.yields_free h hv.calm last).bind ?_
  intro _ z hz
  rw [UInt64.add_sub_cancel] at hz
  obtain ⟨hholders, htally⟩ := Account.foldl_expected s w
  rw [hrecords] at haccount
  have hends : next.holders.toList = s.expectedHolders w :=
    (congrArg Account.holders haccount).trans hholders
  refine yields_pure ⟨⟨hends, ?_, hstands.goesOn, ?_⟩, hz⟩
  · exact (congrArg Account.tally haccount).trans htally
  · rw [expectedBody, if_pos hhas, ← hends]
    exact (told_of_walks hwalks (told_nil s)).said.last

/-- Without the table query there is a warning, and nothing else comes of the search. -/
theorem yields_unreadable (hc : w.has .queryTable = false) (y : Session σ) :
    Yields (send {} (unreadableLine (.missing .queryTable))) y fun next _ => Ended s w next := by
  have hsend := (yields_send {} (unreadableLine (.missing .queryTable)) y).and_emits
    (emits_send {} _ y)
  refine hsend.mono ?_
  rintro next t ⟨⟨haccount, -, -⟩, events, hs⟩
  have hrecords : w.records = [] := by simp [World.records, hc]
  obtain ⟨hholders, htally⟩ := Account.foldl_expected s w
  rw [hrecords] at hholders htally
  refine ⟨?_, ?_, ?_, ?_⟩
  · exact (congrArg Account.holders haccount).trans hholders
  · exact (congrArg Account.tally haccount).trans htally
  · exact hs.sameStand.cancelled
  · rw [expectedBody, hc]
    exact (said_nil.sends hs).last

theorem yields_survey (h : Steady s.host w room R) (hn : s.cancellation = .never) {k : Nat}
    (hf : Fits s w room y.guess k) (hy : Calm R s.settings.arenaLimit y .empty 0) :
    Yields (s.survey {}) y fun next _ => Ended s w next := by
  unfold survey
  have hlimit := hf.names.limit.of_le (Nat.le_add_right _ _)
  refine (Table.yields_read h k hy hf.table hf.ceiling hf.granted hlimit).bind ?_
  intro a t hread
  cases hc : w.has .queryTable with
  | false =>
    rw [hc] at hread
    obtain ⟨rfl, -⟩ := hread
    refine yields_say_bind ?_
    intro u _ _ _
    exact yields_unreadable hc u
  | true =>
    rw [hc] at hread
    obtain ⟨table, rfl, htable, hsize, ht⟩ := hread
    have hrecords : table.records = w.records := by rw [htable, World.records, if_pos hc]
    refine (yields_goThrough h hn (hf.names.of_le hsize) hrecords hc ht).bind ?_
    rintro next u ⟨hended, hu⟩
    refine (Arena.yields_free h hu table.block).bind ?_
    intro _ v _
    exact yields_pure hended

theorem yields_surveyInArena (h : Steady s.host w room R) (hn : s.cancellation = .never) {k : Nat}
    (hf : Fits s w room y.guess k) (hy : R y.host .empty) :
    Yields (s.surveyInArena {}) y fun next _ => Ended s w next := by
  have hany : ∀ {α : Type} (a : Action σ α) (z : Session σ), Yields a z fun _ _ => True :=
    fun _ _ => trivial
  unfold surveyInArena
  refine (Arena.yields_create h hy).bind ?_
  rintro _ t ⟨rfl, ht, hguess⟩
  rw [← hguess] at hf
  refine (yields_survey h hn hf ht).bind ?_
  intro next u hended
  refine (hany (Arena.destroy s.host.heap) u).bind ?_
  intro answer v _
  refine (hany (Arena.warnIfUnreleased answer) v).bind ?_
  intro _ z _
  exact yields_pure hended

/-! ## The whole search -/

theorem outcome_of_ended {p : Progress} (h : Ended s w p) : p.outcome = s.expectedOutcome w := by
  rw [Progress.outcome, expectedOutcome, h.goesOn, ← h.holders, ← h.tally]
  simp

/-- The last line tells whether there are holders. -/
theorem closingLine_of_ended {p : Progress} (h : Ended s w p) :
    s.closingLine p = if (s.expectedHolders w).isEmpty then
      notFoundLine s.settings.applicationName s.text else foundLine := by
  rw [closingLine, outcome_of_ended h, expectedOutcome]
  cases (s.expectedHolders w).isEmpty with
  | false => rfl
  | true => rfl

/-- Up to the last line, the report is what the world determines. -/
theorem said_of_reported {p : Progress} {lines : List String} (hr : Reported s lines p)
    (h : Ended s w p) : Said (s.expectedBody w) lines p := by
  have hlast := h.last
  cases hc : w.has .queryTable with
  | false =>
    have hbody : s.expectedBody w = [unreadableLine (.missing .queryTable)] := by
      rw [expectedBody, hc]
      rfl
    have hnone : s.expectedHolders w = [] := by simp [expectedHolders, World.records, hc]
    rw [hbody] at hlast ⊢
    -- the last line tells which of the two reports it is: nobody to tell of leaves none
    cases hr with
    | holders hs =>
      rw [h.holders, hnone] at hs
      rw [hs.last] at hlast
      cases hlast
    | warning text hs _ =>
      rw [hs.last] at hlast
      obtain rfl : text = unreadableLine (.missing .queryTable) := by simpa using hlast
      exact hs
  | true =>
    rw [expectedBody, if_pos hc] at hlast ⊢
    cases hr with
    | holders hs =>
      rw [h.holders] at hs
      exact hs
    | warning text hs hp =>
      rw [← h.holders, hp, hs.last] at hlast
      cases hlast

/-- On a host that is steady in a world, a search for a target that is not cancelled ends with the
outcome and the report that the world determines, whatever it remembers from record to record. -/
theorem run_steady (h : Steady s.host w room R) (x : Session σ) (hx : R x.host .empty)
    (hn : s.cancellation = .never) (ht : s.text.isEmpty = false) {k : Nat}
    (hf : Fits s w room x.guess k) :
    (s.run.run x).1 = s.expectedOutcome w ∧
      linesIn (eventsOf s.run x) = s.expectedLines w := by
  have hended : Ended s w (s.surveyed x).1 :=
    yields_surveyInArena (y := ((info s.openingMessage).run x).2) h hn hf hx
  constructor
  · rw [(s.run_closes x ht).1]
    exact outcome_of_ended hended
  · obtain ⟨preparing, hprepares, hp⟩ := s.emits_surveyInArena x ht
    obtain ⟨closing, hcloses, hs⟩ :=
      emits_send (s.surveyed x).1 (s.closingLine (s.surveyed x).1) (s.surveyed x).2
    have hevents : eventsOf s.run x = preparing ++ closing := by
      apply eventsOf_eq
      rw [s.run_eq_conclude x ht, ← List.append_assoc]
      exact hcloses.trans (congrArg (· ++ closing) hprepares)
    have hsaid := (said_of_reported (reported_of_prepares hp) hended).sends hs
    rw [hevents, linesIn_append, hsaid.lines_eq, expectedLines, closingLine_of_ended hended]

/-- A search on the simplest host of a machine with two processes. -/
def sample : Search Hand := { host := World.sample.host 4, text := "\\d" }

/-- The second run of a process adds no holder, since nothing was reported in between. -/
theorem run_steady_sample :
    (sample.run.run { host := .empty }).1 =
        { found := true, cancelled := false, holders := [⟨8, none, 16, 3⟩],
          tally := ⟨3, 3, 2, 1, 2, 2⟩ } ∧
      linesIn (eventsOf sample.run { host := .empty }) =
        ["NOTE: The following process(es) are accessing \\d:", "o Unknown (Process ID 8)",
          foundLine] := by
  have hsuits : Suits sample.settings World.sample 0x100000 256 := by
    refine ⟨by decide, by decide, ?_, by decide, ?_⟩
    · rintro _ _ _ ⟨⟩
      decide
    · rintro _ ⟨⟩
  have hfits : Fits sample World.sample 0x100000 0 8 :=
    ⟨by decide, .inr (by decide), by decide, hsuits⟩
  obtain ⟨houtcome, hlines⟩ := run_steady (World.steady_host World.sample 4 (by decide))
    { host := .empty } rfl rfl (by decide) hfits
  constructor
  · rw [houtcome]
    decide +kernel
  · rw [hlines]
    decide +kernel

end Search

end FileHolders
