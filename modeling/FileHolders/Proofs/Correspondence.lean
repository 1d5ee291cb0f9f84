import FileHolders.Proofs.Course
import FileHolders.Proofs.Reference
import FileHolders.Proofs.Steadiness

/-!
# A search keeps the account of its world

On a host that is steady in a world, a search does with each record what `Account.step` does.  What
it has in hand is tied to the owner it keeps (`Keeps`), and the denial that it remembers is of a
process out of reach (`Stands`).  So its memory only saves calls and changes nothing else.

    Yields (s.step r b p) y fun a _ => a.2.account = p.account.step s w r            (yields_step)
    Yields (s.walk rs b p) y fun a _ => a.2.account = rs.foldl step p.account        (yields_walk)
-/

namespace FileHolders

open FileHolders.Action

variable {σ : Type} {host : Host σ} {w : World} {room : Nat} {R : σ → Hand → Prop}
  {settings : Settings} {base : UInt64} {y : Session σ} {buffer : Block} {hand : Hand}

/-! ## Handles in hand -/

/-- The owner that a search keeps, and what the caller has in hand for it. -/
inductive Keeps (w : World) (own : UInt64) : Owner → Hand → Prop
  | none : Keeps w own .none .empty
  | outOfReach {pid : UInt64} (hr : w.reaches own pid = false) : Keeps w own (.outOfReach pid) .empty
  | own {pid : UInt64} (hp : pid = own) : Keeps w own (.opened pid Held.ownProcess) .empty
  | opened {pid : UInt64} {h : HandleId} (hp : pid ≠ own) (hh : h ≠ .ownProcess)
      (hr : w.reaches own pid = true) :
      Keeps w own (.opened pid (Held.acquired h)) (.process pid h)

/-- The handle that was brought into the caller for a record, and what is in hand with it. -/
inductive Brought (own : UInt64) (r : Record) : Hand → Held → Hand → Prop
  | own (hp : r.pid = own) : Brought own r .empty (Held.borrowed (.ofWord r.handleValue)) .empty
  | copied {h d : HandleId} (hd : d ≠ .ownProcess) :
      Brought own r (.process r.pid h) (Held.acquired d) (.object r.pid h r.handleValue d)

section

variable {own pid : UInt64} {process handle : Held} {r : Record} {before after : Hand}

theorem Keeps.isOwnProcess (h : Keeps w own (.opened pid process) hand) :
    process.isOwnProcess = decide (pid = own) := by
  cases h with
  | own hp => simp [Held.isOwnProcess, Held.ownProcess, Held.borrowed, hp]
  | opened hp hh _ => simp [Held.isOwnProcess, Held.acquired, hp, hh]

theorem Keeps.reaches (h : Keeps w own (.opened pid process) hand) :
    w.reaches own pid = true := by
  cases h with
  | own hp => simp [World.reaches, hp]
  | opened _ _ hr => exact hr

theorem Brought.refers (h : Brought own r before handle after) :
    after.Refers own handle.id r.pid r.handleValue := by
  cases h with
  | own hp => exact ⟨rfl, hp⟩
  | copied _ => exact ⟨rfl, rfl, rfl⟩

/-- The process is still in hand next to a handle of it. -/
theorem Brought.isProcess (h : Brought own r before handle after)
    (hk : Keeps w own (.opened r.pid process) before) : after.IsProcess own process.id r.pid := by
  cases h with
  | own hp =>
    cases hk with
    | own _ => exact ⟨rfl, hp⟩
  | copied _ =>
    cases hk with
    | opened _ _ _ => exact ⟨rfl, rfl⟩

end

namespace Held

theorem yields_release (hy : Ready R settings base y hand buffer) {h : Held} {next : Hand}
    (hclose : h.owned = true → R ((host.close h.id).run y.host).2 next)
    (hkeep : h.owned = false → hand = next) :
    Yields (h.release host) y fun _ t => Ready R settings base t next buffer := by
  unfold release
  cases ho : h.owned with
  | false =>
    rw [hkeep ho] at hy
    exact yields_pure hy
  | true =>
    rw [if_pos rfl]
    refine yields_journaled_bind ?_
    intro t ht ha _
    refine yields_onlyIf_say ?_
    intro u hu hua _
    exact (hy.called ht (hclose ho) ha).of_same hu hua

/-- The handle of a record is let go. -/
theorem yields_release_brought (h : Steady host w room R) {r : Record} {handle : Held}
    {before : Hand} (hb : Brought host.ownPid r before handle hand)
    (hy : Ready R settings base y hand buffer) :
    Yields (handle.release host) y fun _ t => Ready R settings base t before buffer := by
  cases hb with
  | own hp => exact yields_release hy (by simp [borrowed]) (fun _ => rfl)
  | copied hd =>
    exact yields_release hy (fun _ => h.closeObject hy.calm.host) (by simp [acquired, hd])

theorem yields_openProcess (h : Steady host w room R)
    (hy : Ready R settings base y .empty buffer) (pid : UInt64) (access : UInt32) :
    Yields (openProcess host pid access) y fun a t =>
      match a with
      | .ok process => w.reaches host.ownPid pid = true ∧
        ∃ hand, Keeps w host.ownPid (.opened pid process) hand ∧ Ready R settings base t hand buffer
      | .error fault => w.reaches host.ownPid pid = false ∧
        (fault.status.kind = .accessDenied ↔ w.denies host.ownPid pid = true) ∧
          Ready R settings base t .empty buffer := by
  unfold openProcess
  by_cases hp : pid = host.ownPid
  · rw [if_pos hp]
    exact yields_pure ⟨by simp [World.reaches, hp], .empty, .own hp, hy⟩
  · rw [if_neg hp]
    refine Host.yields_provides_bind h hy.calm.host ?_
    cases hc : w.has .openProcess with
    | false =>
      refine yields_pure ⟨by simp [World.reaches, hp, hc], ?_, hy⟩
      simp only [World.denies, hc, Bool.and_false, Bool.false_and]
      decide
    | true =>
      obtain ⟨hstatus, hsuccess, hfailure⟩ := h.openProcess hy.calm.host pid access hp
      rw [if_pos rfl]
      refine yields_journaled_bind ?_
      intro t ht ha _
      cases hs : (w.opening pid).isSuccess with
      | true =>
        obtain ⟨hfresh, hnext⟩ := hsuccess hs
        refine yields_pure ?_
        rw [ofReply, hstatus, hs]
        have hreach : w.reaches host.ownPid pid = true := by simp [World.reaches, hc, hs]
        exact ⟨hreach, _, .opened hp hfresh hreach, hy.called ht hnext ha⟩
      | false =>
        refine yields_pure ?_
        rw [ofReply, hstatus, hs]
        refine ⟨by simp [World.reaches, hp, hs], ?_, ?_⟩
        · simp [World.denies, hp, hc, Fault.status]
        · exact hy.called ht (hfailure hs) ha

theorem yields_duplicate (h : Steady host w room R) {r : Record} {process : Held}
    (hk : Keeps w host.ownPid (.opened r.pid process) hand)
    (hy : Ready R settings base y hand buffer) :
    Yields (duplicate host process r.handleValue) y fun a t =>
      match a with
      | .ok handle => w.brings host.ownPid r = true ∧
        ∃ next, Brought host.ownPid r hand handle next ∧ Ready R settings base t next buffer
      | .error _ => w.brings host.ownPid r = false ∧ Ready R settings base t hand buffer := by
  unfold duplicate
  rw [hk.isOwnProcess]
  cases hk with
  | own hp =>
    rw [if_pos (by simp [hp])]
    exact yields_pure ⟨by simp [World.brings, hp], .empty, .own hp, hy⟩
  | @opened _ source hp hh _ =>
    rw [if_neg (by simp [hp])]
    refine Host.yields_provides_bind h hy.calm.host ?_
    cases hc : w.has .duplicate with
    | false => exact yields_pure ⟨by simp [World.brings, hp, hc], hy⟩
    | true =>
      obtain ⟨hstatus, hsuccess, hfailure⟩ : Hands R _ _ _ _
          ((host.duplicate (acquired source).id r.handleValue).run y.host) :=
        h.duplicate hy.calm.host r.handleValue
      rw [if_pos rfl]
      refine yields_journaled_bind ?_
      intro t ht ha _
      cases hs : (w.duplication r.pid r.handleValue).isSuccess with
      | true =>
        obtain ⟨hfresh, hnext⟩ := hsuccess hs
        refine yields_pure ?_
        rw [ofReply, hstatus, hs]
        refine ⟨by simp [World.brings, hc, hs], _, .copied hfresh.1, ?_⟩
        exact hy.called ht hnext ha
      | false =>
        refine yields_pure ?_
        rw [ofReply, hstatus, hs]
        refine ⟨by simp [World.brings, hp, hs], ?_⟩
        exact hy.called ht (hfailure hs) ha

end Held

/-! ## The handle of a record -/

/-- What a search remembers from record to record.  The lines of its report are left out. -/
def Progress.account (p : Progress) : Account where
  current := p.owner.pid?
  denied := p.denial.last
  last := p.lastHolder
  holders := p.holders.toList
  tally := p.tally

namespace Account

/-- What a record that holds the target adds. -/
def found (w : World) (a : Account) (r : Record) : Account where
  current := a.current
  denied := a.denied
  last := some r.pid
  holders := if a.last = some r.pid then a.holders else a.holders ++ [w.holder r]
  tally := a.tally

variable {s : Search σ} {a : Account} {r : Record}

/-- What a handle adds that is in the caller's hands. -/
def examined (s : Search σ) (w : World) (a : Account) (r : Record) : Account :=
  let named := { a with
    tally.named := a.tally.named + if (w.nameOf r).isSome then 1 else 0 }
  if (w.nameOf r).any s.covers then named.found w r else named

/-- A handle that is not looked at adds nothing. -/
theorem attended_of_passed (h : s.looksAt w r = false) : a.attended s w r = a := by
  have hname : s.nameSeen w r = none := by simp [Search.nameSeen, h]
  have hholds : s.holds w r = false := by simp [Search.holds, hname]
  simp [attended, h, hname, hholds]

theorem attended_of_looksAt (h : s.looksAt w r = true) :
    a.attended s w r = examined s w { a with
      tally.duplicated := a.tally.duplicated + if r.pid ≠ s.host.ownPid then 1 else 0 } r := by
  have hname : s.nameSeen w r = w.nameOf r := by simp [Search.nameSeen, h]
  have hholds : s.holds w r = (w.nameOf r).any s.covers := by rw [Search.holds, hname]
  unfold attended examined
  cases hc : (w.nameOf r).any s.covers with
  | false => simp [h, hname, hholds, hc]
  | true =>
    by_cases hl : a.last = some r.pid
    · simp [found, h, hname, hholds, hc, hl]
    · simp [found, h, hname, hholds, hc, hl]

end Account

namespace Search

variable {s : Search σ}

theorem yields_send (p : Progress) (text : String) (y : Session σ) :
    Yields (send p text) y fun next t =>
      next.account = p.account ∧ t.host = y.host ∧ t.arena = y.arena := by
  unfold send
  split
  · exact yields_pure ⟨rfl, rfl, rfl⟩
  · refine yields_note_bind ?_
    intro t ht ha _
    exact yields_pure ⟨rfl, ht, ha⟩

theorem yields_tell (h : Steady s.host w room R) (hy : Ready R settings base y hand buffer)
    {process : Held} {r : Record} (hp : hand.IsProcess s.host.ownPid process.id r.pid)
    (p : Progress) :
    Yields (s.tell process r p) y fun next t =>
      next.account = p.account.found w r ∧ Ready R settings base t hand buffer := by
  unfold tell
  split
  · rename_i hl
    refine yields_pure ⟨?_, hy⟩
    have hl' : p.account.last = some r.pid := hl
    rw [Account.found, if_pos hl', ← hl']
  · rename_i hl
    have hl' : p.account.last ≠ some r.pid := hl
    obtain ⟨himage, hnext⟩ := h.imagePath hy.calm.host hp
    refine yields_journaled_bind ?_
    intro u hu hua _
    rw [himage]
    refine yields_say_bind ?_
    intro v hv hva _
    refine (yields_send p _ v).bind ?_
    rintro sent z ⟨hsent, hz, hza⟩
    refine yields_note_bind ?_
    intro x hx hxa _
    refine yields_pure ⟨?_, ?_⟩
    · rw [Account.found, if_neg hl', ← hsent]
      simp [Progress.account, World.holder]
    · exact ((hy.called hu hnext hua).of_same hv hva).of_same
        (hx.trans hz) (hxa.trans hza)

theorem yields_report (h : Steady s.host w room R) (hy : Ready R settings base y hand buffer)
    {process : Held} {r : Record} (hp : hand.IsProcess s.host.ownPid process.id r.pid)
    (p : Progress) :
    Yields (s.report process r p) y fun next t =>
      next.account = p.account.found w r ∧ Ready R settings base t hand buffer := by
  rw [report_eq]
  split
  · exact yields_tell h hy hp { p with headed := true }
  · refine (yields_send p _ y).bind ?_
    rintro next t ⟨hsame, ht, ha⟩
    have htold := yields_tell h (hy.of_same ht ha) hp { next with headed := true }
    have haccount : Progress.account { next with headed := true } = p.account := hsame
    rw [haccount] at htold
    exact htold

theorem yields_examine (h : Steady s.host w room R) (hs : Suits s.settings w room base.toNat)
    (hy : Ready R s.settings base y hand buffer) {process handle : Held} {r : Record}
    (hp : hand.IsProcess s.host.ownPid process.id r.pid)
    (hr : hand.Refers s.host.ownPid handle.id r.pid r.handleValue) (p : Progress) :
    Yields (s.examine process handle r buffer p) y fun a t =>
      a.2.account = p.account.examined s w r ∧ Ready R s.settings base t hand a.1 := by
  obtain ⟨hkind, hnext⟩ := h.fileKind hy.calm.host hr
  unfold examine
  refine yields_journaled_bind ?_
  intro t ht ha _
  have hready : Ready R s.settings base t hand buffer := hy.called ht hnext ha
  rw [hkind]
  by_cases hdisk : w.kind r.pid r.handleValue = .disk
  · have hanswer : w.nameOf r = Name.answer w r.pid r.handleValue := by
      simp [World.nameOf, Name.answer, hdisk]
    rw [if_neg (by simp [hdisk])]
    refine (Name.yields_ask h hs hready hr).bind ?_
    rintro ⟨last, fault | name⟩ u ⟨hname, hu⟩
    · refine yields_say_bind ?_
      intro v hv hva _
      refine yields_pure ⟨?_, hu.of_same hv hva⟩
      rw [Account.examined, hanswer, ← hname]
      rfl
    · have hnamed : w.nameOf r = some name := by
        rw [hanswer, ← hname]
        rfl
      unfold Account.examined
      rw [hnamed]
      dsimp only
      split
      · rename_i hc
        have hcovers : (some name).any s.covers = true := hc
        rw [if_pos hcovers]
        exact (yields_report h hu hp _).bind fun next v hv => yields_pure hv
      · rename_i hc
        have hcovers : ¬ (some name).any s.covers = true := hc
        rw [if_neg hcovers]
        exact yields_pure ⟨rfl, hu⟩
  · rw [if_pos hdisk]
    have hnone : w.nameOf r = none := by simp [World.nameOf, hdisk]
    refine yields_pure ⟨?_, hready⟩
    rw [Account.examined, hnone]
    rfl

theorem yields_inspect (h : Steady s.host w room R) (hs : Suits s.settings w room base.toNat)
    (hy : Ready R s.settings base y hand buffer) {process : Held} {r : Record}
    (hk : Keeps w s.host.ownPid (.opened r.pid process) hand)
    (hi : s.mayInspect process = true) (p : Progress) :
    Yields (s.inspect process r buffer p) y fun a t =>
      a.2.account = p.account.attended s w r ∧ Ready R s.settings base t hand a.1 := by
  have hlook : s.looksAt w r = w.brings s.host.ownPid r := by
    rw [mayInspect, hk.isOwnProcess] at hi
    rw [looksAt, hk.reaches, hi, Bool.true_and, Bool.true_and]
  unfold inspect
  refine (Held.yields_duplicate h hk hy).bind ?_
  rintro (fault | handle) t hbrought
  · obtain ⟨hb, ht⟩ := hbrought
    refine yields_say_bind ?_
    intro u hu hua _
    refine yields_pure ⟨?_, ht.of_same hu hua⟩
    rw [Account.attended_of_passed (by rw [hlook, hb])]
  · obtain ⟨hb, next, hbrings, ht⟩ := hbrought
    dsimp only
    refine (yields_examine h hs ht (hbrings.isProcess hk) hbrings.refers _).bind ?_
    rintro ⟨last, seen⟩ u ⟨hseen, hu⟩
    refine (Held.yields_release_brought h hbrings hu).bind ?_
    intro _ v hv
    refine yields_pure ⟨?_, hv⟩
    rw [Account.attended_of_looksAt (by rw [hlook, hb]), hseen, hk.isOwnProcess]
    by_cases hown : r.pid = s.host.ownPid
    · simp [Progress.account, hown]
    · simp [Progress.account, hown]

theorem yields_attend (h : Steady s.host w room R) (hs : Suits s.settings w room base.toNat)
    (hy : Ready R s.settings base y hand buffer) {r : Record} {p : Progress}
    (hk : Keeps w s.host.ownPid p.owner hand) (hp : p.owner.pid? = some r.pid) :
    Yields (s.attend r buffer p) y fun a t =>
      a.2.account = p.account.attended s w r ∧ Ready R s.settings base t hand a.1 := by
  unfold attend
  cases ho : p.owner with
  | none =>
    rw [ho] at hp
    cases hp
  | outOfReach pid =>
    rw [ho] at hp hk
    cases hp
    cases hk with
    | outOfReach hr =>
      refine yields_pure ⟨?_, hy⟩
      rw [Account.attended_of_passed (by simp [looksAt, hr])]
  | opened pid process =>
    rw [ho] at hp hk
    cases hp
    dsimp only [Owner.process?]
    split
    · rename_i hi
      refine yields_pure ⟨?_, hy⟩
      rw [hk.isOwnProcess] at hi
      rw [Account.attended_of_passed (by rw [looksAt, hi]; simp)]
    · rename_i hi
      exact yields_inspect h hs hy hk (by simp only [mayInspect, hi]; rfl) p

end Search

/-! ## The owner of a record -/

/-- What a search knows is sound in the world: its owner is in hand, and the process that it
remembers a denial of is out of reach. -/
structure Stands (s : Search σ) (w : World) (p : Progress) (hand : Hand) : Prop where
  keeps : Keeps w s.host.ownPid p.owner hand
  memo : ∀ pid, p.denial.last = some pid → w.reaches s.host.ownPid pid = false
  goesOn : p.cancelled = false

theorem Owner.yields_letGo (h : Steady host w room R) (hy : Ready R settings base y hand buffer)
    {owner : Owner} (hk : Keeps w host.ownPid owner hand) :
    Yields (owner.letGo host) y fun a t =>
      a = .none ∧ Ready R settings base t .empty buffer := by
  cases hk with
  | none => exact yields_pure ⟨rfl, hy⟩
  | outOfReach _ => exact yields_pure ⟨rfl, hy⟩
  | own hp =>
    refine yields_say_bind ?_
    intro t ht ha _
    exact yields_pure ⟨rfl, hy.of_same ht ha⟩
  | opened hp hh _ =>
    refine yields_say_bind ?_
    intro t ht ha _
    have hready := hy.of_same ht ha
    refine (Held.yields_release hready (fun _ => h.closeProcess hready.calm.host) ?_).bind ?_
    · simp [Held.acquired, hh]
    · intro _ u hu
      exact yields_pure ⟨rfl, hu⟩

namespace Account

variable {s : Search σ} {a : Account} {pid : UInt64}

/-- Staying with a process adds nothing. -/
theorem turned_of_current (h : a.current = some pid) : a.turned s w pid = a := by
  have htries : a.tries pid = false := by simp [tries, h]
  simp [turned, htries, ← h]

/-- A process that just refused access is not opened. -/
theorem turned_of_denied (h : a.denied = some pid) :
    a.turned s w pid = { a with current := some pid } := by
  have htries : a.tries pid = false := by simp [tries, h]
  simp [turned, htries]

theorem turned_of_tries (h : a.tries pid = true) :
    a.turned s w pid = { a with
      current := some pid
      denied := if w.denies s.host.ownPid pid then some pid else a.denied
      tally := { a.tally with
        attempts := a.tally.attempts + 1
        opened := a.tally.opened + if w.reaches s.host.ownPid pid then 1 else 0
        denied := a.tally.denied + if w.denies s.host.ownPid pid then 1 else 0 } } := by
  simp [turned, h]

end Account

namespace Search

variable {s : Search σ}

theorem yields_openOwner (h : Steady s.host w room R) (hy : Ready R settings base y .empty buffer)
    {pid : UInt64} {p : Progress} (hp : Stands s w p .empty) (ho : p.owner = .none)
    (hd : p.denial.last ≠ some pid) :
    Yields (s.openOwner pid p) y fun next t => next.account = p.account.turned s w pid ∧
      ∃ hand, Stands s w next hand ∧ Ready R settings base t hand buffer := by
  have htries : p.account.tries pid = true := by
    simp [Account.tries, Progress.account, ho, Owner.pid?, hd]
  unfold openOwner
  dsimp only
  rw [ho, Account.turned_of_tries htries]
  refine (Held.yields_openProcess h hy pid s.settings.processAccess).bind ?_
  rintro (fault | process) t hopened
  · obtain ⟨hreach, hdenied, ht⟩ := hopened
    refine yields_say_bind ?_
    intro u hu hua _
    have hready := ht.of_same hu hua
    by_cases hk : fault.status.kind = .accessDenied
    · rw [if_pos hk]
      refine yields_pure ⟨?_, .empty, ⟨.outOfReach hreach, ?_, hp.goesOn⟩, hready⟩
      · rw [hdenied] at hk
        simp [Progress.account, hk, hreach, Denial.remember, Owner.pid?]
      · rintro _ ⟨⟩
        exact hreach
    · rw [if_neg hk]
      refine yields_pure ⟨?_, .empty, ⟨.outOfReach hreach, hp.memo, hp.goesOn⟩, hready⟩
      rw [hdenied] at hk
      simp [Progress.account, hk, hreach, Owner.pid?]
  · obtain ⟨hreach, next, hkeeps, ht⟩ := hopened
    refine yields_pure ⟨?_, next, ⟨hkeeps, hp.memo, hp.goesOn⟩, ht⟩
    have hdenies : w.denies s.host.ownPid pid = false := by
      cases hdenies : w.denies s.host.ownPid pid with
      | false => rfl
      | true =>
        rw [World.reaches_of_denies hdenies] at hreach
        cases hreach
    simp [Progress.account, hreach, hdenies, Owner.pid?]

theorem yields_takeOver (h : Steady s.host w room R) (hy : Ready R settings base y .empty buffer)
    {pid : UInt64} {p : Progress} (hp : Stands s w p .empty) (ho : p.owner = .none) :
    Yields (s.takeOver pid p) y fun next t => next.account = p.account.turned s w pid ∧
      ∃ hand, Stands s w next hand ∧ Ready R settings base t hand buffer := by
  unfold takeOver
  by_cases hd : p.denial.last = some pid
  · rw [if_pos (by simp [Denial.covers, hd]), ho]
    have hreach := hp.memo pid hd
    refine yields_pure ⟨?_, .empty, ⟨.outOfReach hreach, hp.memo, hp.goesOn⟩, hy⟩
    rw [Account.turned_of_denied (show p.account.denied = some pid from hd)]
    rfl
  · rw [if_neg (by simp [Denial.covers, hd])]
    exact yields_openOwner h hy hp ho hd

theorem yields_turnTo (h : Steady s.host w room R) (hn : s.cancellation = .never)
    (hy : Ready R settings base y hand buffer) {pid : UInt64} {p : Progress}
    (hp : Stands s w p hand) :
    Yields (s.turnTo pid p) y fun next t => next.account = p.account.turned s w pid ∧
      ∃ hand, Stands s w next hand ∧ Ready R settings base t hand buffer := by
  rw [turnTo_eq]
  by_cases hr : p.owner.pid? = some pid
  · rw [if_neg (by simp [Owner.startsRun, hr])]
    refine yields_pure ⟨?_, hand, hp, hy⟩
    rw [Account.turned_of_current (show p.account.current = some pid from hr)]
  · rw [if_pos (by simp [Owner.startsRun, hr])]
    refine (Owner.yields_letGo h hy hp.keeps).bind ?_
    rintro _ t ⟨rfl, ht⟩
    refine yields_note_bind ?_
    intro u hu hua _
    rw [hn]
    -- letting the owner go forgets which one it was, but it was another one
    have hturned : p.account.turned s w pid =
        Account.turned s w { p.account with current := none } pid := by
      have hcurrent : p.account.current ≠ some pid := hr
      simp [Account.turned, Account.tries, hcurrent]
    rw [hturned]
    exact yields_takeOver h (ht.of_same hu hua)
      (p := { p with owner := .none, polls := p.polls + 1 }) ⟨.none, hp.memo, hp.goesOn⟩ rfl

/-- One record does to a search what it does to the account. -/
theorem yields_step (h : Steady s.host w room R) (hs : Suits s.settings w room base.toNat)
    (hn : s.cancellation = .never) (hy : Ready R s.settings base y hand buffer) (r : Record)
    {p : Progress} (hp : Stands s w p hand) :
    Yields (s.step r buffer p) y fun a t => a.2.account = p.account.step s w r ∧
      ∃ hand, Stands s w a.2 hand ∧ Ready R s.settings base t hand a.1 := by
  rw [step_eq]
  refine yields_note_bind ?_
  intro t ht ha _
  have hcounted : Stands s w { p with tally.records := p.tally.records + 1 } hand :=
    ⟨hp.keeps, hp.memo, hp.goesOn⟩
  refine (yields_turnTo h hn (hy.of_same ht ha) hcounted).bind ?_
  rintro turned u ⟨hturned, next, hstands, hu⟩
  rw [if_neg (by simp [hstands.goesOn])]
  have howner : turned.owner.pid? = some r.pid := congrArg Account.current hturned
  have hattend := (yields_attend h hs hu hstands.keeps howner).and_emits
    (s.emits_attend r buffer turned u)
  refine hattend.mono ?_
  rintro ⟨last, seen⟩ v ⟨⟨hseen, hv⟩, events, hattends⟩
  obtain ⟨howner, hdenial, -, hcancelled⟩ := hattends.sameStand
  refine ⟨?_, next, ⟨?_, ?_, ?_⟩, hv⟩
  · rw [hseen, hturned]
    rfl
  · rw [howner]
    exact hstands.keeps
  · rw [hdenial]
    exact hstands.memo
  · rw [hcancelled]
    exact hstands.goesOn

/-- A walk does to a search what its records do to the account, one after the other. -/
theorem yields_walk (h : Steady s.host w room R) (hs : Suits s.settings w room base.toNat)
    (hn : s.cancellation = .never) (records : List Record)
    (hy : Ready R s.settings base y hand buffer) {p : Progress} (hp : Stands s w p hand) :
    Yields (s.walk records buffer p) y fun a t =>
      a.2.account = records.foldl (Account.step s w) p.account ∧
        ∃ hand, Stands s w a.2 hand ∧ Ready R s.settings base t hand a.1 := by
  induction records generalizing buffer p y hand with
  | nil => exact yields_pure ⟨rfl, hand, hp, hy⟩
  | cons r rest ih =>
    unfold walk
    refine (yields_step h hs hn hy r hp).bind ?_
    rintro ⟨last, mid⟩ t ⟨hstep, next, hstands, ht⟩
    dsimp only at hstep hstands ht ⊢
    rw [if_neg (by simp [hstands.goesOn]), List.foldl_cons, ← hstep]
    exact ih ht hstands

end Search

end FileHolders
