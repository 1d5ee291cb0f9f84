import FileHolders.Proofs.Readings
import FileHolders.Search

/-!
# The course of a search

What each part of a search can do, said once: which events it leaves in the journal and how it
changes what the search knows.  Every part has a relation with one rule for each way in which it can
go, and a theorem that the part only goes in these ways, whatever the host answers.  Facts about
whole searches are read off the relations and never open the parts again.

The host is not trusted: a rule names the answer that it follows from, and nothing ties one answer to
another.

    Emits (s.step r buffer p) x fun es a => Steps s r p es a.2                      (emits_step)
    Emits (s.walk rs buffer p) x fun es a => Walks s rs p es a.2                    (emits_walk)
    Emits s.run x fun es o => Runs s (s.snapshot x) es o                            (emits_run)
    s.PartByPart said → Emits s.run x fun es _ => said es                (PartByPart.emits_run)
-/

namespace FileHolders

open FileHolders.Action

variable {σ : Type}

/-! ## Handles in hand -/

namespace Held

/-- Letting a handle go. -/
inductive Releases (h : Held) : List Event → Prop
  | closed (status : Status) (ho : h.owned = true) : Releases h [.closed h.id status]
  | borrowed (ho : h.owned = false) : Releases h []

/-- Opening a process. -/
inductive Opens (host : Host σ) (pid : UInt64) (access : UInt32) :
    List Event → Except Fault Held → Prop
  | own (hp : pid = host.ownPid) : Opens host pid access [] (.ok ownProcess)
  | opened (status : Status) (handle : Option HandleId) (hp : pid ≠ host.ownPid)
      (ho : host.Offers .openProcess) (hs : status.isSuccess = true) :
      Opens host pid access [.opened pid access status handle]
        (.ok (acquired (handle.getD .zero)))
  | refused (status : Status) (handle : Option HandleId) (hp : pid ≠ host.ownPid)
      (ho : host.Offers .openProcess) (hs : status.isSuccess = false) :
      Opens host pid access [.opened pid access status handle]
        (.error (.failed Capability.openProcess.entryPoint status))
  | missing (hp : pid ≠ host.ownPid) (hl : host.Lacks .openProcess) :
      Opens host pid access [] (.error (.missing .openProcess))

/-- Bringing a handle of a process into the caller. -/
inductive Duplicates (host : Host σ) (process : Held) (value : UInt64) :
    List Event → Except Fault Held → Prop
  | own (hp : process.isOwnProcess = true) :
      Duplicates host process value [] (.ok (borrowed (.ofWord value)))
  | brought (status : Status) (handle : Option HandleId) (hp : process.isOwnProcess = false)
      (ho : host.Offers .duplicate) (hs : status.isSuccess = true) :
      Duplicates host process value [.duplicated process.id value status handle]
        (.ok (acquired (handle.getD .zero)))
  | refused (status : Status) (handle : Option HandleId) (hp : process.isOwnProcess = false)
      (ho : host.Offers .duplicate) (hs : status.isSuccess = false) :
      Duplicates host process value [.duplicated process.id value status handle]
        (.error (.failed Capability.duplicate.entryPoint status))
  | missing (hp : process.isOwnProcess = false) (hl : host.Lacks .duplicate) :
      Duplicates host process value [] (.error (.missing .duplicate))

theorem emits_release (host : Host σ) (h : Held) (x : Session σ) :
    Emits (h.release host) x fun events _ => h.Releases events := by
  unfold release
  split
  · rename_i ho
    refine emits_journaled_bind fun status t => ?_
    exact emits_onlyIf (fun _ => emits_say (.closed status ho)) (fun _ => .closed status ho)
  · rename_i ho
    exact emits_pure (.borrowed (by simpa using ho))

theorem emits_openProcess (host : Host σ) (pid : UInt64) (access : UInt32) (x : Session σ) :
    Emits (openProcess host pid access) x fun events a => Opens host pid access events a := by
  unfold openProcess
  split
  · rename_i hp
    exact emits_pure (.own hp)
  · rename_i hp
    refine Host.emits_provides_bind (fun ho => ?_) (fun hl => emits_pure (.missing hp hl))
    refine emits_journaled_bind fun reply t => emits_pure ?_
    cases hs : reply.status.isSuccess with
    | true => simpa [ofReply, hs] using Opens.opened reply.status reply.handle hp ho hs
    | false => simpa [ofReply, hs] using Opens.refused reply.status reply.handle hp ho hs

theorem emits_duplicate (host : Host σ) (process : Held) (value : UInt64) (x : Session σ) :
    Emits (duplicate host process value) x fun events a =>
      Duplicates host process value events a := by
  unfold duplicate
  split
  · rename_i hp
    exact emits_pure (.own hp)
  · rename_i hp
    rw [Bool.not_eq_true] at hp
    refine Host.emits_provides_bind (fun ho => ?_) (fun hl => emits_pure (.missing hp hl))
    refine emits_journaled_bind fun reply t => emits_pure ?_
    cases hs : reply.status.isSuccess with
    | true => simpa [ofReply, hs] using Duplicates.brought reply.status reply.handle hp ho hs
    | false => simpa [ofReply, hs] using Duplicates.refused reply.status reply.handle hp ho hs

end Held

/-! ## The owner at hand -/

namespace Owner

theorem opened_of_process? {owner : Owner} {process : Held} (h : owner.process? = some process) :
    ∃ pid, owner = .opened pid process := by
  cases owner with
  | none => cases h
  | opened pid held =>
    obtain rfl : held = process := Option.some.inj h
    exact ⟨pid, rfl⟩
  | outOfReach pid => cases h

/-- Letting an owner go. -/
inductive LetsGo : Owner → List Event → Prop
  | opened {pid : UInt64} {process : Held} {events : List Event} (h : process.Releases events) :
      LetsGo (.opened pid process) events
  | other {owner : Owner} (h : owner.process? = .none) : LetsGo owner []

theorem emits_letGo (host : Host σ) (owner : Owner) (x : Session σ) :
    Emits (owner.letGo host) x fun events a => a = .none ∧ owner.LetsGo events := by
  unfold letGo
  split
  · rename_i pid process
    refine emits_say_bind fun t => ?_
    refine (process.emits_release host t).bind fun closing _ u _ hr => ?_
    exact emits_pure ⟨rfl, by simpa using LetsGo.opened hr⟩
  · rename_i hn
    refine emits_pure ⟨rfl, .other ?_⟩
    cases owner with
    | none => rfl
    | opened pid process => exact absurd rfl (hn pid process)
    | outOfReach pid => rfl

end Owner

/-! ## The owner of a run -/

/-- What a search knows after an owner could not be opened. -/
def Progress.refused (p : Progress) (pid : UInt64) (fault : Fault) : Progress :=
  { (if fault.status.kind = .accessDenied then
      { p with denial := p.denial.remember pid, tally.denied := p.tally.denied + 1 }
    else p) with owner := .outOfReach pid }

namespace Search

/-- Turns to a new owner that the search was not cancelled at. -/
def takeOver (s : Search σ) (pid : UInt64) (p : Progress) : Action σ Progress :=
  if p.denial.covers pid then do
    let owner ← p.owner.replaceOutOfReach s.host pid
    pure { p with owner }
  else s.openOwner pid p

/-- Looks at a record whose owner is at hand. -/
def attend (s : Search σ) (r : Record) (buffer : Block) (p : Progress) :
    Action σ (Block × Progress) :=
  match p.owner.process? with
  | none => pure (buffer, p)
  | some process =>
    if s.options.ignoreSelf && process.isOwnProcess then pure (buffer, p)
    else s.inspect process r buffer p

/-- Tells of the owner of a handle, unless the search told of it last. -/
def tell (s : Search σ) (process : Held) (r : Record) (p : Progress) : Action σ Progress :=
  if p.lastHolder = some r.pid then pure p
  else do
    let imagePath ← s.host.askImage process.id
    let holder : Holder := ⟨r.pid, imagePath, r.handleValue, r.grantedAccess⟩
    debug s!"Process {r.pid} holds handle 0x{Text.hex r.handleValue.toNat}"
    let p ← send p holder.line
    note (.holder holder)
    pure { p with lastHolder := some r.pid, holders := p.holders.push holder }

theorem report_eq (s : Search σ) (process : Held) (r : Record) (p : Progress) :
    s.report process r p =
      if p.headed then s.tell process r { p with headed := true }
      else (do
        let p ← send p (headLine s.text)
        s.tell process r { p with headed := true }) := rfl

theorem turnTo_eq (s : Search σ) (pid : UInt64) (p : Progress) :
    s.turnTo pid p =
      if p.owner.startsRun pid then do
        let owner ← p.owner.letGo s.host
        note (.polled (s.cancellation p.polls))
        if s.cancellation p.polls then
          info s!"Search cancelled at process {pid}"
          pure { p with owner, polls := p.polls + 1, cancelled := true }
        else s.takeOver pid { p with owner, polls := p.polls + 1 }
      else pure p := rfl

theorem step_eq (s : Search σ) (r : Record) (buffer : Block) (p : Progress) :
    s.step r buffer p = (do
      note (.record r.pid r.handleValue r.grantedAccess)
      let p ← s.turnTo r.pid { p with tally.records := p.tally.records + 1 }
      if p.cancelled then pure (buffer, p) else s.attend r buffer p) := rfl

/-- Turning to a new owner after the poll. -/
inductive TakesOver (s : Search σ) (pid : UInt64) (p : Progress) : List Event → Progress → Prop
  | remembered (hd : p.denial.covers pid = true) :
      TakesOver s pid p [] { p with owner := .outOfReach pid }
  | opened {events : List Event} {process : Held} (hd : p.denial.covers pid = false)
      (ho : Held.Opens s.host pid s.settings.processAccess events (.ok process)) :
      TakesOver s pid p events
        { p with
          owner := .opened pid process
          tally.attempts := p.tally.attempts + 1
          tally.opened := p.tally.opened + 1 }
  | refused {events : List Event} {fault : Fault} (hd : p.denial.covers pid = false)
      (ho : Held.Opens s.host pid s.settings.processAccess events (.error fault)) :
      TakesOver s pid p events
        ({ p with tally.attempts := p.tally.attempts + 1 }.refused pid fault)

/-- Turning to the owner of a record. -/
inductive Turns (s : Search σ) (pid : UInt64) (p : Progress) : List Event → Progress → Prop
  | stays (hr : p.owner.startsRun pid = false) : Turns s pid p [] p
  | cancelled {closing : List Event} (hr : p.owner.startsRun pid = true)
      (hl : p.owner.LetsGo closing) (hc : s.cancellation p.polls = true) :
      Turns s pid p (closing ++ [.polled true])
        { p with owner := .none, polls := p.polls + 1, cancelled := true }
  | goesOn {closing opening : List Event} {next : Progress} (hr : p.owner.startsRun pid = true)
      (hl : p.owner.LetsGo closing) (hc : s.cancellation p.polls = false)
      (ht : TakesOver s pid { p with owner := .none, polls := p.polls + 1 } opening next) :
      Turns s pid p (closing ++ .polled false :: opening) next

theorem emits_openOwner (s : Search σ) (pid : UInt64) (p : Progress) (x : Session σ)
    (hd : p.denial.covers pid = false) (hp : p.owner = .none) :
    Emits (s.openOwner pid p) x fun events next => TakesOver s pid p events next := by
  unfold openOwner
  dsimp only
  refine (Held.emits_openProcess s.host pid s.settings.processAccess x).bind ?_
  rintro opening (fault | process) t - ho
  · refine emits_say_bind ?_
    intro u
    have hr := TakesOver.refused (p := p) hd ho
    unfold Progress.refused at hr
    by_cases hk : fault.status.kind = .accessDenied
    · simp only [hk, if_true, hp] at hr ⊢
      exact emits_pure (by simpa using hr)
    · simp only [hk, if_false, hp] at hr ⊢
      exact emits_pure (by simpa using hr)
  · simp only [hp]
    exact emits_pure (by simpa using TakesOver.opened hd ho)

theorem emits_takeOver (s : Search σ) (pid : UInt64) (p : Progress) (x : Session σ)
    (hp : p.owner = .none) :
    Emits (s.takeOver pid p) x fun events next => TakesOver s pid p events next := by
  unfold takeOver
  split
  · rename_i hd
    rw [hp]
    exact emits_pure (.remembered hd)
  · rename_i hd
    exact s.emits_openOwner pid p x (by simpa using hd) hp

theorem emits_turnTo (s : Search σ) (pid : UInt64) (p : Progress) (x : Session σ) :
    Emits (s.turnTo pid p) x fun events next => Turns s pid p events next := by
  rw [turnTo_eq]
  split
  · rename_i hr
    refine (p.owner.emits_letGo s.host x).bind ?_
    rintro closing owner t - ⟨rfl, hl⟩
    refine emits_note_bind ?_
    intro u
    split
    · rename_i hc
      rw [hc]
      exact emits_say_bind fun v => emits_pure (.cancelled hr hl hc)
    · rename_i hc
      rw [Bool.not_eq_true] at hc
      rw [hc]
      exact (s.emits_takeOver pid _ u rfl).mono fun opening next ht => .goesOn hr hl hc ht
  · rename_i hr
    exact emits_pure (.stays (by simpa using hr))

end Search

/-! ### Calls of the host -/

section

variable {events : List Event}

theorem hosted_of_releases {h : Held} (hr : h.Releases events) : Hosted events := by
  cases hr with
  | closed _ _ => exact hosted_singleton rfl
  | borrowed _ => exact hosted_nil

theorem hosted_of_letsGo {owner : Owner} (h : owner.LetsGo events) : Hosted events := by
  cases h with
  | opened hr => exact hosted_of_releases hr
  | other _ => exact hosted_nil

theorem hosted_of_opens {host : Host σ} {pid : UInt64} {access : UInt32}
    {answer : Except Fault Held} (h : Held.Opens host pid access events answer) :
    Hosted events := by
  cases h with
  | own _ => exact hosted_nil
  | opened _ _ _ _ _ => exact hosted_singleton rfl
  | refused _ _ _ _ _ => exact hosted_singleton rfl
  | missing _ _ => exact hosted_nil

theorem hosted_of_duplicates {host : Host σ} {process : Held} {value : UInt64}
    {answer : Except Fault Held} (h : Held.Duplicates host process value events answer) :
    Hosted events := by
  cases h with
  | own _ => exact hosted_nil
  | brought _ _ _ _ _ => exact hosted_singleton rfl
  | refused _ _ _ _ _ => exact hosted_singleton rfl
  | missing _ _ => exact hosted_nil

theorem hosted_of_takesOver {s : Search σ} {pid : UInt64} {p next : Progress}
    (h : Search.TakesOver s pid p events next) : Hosted events := by
  cases h with
  | remembered _ => exact hosted_nil
  | opened _ ho => exact hosted_of_opens ho
  | refused _ ho => exact hosted_of_opens ho

end

namespace Search

/-! ## One handle -/

/-- Sending a line. -/
inductive Sends (p : Progress) (text : String) : List Event → Progress → Prop
  | repeated (h : p.lastLine = some text) : Sends p text [] p
  | sent (h : p.lastLine ≠ some text) :
      Sends p text [.line text] { p with lastLine := some text }

/-- Sending the line above the holders, if that was not done. -/
inductive Heads (s : Search σ) (p : Progress) : List Event → Progress → Prop
  | done (h : p.headed = true) : Heads s p [] p
  | first {lines : List Event} {next : Progress} (h : p.headed = false)
      (hs : Sends p (headLine s.text) lines next) : Heads s p lines { next with headed := true }

/-- Reporting a match of a record. -/
inductive Reports (s : Search σ) (process : Held) (r : Record) (p : Progress) :
    List Event → Progress → Prop
  | known {heading : List Event} {headed : Progress} (hh : Heads s p heading headed)
      (hl : headed.lastHolder = some r.pid) : Reports s process r p heading headed
  | found {heading lines : List Event} {headed sent : Progress} (path : Option String)
      (hh : Heads s p heading headed) (hl : headed.lastHolder ≠ some r.pid)
      (hs : Sends headed (Holder.mk r.pid path r.handleValue r.grantedAccess).line lines sent) :
      Reports s process r p
        (heading ++ .image process.id path ::
          (lines ++ [.holder ⟨r.pid, path, r.handleValue, r.grantedAccess⟩]))
        { sent with
          lastHolder := some r.pid
          holders := sent.holders.push ⟨r.pid, path, r.handleValue, r.grantedAccess⟩ }

/-- The target of a search covers a name. -/
def covers (s : Search σ) (name : Name) : Bool :=
  (Target.ofString s.text s.options.coverage).covers name

/-- Looking at a handle in the caller's hands. -/
inductive Examines (s : Search σ) (process handle : Held) (r : Record) (p : Progress) :
    List Event → Progress → Prop
  | passed (kind : FileKind) (hk : kind ≠ .disk) :
      Examines s process handle r p [.classified handle.id kind] p
  | unnamed {asking : List Event} {fault : Fault}
      (ha : Name.Asks s.host handle.id asking (.error fault)) :
      Examines s process handle r p (.classified handle.id .disk :: asking) p
  | uncovered {asking : List Event} {name : Name}
      (ha : Name.Asks s.host handle.id asking (.ok name)) (hc : s.covers name = false) :
      Examines s process handle r p (.classified handle.id .disk :: asking)
        { p with tally.named := p.tally.named + 1 }
  | covered {asking reporting : List Event} {name : Name} {next : Progress}
      (ha : Name.Asks s.host handle.id asking (.ok name)) (hc : s.covers name = true)
      (hr : Reports s process r { p with tally.named := p.tally.named + 1 } reporting next) :
      Examines s process handle r p (.classified handle.id .disk :: (asking ++ reporting)) next

/-- Bringing the handle of a record into the caller, looking at it and letting it go. -/
inductive Inspects (s : Search σ) (process : Held) (r : Record) (p : Progress) :
    List Event → Progress → Prop
  | failed {bringing : List Event} {fault : Fault}
      (hd : Held.Duplicates s.host process r.handleValue bringing (.error fault)) :
      Inspects s process r p bringing p
  | examined {bringing examining closing : List Event} {handle : Held} {next : Progress}
      (hd : Held.Duplicates s.host process r.handleValue bringing (.ok handle))
      (he : Examines s process handle r
        (if process.isOwnProcess then p
          else { p with tally.duplicated := p.tally.duplicated + 1 }) examining next)
      (hr : handle.Releases closing) :
      Inspects s process r p (bringing ++ (examining ++ closing)) next

theorem emits_send (p : Progress) (text : String) (x : Session σ) :
    Emits (send p text) x fun events next => Sends p text events next := by
  unfold send
  split
  · rename_i h
    exact emits_pure (.repeated h)
  · rename_i h
    exact emits_note_bind fun t => emits_pure (.sent h)

theorem emits_tell {s : Search σ} {p headed : Progress} {heading : List Event}
    (hh : Heads s p heading headed) (process : Held) (r : Record) (x : Session σ) :
    Emits (s.tell process r headed) x fun more next =>
      Reports s process r p (heading ++ more) next := by
  unfold tell
  split
  · rename_i hl
    exact emits_pure (by simpa using Reports.known hh hl)
  · rename_i hl
    refine emits_journaled_bind ?_
    intro path u
    refine emits_say_bind ?_
    intro v
    refine (emits_send headed _ v).bind ?_
    intro lines sent w _ hs
    exact emits_note_bind fun _ => emits_pure (by simpa using Reports.found path hh hl hs)

theorem emits_report (s : Search σ) (process : Held) (r : Record) (p : Progress)
    (x : Session σ) :
    Emits (s.report process r p) x fun events next => Reports s process r p events next := by
  rw [report_eq]
  split
  · rename_i hp
    have he : { p with headed := true } = p := by rw [← hp]
    rw [he]
    exact emits_tell (.done hp) process r x
  · rename_i hp
    rw [Bool.not_eq_true] at hp
    refine (emits_send p _ x).bind ?_
    intro lines next t _ hs
    exact emits_tell (.first hp hs) process r t

theorem emits_examine (s : Search σ) (process handle : Held) (r : Record) (buffer : Block)
    (p : Progress) (x : Session σ) :
    Emits (s.examine process handle r buffer p) x fun events a =>
      Examines s process handle r p events a.2 := by
  unfold examine
  refine emits_journaled_bind ?_
  intro kind t
  split
  · rename_i hk
    exact emits_pure (.passed kind hk)
  · rename_i hk
    obtain rfl : kind = .disk := by simpa using hk
    refine (Name.emits_ask s.host s.settings handle.id buffer t).bind ?_
    rintro asking ⟨last, fault | name⟩ u - ha
    · exact emits_say_bind fun v => emits_pure (by simpa using Examines.unnamed ha)
    · dsimp only
      split
      · rename_i hc
        refine (s.emits_report process r _ u).bind ?_
        intro reporting next v _ hr
        exact emits_pure (by simpa using Examines.covered ha hc hr)
      · rename_i hc
        rw [Bool.not_eq_true] at hc
        exact emits_pure (by simpa using Examines.uncovered ha hc)

theorem emits_inspect (s : Search σ) (process : Held) (r : Record) (buffer : Block)
    (p : Progress) (x : Session σ) :
    Emits (s.inspect process r buffer p) x fun events a => Inspects s process r p events a.2 := by
  unfold inspect
  refine (Held.emits_duplicate s.host process r.handleValue x).bind ?_
  rintro bringing (fault | handle) t - hd
  · exact emits_say_bind fun u => emits_pure (by simpa using Inspects.failed hd)
  · dsimp only
    refine (s.emits_examine process handle r buffer _ t).bind ?_
    rintro examining ⟨last, next⟩ u - he
    refine (handle.emits_release s.host u).bind ?_
    intro closing _ v _ hr
    exact emits_pure (by simpa using Inspects.examined hd he hr)

/-! ## One record -/

/-- Whether the search may look at a handle of the process. -/
def mayInspect (s : Search σ) (process : Held) : Bool :=
  !(s.options.ignoreSelf && process.isOwnProcess)

/-- Looking at a record whose owner is at hand. -/
inductive Attends (s : Search σ) (r : Record) (p : Progress) : List Event → Progress → Prop
  | unreached (ho : p.owner.process? = none) : Attends s r p [] p
  | ignored {process : Held} (ho : p.owner.process? = some process)
      (hi : s.mayInspect process = false) : Attends s r p [] p
  | inspected {process : Held} {events : List Event} {next : Progress}
      (ho : p.owner.process? = some process) (hi : s.mayInspect process = true)
      (h : Inspects s process r p events next) : Attends s r p events next

/-- Taking a record. -/
inductive Steps (s : Search σ) (r : Record) (p : Progress) : List Event → Progress → Prop
  | stopped {turning : List Event} {next : Progress}
      (ht : Turns s r.pid { p with tally.records := p.tally.records + 1 } turning next)
      (hc : next.cancelled = true) :
      Steps s r p (.record r.pid r.handleValue r.grantedAccess :: turning) next
  | attended {turning attending : List Event} {turned next : Progress}
      (ht : Turns s r.pid { p with tally.records := p.tally.records + 1 } turning turned)
      (hc : turned.cancelled = false) (ha : Attends s r turned attending next) :
      Steps s r p (.record r.pid r.handleValue r.grantedAccess :: (turning ++ attending)) next

theorem emits_attend (s : Search σ) (r : Record) (buffer : Block) (p : Progress)
    (x : Session σ) :
    Emits (s.attend r buffer p) x fun events a => Attends s r p events a.2 := by
  unfold attend
  split
  · rename_i ho
    exact emits_pure (.unreached ho)
  · rename_i process ho
    split
    · rename_i hi
      exact emits_pure (.ignored ho (by simp [mayInspect, hi]))
    · rename_i hi
      refine (s.emits_inspect process r buffer p x).mono ?_
      intro events a h
      exact .inspected ho (by simp only [mayInspect, hi]; rfl) h

theorem emits_step (s : Search σ) (r : Record) (buffer : Block) (p : Progress) (x : Session σ) :
    Emits (s.step r buffer p) x fun events a => Steps s r p events a.2 := by
  rw [step_eq]
  refine emits_note_bind ?_
  intro t
  refine (s.emits_turnTo r.pid _ t).bind ?_
  intro turning turned u _ ht
  split
  · rename_i hc
    exact emits_pure (by simpa using Steps.stopped ht hc)
  · rename_i hc
    rw [Bool.not_eq_true] at hc
    refine (s.emits_attend r buffer turned u).mono ?_
    intro attending a ha
    exact .attended ht hc ha

/-! ### What looking at a handle leaves as it is -/

/-- The search stands at the same place of the table. -/
structure SameStand (p next : Progress) : Prop where
  owner : next.owner = p.owner
  denial : next.denial = p.denial
  polls : next.polls = p.polls
  cancelled : next.cancelled = p.cancelled

theorem Sends.sameStand {p next : Progress} {text : String} {events : List Event}
    (h : Sends p text events next) : SameStand p next := by
  cases h with
  | repeated _ => exact ⟨rfl, rfl, rfl, rfl⟩
  | sent _ => exact ⟨rfl, rfl, rfl, rfl⟩

theorem Heads.sameStand {s : Search σ} {p next : Progress} {events : List Event}
    (h : Heads s p events next) : SameStand p next := by
  cases h with
  | done _ => exact ⟨rfl, rfl, rfl, rfl⟩
  | first _ hs =>
    obtain ⟨ho, hd, hp, hc⟩ := hs.sameStand
    exact ⟨ho, hd, hp, hc⟩

theorem Reports.sameStand {s : Search σ} {process : Held} {r : Record} {p next : Progress}
    {events : List Event} (h : Reports s process r p events next) : SameStand p next := by
  cases h with
  | known hh _ => exact hh.sameStand
  | found path hh _ hs =>
    obtain ⟨ho, hd, hp, hc⟩ := hh.sameStand
    obtain ⟨ho', hd', hp', hc'⟩ := hs.sameStand
    exact ⟨ho'.trans ho, hd'.trans hd, hp'.trans hp, hc'.trans hc⟩

theorem Examines.sameStand {s : Search σ} {process handle : Held} {r : Record}
    {p next : Progress} {events : List Event} (h : Examines s process handle r p events next) :
    SameStand p next := by
  cases h with
  | passed _ _ => exact ⟨rfl, rfl, rfl, rfl⟩
  | unnamed _ => exact ⟨rfl, rfl, rfl, rfl⟩
  | uncovered _ _ => exact ⟨rfl, rfl, rfl, rfl⟩
  | covered _ _ hr =>
    obtain ⟨ho, hd, hp, hc⟩ := hr.sameStand
    exact ⟨ho, hd, hp, hc⟩

theorem Inspects.sameStand {s : Search σ} {process : Held} {r : Record} {p next : Progress}
    {events : List Event} (h : Inspects s process r p events next) : SameStand p next := by
  cases h with
  | failed _ => exact ⟨rfl, rfl, rfl, rfl⟩
  | examined _ he _ =>
    by_cases hown : process.isOwnProcess = true
    · rw [if_pos hown] at he
      exact he.sameStand
    · rw [if_neg hown] at he
      obtain ⟨ho, hd, hp, hc⟩ := he.sameStand
      exact ⟨ho, hd, hp, hc⟩

theorem Attends.sameStand {s : Search σ} {r : Record} {p next : Progress} {events : List Event}
    (h : Attends s r p events next) : SameStand p next := by
  cases h with
  | unreached _ => exact ⟨rfl, rfl, rfl, rfl⟩
  | ignored _ _ => exact ⟨rfl, rfl, rfl, rfl⟩
  | inspected _ _ h => exact h.sameStand

/-! ### What sending a line and turning to an owner leave as it is -/

theorem Sends.sameHolders {p next : Progress} {text : String} {events : List Event}
    (h : Sends p text events next) :
    next.headed = p.headed ∧ next.holders = p.holders ∧ next.lastHolder = p.lastHolder := by
  cases h with
  | repeated _ => exact ⟨rfl, rfl, rfl⟩
  | sent _ => exact ⟨rfl, rfl, rfl⟩

/-- The search has reported the same. -/
structure SameReport (p next : Progress) : Prop where
  holders : next.holders = p.holders
  lastHolder : next.lastHolder = p.lastHolder
  headed : next.headed = p.headed
  lastLine : next.lastLine = p.lastLine

theorem TakesOver.sameReport {s : Search σ} {pid : UInt64} {p next : Progress}
    {events : List Event} (h : TakesOver s pid p events next) : SameReport p next := by
  cases h with
  | remembered _ => exact ⟨rfl, rfl, rfl, rfl⟩
  | opened _ _ => exact ⟨rfl, rfl, rfl, rfl⟩
  | refused _ _ =>
    unfold Progress.refused
    split
    · exact ⟨rfl, rfl, rfl, rfl⟩
    · exact ⟨rfl, rfl, rfl, rfl⟩

theorem Turns.sameReport {s : Search σ} {pid : UInt64} {p next : Progress}
    {events : List Event} (h : Turns s pid p events next) : SameReport p next := by
  cases h with
  | stays _ => exact ⟨rfl, rfl, rfl, rfl⟩
  | cancelled _ _ _ => exact ⟨rfl, rfl, rfl, rfl⟩
  | goesOn _ _ _ ht =>
    obtain ⟨hholders, hlastHolder, hheaded, hlastLine⟩ := ht.sameReport
    exact ⟨hholders, hlastHolder, hheaded, hlastLine⟩

/-- Turning to an owner only closes a handle, asks whether the search is cancelled and opens a
process. -/
theorem Turns.forall_mem {s : Search σ} {pid : UInt64} {p next : Progress} {events : List Event}
    {said : Event → Prop} (h : Turns s pid p events next)
    (hclosed : ∀ handle status, said (.closed handle status))
    (hpolled : ∀ cancelled, said (.polled cancelled))
    (hopened : ∀ pid access status handle, said (.opened pid access status handle)) :
    ∀ e ∈ events, said e := by
  have hletsGo : ∀ {owner : Owner} {closing : List Event}, owner.LetsGo closing →
      ∀ e ∈ closing, said e := by
    intro owner closing hl
    cases hl with
    | opened hr =>
      cases hr with
      | closed status _ => simpa using hclosed _ status
      | borrowed _ => simp
    | other _ => simp
  have hopens : ∀ {answer : Except Fault Held} {opening : List Event},
      Held.Opens s.host pid s.settings.processAccess opening answer → ∀ e ∈ opening, said e := by
    intro answer opening ho
    cases ho with
    | own _ => simp
    | opened status handle _ _ _ => simpa using hopened pid _ status handle
    | refused status handle _ _ _ => simpa using hopened pid _ status handle
    | missing _ _ => simp
  cases h with
  | stays _ => simp
  | cancelled _ hl _ => exact List.forall_mem_append.mpr ⟨hletsGo hl, by simpa using hpolled true⟩
  | goesOn _ hl _ ht =>
    refine List.forall_mem_append.mpr
      ⟨hletsGo hl, List.forall_mem_cons.mpr ⟨hpolled false, ?_⟩⟩
    cases ht with
    | remembered _ => simp
    | opened _ ho => exact hopens ho
    | refused _ ho => exact hopens ho

/-! ## All records -/

/-- Taking the records one after the other. -/
inductive Walks (s : Search σ) : List Record → Progress → List Event → Progress → Prop
  | done (p : Progress) : Walks s [] p [] p
  | stopped {r : Record} {rest : List Record} {p next : Progress} {events : List Event}
      (h : Steps s r p events next) (hc : next.cancelled = true) :
      Walks s (r :: rest) p events next
  | goesOn {r : Record} {rest : List Record} {p mid next : Progress} {events more : List Event}
      (h : Steps s r p events mid) (hc : mid.cancelled = false)
      (hw : Walks s rest mid more next) : Walks s (r :: rest) p (events ++ more) next

theorem emits_walk (s : Search σ) (records : List Record) (buffer : Block) (p : Progress)
    (x : Session σ) :
    Emits (s.walk records buffer p) x fun events a => Walks s records p events a.2 := by
  induction records generalizing buffer p x with
  | nil => exact emits_pure (.done p)
  | cons r rest ih =>
    unfold walk
    refine (s.emits_step r buffer p x).bind ?_
    rintro events ⟨last, mid⟩ t - h
    dsimp only
    split
    · rename_i hc
      exact emits_pure (by simpa using Walks.stopped h hc)
    · rename_i hc
      rw [Bool.not_eq_true] at hc
      refine (ih last mid t).mono ?_
      intro more a hw
      exact .goesOn h hc hw

/-! ## The whole -/

/-- Going through a table that was read. -/
inductive GoesThrough (s : Search σ) (records : List Record) (p : Progress) :
    List Event → Progress → Prop
  | noBuffer {heap lines : List Event} {next : Progress} (hh : ∀ e ∈ heap, e.isHeap = true)
      (hs : Sends p noBufferLine lines next) : GoesThrough s records p (heap ++ lines) next
  | walked {taking walking closing giving : List Event} {next : Progress}
      (ht : ∀ e ∈ taking, e.isHeap = true) (hw : Walks s records p walking next)
      (hl : next.owner.LetsGo closing) (hg : ∀ e ∈ giving, e.isHeap = true) :
      GoesThrough s records p (taking ++ (walking ++ (closing ++ giving)))
        { next with owner := .none }

/-- Reading the table and going through it. -/
inductive Surveys (s : Search σ) (records : List Record) (p : Progress) :
    List Event → Progress → Prop
  | unreadable {reading lines : List Event} {next : Progress} (fault : Fault)
      (hr : Table.Reading reading) (hs : Sends p (unreadableLine fault) lines next) :
      Surveys s records p (reading ++ lines) next
  | read {reading going giving : List Event} {next : Progress} (hr : Table.Reading reading)
      (hg : GoesThrough s records p going next) (hf : ∀ e ∈ giving, e.isHeap = true) :
      Surveys s records p (reading ++ (going ++ giving)) next

/-- The last line of a report. -/
def closingLine (s : Search σ) (p : Progress) : String :=
  if p.outcome.found then foundLine else notFoundLine s.settings.applicationName s.text

/-- Running a search, up to its last line. -/
inductive Prepares (s : Search σ) (records : List Record) : List Event → Progress → Prop
  | empty (ht : s.text.isEmpty = true) : Prepares s records [] {}
  | noArena {creating lines : List Event} {next : Progress} (fault : ArenaFault)
      (ht : s.text.isEmpty = false) (hc : ∀ e ∈ creating, e.isHeap = true)
      (hs : Sends {} (unreadableLine (.arena fault)) lines next) :
      Prepares s records (creating ++ lines) next
  | surveyed {creating surveying giving : List Event} {next : Progress}
      (ht : s.text.isEmpty = false) (hc : ∀ e ∈ creating, e.isHeap = true)
      (hs : Surveys s records {} surveying next) (hg : ∀ e ∈ giving, e.isHeap = true) :
      Prepares s records (creating ++ (surveying ++ giving)) next

/-- Running a search. -/
inductive Runs (s : Search σ) (records : List Record) : List Event → Outcome → Prop
  | ended {preparing closing : List Event} {p next : Progress} (hp : Prepares s records preparing p)
      (hs : Sends p (s.closingLine p) closing next) :
      Runs s records (preparing ++ closing) p.outcome

/-- The records of a table, if it could be read. -/
def recordsOf : Except Fault Table → List Record
  | .error _ => []
  | .ok table => table.records

/-- The records of the table that a search reads when it is run in a session. -/
def snapshot (s : Search σ) (x : Session σ) : List Record :=
  if s.text.isEmpty then []
  else
    let created := (Arena.create s.host.heap s.settings.arenaLimit).run
      ((info s.openingMessage).run x).2
    match created.1 with
    | .error _ => []
    | .ok () => recordsOf ((Table.read s.host s.settings).run created.2).1

/-! ## Around the walk

A search takes what it needs before the records and gives it back behind them.  What is said of such
a part is said if it can be said of the part inside, whatever comes before and behind it. -/

section

variable {s : Search σ} {p : Progress} {x : Session σ} {said : List Event → Progress → Prop}

theorem emits_goThrough_around {table : Table}
    (hnone : ∀ taking lines next t,
      (Arena.allocate s.host.heap s.settings.nameBufferInitial).run x = (none, t) →
      (∀ e ∈ taking, e.isHeap = true) → Sends p noBufferLine lines next →
      said (taking ++ lines) next)
    (hwalk : ∀ taking buffer t,
      (Arena.allocate s.host.heap s.settings.nameBufferInitial).run x = (some buffer, t) →
      (∀ e ∈ taking, e.isHeap = true) →
      Emits (s.walk table.records buffer.1 p) t fun walking a =>
        ∀ closing giving, a.2.owner.LetsGo closing → (∀ e ∈ giving, e.isHeap = true) →
          said (taking ++ (walking ++ (closing ++ giving))) { a.2 with owner := .none }) :
    Emits (s.goThrough table p) x said := by
  unfold goThrough
  refine (Arena.emits_allocate s.host.heap _ x).bind ?_
  rintro taking (_ | buffer) t hrun ht
  · refine (emits_send p noBufferLine t).mono ?_
    intro lines next hs
    exact hnone taking lines next t hrun ht hs
  · refine (hwalk taking buffer t hrun ht).bind ?_
    rintro walking ⟨last, next⟩ u - hw
    refine (next.owner.emits_letGo s.host u).bind ?_
    rintro closing owner v - ⟨rfl, hl⟩
    refine (Arena.emits_free s.host.heap last v).bind ?_
    intro giving _ w _ hg
    refine emits_pure ?_
    rw [List.append_nil]
    exact hw closing giving hl hg

theorem emits_survey_around {reads : List Event → Prop}
    (hreads : Emits (Table.read s.host s.settings) x fun reading _ => reads reading)
    (hfail : ∀ reading lines fault next t,
      (Table.read s.host s.settings).run x = (.error fault, t) → reads reading →
      Sends p (unreadableLine fault) lines next → said (reading ++ lines) next)
    (hread : ∀ reading table t,
      (Table.read s.host s.settings).run x = (.ok table, t) → reads reading →
      Emits (s.goThrough table p) t fun going next =>
        ∀ giving, (∀ e ∈ giving, e.isHeap = true) → said (reading ++ (going ++ giving)) next) :
    Emits (s.survey p) x said := by
  unfold survey
  refine hreads.bind ?_
  rintro reading (fault | table) t hrun hr
  · refine emits_say_bind ?_
    intro u
    refine (emits_send p (unreadableLine fault) u).mono ?_
    intro lines next hs
    exact hfail reading lines fault next t hrun hr hs
  · refine (hread reading table t hrun hr).bind ?_
    intro going next u _ hg
    refine (Arena.emits_free s.host.heap table.block u).bind ?_
    intro giving _ v _ hf
    refine emits_pure ?_
    rw [List.append_nil]
    exact hg giving hf

theorem emits_surveyInArena_around
    (hfail : ∀ creating lines fault next t,
      (Arena.create s.host.heap s.settings.arenaLimit).run x = (.error fault, t) →
      (∀ e ∈ creating, e.isHeap = true) → Sends p (unreadableLine (.arena fault)) lines next →
      said (creating ++ lines) next)
    (hsurvey : ∀ creating t,
      (Arena.create s.host.heap s.settings.arenaLimit).run x = (.ok (), t) →
      (∀ e ∈ creating, e.isHeap = true) →
      Emits (s.survey p) t fun surveying next =>
        ∀ giving, (∀ e ∈ giving, e.isHeap = true) →
          said (creating ++ (surveying ++ giving)) next) :
    Emits (s.surveyInArena p) x said := by
  unfold surveyInArena
  refine (Arena.emits_create s.host.heap _ _).bind ?_
  rintro creating (fault | _) t hrun hc
  · refine emits_say_bind ?_
    intro u
    refine (emits_send p _ u).mono ?_
    intro lines next hs
    exact hfail creating lines fault next t hrun hc hs
  · refine (hsurvey creating t hrun hc).bind ?_
    intro surveying next u _ hs
    refine (Arena.emits_destroy s.host.heap u).bind ?_
    intro giving answer v _ hg
    refine Emits.silent_bind (Arena.emits_warnIfUnreleased answer v) ?_
    intro _ w
    refine emits_pure ?_
    rw [List.append_nil]
    exact hs giving hg

theorem emits_run_around {post : List Event → Outcome → Prop}
    (hempty : s.text.isEmpty = true → said [] {})
    (hsurvey : s.text.isEmpty = false →
      Emits (s.surveyInArena {}) ((info s.openingMessage).run x).2 said)
    (hend : ∀ preparing closing p next, said preparing p →
      Sends p (s.closingLine p) closing next → post (preparing ++ closing) p.outcome) :
    Emits s.run x post := by
  have hclose : ∀ (preparing : List Event) (p : Progress) (t : Session σ), said preparing p →
      Emits (do
          let _ ← send p
            (if p.outcome.found then foundLine else notFoundLine s.settings.applicationName s.text)
          info (closingMessage p.outcome)
          pure p.outcome) t
        fun closing outcome => post (preparing ++ closing) outcome := by
    intro preparing p t hp
    refine (emits_send p _ t).bind ?_
    intro closing next u _ hs
    refine emits_say_bind fun v => emits_pure ?_
    rw [List.append_nil]
    exact hend preparing closing p next hp hs
  unfold run
  refine (emits_say rfl : Emits (info s.openingMessage) x fun events _ => events = []).bind ?_
  rintro _ _ t hx rfl
  obtain rfl : ((info s.openingMessage).run x).2 = t := congrArg Prod.snd hx
  cases ht : s.text.isEmpty with
  | true =>
    refine emits_say_bind ?_
    intro u
    exact hclose [] {} u (hempty ht)
  | false =>
    refine (hsurvey ht).bind ?_
    intro preparing p u _ hp
    exact hclose preparing p u hp

end

/-! ## The course of a run -/

theorem emits_goThrough (s : Search σ) (table : Table) (p : Progress) (x : Session σ) :
    Emits (s.goThrough table p) x fun events next =>
      GoesThrough s table.records p events next := by
  refine emits_goThrough_around ?_ ?_
  · intro taking lines next t _ ht hs
    exact .noBuffer ht hs
  · intro taking buffer t _ ht
    refine (s.emits_walk table.records buffer.1 p t).mono ?_
    intro walking a hw closing giving hl hg
    exact .walked ht hw hl hg

theorem emits_survey (s : Search σ) (p : Progress) (x : Session σ) :
    Emits (s.survey p) x fun events next =>
      Surveys s (recordsOf ((Table.read s.host s.settings).run x).1) p events next := by
  refine emits_survey_around (Table.emits_read s.host s.settings x) ?_ ?_
  · intro reading lines fault next t _ hr hs
    exact .unreadable fault hr hs
  · intro reading table t hrun hr
    rw [hrun]
    refine (s.emits_goThrough table p t).mono ?_
    intro going next hg giving hf
    exact .read hr hg hf

theorem emits_surveyInArena (s : Search σ) (x : Session σ) (ht : s.text.isEmpty = false) :
    Emits (s.surveyInArena {}) ((info s.openingMessage).run x).2 fun events next =>
      Prepares s (s.snapshot x) events next := by
  refine emits_surveyInArena_around ?_ ?_
  · intro creating lines fault next t _ hc hs
    exact .noArena fault ht hc hs
  · intro creating t hrun hc
    have hsnap : s.snapshot x = recordsOf ((Table.read s.host s.settings).run t).1 := by
      simp [snapshot, ht, hrun]
    rw [hsnap]
    refine (s.emits_survey {} t).mono ?_
    intro surveying next hs giving hg
    exact .surveyed ht hc hs hg

/-- Whatever the host answers, a run goes in one of the ways above. -/
theorem emits_run (s : Search σ) (x : Session σ) :
    Emits s.run x fun events outcome => Runs s (s.snapshot x) events outcome := by
  refine emits_run_around .empty (s.emits_surveyInArena x) ?_
  intro preparing closing p next hp hs
  exact .ended hp hs

/-! ## Part by part -/

/-- What can be said of the events of a whole run because it can be said of those of its parts, and
of two lists of events one after the other. -/
structure PartByPart (s : Search σ) (said : List Event → Prop) : Prop where
  append : ∀ events more, said events → said more → said (events ++ more)
  heap : ∀ {events : List Event}, (∀ e ∈ events, e.isHeap = true) → said events
  reading : ∀ x, Emits (Table.read s.host s.settings) x fun events _ => said events
  walk : ∀ records buffer p x, Emits (s.walk records buffer p) x fun events _ => said events
  letsGo : ∀ {owner : Owner} {events : List Event}, owner.LetsGo events → said events
  sends : ∀ {p next : Progress} {text : String} {events : List Event},
    Sends p text events next → said events

namespace PartByPart

variable {s : Search σ} {said : List Event → Prop} (h : s.PartByPart said)

include h

theorem nil : said [] := h.heap (by simp)

theorem emits_goThrough (table : Table) (p : Progress) (x : Session σ) :
    Emits (s.goThrough table p) x fun events _ => said events := by
  refine emits_goThrough_around ?_ ?_
  · intro taking lines next t _ ht hs
    exact h.append _ _ (h.heap ht) (h.sends hs)
  · intro taking buffer t _ ht
    refine (h.walk table.records buffer.1 p t).mono ?_
    intro walking a hw closing giving hl hg
    exact h.append _ _ (h.heap ht) (h.append _ _ hw (h.append _ _ (h.letsGo hl) (h.heap hg)))

theorem emits_survey (p : Progress) (x : Session σ) :
    Emits (s.survey p) x fun events _ => said events := by
  refine emits_survey_around (h.reading x) ?_ ?_
  · intro reading lines fault next t _ hr hs
    exact h.append _ _ hr (h.sends hs)
  · intro reading table t _ hr
    refine (h.emits_goThrough table p t).mono ?_
    intro going next hg giving hf
    exact h.append _ _ hr (h.append _ _ hg (h.heap hf))

theorem emits_surveyInArena (p : Progress) (x : Session σ) :
    Emits (s.surveyInArena p) x fun events _ => said events := by
  refine emits_surveyInArena_around ?_ ?_
  · intro creating lines fault next t _ hc hs
    exact h.append _ _ (h.heap hc) (h.sends hs)
  · intro creating t _ hc
    refine (h.emits_survey p t).mono ?_
    intro surveying next hsaid giving hg
    exact h.append _ _ (h.heap hc) (h.append _ _ hsaid (h.heap hg))

theorem emits_run (x : Session σ) : Emits s.run x fun events _ => said events := by
  refine emits_run_around (fun _ => h.nil) (fun _ => h.emits_surveyInArena {} _) ?_
  intro preparing closing p next hsaid hs
  exact h.append _ _ hsaid (h.sends hs)

end PartByPart

/-! ## A walk between other events -/

end Search

/-- Whether an event may happen before and after the records: it is of the heap or the table, closes
a handle or sends a line. -/
def Event.isOuter : Event → Bool
  | .line _ | .closed _ _ => true
  | e => e.isHeap || e.isTable

/-- Events that may happen before and after the records. -/
def Outer (events : List Event) : Prop := ∀ e ∈ events, e.isOuter = true

section

variable {events more : List Event}

theorem Outer.append (h : Outer events) (hm : Outer more) : Outer (events ++ more) :=
  List.forall_mem_append.mpr ⟨h, hm⟩

theorem outer_of_reading (h : Table.Reading events) : Outer events := by
  intro e he
  have hread := h e he
  cases e <;> simp_all [Event.isOuter]

theorem outer_of_isHeap (h : ∀ e ∈ events, e.isHeap = true) : Outer events :=
  outer_of_reading (Table.reading_of_isHeap h)

theorem outer_of_sends {p next : Progress} {text : String}
    (h : Search.Sends p text events next) : Outer events := by
  cases h with
  | repeated _ => simp [Outer]
  | sent _ => simp [Outer, Event.isOuter]

theorem outer_of_letsGo {owner : Owner} (h : owner.LetsGo events) : Outer events := by
  cases h with
  | opened hr =>
    cases hr with
    | closed _ _ => simp [Outer, Event.isOuter]
    | borrowed _ => simp [Outer]
  | other _ => simp [Outer]

/-- A run is a walk between outer events, or outer events only. -/
theorem Search.Runs.walks {s : Search σ} {records : List Record} {outcome : Outcome}
    (h : Runs s records events outcome) :
    (Outer events ∧ outcome.holders = []) ∨
      ∃ front walking closing q, events = front ++ (walking ++ closing) ∧ Outer front ∧
        Outer closing ∧ Walks s records {} walking q ∧ outcome.holders = q.holders.toList := by
  cases h with
  | @ended preparing ending p _ hp hend =>
    have hlast : Outer ending := outer_of_sends hend
    cases hp with
    | empty _ => exact .inl ⟨hlast, rfl⟩
    | noArena fault _ hc hs =>
      obtain ⟨-, hholders, -⟩ := hs.sameHolders
      refine .inl ⟨((outer_of_isHeap hc).append (outer_of_sends hs)).append hlast, ?_⟩
      rw [Progress.outcome, hholders]
    | @surveyed creating surveying giving _ _ hc hs hg =>
      cases hs with
      | @unreadable reading lines _ fault hr hs =>
        obtain ⟨-, hholders, -⟩ := hs.sameHolders
        refine .inl ⟨?_, by rw [Progress.outcome, hholders]⟩
        exact ((outer_of_isHeap hc).append
          (((outer_of_reading hr).append (outer_of_sends hs)).append (outer_of_isHeap hg))).append
            hlast
      | @read reading going freeing _ hr hgo hf =>
        have hfront : Outer (creating ++ reading) :=
          (outer_of_isHeap hc).append (outer_of_reading hr)
        have hback : Outer (freeing ++ giving ++ ending) :=
          ((outer_of_isHeap hf).append (outer_of_isHeap hg)).append hlast
        cases hgo with
        | @noBuffer heap lines _ hh hs =>
          obtain ⟨-, hholders, -⟩ := hs.sameHolders
          refine .inl ⟨?_, by rw [Progress.outcome, hholders]⟩
          have hall := hfront.append
            (((outer_of_isHeap hh).append (outer_of_sends hs)).append hback)
          simpa using hall
        | @walked taking walking letting freeing' q ht hw hl hg' =>
          refine .inr ⟨creating ++ reading ++ taking, walking,
            letting ++ freeing' ++ (freeing ++ giving ++ ending), q, by simp,
            hfront.append (outer_of_isHeap ht), ?_, hw, rfl⟩
          exact ((outer_of_letsGo hl).append (outer_of_isHeap hg')).append hback

end

end FileHolders
