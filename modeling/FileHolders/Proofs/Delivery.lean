import FileHolders.Proofs.Logging
import FileHolders.Proofs.Schedules
import FileHolders.Proofs.WholeReport

/-!
# What a receiver hears of a search

A search on a thread tells one story, whatever the receiver does: its lines and its holders as the
search itself reports them, and at the end its outcome.  At any moment of any schedule the receiver
and the queue together have the first messages of it, and the published list has the first holders:
those that were sent, and at most one more.

    ((runThread s).run x).1 = deeds (eventsOf s.run x) outcome                (run_runThread)
    sentBy (deeds es o) = messagesIn es ++ [.complete o]                      (sentBy_deeds)
    done <+: deeds es o → publishedBy done = the holders sent, and perhaps the next
                                                                       (published_of_prefix)
    e.Reflects done → DeliveredBy es o done e                      (deliveredBy_of_reflects)
    Delivers s x                                                            (search_delivers)
-/

namespace FileHolders

open FileHolders.Action

/-! ## Messages of a report -/

/-- The message that an event of a search becomes. -/
def Event.message? : Event → Option Message
  | .line text => some (.line text)
  | .holder h => some (.holder h)
  | _ => none

/-- The messages that some events become, in order. -/
def messagesIn (events : List Event) : List Message := events.filterMap Event.message?

/-- The line that a message tells. -/
def Message.line? : Message → Option String
  | .line text => some text
  | _ => none

/-- The holder that a message tells of. -/
def Message.holder? : Message → Option Holder
  | .holder h => some h
  | _ => none

/-- The holders that some messages tell of, in order. -/
def holdersAmong (messages : List Message) : List Holder := messages.filterMap Message.holder?

theorem holdersAmong_append (messages more : List Message) :
    holdersAmong (messages ++ more) = holdersAmong messages ++ holdersAmong more :=
  List.filterMap_append

theorem holdersAmong_messagesIn (events : List Event) :
    holdersAmong (messagesIn events) = holdersIn events := by
  rw [holdersAmong, messagesIn, List.filterMap_filterMap]
  apply List.filterMap_congr
  intro e _
  cases e <;> rfl

theorem lines_messagesIn (events : List Event) :
    (messagesIn events).filterMap Message.line? = linesIn events := by
  rw [messagesIn, List.filterMap_filterMap]
  apply List.filterMap_congr
  intro e _
  cases e <;> rfl

theorem messagesIn_transcriptOf (events : List Event) :
    messagesIn (transcriptOf events) = messagesIn events := by
  rw [messagesIn, transcriptOf, List.filterMap_filter]
  apply List.filterMap_congr
  intro e _
  cases e <;> rfl

theorem complete_notMem_messagesIn (events : List Event) (o : Outcome) :
    .complete o ∉ messagesIn events := by
  intro hmem
  obtain ⟨e, -, he⟩ := List.mem_filterMap.mp hmem
  cases e <;> cases he

namespace Worker

/-! ## The deeds of a thread -/

section

variable {events : List Event} {o : Outcome} {done : List Deed}

theorem sentBy_deeds (events : List Event) (o : Outcome) :
    sentBy (deeds events o) = messagesIn events ++ [.complete o] := by
  rw [deeds, sentBy_append]
  congr 1
  induction events with
  | nil => rfl
  | cons e events ih =>
    rw [List.flatMap_cons, sentBy_append, ih]
    cases e <;> rfl

theorem publishedBy_deeds (events : List Event) (o : Outcome) :
    publishedBy (deeds events o) = holdersIn events := by
  rw [deeds, publishedBy_append]
  show _ ++ [] = _
  rw [List.append_nil]
  induction events with
  | nil => rfl
  | cons e events ih =>
    rw [List.flatMap_cons, publishedBy_append, ih]
    cases e <;> rfl

/-- Each holder is published right before it is sent. -/
theorem published_of_prefix (h : done <+: deeds events o) :
    publishedBy done = holdersAmong (sentBy done) ∨
      ∃ next, publishedBy done = holdersAmong (sentBy done) ++ [next] := by
  induction events generalizing done with
  | nil =>
    rcases List.prefix_cons_iff.mp h with rfl | ⟨rest, rfl, hrest⟩
    · exact .inl rfl
    · rw [List.prefix_nil.mp hrest]
      exact .inl rfl
  | cons e events ih =>
    have hsplit : deeds (e :: events) o = deedsOf e ++ deeds events o := by
      rw [deeds, deeds, List.flatMap_cons, List.append_assoc]
    rw [hsplit] at h
    cases e with
    | line text =>
      rcases List.prefix_cons_iff.mp h with rfl | ⟨later, rfl, hlater⟩
      · exact .inl rfl
      · rcases ih hlater with hsame | ⟨next, hnext⟩
        · exact .inl hsame
        · exact .inr ⟨next, hnext⟩
    | holder first =>
      rcases List.prefix_cons_iff.mp h with rfl | ⟨between, rfl, hbetween⟩
      · exact .inl rfl
      · rcases List.prefix_cons_iff.mp hbetween with rfl | ⟨later, rfl, hlater⟩
        · exact .inr ⟨first, rfl⟩
        · rcases ih hlater with hsame | ⟨next, hnext⟩
          · exact .inl (congrArg (first :: ·) hsame)
          · exact .inr ⟨next, congrArg (first :: ·) hnext⟩
    | _ => exact ih h

end

/-! ## A moment of a schedule -/

/-- A moment at which the thread has done some of its deeds, for a search that left some events and
an outcome. -/
structure DeliveredBy (events : List Event) (o : Outcome) (done : List Deed) (e : Exchange) :
    Prop where
  /-- What was received and what is queued are the first messages, in order. -/
  messages : e.received ++ e.queue <+: messagesIn events ++ [.complete o]
  /-- While the receiver is there, they are all that were sent. -/
  kept : e.receiverGone = false → e.received ++ e.queue = sentBy done
  room : e.queue.length ≤ capacity
  published : e.published <+: o.holders
  /-- A holder that was received or is queued was published before. -/
  ahead : holdersAmong (e.received ++ e.queue) <+: e.published
  /-- At most one holder was published and not sent. -/
  behind : e.published.length ≤ (holdersAmong (sentBy done)).length + 1
  /-- When the outcome is sent, every holder is published. -/
  completed : e.todo = [] ∨ e.todo = [.send (.complete o)] → e.published = o.holders
  finished : e.todo = [] → e.receiverGone = false →
    e.received ++ e.queue = messagesIn events ++ [.complete o]
  waits : e.todo ≠ [] → e.work?.isSome = true ∨
    (e.receiverGone = false ∧ e.receive?.isSome = true)

theorem deliveredBy_of_reflects {events : List Event} {o : Outcome} {done : List Deed}
    {e : Exchange} (ho : holdersIn events = o.holders) (hd : deeds events o = done ++ e.todo)
    (h : e.Reflects done) :
    DeliveredBy events o done e := by
  have hprefix : done <+: deeds events o := ⟨e.todo, hd.symm⟩
  have hsent : sentBy done <+: messagesIn events ++ [.complete o] := by
    rw [← sentBy_deeds, hd, sentBy_append]
    exact List.prefix_append _ _
  have hpublished := published_of_prefix hprefix
  have hpublishes : publishedBy done ++ publishedBy e.todo = o.holders := by
    rw [← publishedBy_append, ← hd, publishedBy_deeds, ho]
  have hheard : e.received ++ e.queue <+: sentBy done := by
    cases hg : e.receiverGone with
    | false => exact ⟨[], by rw [List.append_nil, h.kept hg]⟩
    | true =>
      obtain ⟨hq, hr⟩ := h.lost hg
      rw [hq, List.append_nil]
      exact hr
  constructor
  · exact hheard.trans hsent
  · exact h.kept
  · exact h.room
  · rw [h.published, ← hpublishes]
    exact List.prefix_append _ _
  · rw [h.published]
    refine (hheard.filterMap Message.holder?).trans ?_
    rcases hpublished with hsame | ⟨next, hnext⟩
    · rw [hsame]
      exact List.prefix_rfl
    · rw [hnext]
      exact List.prefix_append _ _
  · rw [h.published]
    rcases hpublished with hsame | ⟨next, hnext⟩
    · rw [hsame]
      exact Nat.le_succ _
    · rw [hnext, List.length_append]
      rfl
  · intro ht
    have hnone : publishedBy e.todo = [] := by
      rcases ht with ht | ht
      · rw [ht]
        rfl
      · rw [ht]
        rfl
    rw [h.published, ← hpublishes, hnone, List.append_nil]
  · intro ht hg
    rw [h.kept hg, ← sentBy_deeds, hd, ht, List.append_nil]
  · intro ht
    cases hg : e.receiverGone with
    | true => exact .inl (Exchange.can_work_of_gone ht hg)
    | false => exact (Exchange.can_move ht).imp_right fun hr => ⟨rfl, hr⟩

/-! ## The story of a search -/

variable {σ : Type}

/-- What a receiver that stays hears of a search: its report and its outcome. -/
def story (s : Search σ) (x : Session σ) : List Message :=
  messagesIn (eventsOf s.run x) ++ [.complete (s.run.run x).1]

/-- The thread does what the search does on its own; that it was logged first makes no difference. -/
theorem run_runThread (s : Search σ) (x : Session σ) :
    ((runThread s).run x).1 = deeds (eventsOf s.run x) (s.run.run x).1 := by
  have hlogged : ((info s!"Starting search for {s.text}").run x).2.Alike x := ⟨rfl, rfl, rfl, rfl⟩
  obtain ⟨hanswer, -⟩ := s.ignoresLog_run _ _ hlogged
  rw [← s.ignoresLog_run.eventsOf hlogged, ← hanswer]
  rfl

/-- What was told last is the line of a holder, or another holder with that line. -/
def Tells (told : List Message) (h : Holder) : Prop :=
  (∃ front, told = front ++ [.line h.line]) ∨
    ∃ front earlier, told = front ++ [.holder earlier] ∧ earlier.line = h.line

theorem tells_of_introduces {events : List Event} {told rest : List Message} {h : Holder}
    (hi : ∀ before rest, transcriptOf events = before ++ .holder h :: rest → Introduces before h)
    (he : messagesIn events = told ++ .holder h :: rest) : Tells told h := by
  rw [← messagesIn_transcriptOf] at he
  obtain ⟨before, after, hsplit, rfl, hafter⟩ := List.filterMap_eq_append_iff.mp he
  obtain ⟨skipped, e, last, rfl, hskipped, hmessage, -⟩ := List.filterMap_eq_cons_iff.mp hafter
  obtain rfl : e = .holder h := by
    cases e <;> simp_all [Event.message?]
  have htold : messagesIn (before ++ skipped) = before.filterMap Event.message? := by
    rw [messagesIn, List.filterMap_append, List.filterMap_eq_nil_iff.mpr hskipped, List.append_nil]
  rw [← List.append_assoc] at hsplit
  rw [← htold]
  rcases hi _ _ hsplit with ⟨front, hfront⟩ | ⟨front, earlier, hfront, hl⟩
  · rw [hfront]
    exact .inl ⟨messagesIn front, List.filterMap_append⟩
  · rw [hfront]
    exact .inr ⟨messagesIn front, earlier, List.filterMap_append, hl⟩

/-- An element of a list and what comes after it: it is the last one, or the last one comes later. -/
theorem concat_eq_append_cons {α : Type} {items before rest : List α} {last a : α}
    (h : items ++ [last] = before ++ a :: rest) :
    (rest = [] ∧ a = last) ∨ ∃ rest', rest = rest' ++ [last] ∧ items = before ++ a :: rest' := by
  rcases List.eq_nil_or_concat rest with rfl | ⟨rest', z, rfl⟩
  · obtain ⟨-, hlast⟩ := List.append_inj' h rfl
    obtain ⟨rfl, -⟩ := List.cons.inj hlast
    exact .inl ⟨rfl, rfl⟩
  · rw [List.concat_eq_append] at h ⊢
    rw [← List.cons_append, ← List.append_assoc] at h
    obtain ⟨hitems, hlast⟩ := List.append_inj' h rfl
    obtain ⟨rfl, -⟩ := List.cons.inj hlast
    exact .inr ⟨rest', rfl, hitems⟩

/-- A search on a thread is told as it is reported, whatever the receiver does. -/
structure Delivers (s : Search σ) (x : Session σ) : Prop where
  /-- The lines of the story are those of the report, and its holders those of the outcome, each told
  right after its line. -/
  lines : (story s x).filterMap Message.line? = linesIn (eventsOf s.run x)
  holders : holdersAmong (story s x) = (s.run.run x).1.holders
  introduced : ∀ told h rest, story s x = told ++ .holder h :: rest → Tells told h
  /-- The outcome is told once, at the end. -/
  complete : ∀ told o rest, story s x = told ++ .complete o :: rest →
    rest = [] ∧ o = (s.run.run x).1
  /-- At any moment of any schedule the story was told in part, and in full if the thread is done and
  the receiver is there. -/
  always : Exchange.Always { todo := ((runThread s).run x).1 } fun e =>
    ∃ done, ((runThread s).run x).1 = done ++ e.todo ∧
      DeliveredBy (eventsOf s.run x) (s.run.run x).1 done e
  /-- No schedule goes on for ever. -/
  ends : ∀ moves e, Exchange.follow? { todo := ((runThread s).run x).1 } moves = some e →
    moves.length ≤ 2 * ((runThread s).run x).1.length + 1
  /-- A receiver that takes whatever comes hears the whole story. -/
  drained : (Exchange.drain { todo := ((runThread s).run x).1 }).received = story s x ∧
    (Exchange.drain { todo := ((runThread s).run x).1 }).published =
      (s.run.run x).1.holders

/-- Whatever the host answers and in whatever order the two sides take turns, the search on a thread
is told in order, without loss or repetition, and its outcome last. -/
theorem search_delivers (s : Search σ) (x : Session σ) : Delivers s x := by
  have hholders := s.holdersIn_run x
  have halways : Exchange.Always { todo := ((runThread s).run x).1 } fun e =>
      ∃ done, ((runThread s).run x).1 = done ++ e.todo ∧
        DeliveredBy (eventsOf s.run x) (s.run.run x).1 done e := by
    intro moves e he
    obtain ⟨done, hd, hreflects⟩ := Exchange.always_reflects _ moves e he
    have hdeeds := (run_runThread s x).symm.trans hd
    exact ⟨done, hd, deliveredBy_of_reflects hholders hdeeds hreflects⟩
  refine ⟨?_, ?_, ?_, ?_, halways, ?_, ?_⟩
  · rw [story, List.filterMap_append, lines_messagesIn]
    exact List.append_nil _
  · rw [story, holdersAmong_append, holdersAmong_messagesIn, hholders]
    exact List.append_nil _
  · intro told h rest he
    rcases concat_eq_append_cons he with ⟨-, hlast⟩ | ⟨rest', -, hmessages⟩
    · cases hlast
    · exact tells_of_introduces (fun _ _ => s.introduces_of_run) hmessages
  · intro told o rest he
    rcases concat_eq_append_cons he with ⟨hrest, hlast⟩ | ⟨rest', -, hmessages⟩
    · exact ⟨hrest, Message.complete.inj hlast⟩
    · refine absurd ?_ (complete_notMem_messagesIn (eventsOf s.run x) o)
      rw [hmessages]
      simp
  · intro moves e he
    have hbound := Exchange.length_le_of_follow? he
    simp only [Exchange.ahead, Exchange.remaining, List.length_nil, Bool.false_eq_true,
      if_false] at hbound
    omega
  · obtain ⟨moves, hmoves, hwork, hreceive, hgone⟩ :=
      Exchange.follow?_drain { todo := ((runThread s).run x).1 }
    obtain ⟨done, -, hdelivered⟩ := halways moves _ hmoves
    have htodo : (Exchange.drain { todo := ((runThread s).run x).1 }).todo = [] := by
      by_contra hn
      rcases hdelivered.waits hn with hmove | ⟨-, hmove⟩
      · rw [hwork] at hmove
        cases hmove
      · rw [hreceive] at hmove
        cases hmove
    have hqueue : (Exchange.drain { todo := ((runThread s).run x).1 }).queue = [] := by
      cases hq : (Exchange.drain { todo := ((runThread s).run x).1 }).queue with
      | nil => rfl
      | cons m rest => simp [Exchange.receive?, hgone, hq] at hreceive
    have hstory := hdelivered.finished htodo hgone
    rw [hqueue, List.append_nil] at hstory
    exact ⟨hstory, hdelivered.completed (.inl htodo)⟩

end Worker

end FileHolders
