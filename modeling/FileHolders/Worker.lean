import FileHolders.Search

/-!
# The background worker

A search may run on a thread of its own and tell the caller about its progress.  It sends each line
of the report and each holder as a message through a bounded queue, and the outcome as the last
message; a sender waits while the queue is full, and what is sent after the receiver has gone is
lost.  Each holder is put on a published list, which the caller may read at any time, before it is
sent.

What the thread sends and publishes is a fixed list of deeds, since no answer of the machine depends
on the receiver.  `Exchange.step?` says which moves the two sides can make; `Exchange.drain` is the
schedule of a caller that receives whenever the thread has to wait.
-/

namespace FileHolders

/-- What a caller hears of a search. -/
inductive Message where
  | line (text : String)
  | holder (holder : Holder)
  /-- Always the last one. -/
  | complete (outcome : Outcome)
deriving DecidableEq, Repr

namespace Worker

/-- How many messages the queue holds. -/
def capacity : Nat := 1024

/-! ## The thread -/

/-- What the search thread does that others can see. -/
inductive Deed where
  /-- Puts a holder on the published list. -/
  | publish (holder : Holder)
  | send (message : Message)
deriving DecidableEq, Repr

/-- The deeds that one event of a search causes. -/
def deedsOf : Event → List Deed
  | .line text => [.send (.line text)]
  | .holder h => [.publish h, .send (.holder h)]
  | _ => []

/-- All deeds of a search with the given events and outcome. -/
def deeds (events : List Event) (outcome : Outcome) : List Deed :=
  events.flatMap deedsOf ++ [.send (.complete outcome)]

/-- Runs a search on the thread and gives the thread's deeds. -/
def runThread {σ : Type} (s : Search σ) : Action σ (List Deed) := do
  Action.info s!"Starting search for {s.text}"
  let before := (← get).journal.size
  let outcome ← s.run
  return deeds ((← get).journal.toList.drop before) outcome

/-! ## Both sides -/

/-- The thread, the queue and the receiver at one moment. -/
structure Exchange where
  /-- What the thread has still to do. -/
  todo : List Deed
  queue : List Message := []
  published : List Holder := []
  received : List Message := []
  receiverGone : Bool := false
deriving DecidableEq, Repr

/-- A move of one of the sides. -/
inductive Move where
  /-- The thread does its next deed. -/
  | work
  /-- The receiver takes a message. -/
  | receive
  /-- The receiver goes away. -/
  | leave
deriving DecidableEq, Repr

namespace Exchange

/-- The thread's next deed, if it need not wait. -/
def work? (e : Exchange) : Option Exchange :=
  match e.todo with
  | [] => none
  | .publish h :: rest => some { e with todo := rest, published := e.published ++ [h] }
  | .send m :: rest =>
    if e.receiverGone then some { e with todo := rest }
    else if e.queue.length < capacity then some { e with todo := rest, queue := e.queue ++ [m] }
    else none

/-- The receiver's next message, if there is one. -/
def receive? (e : Exchange) : Option Exchange :=
  if e.receiverGone then none
  else
    match e.queue with
    | [] => none
    | m :: rest => some { e with queue := rest, received := e.received ++ [m] }

/-- What a move leads to, if the side can make it. -/
def step? (e : Exchange) : Move → Option Exchange
  | .work => e.work?
  | .receive => e.receive?
  | .leave => if e.receiverGone then none else some { e with receiverGone := true, queue := [] }

/-! ## A caller that drains the queue -/

/-- How much is left to do and to receive. -/
def remaining (e : Exchange) : Nat := 2 * e.todo.length + e.queue.length

theorem remaining_work? {e next : Exchange} (h : e.work? = some next) :
    next.remaining < e.remaining := by
  unfold work? at h
  split at h
  · cases h
  · rename_i ht
    cases h
    simp only [remaining, ht, List.length_cons]
    omega
  · rename_i ht
    split at h
    · cases h
      simp only [remaining, ht, List.length_cons]
      omega
    · split at h
      · cases h
        simp only [remaining, ht, List.length_cons, List.length_append, List.length_nil]
        omega
      · cases h

theorem remaining_receive? {e next : Exchange} (h : e.receive? = some next) :
    next.remaining < e.remaining := by
  unfold receive? at h
  split at h
  · cases h
  · split at h
    · cases h
    · rename_i hq
      cases h
      simp only [remaining, hq, List.length_cons]
      omega

/-- Lets the thread work, and receives whenever it has to wait or is done. -/
def drain (e : Exchange) : Exchange :=
  match _ : e.work? with
  | some next => next.drain
  | none =>
    match _ : e.receive? with
    | some next => next.drain
    | none => e
termination_by e.remaining
decreasing_by
  · exact remaining_work? ‹_›
  · exact remaining_receive? ‹_›

end Exchange

end Worker

end FileHolders
