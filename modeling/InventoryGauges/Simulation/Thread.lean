/-!
# Threads in virtual time

A thread acts on a state that it shares with other threads and pauses until
given instants.  Threads side by side are merged into one: each runs until its
next pause, and the earliest pause ends first.
-/

namespace InventoryGauges
namespace Simulation

/-- A thread. -/
inductive Thread (State Result : Type)
  /-- The thread has ended. -/
  | ended (result : Result)
  /-- Change the state; what follows depends on the state before the change. -/
  | act (effect : State → State) (next : State → Thread State Result)
  /-- Pause until an instant. -/
  | pause (instant : Nat) (next : Thread State Result)

namespace Thread

variable {State Result Final Left Right : Type}

/-- Go on with another thread. -/
def andThen : Thread State Result → (Result → Thread State Final) → Thread State Final
  | .ended result, rest => rest result
  | .act effect next, rest => .act effect fun state => (next state).andThen rest
  | .pause instant next, rest => .pause instant (next.andThen rest)

instance : Monad (Thread State) where
  pure := .ended
  bind := andThen

/-- Cut a thread off at an instant and go on with another one instead.  What
happens at that very instant still happens. -/
def cutAt (instant : Nat) (instead : Thread State Result) :
    Thread State Result → Thread State Result
  | .ended result => .ended result
  | .act effect next => .act effect fun state => cutAt instant instead (next state)
  | .pause next rest =>
      if next ≤ instant then .pause next (cutAt instant instead rest)
      else .pause instant instead

/-- Let a thread run beside one that pauses; `ready` is that one's merge with
what it meets at the end of its pause. -/
def bothPaused (instant : Nat) (stay : Right → Thread State (Left × Right))
    (ready : Thread State Right → Thread State (Left × Right)) :
    Thread State Right → Thread State (Left × Right)
  | .ended result => stay result
  | .act effect next =>
      .act effect fun state => bothPaused instant stay ready (next state)
  | .pause other rest =>
      if instant ≤ other then .pause instant (ready (.pause other rest))
      else .pause other (bothPaused instant stay ready rest)

/-- Two threads side by side; the left one goes first. -/
def both : Thread State Left → Thread State Right → Thread State (Left × Right)
  | .ended left, right => right.andThen fun result => .ended (left, result)
  | .act effect next, right => .act effect fun state => (next state).both right
  | .pause instant rest, right =>
      right.bothPaused instant
        (fun result => .pause instant (rest.andThen fun left => .ended (left, result)))
        fun other => rest.both other

/-- Some threads side by side. -/
def all : List (Thread State Result) → Thread State (List Result)
  | [] => .ended []
  | thread :: threads =>
      (thread.both (all threads)).andThen fun results => .ended (results.1 :: results.2)

/-- Run a thread to its end.  At the end of each pause the clock is set. -/
def run (setClock : Nat → State → State) : Thread State Result → State → Result × State
  | .ended result, state => (result, state)
  | .act effect next, state => (next state).run setClock (effect state)
  | .pause instant rest, state => rest.run setClock (setClock instant state)

end Thread
end Simulation
end InventoryGauges
