import Mathlib.Algebra.Ring.Nat
import VulosRelay.Lib.System

/-!
# The lifecycle of the rendezvous signaling client

The model of `connect`, `close`, `_announceAndJoin`, `_scheduleReconnect`, `_loopBoard` and
`_loopInbox` of `RendezvousSignalingClient` (`client/src/rendezvousSignaling.js`). An
asynchronous function is a thread: what it does between two suspensions is one step, and a
request may take any time and succeed or fail. Listeners of an event run while it is
dispatched and may call the client, so that a dispatch ends a step as well; other threads
may then run too, which is more than the engine allows. Timers fire at any time after they
were set.

What a poll finds on the board or in the inbox is handled within the poll.
-/

namespace VulosRelay.Client.Rendezvous

structure Config where
  pollLoop : Bool
  maxAttempts : Nat

inductive Caller where
  | connect
  | heartbeat
  deriving DecidableEq

inductive Thread where
  | announcing (caller : Caller)
  | building (caller : Caller)
  /-- `_announceAndJoin` waits for the answer to its deposit. -/
  | depositing (caller : Caller)
  | joined
  | opened
  | failed
  | lost
  | counted
  | boardPolling
  | boardPolled
  | boardSleeping
  | inboxPolling
  | inboxSleeping
  | finished
  deriving DecidableEq

inductive Deposit where
  | join
  | leave
  deriving DecidableEq

inductive Event where
  | connect
  | closed
  | deposited (kind : Deposit)
  | signalingOpen
  | signalingClose
  | offline (attempts : Nat)
  deriving DecidableEq

structure State where
  stopped : Bool
  isOpen : Bool
  degraded : Bool
  reconnectAttempts : Nat
  boardBlobId : Option Nat
  heartbeatTimer : Option Nat
  armed : List Nat
  /-- The timeouts of `_scheduleReconnect`, with their delays. -/
  timeouts : List (Nat × Nat)
  threads : List Thread
  next : Nat
  history : List Event

def State.new : State := ⟨false, false, false, 0, none, none, [], [], [], 0, []⟩

namespace State

def record (s : State) (event : Event) : State := { s with history := event :: s.history }

def spawn (s : State) (t : Thread) : State := { s with threads := s.threads ++ [t] }

def goto (s : State) (i : Nat) (t : Thread) : State := { s with threads := s.threads.set i t }

def markOpen (s : State) : State :=
  let s := { s with reconnectAttempts := 0, degraded := false }
  if s.isOpen then s else { s with isOpen := true }.record .signalingOpen

def markClosed (s : State) : State :=
  if s.isOpen then { s with isOpen := false }.record .signalingClose else s

def connect (s : State) : State :=
  ({ s with stopped := false }.record .connect).spawn (.announcing .connect)

def close (s : State) : State :=
  ({ s with
      stopped := true
      armed := s.armed.filter fun t => s.heartbeatTimer ≠ some t
      heartbeatTimer := none }.record .closed).record (.deposited .leave)

def scheduleReconnect (s : State) (i : Nat) : State :=
  if s.stopped then s.goto i .finished else s.markClosed.goto i .lost

def countAttempt (cfg : Config) (s : State) : State :=
  let s := { s with reconnectAttempts := s.reconnectAttempts + 1 }
  if s.reconnectAttempts ≥ cfg.maxAttempts ∧ s.degraded = false then
    { s with degraded := true }.record (.offline s.reconnectAttempts)
  else s

/-- `RECONNECT_BASE_MS * 2 ** (attempts - 1)`, at most `RECONNECT_MAX_MS`. -/
def reconnectDelay (attempts : Nat) : Nat := min (1000 * 2 ^ attempts / 2) 30000

def setTimeout (s : State) : State :=
  { s with
    timeouts := (s.next, reconnectDelay s.reconnectAttempts) :: s.timeouts
    next := s.next + 1 }

def startLoop (s : State) (t : Thread) : State := if s.stopped then s else s.spawn t

def setHeartbeat (s : State) : State :=
  { s with armed := s.next :: s.armed, heartbeatTimer := some s.next, next := s.next + 1 }

def startLoops (cfg : Config) (s : State) : State :=
  if cfg.pollLoop then ((s.startLoop .boardPolling).startLoop .inboxPolling).setHeartbeat else s

def unlessStopped (s : State) (i : Nat) (t : Thread) : State :=
  s.goto i (if s.stopped then .finished else t)

end State

inductive Outcome where
  | ok (id : Option Nat)
  | error
  deriving DecidableEq

def Caller.onError : Caller → Thread
  | .connect => .failed
  | .heartbeat => .finished

def Caller.onJoined : Caller → Thread
  | .connect => .joined
  | .heartbeat => .finished

def resume (cfg : Config) (s : State) (i : Nat) (outcome : Outcome) : Thread → State
  | .announcing caller => s.goto i (.building caller)
  | .building caller =>
    match outcome with
    | .ok _ => (s.record (.deposited .join)).goto i (.depositing caller)
    | .error => s.goto i caller.onError
  | .depositing caller =>
    match outcome with
    | .ok id => { s with boardBlobId := id }.goto i caller.onJoined
    | .error => s.goto i caller.onError
  | .joined => s.markOpen.goto i .opened
  | .opened => (s.goto i .finished).startLoops cfg
  | .failed => s.scheduleReconnect i
  | .lost => (s.countAttempt cfg).goto i .counted
  | .counted => s.setTimeout.goto i .finished
  | .boardPolling =>
    match outcome with
    | .ok _ => s.markOpen.goto i .boardPolled
    | .error => s.scheduleReconnect i
  | .boardPolled => s.unlessStopped i .boardSleeping
  | .boardSleeping => s.unlessStopped i .boardPolling
  | .inboxPolling => s.unlessStopped i .inboxSleeping
  | .inboxSleeping => s.unlessStopped i .inboxPolling
  | .finished => s

inductive Action where
  | connect
  | close
  | tick (timer : Nat)
  | fire (timeout : Nat × Nat)
  | resume (i : Nat) (outcome : Outcome)

def step (cfg : Config) (s : State) : Action → Option State
  | .connect => some s.connect
  | .close => some s.close
  | .tick timer => if timer ∈ s.armed then some (s.spawn (.announcing .heartbeat)) else none
  | .fire timeout =>
    if timeout ∈ s.timeouts then
      let s := { s with timeouts := s.timeouts.erase timeout }
      some (if s.stopped then s else s.connect)
    else none
  | .resume i outcome => s.threads[i]?.map fun t => resume cfg s i outcome t

def client (cfg : Config) : System State Action where
  init := fun s => s = .new
  step := step cfg

end VulosRelay.Client.Rendezvous
