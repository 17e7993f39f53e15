/-!
# The supervise loop and the handoff

The model of `superviseFrom`, `connectOnce` and the wait of `gracefulHandoff`. Time is in
nanoseconds since that wait began. What the routing hook, the relay and the random source do
is an input, one `Attempt` for each turn of the loop; `ctx` is the time at which the context
is cancelled, if it is. A dial that fails, a registration that fails and one that is refused
all end an attempt before `close(ready)`.
-/

namespace VulosRelay.Agent

def second : Nat := 1000000000

def handoffTimeout : Nat := 20 * second

structure Options where
  maxBackoff : Nat
  reconnectJitter : Nat

inductive ConnectError where
  | dial
  | register
  | retryableRefusal
  | yamux
  | accept
  deriving DecidableEq

inductive SessionEnd where
  | ended (err : Option ConnectError)
  | handedOff

inductive Verdict where
  | failed (err : ConnectError)
  | registered (serving : Nat) (last : SessionEnd)

structure Attempt where
  resolved : String := "pop"
  resolving : Nat := 0
  registering : Nat := 0
  verdict : Verdict
  jitter : Nat := 0
  stagger : Nat := 0

inductive Event where
  | dialed (endpoint : String) (time : Nat)
  | registered (time : Nat)
  | closed (time : Nat)
  deriving DecidableEq

def Event.registeredAt : Event → Option Nat
  | .registered t => some t
  | _ => none

def Event.closedAt : Event → Option Nat
  | .closed t => some t
  | _ => none

def staggerDelay (opts : Options) (random : Nat) : Nat :=
  if opts.reconnectJitter = 0 then 0
  else random % (min opts.reconnectJitter (handoffTimeout - 2 * second) + 1)

/-- What is recorded, when the call returns and with what. -/
def connectOnce (clock : Nat) (endpoint : String) (ready : Bool) (a : Attempt) :
    List Event × Nat × SessionEnd :=
  match a.verdict with
  | .failed err => ([.dialed endpoint clock], clock + a.registering, .ended (some err))
  | .registered serving last =>
    ([.dialed endpoint clock, .registered (clock + a.registering)]
        ++ (if ready then [.closed (clock + a.registering)] else []),
      clock + a.registering + serving, last)

def cancelled (ctx : Option Nat) (clock : Nat) : Bool := ctx.any (· ≤ clock)

variable (opts : Options) (ctx : Option Nat)

def retryDelay (backoff : Nat) (a : Attempt) (err : Option ConnectError) : Nat :=
  a.jitter % (backoff + 1)
    + if err = some .retryableRefusal then staggerDelay opts a.stagger else 0

def superviseLoop : Bool → String → Nat → Nat → List Attempt → List Event
  | _, _, _, _, [] => []
  | ready, endpoint, backoff, clock, a :: rest =>
    if cancelled ctx clock then []
    else let r :=
        if endpoint = "" then connectOnce (clock + a.resolving) a.resolved ready a
        else connectOnce clock endpoint ready a
      match r.2.2 with
      | .handedOff => r.1
      | .ended err =>
        let wakes := r.2.1 + retryDelay opts backoff a err
        if cancelled ctx wakes then r.1
        -- `ready` is dropped whatever the attempt came to
        else r.1 ++ superviseLoop false "" (min (backoff * 2) opts.maxBackoff) wakes rest

def superviseFrom (firstEndpoint : String) (ready : Bool) (startDelay : Nat)
    (attempts : List Attempt) : List Event :=
  if startDelay > 0 ∧ cancelled ctx startDelay then []
  else superviseLoop opts ctx ready firstEndpoint (second / 2) startDelay attempts

/-- What the successor of a handoff does. -/
def gracefulHandoff (random : Nat) (attempts : List Attempt) : List Event :=
  superviseFrom opts ctx "" true (staggerDelay opts random) attempts

inductive Cause where
  | ready
  | ctxDone
  | timeout
  deriving DecidableEq

def Cause.time (successor : List Event) : Cause → Option Nat
  | .ready => successor.findSome? Event.closedAt
  | .ctxDone => ctx
  | .timeout => some handoffTimeout

/-- A case of the predecessor's `select` can be taken: none is ready before it. -/
def Leaves (successor : List Event) (cause : Cause) : Prop :=
  ∃ t, cause.time ctx successor = some t ∧
    ∀ other t', Cause.time ctx successor other = some t' → t ≤ t'

end VulosRelay.Agent
