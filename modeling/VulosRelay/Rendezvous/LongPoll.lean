import VulosRelay.Keyauth.Canonical
import VulosRelay.Lib.System
import VulosRelay.Rendezvous.Queue

/-!
# A long poll among deposits

The model of `pollHandler`, `longPoll`, `depositHandler` and `notifier`
(`tunnel/rendezvous/service.go`), from the clock reading on: what comes before it
refuses a request without touching queue or notifier.

One long poll runs among any number of deposits to both queues. A step is one
statement that reads the clock, takes a lock or works on a channel: a queue method
is one step, and so is each method of the notifier, but for `notify`, which takes
the channels of a key under the lock and closes them after it. The branches of the
`select` are actions of their own, since Go picks any that is ready. Time passes
between steps.
-/

namespace VulosRelay.Rendezvous

open GoTime Keyauth

structure Notifier where
  waits : FinMap String (List Nat)
  closed : List Nat

namespace Notifier

def new : Notifier := ⟨∅, []⟩

def list (n : Notifier) (key : String) : List Nat := (n.waits.lookup key).getD []

def wait (n : Notifier) (key : String) (ch : Nat) : Notifier :=
  { n with waits := n.waits.insert key (n.list key ++ [ch]) }

def cancel (n : Notifier) (key : String) (ch : Nat) : Notifier :=
  if (n.list key).erase ch = [] then { n with waits := n.waits.erase key }
  else { n with waits := n.waits.insert key ((n.list key).erase ch) }

def take (n : Notifier) (key : String) : Notifier := { n with waits := n.waits.erase key }

def close (n : Notifier) (chans : List Nat) : Notifier := { n with closed := chans ++ n.closed }

end Notifier

structure PollConfig where
  key : String
  box : Box
  waitSec : Int
  maxPollWait : Int
  long : 0 < waitSec

def PollConfig.wait (cfg : PollConfig) : Int :=
  if int64 (cfg.waitSec * second) > cfg.maxPollWait then cfg.maxPollWait
  else int64 (cfg.waitSec * second)

def pollChan : Nat := 0

inductive Cause where
  | found
  | woken
  | expired (armed : Int)
  | gone
  deriving DecidableEq, Repr

inductive PollPc where
  | arrive
  | pickup (now : Int)
  | register
  | arm
  | select (armed : Int)
  | woken
  | repickup (now : Int)
  | cancel (blobs : List BlobView) (cause : Cause)
  | write (blobs : List BlobView) (cause : Cause)
  | answered (blobs : List BlobView) (cause : Cause)
  deriving DecidableEq, Repr

inductive DepositPc where
  | arrive
  | enqueue (now : Int)
  | notify (b : Blob)
  | close (chans : List Nat)
  deriving DecidableEq, Repr

structure DepositThread where
  box : Box
  sender : String
  recipient : String
  payload : List UInt8
  ttlSec : Int
  rand : List.Vector UInt8 10
  pc : DepositPc

structure Sys where
  clock : Int
  signal : Queue
  mailbox : Queue
  notifier : Notifier
  poll : PollPc
  deposits : Nat → Option DepositThread

inductive Act where
  | tick (t : Int)
  | poll
  | wake
  | expire
  | leave
  | arrive (d : Nat) (t : DepositThread)
  | deposit (d : Nat)

namespace Sys

def queue (s : Sys) : Box → Queue
  | .signal => s.signal
  | .mailbox => s.mailbox

def setQueue (s : Sys) (box : Box) (q : Queue) : Sys :=
  match box with
  | .signal => { s with signal := q }
  | .mailbox => { s with mailbox := q }

def setDeposit (s : Sys) (d : Nat) (t : Option DepositThread) : Sys :=
  { s with deposits := fun d' => if d' = d then t else s.deposits d' }

def pickupThen (cfg : PollConfig) (s : Sys) (now : Int) (next : List BlobView → PollPc) : Sys :=
  let picked := (s.queue cfg.box).pickup cfg.key now
  { s.setQueue cfg.box picked.1 with poll := next picked.2 }

def pollStep (cfg : PollConfig) (s : Sys) : Option Sys :=
  match s.poll with
  | .arrive => some { s with poll := .pickup s.clock }
  | .pickup now =>
    some (s.pickupThen cfg now fun blobs => if blobs = [] then .register else .write blobs .found)
  | .register =>
    some { s with notifier := s.notifier.wait cfg.key pollChan, poll := .arm }
  | .arm => some { s with poll := .select s.clock }
  | .select _ => none
  | .woken => some { s with poll := .repickup s.clock }
  | .repickup now => some (s.pickupThen cfg now fun blobs => .cancel blobs .woken)
  | .cancel blobs cause =>
    some { s with notifier := s.notifier.cancel cfg.key pollChan, poll := .write blobs cause }
  | .write blobs cause => some { s with poll := .answered blobs cause }
  | .answered _ _ => none

def depositStep (s : Sys) (d : Nat) (t : DepositThread) : Sys :=
  match t.pc with
  | .arrive => s.setDeposit d (some { t with pc := .enqueue s.clock })
  | .enqueue now =>
    let q := s.queue t.box
    let ttl := q.clampTTL t.ttlSec
    let result := q.deposit t.sender t.recipient t.payload ttl now t.rand
    (s.setQueue t.box result.1).setDeposit d
      (if result.2.2 = .ok then
        some { t with
          pc := .notify (Queue.newBlob t.sender t.recipient t.payload ttl now t.rand) }
      else none)
  | .notify _ =>
    { s with notifier := s.notifier.take t.recipient }.setDeposit d
      (some { t with pc := .close (s.notifier.list t.recipient) })
  | .close chans => { s with notifier := s.notifier.close chans }.setDeposit d none

def step (cfg : PollConfig) (s : Sys) : Act → Option Sys
  | .tick t => if s.clock ≤ t then some { s with clock := t } else none
  | .poll => s.pollStep cfg
  | .wake =>
    match s.poll with
    | .select _ => if pollChan ∈ s.notifier.closed then some { s with poll := .woken } else none
    | _ => none
  | .expire =>
    match s.poll with
    | .select armed =>
      if armed + cfg.wait ≤ s.clock then some { s with poll := .cancel [] (.expired armed) }
      else none
    | _ => none
  | .leave =>
    match s.poll with
    | .select _ => some { s with poll := .cancel [] .gone }
    | _ => none
  | .arrive d t =>
    if (s.deposits d).isNone then some (s.setDeposit d (some { t with pc := .arrive })) else none
  | .deposit d => (s.deposits d).map fun t => s.depositStep d t

end Sys

/-- The start: any queues, no poll and no deposit begun, nobody waiting. -/
def Start (s : Sys) : Prop :=
  s.poll = .arrive ∧ s.notifier = Notifier.new ∧ ∀ d, s.deposits d = none

def pollSystem (cfg : PollConfig) : System Sys Act where
  init := Start
  step := Sys.step cfg

end VulosRelay.Rendezvous
