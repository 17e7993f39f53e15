import VulosRelay.Lib.FinMap
import VulosRelay.Lib.GoTime
import VulosRelay.Lib.System
import VulosRelay.Server.CPClient

/-!
# The entitlement gate

The model of `entitlementGate` (`tunnel/server/gate.go`) under concurrent calls. Each
section under the mutex is a step, the request to the control plane is one step to begin
it and one for its answer, and between any two steps of a call other calls may run. What
a call does after its last section touches nothing shared, so it returns with that
section. Every reading of the clock is an arbitrary instant.

The history lists, latest first, what has been answered, recorded, marked and returned.
A call carries along whether a revoke was on record when it was made, and a read how
often the account had been marked when it began.
-/

namespace VulosRelay.Server

structure GateDecision where
  allowed : Bool
  overQuota : Bool
  revoked : Bool
  expires : Int
  deriving DecidableEq, Repr

namespace GateDecision

def zero : GateDecision := ⟨false, false, false, GoTime.zero⟩

def verdict (d : GateDecision) : Bool := d.allowed && !d.overQuota && !d.revoked

end GateDecision

structure GateConfig where
  enabled : Bool
  sharedSecret : String
  ttl : Int

def newEntitlementGate (cp : Option String) (ttl : Int) : GateConfig where
  enabled := cp.isSome
  sharedSecret := cp.getD ""
  ttl := if ttl ≤ 0 then 30 * GoTime.second else ttl

inductive GateCall where
  | allowConnect
  | allowContinue
  | definitivelyRevoked
  deriving DecidableEq, Repr

namespace GateCall

def ungated : GateCall → Bool
  | .allowConnect => true
  | .allowContinue => true
  | .definitivelyRevoked => false

def onRevoke : GateCall → Bool
  | .allowConnect => false
  | .allowContinue => false
  | .definitivelyRevoked => true

def ofDecision (d : GateDecision) : GateCall → Bool
  | .allowConnect => d.verdict
  | .allowContinue => d.verdict
  | .definitivelyRevoked => d.revoked

end GateCall

inductive GateEvent where
  /-- A call has returned. `after`: a revoke was on record when it was made. -/
  | returned (call : GateCall) (account : String) (after : Bool) (result : Bool)
  /-- The control plane has answered a read that began after so many marks. -/
  | answered (account : String) (marks : Nat) (resp : CPResponse)
  | recorded (account : String)
  | marked (account : String)
  deriving DecidableEq, Repr

inductive GatePc where
  | stale
  | lookup
  | read
  | waiting (marks : Nat)
  | got (marks : Nat) (resp : CPResponse)
  | blip
  deriving DecidableEq, Repr

structure GateThread where
  call : GateCall
  account : String
  after : Bool
  pc : GatePc
  deriving DecidableEq, Repr

structure GateState where
  cache : FinMap String GateDecision
  threads : FinMap Nat GateThread
  calls : Nat
  history : List GateEvent

def GateState.new : GateState := ⟨∅, ∅, 0, []⟩

def marks (account : String) (history : List GateEvent) : Nat :=
  history.countP fun e => e = .marked account

inductive GateAct where
  | call (call : GateCall) (account : String)
  | run (thread : Nat) (now : Int)
  | answer (thread : Nat) (resp : CPResponse)
  | mark (account : String) (now now' : Int)

namespace GateState

variable (cfg : GateConfig) (s : GateState)

def lookup (account : String) (now : Int) : Option GateDecision :=
  (s.cache.lookup account).filter fun d => ¬ d.expires < now

def decision (account : String) : GateDecision := (s.cache.lookup account).getD .zero

def revokedDecision (account : String) (now : Int) : GateDecision :=
  { s.decision account with revoked := true, allowed := false, expires := now + cfg.ttl }

def freshDecision (account : String) (ent : Entitlement) (now : Int) : GateDecision :=
  if (s.decision account).revoked then ⟨false, ent.overQuota, true, now + cfg.ttl⟩
  else ⟨ent.relayAllowed, ent.overQuota, ent.revoked, now + cfg.ttl⟩

def markedDecision (account : String) (now now' : Int) : GateDecision :=
  { s.decision account with
    overQuota := true
    expires := if (s.decision account).expires < now then now' + cfg.ttl
      else (s.decision account).expires }

def setDecision (account : String) (d : GateDecision) : GateState :=
  { s with cache := s.cache.insert account d }

def setPc (n : Nat) (t : GateThread) (pc : GatePc) : GateState :=
  { s with threads := s.threads.insert n { t with pc := pc } }

def finish (n : Nat) (t : GateThread) (result : Bool) : GateState :=
  { s with
    threads := s.threads.erase n
    history := .returned t.call t.account t.after result :: s.history }

def store (n : Nat) (t : GateThread) (resp : CPResponse) (now : Int) : GateState :=
  match entitlementForAccount cfg.sharedSecret resp with
  | .ok ent =>
    let d := s.freshDecision cfg t.account ent now
    (s.setDecision t.account d).finish n t (t.call.ofDecision d)
  | .error .credentialRevoked =>
    let s' := s.setDecision t.account (s.revokedDecision cfg t.account now)
    { s' with history := .recorded t.account :: s.history }.finish n t t.call.onRevoke
  | .error .other =>
    match t.call with
    | .allowContinue => s.setPc n t .blip
    | _ => s.finish n t false

def advance (n : Nat) (t : GateThread) (now : Int) : Option GateState :=
  match t.pc with
  | .stale =>
    if (s.decision t.account).revoked then some (s.finish n t t.call.onRevoke)
    else some (s.setPc n t .lookup)
  | .lookup =>
    match s.lookup t.account now with
    | some d => some (s.finish n t (t.call.ofDecision d))
    | none => some (s.setPc n t .read)
  | .read => some (s.setPc n t (.waiting (marks t.account s.history)))
  | .waiting _ => none
  | .got _ resp => some (s.store cfg n t resp now)
  | .blip =>
    match s.cache.lookup t.account with
    | some d => some (s.finish n t d.verdict)
    | none => some (s.finish n t true)

def begin (call : GateCall) (account : String) : GateState :=
  let after := decide (GateEvent.recorded account ∈ s.history)
  if cfg.enabled = false ∨ account = "" then
    { s with history := .returned call account after call.ungated :: s.history }
  else
    { s with
      threads := s.threads.insert s.calls
        ⟨call, account, after, if call = .allowConnect then .lookup else .stale⟩
      calls := s.calls + 1 }

def step : GateAct → Option GateState
  | .call call account => some (s.begin cfg call account)
  | .run n now => (s.threads.lookup n).bind fun t => s.advance cfg n t now
  | .answer n resp =>
    match s.threads.lookup n with
    | some t =>
      match t.pc with
      | .waiting m =>
        some { s.setPc n t (.got m resp) with
          history := .answered t.account m resp :: s.history }
      | _ => none
    | none => none
  | .mark account now now' =>
    if cfg.enabled = false ∨ account = "" then some s
    else
      some { s.setDecision account (s.markedDecision cfg account now now') with
        history := .marked account :: s.history }

end GateState

def gate (cfg : GateConfig) : System GateState GateAct where
  init s := s = .new
  step := GateState.step cfg

end VulosRelay.Server
