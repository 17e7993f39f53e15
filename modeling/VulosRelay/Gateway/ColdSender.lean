import VulosRelay.Gateway.Inbound
import Mathlib.Logic.Function.Basic

/-!
# The gate for cold senders

The model of `ColdSenderGate` (`crates/gateway/src/inbound.rs`): explicit blocks, known
contacts, the rate limit of an address, and greylisting. Its state and the reading of its
clock are passed to `check`, which gives the decision and the state after it. Beside the state
run the time of the last check and the log of all of them, latest first.
-/

namespace VulosRelay.Gateway

structure GateState where
  greylist : Str × Str → Option Nat
  accepts : Str → List Nat

def GateState.empty : GateState := ⟨fun _ => none, fun _ => []⟩

structure ColdSenderGate where
  knownIpPrefixes : List Str := []
  knownSenders : List Str := []
  blockedIpPrefixes : List Str := []
  blockedSenders : List Str := []
  greylistMinRetryMs : Nat := 60000
  greylistTtlMs : Nat := 12 * 3600000
  rateLimit : Nat := 60
  rateWindowMs : Nat := 60000

namespace ColdSenderGate

def blockSender (gate : ColdSenderGate) (addr : Str) : ColdSenderGate :=
  { gate with blockedSenders := gate.blockedSenders ++ [toAsciiLowercase addr] }

def startsWithAny (starts : List Str) (ip : Str) : Bool :=
  starts.any fun start => (stripPrefix start ip).isSome

def isKnown (gate : ColdSenderGate) (peerIp mailFrom : Str) : Bool :=
  startsWithAny gate.knownIpPrefixes peerIp
    || gate.knownSenders.contains (toAsciiLowercase mailFrom)

def isBlocked (gate : ColdSenderGate) (peerIp mailFrom : Str) : Bool :=
  startsWithAny gate.blockedIpPrefixes peerIp
    || gate.blockedSenders.contains (toAsciiLowercase mailFrom)

def greylistedText : String :=
  "4.7.1 greylisted — please retry shortly (cost for cold contact, §9)"

def tooSoonText : String := "4.7.1 greylisted — retry interval not yet elapsed"

def check (gate : ColdSenderGate) (now : Nat) (state : GateState) (peerIp mailFrom : Str) :
    AbuseDecision × GateState :=
  if gate.isBlocked peerIp mailFrom then (.reject 554 "5.7.1 sender blocked by policy", state)
  else if gate.isKnown peerIp mailFrom then (.accept, state)
  else
    let hits := (state.accepts peerIp).filter (now - gate.rateWindowMs ≤ ·)
    let state := { state with accepts := Function.update state.accepts peerIp hits }
    if hits.length % 2 ^ 32 ≥ gate.rateLimit then
      (.reject 451 "4.7.1 rate limit exceeded, slow down and retry later", state)
    else
      let key := (peerIp, mailFrom)
      let greylisted : AbuseDecision × GateState :=
        (.reject 451 greylistedText,
          { state with greylist := Function.update state.greylist key (some now) })
      match state.greylist key with
      | none => greylisted
      | some seen =>
        if now - seen > gate.greylistTtlMs then greylisted
        else if now - seen < gate.greylistMinRetryMs then (.reject 451 tooSoonText, state)
        else
          (.accept, { state with accepts := Function.update state.accepts peerIp (hits ++ [now]) })

end ColdSenderGate

structure Check where
  ip : Str
  sender : Str
  now : Nat

structure GateWorld where
  state : GateState
  clock : Nat
  log : List (Check × AbuseDecision)

def coldGate (gate : ColdSenderGate) : System GateWorld Check where
  init w := w = ⟨.empty, 0, []⟩
  step w c :=
    let (decision, state) := gate.check c.now w.state c.ip c.sender
    some ⟨state, c.now, (c, decision) :: w.log⟩

end VulosRelay.Gateway
