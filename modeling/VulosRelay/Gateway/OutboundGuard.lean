import VulosRelay.Gateway.Text
import VulosRelay.Lib.Amount
import VulosRelay.Lib.FinMap
import VulosRelay.Lib.System

/-!
# The guard of outbound senders

The model of `OutboundSenderGuard` (`crates/gateway/src/outbound_guard.rs`). Times are numbers of
milliseconds; a retry time that does not fit wraps, as in a release build. Beside the states of
the senders run the time of the last call and the log of all calls, latest first.
-/

namespace VulosRelay.Gateway.OutboundGuard

inductive SenderVerdict where
  | allow
  | throttle (retryAfterMs : Nat) (reason : String)
  | refuse (reason : String)

structure SenderState where
  rateHits : List Nat
  volumeHits : List Nat
  strikes : Nat
  backoffUntil : Nat

structure OutboundSenderGuard where
  rateLimit : UInt32
  rateWindowMs : Nat
  volumeCap : UInt32
  volumeWindowMs : Nat
  backoffBaseMs : Nat
  backoffMaxShift : Nat
  registered : Option (List Str)

def unauthenticated : String :=
  "5.7.1 outbound relay denied: sender is not an authenticated account"

def inBackoff : String := "4.7.1 sender in reputation backoff after prior delivery failures"

def overVolume : String := "5.7.1 outbound volume cap reached for this sender; relay refused"

def overRate : String := "4.7.1 per-sender outbound rate limit exceeded; slow down"

namespace OutboundSenderGuard

variable (g : OutboundSenderGuard)

def isAuthenticated (account : Str) : Bool :=
  trim account ≠ [] ∧ ∃ set ∈ g.registered, account ∈ set

/-- `authorize_send`, once the sender is authenticated. -/
def authorize (st : SenderState) (now : Nat) : SenderState × SenderVerdict :=
  if now < st.backoffUntil then (st, .throttle (st.backoffUntil - now) inBackoff)
  else
    let st := { st with volumeHits := st.volumeHits.filter (now - g.volumeWindowMs ≤ ·) }
    if g.volumeCap.toNat ≤ st.volumeHits.length % 2 ^ 32 then (st, .refuse overVolume)
    else
      let st := { st with rateHits := st.rateHits.filter (now - g.rateWindowMs ≤ ·) }
      if g.rateLimit.toNat ≤ st.rateHits.length % 2 ^ 32 then
        let retryAfter := match st.rateHits.head? with
          | some oldest => (oldest + g.rateWindowMs) % 2 ^ 64 - now
          | none => g.rateWindowMs
        (st, .throttle (max retryAfter 1) overRate)
      else
        ({ st with rateHits := st.rateHits ++ [now], volumeHits := st.volumeHits ++ [now] }, .allow)

/-- `1u64.checked_shl(shift).unwrap_or(u64::MAX)`. -/
def factor (shift : Nat) : Nat := if shift < 64 then 2 ^ shift else Amount.limit

/-- The end of a backoff that begins at a time. -/
def backoffEnd (now shift : Nat) : Nat :=
  min (now + min (g.backoffBaseMs * factor shift) Amount.limit) Amount.limit

def report (st : SenderState) (now : Nat) (delivered : Bool) : SenderState :=
  if delivered then { st with strikes := st.strikes - 1 }
  else
    let strikes := min (st.strikes + 1) (2 ^ 32 - 1)
    { st with
      strikes := strikes
      backoffUntil := g.backoffEnd now (min (strikes - 1) g.backoffMaxShift) }

end OutboundSenderGuard

inductive Entry where
  | send (account : Str) (now : Nat) (verdict : SenderVerdict)
  | outcome (account : Str) (now : Nat) (delivered : Bool)

structure World where
  states : FinMap Str SenderState
  clock : Nat
  log : List Entry

def World.state (w : World) (account : Str) : SenderState :=
  (w.states.lookup account).getD ⟨[], [], 0, 0⟩

namespace OutboundSenderGuard

variable (g : OutboundSenderGuard) (w : World)

def authorizeSend (account : Str) (now : Nat) : World × SenderVerdict :=
  if g.isAuthenticated account then
    let (st, verdict) := g.authorize (w.state account) now
    (⟨w.states.insert account st, now, .send account now verdict :: w.log⟩, verdict)
  else
    ({ w with clock := now, log := .send account now (.refuse unauthenticated) :: w.log },
      .refuse unauthenticated)

def reportOutcome (account : Str) (now : Nat) (delivered : Bool) : World :=
  ⟨w.states.insert account (g.report (w.state account) now delivered), now,
    .outcome account now delivered :: w.log⟩

end OutboundSenderGuard

inductive Call where
  | authorizeSend (account : Str) (now : Nat)
  | reportOutcome (account : Str) (now : Nat) (delivered : Bool)

def Call.now : Call → Nat
  | .authorizeSend _ now => now
  | .reportOutcome _ now _ => now

def guard (g : OutboundSenderGuard) : System World Call where
  init w := w = ⟨∅, 0, []⟩
  step w
    | .authorizeSend account now => some (g.authorizeSend w account now).1
    | .reportOutcome account now delivered => some (g.reportOutcome w account now delivered)

end VulosRelay.Gateway.OutboundGuard
