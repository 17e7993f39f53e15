import VulosRelay.Lib.System
import VulosRelay.Lib.Wire
import VulosRelay.Reachability.Registry
import VulosRelay.Reachability.Sni

/-!
# The handshake of a box

The model of `crates/reachability-adapter/src/auth.rs`, with `read_registration` of `tunnel.rs`,
among connections and boxes of which the attacker carries every byte. What arrives at either
side is therefore an argument of the step. The random bytes of a nonce are one too, but new ones.
The signatures that boxes have made and the registrations that the adapter has accepted are kept,
latest first. Strings are texts; the bytes that are signed are theirs.
-/

namespace VulosRelay.Reachability.Auth

open Gateway (Str)

abbrev Nonce := Vector UInt8 32

/-- `read_exact`, for a string with its length in front. -/
def readLengthPrefixedString (stream : List UInt8) : Option (Str × List UInt8) := do
  let len := Wire.beUint (stream.take 2)
  let rest := stream.drop 2
  if stream.length < 2 ∨ len > 4096 ∨ rest.length < len then none
  else do
    let text ← fromUtf8 (rest.take len)
    pure (text, rest.drop len)

def readServices : Nat → Finset Str → List UInt8 → Option (Finset Str)
  | 0, services, _ => some services
  | n + 1, services, stream => do
    let (service, stream) ← readLengthPrefixedString stream
    readServices n (insert service services) stream

def readRegistration (stream : List UInt8) : Option Registration := do
  let (name, stream) ← readLengthPrefixedString stream
  let serviceCount := Wire.beUint (stream.take 2)
  if name = [] ∨ stream.length < 2 ∨ serviceCount > 256 then none
  else do
    let services ← readServices serviceCount ∅ (stream.drop 2)
    pure ⟨name, services⟩

structure AuthAnnounce where
  claimedIk : List UInt8
  registration : Registration
  deriving DecidableEq

def readAnnounce (stream : List UInt8) : Option AuthAnnounce :=
  if stream.length < 32 then none
  else (readRegistration (stream.drop 32)).map fun r => ⟨stream.take 32, r⟩

def signingPreimage (nonce : Nonce) (name : Str) : List UInt8 := nonce.toList ++ Utf8.encode name

structure NonceState where
  pending : Finset Nonce
  order : List Nonce

def maxPendingNonces : Nat := 10000

def NonceState.issue (s : NonceState) (nonce : Nonce) : NonceState :=
  if maxPendingNonces ≤ s.order.length then
    match s.order with
    | oldest :: order => ⟨insert nonce (s.pending.erase oldest), order ++ [nonce]⟩
    | [] => ⟨insert nonce s.pending, [nonce]⟩
  else ⟨insert nonce s.pending, s.order ++ [nonce]⟩

/-- A connection that waits for the response. -/
structure Waiting where
  announce : AuthAnnounce
  nonce : Nonce

/-- A run of `authenticate_as_box`. -/
structure BoxRun where
  ik : List UInt8
  registration : Registration

structure Signature where
  run : BoxRun
  nonce : Nonce

structure Accepted where
  registration : Registration
  authenticatedIk : List UInt8
  nonce : Nonce

structure Network where
  nonces : NonceState
  issued : List Nonce
  waiting : List Waiting
  /-- The boxes that wait for the challenge. -/
  boxes : List BoxRun
  runs : List BoxRun
  signatures : List Signature
  accepted : List Accepted

inductive Act where
  | box (run : BoxRun)
  | challenge (i : Nat) (nonce : Nonce)
  | announce (stream : List UInt8) (nonce : Nonce)
  | response (i : Nat) (sig : Vector UInt8 64)

section

-- `verify_domain`, for the domain of the handshake
variable (verify : (ik message : List UInt8) → Vector UInt8 64 → Bool)

def Network.step (w : Network) : Act → Option Network
  | .box run => some { w with boxes := run :: w.boxes, runs := run :: w.runs }
  | .challenge i nonce =>
    w.boxes[i]?.map fun run => { w with
      boxes := w.boxes.eraseIdx i
      signatures := ⟨run, nonce⟩ :: w.signatures }
  | .announce stream nonce =>
    (readAnnounce stream).map fun announce => { w with
      nonces := w.nonces.issue nonce
      issued := nonce :: w.issued
      waiting := ⟨announce, nonce⟩ :: w.waiting }
  | .response i sig =>
    w.waiting[i]?.map fun conn =>
      let w := { w with waiting := w.waiting.eraseIdx i }
      if conn.nonce ∉ w.nonces.pending then w
      else
        let w := { w with nonces.pending := w.nonces.pending.erase conn.nonce }
        let preimage := signingPreimage conn.nonce conn.announce.registration.name
        if verify conn.announce.claimedIk preimage sig then { w with
          accepted :=
            ⟨conn.announce.registration, conn.announce.claimedIk, conn.nonce⟩ :: w.accepted }
        else w

def network : System Network Act :=
  ⟨fun w => w = ⟨⟨∅, []⟩, [], [], [], [], [], []⟩, Network.step verify⟩

end

end VulosRelay.Reachability.Auth
