import VulosRelay.Gateway.Text
import VulosRelay.Lib.Amount
import VulosRelay.Lib.FinMap
import VulosRelay.Lib.System
import VulosRelay.Lib.Wire

/-!
# Admission of senders

The model of `IdentityRegistry` (`crates/gateway/src/authz.rs`): a sender answers a challenge
by signing it. `admit` reads the table of issued nonces, makes its checks, and takes the nonce
out of the table in a critical section of its own; between the two other calls may come.
-/

namespace VulosRelay.Gateway.Authz

def base32Alphabet : Str := "abcdefghijklmnopqrstuvwxyz234567".toList

def base32Char (v : UInt32) : Char := base32Alphabet.getD (v &&& 31).toNat 'a'

def base32Drain (bits : UInt32) : (nbits : Nat) → Str × Nat
  | nbits + 5 =>
    (base32Char (bits >>> UInt32.ofNat nbits) :: (base32Drain bits nbits).1,
      (base32Drain bits nbits).2)
  | nbits => ([], nbits)

def base32From : (bits : UInt32) → (nbits : Nat) → List UInt8 → Str
  | bits, nbits, [] =>
    if nbits > 0 then [base32Char (bits <<< UInt32.ofNat (5 - nbits))] else []
  | bits, nbits, b :: rest =>
    let bits := bits <<< 8 ||| b.toUInt32
    (base32Drain bits (nbits + 8)).1 ++ base32From bits (base32Drain bits (nbits + 8)).2 rest

def base32Lower (input : List UInt8) : Str := base32From 0 0 input

structure Core where
  verify : (publicKey body sig : List UInt8) → Bool
  digest : List UInt8 → List UInt8

def keyFingerprint (core : Core) (key : List UInt8) : Str :=
  base32Lower ((core.digest key).take 10)

abbrev Nonce := Vector UInt8 32

structure Challenge where
  nonce : Nonce
  issuedAt : UInt64
  deriving DecidableEq

def Challenge.signingBody (c : Challenge) : List UInt8 :=
  c.nonce.toList ++ Wire.beBytes 8 c.issuedAt.toNat

inductive AuthzMode where
  | keyRegistered
  | openPublic
  deriving DecidableEq

structure RegisteredIdentity where
  publicKey : List UInt8
  account : Str
  domain : Str

structure Admission where
  account : Str
  domain : Str
  publicKey : List UInt8

inductive AdmissionError where
  | challengeExpired
  | badSignature
  | unknownKey
  | unknownOrConsumedChallenge
  deriving DecidableEq

structure IdentityRegistry where
  mode : AuthzMode
  challengeTtlMs : UInt64
  entries : List RegisteredIdentity

abbrev Issued := FinMap Nonce UInt64

variable (reg : IdentityRegistry) (core : Core) (issued : Issued)

def identityForKey (key : List UInt8) : Option RegisteredIdentity :=
  reg.entries.find? (·.publicKey == key)

def issueChallenge (nonce : Nonce) (issuedAt : UInt64) : Issued :=
  let cutoff := Amount.satSub issuedAt reg.challengeTtlMs
  (issued.filter fun _ t => decide (cutoff ≤ t)).insert nonce issuedAt

def isFresh (issuedAt now : UInt64) : Bool :=
  !(now < issuedAt || Amount.satSub now issuedAt > reg.challengeTtlMs)

def checkAdmission (challenge : Challenge) (key sig : List UInt8) (now : UInt64) :
    Except AdmissionError Admission :=
  -- `peek_issued_at`, or what the sender says if there is no record
  let effective := (issued.lookup challenge.nonce).getD challenge.issuedAt
  if isFresh reg effective now = false then .error .challengeExpired
  else if core.verify key challenge.signingBody sig = false then .error .badSignature
  else
    match reg.mode, identityForKey reg key with
    | _, some id => .ok ⟨id.account, id.domain, key⟩
    | .keyRegistered, none => .error .unknownKey
    | .openPublic, none => .ok ⟨"anon:".toList ++ keyFingerprint core key, [], key⟩

def consumeNonce (nonce : Nonce) (presented : UInt64) : Except AdmissionError Issued :=
  if issued.lookup nonce = some presented then .ok (issued.erase nonce)
  else .error .unknownOrConsumedChallenge

structure Call where
  challenge : Challenge
  key : List UInt8
  now : UInt64
  admission : Admission

structure State where
  issued : Issued
  recorded : Nonce → Option UInt64
  running : List Call
  admitted : List Call

inductive Action where
  | issue (nonce : Nonce) (issuedAt : UInt64)
  | check (challenge : Challenge) (key sig : List UInt8) (now : UInt64)
  | consume (n : Nat)

def step (s : State) : Action → Option State
  | .issue nonce t =>
    some { s with
      issued := issueChallenge reg s.issued nonce t
      recorded := Function.update s.recorded nonce (some t) }
  | .check challenge key sig now =>
    match checkAdmission reg core s.issued challenge key sig now with
    | .error _ => some s
    | .ok admission =>
      some { s with running := ⟨challenge, key, now, admission⟩ :: s.running }
  | .consume n =>
    (s.running[n]?).map fun call =>
      match consumeNonce s.issued call.challenge.nonce call.challenge.issuedAt with
      | .error _ => { s with running := s.running.eraseIdx n }
      | .ok issued => { s with
          issued := issued, running := s.running.eraseIdx n, admitted := call :: s.admitted }

def registry : System State Action := ⟨fun s => s = ⟨∅, fun _ => none, [], []⟩, step reg core⟩

end VulosRelay.Gateway.Authz
