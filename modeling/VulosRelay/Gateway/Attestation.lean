import VulosRelay.Lib.Wire

/-!
# The attestations of a gateway

The model of `Attestation` (`crates/gateway/src/attestation.rs`) and `GatewayAttestation`
(`provenance.rs`). Strings are their bytes, no longer than a 64-bit length can say. The
signature scheme, content addresses and the canonical encoding of CBOR maps are parameters.
-/

namespace VulosRelay.Gateway.Attestations

abbrev Blob := { b : List UInt8 // b.length < 2 ^ 64 }

/-- A value in a CBOR map. -/
inductive Cv where
  | u64 (n : UInt64)
  | text (b : Blob)
  | bytes (b : Blob)

structure Crypto (Key : Type) where
  publicKey : Key → Blob
  sign : Key → List UInt8 → Blob
  verify : (publicKey : Blob) → (message : List UInt8) → (sig : Blob) → Bool
  contentId : List UInt8 → Blob
  encode : List (UInt64 × Cv) → List UInt8

/-- `DMTAP-v0/gateway-attestation`, and a zero byte. -/
def attestationDs : List UInt8 :=
  [68, 77, 84, 65, 80, 45, 118, 48, 47, 103, 97, 116, 101, 119, 97, 121, 45, 97, 116, 116, 101, 115,
    116, 97, 116, 105, 111, 110, 0]

/-- `DMTAP-v0/gateway-attest`, and a zero byte. -/
def gatewayAttestDs : List UInt8 :=
  [68, 77, 84, 65, 80, 45, 118, 48, 47, 103, 97, 116, 101, 119, 97, 121, 45, 97, 116, 116, 101, 115,
    116, 0]

structure AttestationKey (Key : Type) where
  domain : Blob
  selector : Blob
  key : Key

structure Attestation where
  domain : Blob
  selector : Blob
  gatewayKey : Blob
  receivedAt : UInt64
  smtpMailFrom : Blob
  smtpRcptTo : Blob
  moteId : Blob
  sig : Blob
  deriving DecidableEq

def push (b : Blob) : List UInt8 := Wire.beBytes 8 b.val.length ++ b.val

def Attestation.signingBody (a : Attestation) : List UInt8 :=
  push a.domain ++ (push a.selector ++ (push a.gatewayKey ++ (Wire.beBytes 8 a.receivedAt.toNat ++
    (push a.smtpMailFrom ++ (push a.smtpRcptTo ++ push a.moteId)))))

inductive AttestationError where
  | wrongDomain
  | noPublishedKey
  | keyMismatch
  | moteMismatch
  | badSignature

def discLegacyBridge : UInt8 := 1

structure GatewayAttestation where
  disc : UInt8
  domain : Blob
  selector : Blob
  recvAt : UInt64
  msgDigest : Blob
  legacyFrom : Option Blob
  seq : Option UInt8
  sig : Blob

/-- `to_cv` without the signature. -/
def GatewayAttestation.toCv (a : GatewayAttestation) : List (UInt64 × Cv) :=
  [(0, .u64 a.disc.toUInt64), (1, .text a.domain), (2, .text a.selector), (3, .u64 a.recvAt),
      (4, .bytes a.msgDigest)]
    ++ (a.legacyFrom.map fun lf => (5, .text lf)).toList
    ++ (a.seq.map fun seq => (6, .u64 seq.toUInt64)).toList

inductive ProvenanceError where
  | invalid
  | keyUntrusted

def lowerByte (b : UInt8) : UInt8 := if 65 ≤ b ∧ b ≤ 90 then b + 32 else b

def eqIgnoreAsciiCase (a b : Blob) : Bool := a.val.map lowerByte == b.val.map lowerByte

section

variable {Key : Type} (crypto : Crypto Key)

def AttestationKey.attest (k : AttestationKey Key) (moteId smtpMailFrom smtpRcptTo : Blob)
    (receivedAt : UInt64) : Attestation :=
  let att : Attestation := ⟨k.domain, k.selector, crypto.publicKey k.key, receivedAt, smtpMailFrom,
    smtpRcptTo, moteId, ⟨[], by decide⟩⟩
  { att with sig := crypto.sign k.key (attestationDs ++ att.signingBody) }

def Attestation.verify (a : Attestation) (expectedDomain : Blob) (publishedKey : Option Blob)
    (wrappedMoteId : Blob) : Except AttestationError Unit :=
  if a.domain ≠ expectedDomain then .error .wrongDomain
  else if a.moteId ≠ wrappedMoteId then .error .moteMismatch
  else
    match publishedKey with
    | none => .error .noPublishedKey
    | some published =>
      if published ≠ a.gatewayKey then .error .keyMismatch
      else if crypto.verify published (attestationDs ++ a.signingBody) a.sig then .ok ()
      else .error .badSignature

def GatewayAttestation.signingBody (a : GatewayAttestation) : List UInt8 := crypto.encode a.toCv

def GatewayAttestation.sign (k : AttestationKey Key) (rfc5322Bytes : List UInt8)
    (legacyFrom : Option Blob) (recvAt : UInt64) (seq : UInt8) : GatewayAttestation :=
  let att : GatewayAttestation := ⟨discLegacyBridge, k.domain, k.selector, recvAt,
    crypto.contentId rfc5322Bytes, legacyFrom, if seq = 0 then none else some seq, ⟨[], by decide⟩⟩
  { att with sig := crypto.sign k.key (gatewayAttestDs ++ att.signingBody crypto) }

def GatewayAttestation.verify (a : GatewayAttestation) (expectedDomain : Blob)
    (publishedKey : Option Blob) (rfc5322Bytes : List UInt8) : Except ProvenanceError Unit :=
  if a.disc ≠ discLegacyBridge then .error .invalid
  else if !eqIgnoreAsciiCase a.domain expectedDomain then .error .keyUntrusted
  else if a.msgDigest ≠ crypto.contentId rfc5322Bytes then .error .invalid
  else
    match publishedKey with
    | none => .error .keyUntrusted
    | some key =>
      if crypto.verify key (gatewayAttestDs ++ a.signingBody crypto) a.sig then .ok ()
      else .error .invalid

end

end VulosRelay.Gateway.Attestations
