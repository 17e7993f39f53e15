import VulosRelay.Gateway.Attestation
import Mathlib.Data.Countable.Basic
import Mathlib.Logic.Equiv.List

/-!
# Attestations cannot be transplanted

The two kinds of attestation are signed with the same key. The tag of the one goes on with a
letter where the tag of the other ends with a zero byte, so no text is signed as both; and each
body gives back the fields it was made from. A signature that verifies therefore belongs to an
attestation of the same kind with the same fields.
-/

namespace VulosRelay.Gateway.Attestations

open List GatewayAttestation

theorem push_append_inj (h : push a ++ xs = push b ++ ys) : a = b ∧ xs = ys := by
  rw [push, push, append_assoc, append_assoc] at h
  obtain ⟨hlen, hrs⟩ := Wire.beBytes_append_inj a.property b.property h
  obtain ⟨hval, hxs⟩ := append_inj hrs hlen
  exact ⟨Subtype.ext hval, hxs⟩

/-- The signing body says all the fields. -/
theorem Attestation.signingBody_inj {a b : Attestation} (h : a.signingBody = b.signingBody) :
    { a with sig := b.sig } = b := by
  obtain ⟨hdom, h⟩ := push_append_inj h
  obtain ⟨hsel, h⟩ := push_append_inj h
  obtain ⟨hkey, h⟩ := push_append_inj h
  obtain ⟨htm, h⟩ := Wire.beBytes_append_inj a.receivedAt.toNat_lt b.receivedAt.toNat_lt h
  obtain ⟨hfr, h⟩ := push_append_inj h
  obtain ⟨hrc, h⟩ := push_append_inj h
  obtain ⟨hmt, -⟩ := push_append_inj (congrArg (· ++ []) h)
  cases a
  cases b
  simp_all [UInt64.toNat_inj]

theorem GatewayAttestation.toCv_inj {a b : GatewayAttestation} (h : a.toCv = b.toCv) :
    { a with sig := b.sig } = b := by
  obtain ⟨disc, domain, selector, recvAt, msgDigest, legacyFrom, seq, sig⟩ := a
  obtain ⟨disc', domain', selector', recvAt', msgDigest', legacyFrom', seq', sig'⟩ := b
  unfold toCv at h
  cases legacyFrom <;> cases legacyFrom' <;> cases seq <;> cases seq' <;>
    simp_all [UInt8.toUInt64_inj]

theorem tags_apart (body body' : List UInt8) :
    attestationDs ++ body ≠ gatewayAttestDs ++ body' := by
  simp [attestationDs, gatewayAttestDs]

variable {Key : Type} (crypto : Crypto Key)

/-- A call that signs. -/
inductive Signing (Key : Type) where
  | attest (k : AttestationKey Key) (moteId smtpMailFrom smtpRcptTo : Blob) (receivedAt : UInt64)
  | sign (k : AttestationKey Key) (rfc5322Bytes : List UInt8) (legacyFrom : Option Blob)
      (recvAt : UInt64) (seq : UInt8)

def Signing.key : Signing Key → AttestationKey Key
  | .attest k .. => k
  | .sign k .. => k

/-- The text that a call signs. -/
def Signing.message : Signing Key → List UInt8
  | .attest k moteId mailFrom rcptTo receivedAt =>
    attestationDs ++ (k.attest crypto moteId mailFrom rcptTo receivedAt).signingBody
  | .sign k bytes legacyFrom recvAt seq =>
    gatewayAttestDs
      ++ (GatewayAttestation.sign crypto k bytes legacyFrom recvAt seq).signingBody crypto

/-- **Unforgeable**: what verifies under a key is a text that one of the calls with that key has
signed. -/
def Unforgeable (key : Blob) (calls : List (Signing Key)) : Prop :=
  ∀ message sig, crypto.verify key message sig = true →
    ∃ call ∈ calls, crypto.publicKey call.key.key = key ∧ call.message crypto = message

/-- **Attestations cannot be transplanted.** -/
theorem attestations_bound (hencode : Function.Injective crypto.encode) (key : Blob)
    (calls : List (Signing Key)) (hunforgeable : Unforgeable crypto key calls) :
    (∀ a b : Attestation, a.signingBody = b.signingBody → { a with sig := b.sig } = b) ∧
    (∀ body body', attestationDs ++ body ≠ gatewayAttestDs ++ body') ∧
    (∀ (a : Attestation) domain moteId, a.verify crypto domain (some key) moteId = .ok () →
      ∃ k mailFrom rcptTo receivedAt, .attest k moteId mailFrom rcptTo receivedAt ∈ calls ∧
        crypto.publicKey k.key = key ∧ k.domain = domain ∧
        { k.attest crypto moteId mailFrom rcptTo receivedAt with sig := a.sig } = a) ∧
    ∀ (a : GatewayAttestation) domain bytes, a.verify crypto domain (some key) bytes = .ok () →
      ∃ k bytes' legacyFrom recvAt seq, .sign k bytes' legacyFrom recvAt seq ∈ calls ∧
        crypto.publicKey k.key = key ∧ eqIgnoreAsciiCase k.domain domain = true ∧
        crypto.contentId bytes' = crypto.contentId bytes ∧
        { sign crypto k bytes' legacyFrom recvAt seq with
          sig := a.sig } = a := by
  refine ⟨fun a b => Attestation.signingBody_inj, tags_apart, fun a domain moteId h => ?_,
    fun a domain bytes h => ?_⟩
  · unfold Attestation.verify at h
    dsimp only at h
    split_ifs at h with hdom hmt hkey hver
    obtain ⟨call, hcl, hpub, hmsg⟩ := hunforgeable _ _ hver
    cases call with
    | attest k moteId' mailFrom rcptTo receivedAt =>
      have hsm := Attestation.signingBody_inj (append_cancel_left hmsg)
      have hmtd : moteId' = moteId :=
        (congrArg Attestation.moteId hsm).trans (not_not.mp hmt)
      subst hmtd
      exact ⟨k, mailFrom, rcptTo, receivedAt, hcl, hpub,
        (congrArg Attestation.domain hsm).trans (not_not.mp hdom), hsm⟩
    | sign k bytes legacyFrom recvAt seq => exact absurd hmsg.symm (tags_apart _ _)
  · unfold verify at h
    dsimp only at h
    split_ifs at h with hds hdom hdig hver
    obtain ⟨call, hcl, hpub, hmsg⟩ := hunforgeable _ _ hver
    cases call with
    | attest k moteId mailFrom rcptTo receivedAt => exact absurd hmsg (tags_apart _ _)
    | sign k bytes' legacyFrom recvAt seq =>
      have hsm := toCv_inj (hencode (append_cancel_left hmsg))
      have hk : k.domain = a.domain := congrArg GatewayAttestation.domain hsm
      refine ⟨k, bytes', legacyFrom, recvAt, seq, hcl, hpub, ?_, ?_, hsm⟩
      · rw [hk]
        simpa using hdom
      · exact (congrArg msgDigest hsm).trans (not_not.mp hdig)

theorem exists_encoding :
    ∃ encode : List (UInt64 × Cv) → List UInt8, Function.Injective encode := by
  have hby : Countable UInt8 := Function.Injective.countable fun _ _ h => UInt8.toNat_inj.mp h
  have hwr : Countable UInt64 := Function.Injective.countable fun _ _ h => UInt64.toNat_inj.mp h
  have hvl : Countable Cv := by
    let toSum : Cv → UInt64 ⊕ Blob ⊕ Blob
      | .u64 n => .inl n
      | .text b => .inr (.inl b)
      | .bytes b => .inr (.inr b)
    refine Function.Injective.countable (f := toSum) fun a b h => ?_
    cases a <;> cases b <;> simp_all [toSum]
  obtain ⟨number, hnm⟩ := exists_injective_nat (List (UInt64 × Cv))
  refine ⟨fun m => replicate (number m) 0, fun a b h => hnm ?_⟩
  simpa using congrArg length h

def byte (b : UInt8) : Blob := ⟨[b], Nat.one_lt_two_pow (by decide)⟩

def sampleKey : AttestationKey Unit := ⟨byte 100, byte 115, ()⟩

def twoCalls : List (Signing Unit) :=
  [.attest sampleKey (byte 109) (byte 102) (byte 114) 5,
    .sign sampleKey [66, 67] (some (byte 102)) 6 1]

def mute (encode : List (UInt64 × Cv) → List UInt8) : Crypto Unit where
  publicKey _ := byte 107
  sign _ _ := byte 33
  verify _ _ _ := false
  contentId bytes := byte (bytes.headD 0)
  encode := encode

/-- A scheme in which the texts of the two calls verify, and nothing else. -/
def twoCrypto (encode : List (UInt64 × Cv) → List UInt8) : Crypto Unit :=
  { mute encode with
    verify := fun _ message _ => twoCalls.any fun call => call.message (mute encode) == message }

/-- An attestation of each kind that verifies, the second for the domain in capitals. -/
theorem twoCalls_bound : ∃ crypto : Crypto Unit,
    (sampleKey.attest crypto (byte 109) (byte 102) (byte 114) 5).verify crypto (byte 100)
        (some (byte 107)) (byte 109) = .ok () ∧
      (sign crypto sampleKey [66, 67] (some (byte 102)) 6 1).verify crypto (byte 68)
        (some (byte 107)) [66, 67] = .ok () ∧
      (∃ k mailFrom rcptTo receivedAt, .attest k (byte 109) mailFrom rcptTo receivedAt ∈ twoCalls ∧
        mailFrom = byte 102 ∧ receivedAt = 5) ∧
      ∃ k bytes legacyFrom recvAt seq, .sign k bytes legacyFrom recvAt seq ∈ twoCalls ∧
        legacyFrom = some (byte 102) ∧ recvAt = 6 := by
  obtain ⟨encode, hen⟩ := exists_encoding
  let crypto := twoCrypto encode
  have hunf : Unforgeable crypto (byte 107) twoCalls := fun message sig h => by
    obtain ⟨call, hmem, heq⟩ := any_eq_true.mp h
    exact ⟨call, hmem, rfl, eq_of_beq heq⟩
  have hvr : ∀ call ∈ twoCalls, ∀ sig,
      crypto.verify (byte 107) (call.message crypto) sig = true := fun call hmem _ =>
    any_eq_true.mpr ⟨call, hmem, beq_self_eq_true _⟩
  have hatt : (sampleKey.attest crypto (byte 109) (byte 102) (byte 114) 5).verify crypto (byte 100)
      (some (byte 107)) (byte 109) = .ok () := if_pos (hvr _ (.head _) _)
  have hsgn : (sign crypto sampleKey [66, 67] (some (byte 102)) 6 1).verify crypto (byte 68)
      (some (byte 107)) [66, 67] = .ok () := if_pos (hvr _ (.tail _ (.head _)) _)
  have hbn := attestations_bound crypto hen (byte 107) twoCalls hunf
  obtain ⟨k, mailFrom, rcptTo, receivedAt, hcl, -, -, hsm⟩ := hbn.2.2.1 _ _ _ hatt
  obtain ⟨k', bytes, legacyFrom, recvAt, seq, hcl', -, -, -, hsm'⟩ := hbn.2.2.2 _ _ _ hsgn
  exact ⟨crypto, hatt, hsgn,
    ⟨k, mailFrom, rcptTo, receivedAt, hcl, congrArg Attestation.smtpMailFrom hsm,
      congrArg Attestation.receivedAt hsm⟩,
    k', bytes, legacyFrom, recvAt, seq, hcl', congrArg GatewayAttestation.legacyFrom hsm',
    congrArg GatewayAttestation.recvAt hsm'⟩

end VulosRelay.Gateway.Attestations
