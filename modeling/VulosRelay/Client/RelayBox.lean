import VulosRelay.Client.Signaling
import VulosRelay.Lib.WebBase64

/-!
# Relay blobs

The model of `client/src/relayBox.js`: the two formats in which a payload is sealed for
the relay. The first takes its key from the two box keys, the second from an X3DH handshake
whose clear header travels in the blob and is bound to the ciphertext.

The platform and the primitives are parameters: JSON, text decoding, X25519, HKDF and the
cipher. Random bytes are arguments, of the length the code asks for. A call that throws
returns its failure.
-/

namespace VulosRelay.Client.RelayBox

open JsText Json Signaling

abbrev Bytes := List UInt8

abbrev Sized (n : Nat) := { bytes : Bytes // bytes.length = n }

inductive Failure where
  | error (message : Text)
  | platform
  deriving DecidableEq

def fail {α : Type} (message : String) : Except Failure α := .error (.error (literal message))

def ofOption {α : Type} : Option α → Except Failure α
  | some a => .ok a
  | none => .error .platform

abbrev Js (N : Type) := Option (Value N)

def text {N : Type} (s : Text) : Js N := some (.str s)

structure Platform (N : Type) where
  numbers : Numbers N
  ofNat : Nat → N
  display : Value N → Text
  exceeds : Js N → Js N → Bool
  parse : Text → Option (Value N)
  decode : Bytes → Text
  getPublicKey : Sized 32 → Bytes
  getSharedSecret : Sized 32 → Bytes → Option Bytes
  hkdf : Bytes → Option Bytes → Bytes → Sized 32
  /-- `xchacha20poly1305(key, nonce, aad).encrypt(plaintext)`. -/
  encrypt : Sized 32 → Sized 24 → Bytes → Bytes → Bytes
  /-- `xchacha20poly1305(key, nonce, aad).decrypt(sealed)`, `none` if it throws. -/
  decrypt : Sized 32 → Bytes → Bytes → Bytes → Option Bytes

def boxVersion : UInt8 := 0x01

def boxVersionV2 : UInt8 := 0x02

def nonceLen : Nat := 24

def hkdfInfo : Bytes := encode (literal "vulos-relay-box-v1")

def bytesToB64 (bytes : Bytes) : Text := WebBase64.btoa bytes

def b64ToBytes (b64 : Text) : Except Failure Bytes := ofOption (WebBase64.atob b64)

section

variable {N : Type} (p : Platform N)

def template (v : Js N) : Text := (v.map p.display).getD (literal "undefined")

def deriveKey (myPriv : Sized 32) (theirPub : Bytes) : Except Failure (Sized 32) := do
  let shared ← ofOption (p.getSharedSecret myPriv theirPub)
  return p.hkdf shared none hkdfInfo

def aad (sender recipient session : Js N) : Bytes :=
  encode (template p sender ++ literal "|" ++ template p recipient ++ literal "|"
    ++ template p session)

def sealRelayBlob (plaintext : Bytes) (senderBoxPriv : Sized 32) (recipientBoxPubB64 : Text)
    (sender recipient session : Js N) (nonce : Sized 24) : Except Failure Text := do
  let recipientPub ← b64ToBytes recipientBoxPubB64
  let key ← deriveKey p senderBoxPriv recipientPub
  let sealed := p.encrypt key nonce (aad p sender recipient session) plaintext
  return bytesToB64 (boxVersion :: (nonce.val ++ sealed))

def unsupportedVersion (version : UInt8) : Failure :=
  .error (literal ("unsupported relay blob version " ++ toString version.toNat))

def openRelayBlob (blobB64 : Text) (recipientBoxPriv : Sized 32) (senderBoxPubB64 : Text)
    (sender recipient session : Js N) : Except Failure Bytes := do
  let raw ← b64ToBytes blobB64
  if raw.length < 1 + nonceLen + 16 then fail "relay blob too short"
  else if raw.headD 0 ≠ boxVersion then throw (unsupportedVersion (raw.headD 0))
  else
    let nonce := (raw.drop 1).take nonceLen
    let sealed := raw.drop (1 + nonceLen)
    let senderPub ← b64ToBytes senderBoxPubB64
    let key ← deriveKey p recipientBoxPriv senderPub
    ofOption (p.decrypt key nonce (aad p sender recipient session) sealed)

def v2Header (ephemeralPubB64 : Text) (spkId opkId : Js N) : Value N :=
  .obj (object [("v", some (.num (p.ofNat 2))), ("ek", text ephemeralPubB64), ("spk_id", spkId),
    ("opk_id", orNull opkId)])

def v2HeaderBytes (ephemeralPubB64 : Text) (spkId opkId : Js N) : Bytes :=
  encode (stringify p.numbers (v2Header p ephemeralPubB64 spkId opkId))

def v2Aad (sender recipient session : Js N) (headerBytes : Bytes) : Bytes :=
  aad p sender recipient session ++ headerBytes

def relayBlobVersion (blobB64 : Text) : Except Failure UInt8 := do
  match ← b64ToBytes blobB64 with
  | [] => fail "relay blob empty"
  | version :: _ => return version

def v2Bytes (header nonce sealed : Bytes) : Bytes :=
  boxVersionV2 :: UInt8.ofNat (header.length / 256) :: UInt8.ofNat (header.length % 256) ::
    (header ++ (nonce ++ sealed))

def sealRelayBlobV2 (plaintext : Bytes) (key : Sized 32) (ephemeralPub : Bytes)
    (signedPreKeyId oneTimePreKeyId : Js N) (sender recipient session : Js N)
    (nonce : Sized 24) : Except Failure Text :=
  let header := v2HeaderBytes p (bytesToB64 ephemeralPub) signedPreKeyId oneTimePreKeyId
  if header.length > 0xffff then fail "v2 header too large"
  else
    let sealed := p.encrypt key nonce (v2Aad p sender recipient session header) plaintext
    .ok (bytesToB64 (v2Bytes header nonce.val sealed))

structure Parsed (N : Type) where
  ephemeralPub : Bytes
  signedPreKeyId : Text
  /-- Whatever value the header has for it; `none` for `null`. -/
  oneTimePreKeyId : Js N
  headerBytes : Bytes
  nonce : Bytes
  sealed : Bytes

def notNull : Js N → Js N
  | some .null => none
  | v => v

def isTwo : Js N → Bool
  | some (.num n) => p.numbers.value n = 2
  | _ => false

def readHeader (hdr : Value N) : Except Failure (Bytes × Text × Js N) :=
  match hdr, field hdr "ek", field hdr "spk_id" with
  | .null, _, _ => throw .platform
  | _, some (.str ek), some (.str spkId) =>
    if !isTwo p (field hdr "v") then fail "relay blob header invalid"
    else do
      let ephemeralPub ← b64ToBytes ek
      if ephemeralPub.length ≠ 32 then fail "relay blob bad ephemeral key"
      else return (ephemeralPub, spkId, notNull (field hdr "opk_id"))
  | _, _, _ => fail "relay blob header invalid"

def parseBody (headerLen : Nat) (rest : Bytes) : Except Failure (Parsed N) :=
  if rest.length < headerLen + nonceLen + 16 then fail "relay blob too short"
  else
    let headerBytes := rest.take headerLen
    match p.parse (p.decode headerBytes) with
    | none => fail "relay blob header malformed"
    | some hdr => do
        let (ephemeralPub, signedPreKeyId, oneTimePreKeyId) ← readHeader p hdr
        return { ephemeralPub, signedPreKeyId, oneTimePreKeyId, headerBytes
                 nonce := (rest.drop headerLen).take nonceLen
                 sealed := rest.drop (headerLen + nonceLen) }

def parseRelayBlobV2 (blobB64 : Text) : Except Failure (Parsed N) := do
  match ← b64ToBytes blobB64 with
  | version :: high :: low :: rest =>
    if version ≠ boxVersionV2 then throw (unsupportedVersion version)
    else parseBody p (high.toNat * 256 + low.toNat) rest
  | _ => fail "relay blob too short"

def openRelayBlobV2 (parsed : Parsed N) (key : Sized 32) (sender recipient session : Js N) :
    Except Failure Bytes :=
  ofOption (p.decrypt key parsed.nonce (v2Aad p sender recipient session parsed.headerBytes)
    parsed.sealed)

end

end VulosRelay.Client.RelayBox
