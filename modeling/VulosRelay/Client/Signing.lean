import VulosRelay.Client.Signaling

/-!
# What an identity key signs

A client signs four kinds of messages with its identity key: the frames of
`_buildSignalPayload` and the joins of `_buildJoinPayload` (`client/src/signaling.js`), the
deposits of `_relayDeposit` and the public key of its signed prekey
(`client/src/fabric.js`, `client/src/prekeys.js`). The first three are signed as the bytes
of a JSON text, the last as its 32 bytes.

The `sdp`, `candidate` and `pubKey` of a frame are the values that are sent, that is, what
`JSON.parse` gives for their text: these have no infinite numbers.
-/

namespace VulosRelay.Client.Signaling

open JsText Json

variable {N Key : Type}

inductive FrameType where
  | offer
  | answer
  | ice
  deriving DecidableEq

def FrameType.text : FrameType → Text
  | .offer => literal "offer"
  | .answer => literal "answer"
  | .ice => literal "ice"

/-- A value as it is sent, if there is one. -/
def Sent (v : Option (Value N)) : Prop := v.map Value.norm = v

structure SignedFrame (N : Type) where
  type : FrameType
  session : Text
  addressee : Option Text
  sender : Text
  nonce : Text
  ts : N
  sdp : Option (Value N)
  candidate : Option (Value N)
  pubKey : Option (Value N)
  sdp_sent : Sent sdp
  candidate_sent : Sent candidate
  pubKey_sent : Sent pubKey

def SignedFrame.message (f : SignedFrame N) : Value N :=
  canonical (some (.str f.type.text)) (some (.str f.session)) (f.addressee.map .str)
    (some (.str f.sender)) (some (.str f.nonce)) (some (.num f.ts)) f.sdp f.candidate f.pubKey

structure SignedJoin (N : Type) where
  session : Text
  sender : Text
  depositPubKey : Option Text
  boxPubKey : Option Text
  supportsV2 : Bool
  nonce : Text
  ts : N

def SignedJoin.message (j : SignedJoin N) : Value N :=
  canonicalJoin (some (.str j.session)) (some (.str j.sender)) (j.depositPubKey.map .str)
    (j.boxPubKey.map .str) j.supportsV2 (some (.str j.nonce)) (some (.num j.ts))

structure SignedDeposit where
  addressee : Text
  sender : Text
  nonce : Text
  blob : Text
  epk : Text

def SignedDeposit.message (d : SignedDeposit) : Value N :=
  canonicalDeposit (some (.str d.addressee)) (some (.str d.sender)) (some (.str d.nonce))
    (some (.str d.blob)) (some (.str d.epk))

inductive SignedMessage (N : Type) where
  | frame (f : SignedFrame N)
  | join (j : SignedJoin N)
  | deposit (d : SignedDeposit)
  | preKey (pub : List UInt8) (size : pub.length = 32)

def SignedMessage.kind : SignedMessage N → Kind
  | .frame _ => .frame
  | .join _ => .join
  | .deposit _ => .deposit
  | .preKey _ _ => .preKey

def SignedMessage.bytes (env : Env N Key) : SignedMessage N → List UInt8
  | .frame f => bytesOf env f.message
  | .join j => bytesOf env j.message
  | .deposit d => bytesOf env d.message
  | .preKey pub _ => pub

/--
**Unforgeability**: a signature that verifies under a key is over the bytes of a message
that the owner of the key has signed.
-/
def Unforgeable (env : Env N Key) (key : Key) (signed : SignedMessage N → Prop) : Prop :=
  ∀ bytes sig, env.verify key bytes sig = true → ∃ m, signed m ∧ m.bytes env = bytes

end VulosRelay.Client.Signaling
