import VulosRelay.Client.X3dh

/-!
# The relay path of the fabric client

The model of the relay part of `FabricClient` (`client/src/fabric.js`), from the moment
`join` has made its keys: `sendTo` and `_relayDeposit` with `_sealForPeer`, and
`_relayPoll` with `_processRelayBlob`. The client holds a signaling client, whose frames
arrive at any time. Each call is a thread that runs up to its next `await`; at each of
them any other call may run.

Answers of the network, the random bytes and the signatures made are arguments of the
steps. The history lists, latest first, the blobs sealed and deposited, the blobs
decrypted, the `message` events dispatched and the blobs acknowledged. What WebRTC does is
left open: the state of a peer changes at any time. The byte meter is left out.
-/

namespace VulosRelay.Client.Fabric

open JsText Json Signaling RelayBox X3dh

def oneTimePreKeyPool : Nat := 16

def maxPayloadBytes : Nat := 256 * 1024

def relayEnvelopeOverhead : Nat := 1 + 24 + 16

def maxRelayBlobB64 : Nat := (maxPayloadBytes + relayEnvelopeOverhead + 2) / 3 * 4 + 4

variable {N Key : Type}

structure Env (N Key : Type) where
  platform : Platform N
  session : Text
  peerId : Text
  requirePeerAuth : Bool
  boxPriv : Sized 32
  rendezvous : Bool
  importKey : Value N → Option Key
  verify : Key → Bytes → Value N → Bool

def Env.signaling (env : Env N Key) : Signaling.Env N Key where
  session := env.session
  peerId := env.peerId
  requirePeerAuth := env.requirePeerAuth
  numbers := env.platform.numbers
  importKey := env.importKey
  verify := env.verify
  atob := WebBase64.atob
  display := env.platform.display

def Env.boxPubKeyB64 (env : Env N Key) : Text :=
  bytesToB64 (env.platform.getPublicKey env.boxPriv)

/-! ## Data -/

inductive Datum (N : Type) where
  /-- A string, or any other value of JSON; `none` for `undefined`. -/
  | json (v : Js N)
  | buffer (bytes : Bytes)
  /-- A typed array: its bytes, and how its elements are written; `none` for big integers. -/
  | typed (bytes : Bytes) (elements : Option (List (Value N)))

def indexed (start : Nat) : List (Value N) → Members N
  | [] => .nil
  | v :: rest => .cons (literal (toString start)) v (indexed (start + 1) rest)

def Datum.toJson : Datum N → Except Failure (Js N)
  | .json v => .ok v
  | .buffer _ => .ok (some (.obj .nil))
  | .typed _ (some elements) => .ok (some (.obj (indexed 0 elements)))
  | .typed _ none => .error .platform

def payload (session : Text) (data : Js N) : Value N :=
  .obj (object [("session", text session), ("data", data)])

section Functions

variable (env : Env N Key)

def byteSize : Datum N → Nat
  | .json none => 0
  | .json (some .null) => 0
  | .json (some (.str s)) => (encode s).length
  | .json (some v) => (encode (stringify env.platform.numbers v)).length
  | .buffer bytes => bytes.length
  | .typed bytes _ => bytes.length

def truthy (v : Js N) : Bool := Signaling.truthy env.signaling v

def plaintextOf (data : Datum N) : Except Failure Bytes := do
  let v ← data.toJson
  return encode (stringify env.platform.numbers (payload env.session v))

/-! ## Sealing -/

structure Job (N : Type) where
  recipientBoxPub : Value N
  plaintext : Bytes

structure Draws where
  ephemeral : Sized 32
  nonce : Sized 24

def isPeerV2Capable (s : Signaling.State N Key) (peer : Text) : Bool :=
  (s.peerV2Capable.lookup peer).isSome

def downgraded (recipient : Text) : Failure :=
  .error (literal "relay seal aborted for " ++ recipient
    ++ literal ": signed prekey missing for a v2-capable peer "
    ++ literal "(forward-secrecy downgrade attack — refusing v1 static-static fallback)")

def sealV2 (recipient : Text) (job : Job N) (signedPreKey : SignedPreKey N)
    (opk : Option OneTimePreKey) (draws : Draws) : Except Failure Text := do
  let recipientIdentityPub ← b64ToBytes (env.platform.display job.recipientBoxPub)
  let signedPreKeyPub ← b64ToBytes signedPreKey.pub
  let oneTimePreKeyPub ← opk.mapM fun opk => b64ToBytes opk.pub
  let (ephemeralPub, sk) ← x3dhInitiate env.platform env.boxPriv recipientIdentityPub
    signedPreKeyPub oneTimePreKeyPub (text env.peerId) (text recipient) draws.ephemeral
  sealRelayBlobV2 env.platform job.plaintext sk ephemeralPub signedPreKey.id
    (opk.bind fun opk => text opk.id) (text env.peerId) (text recipient) (text env.session)
    draws.nonce

def sealV1 (recipient : Text) (job : Job N) (draws : Draws) : Except Failure Text :=
  sealRelayBlob env.platform job.plaintext env.boxPriv
    (env.platform.display job.recipientBoxPub) (text env.peerId) (text recipient)
    (text env.session) draws.nonce

def sealForPeer (s : Signaling.State N Key) (recipient : Text) (job : Job N)
    (signedPreKey : Option (SignedPreKey N)) (opk : Option OneTimePreKey) (draws : Draws) :
    Except Failure Text :=
  match signedPreKey with
  | some signedPreKey => sealV2 env recipient job signedPreKey opk draws
  | none =>
    if isPeerV2Capable s recipient then throw (downgraded recipient)
    else sealV1 env recipient job draws

def oneTimePreKeyOf (signedPreKey : Option (SignedPreKey N)) (claim : Js N) :
    Option OneTimePreKey :=
  match signedPreKey, claim.bind (field · "one_time_prekey") with
  | some _, some c =>
    match field c "id", field c "pub" with
    | some (.str id), some (.str pub) => some ⟨id, pub⟩
    | _, _ => none
  | _, _ => none

/-! ## Opening -/

def respondAndOpen (sender : Js N) (epk : Text) (parsed : Parsed N) (spkPriv : Sized 32)
    (opkPriv : Option (Sized 32)) : Except Failure Bytes := do
  let senderIdentityPub ← b64ToBytes epk
  let sk ← x3dhRespond env.platform env.boxPriv senderIdentityPub spkPriv opkPriv
    parsed.ephemeralPub sender (text env.peerId)
  openRelayBlobV2 env.platform parsed sk sender (text env.peerId) (text env.session)

def openV2 (store : PreKeyStore) (sender : Js N) (epk blobB64 : Text) :
    Except Failure (Option (Bytes × Js N)) := do
  let parsed ← parseRelayBlobV2 env.platform blobB64
  match store.signedPreKeyPriv parsed.signedPreKeyId with
  | none => return none
  | some spkPriv =>
    if truthy env parsed.oneTimePreKeyId then
      match store.oneTimePreKeyPriv parsed.oneTimePreKeyId with
      | none => return none
      | some opkPriv => do
          let plaintext ← respondAndOpen env sender epk parsed spkPriv (some opkPriv)
          return some (plaintext, parsed.oneTimePreKeyId)
    else do
      let plaintext ← respondAndOpen env sender epk parsed spkPriv none
      return some (plaintext, none)

def decryptBlob (store : PreKeyStore) (sender : Js N) (epk blobB64 : Text) :
    Except Failure (Option (Bytes × Js N)) := do
  let version ← relayBlobVersion blobB64
  if version = 2 then openV2 env store sender epk blobB64
  else do
    let plaintext ← openRelayBlob env.platform blobB64 env.boxPriv epk sender (text env.peerId)
      (text env.session)
    return some (plaintext, none)

def readPayload (plaintext : Bytes) : Option (Js N) :=
  let rawPayload := env.platform.decode plaintext
  if rawPayload.length > maxPayloadBytes then none
  else
    match env.platform.parse rawPayload with
    | none => none
    | some msg => if isText env.session (field msg "session") then some (field msg "data") else none

/-! ## What the client records -/

structure Envelope where
  recipient : Text
  sender : Text
  blobB64 : Text
  nonce : Text
  sig : Text
  epk : Text
  deriving DecidableEq

inductive Event (N : Type) where
  /-- A call of `_relayDeposit` sealed a blob, with a signed prekey or without. -/
  | sealed (call : Nat) (recipient : Text) (signedPreKey : Option (SignedPreKey N)) (blob : Text)
  | deposited (call : Nat) (envelope : Envelope)
  /-- A blob was decrypted, with a one-time prekey or without. -/
  | opened (oneTimePreKeyId : Js N)
  | message (sender : Js N) (data : Datum N)
  | channelSent (peer : Text) (data : Datum N)
  | acked (ids : List (Value N))

/-! ## `_relayDeposit` -/

inductive SendPc (N Key : Type) where
  | keys (data : Datum N)
  | preKeys (job : Job N)
  /-- `_claimPreKeys`, with the prekey of the peer's join if there is one. -/
  | claiming (job : Job N) (signedPreKey : Option (SignedPreKey N))
  /-- `verifyPeerSignedPreKey`, with its call and its check if one began. -/
  | verifying (job : Job N) (claim : Js N) (check : Option (Nat × PreKeyCheck N Key))
  | signing (blob : Text)

structure Answer (N : Type) where
  claim : Js N
  draws : Draws
  /-- `crypto.randomUUID()` and the signature over the deposit. -/
  nonce : Text
  sig : Text
  rdvKey : Option Text

structure Moved (N Key : Type) where
  signaling : Signaling.State N Key
  events : List (Event N)
  pc : Option (SendPc N Key)

def startJob (s : Signaling.State N Key) (recipient : Text) (data : Datum N) : Option (Job N) :=
  match s.peerBoxKeys.lookup recipient, plaintextOf env data with
  | some box, .ok plaintext => some ⟨box, plaintext⟩
  | _, _ => none

def sealSection (s : Signaling.State N Key) (call : Nat) (recipient : Text) (job : Job N)
    (signedPreKey : Option (SignedPreKey N)) (claim : Js N) (draws : Draws) : Moved N Key :=
  match sealForPeer env s recipient job signedPreKey (oneTimePreKeyOf signedPreKey claim)
      draws with
  | .ok blob => ⟨s, [.sealed call recipient signedPreKey blob], some (.signing blob)⟩
  | .error _ => ⟨s, [], none⟩

def claimSection (s : Signaling.State N Key) (call : Nat) (recipient : Text) (job : Job N)
    (signedPreKey : Option (SignedPreKey N)) (answer : Answer N) : Moved N Key :=
  match signedPreKey, answer.claim.bind (field · "signed_prekey") with
  | none, some spk =>
    if truthy env (some spk) then
      match startClaim env.signaling { s with next := s.next + 1 } recipient spk with
      | (s', some (.claimVerify check)) =>
        ⟨s'.park s.next recipient .null (some (.claimVerify check)), [],
          some (.verifying job answer.claim (some (s.next, check)))⟩
      | (s', _) =>
        ⟨s'.park s.next recipient .null none, [], some (.verifying job answer.claim none)⟩
    else sealSection env s call recipient job none answer.claim answer.draws
  | _, _ => sealSection env s call recipient job signedPreKey answer.claim answer.draws

def verifySection (s : Signaling.State N Key) (call : Nat) (recipient : Text) (job : Job N)
    (claim : Js N) (draws : Draws) :
    Option (Nat × PreKeyCheck N Key) → Option (Moved N Key)
  | none => some (sealSection env s call recipient job none claim draws)
  | some (n, check) =>
    (step env.signaling s (.resume n 0)).map fun s' =>
      sealSection env s' call recipient job
        (if env.verify check.key check.bytes (.str check.preKey.sig) then some check.preKey
          else none) claim draws

def envelopeOf (recipient blob nonce sig : Text) : Envelope :=
  ⟨recipient, env.peerId, blob, nonce, sig, env.boxPubKeyB64⟩

def Envelope.toJson (e : Envelope) : Value N :=
  .obj (object [("to", text e.recipient), ("from", text e.sender), ("blob_b64", text e.blobB64),
    ("nonce", text e.nonce), ("sig", text e.sig), ("epk", text e.epk)])

def wrapRelayEnvelope (e : Envelope) : Bytes :=
  encode (stringify env.platform.numbers e.toJson)

def resumeSend (s : Signaling.State N Key) (call : Nat) (recipient : Text) (answer : Answer N) :
    SendPc N Key → Option (Moved N Key)
  | .keys data => some ⟨s, [], (startJob env s recipient data).map .preKeys⟩
  | .preKeys job => some ⟨s, [], some (.claiming job (s.peerSignedPreKeys.lookup recipient))⟩
  | .claiming job signedPreKey =>
    some (claimSection env s call recipient job signedPreKey answer)
  | .verifying job claim check => verifySection env s call recipient job claim answer.draws check
  | .signing blob =>
    if env.rendezvous && answer.rdvKey.isNone then some ⟨s, [], none⟩
    else some ⟨s, [.deposited call (envelopeOf env recipient blob answer.nonce answer.sig)], none⟩

/-! ## `_relayFetch` of a mailbox -/

def unwrapRelayEnvelope (bytes : Bytes) : Option (Value N) :=
  match env.platform.parse (env.platform.decode bytes) with
  | none => none
  | some w =>
    match field w "blob_b64" with
    | some (.str _) => some w
    | _ => none

def relayFetch (mailbox : List (Value N × Bytes)) : List (Value N) :=
  mailbox.filterMap fun (id, bytes) =>
    (unwrapRelayEnvelope env bytes).map fun w =>
      .obj (object [("id", some id), ("from", field w "from"), ("blob_b64", field w "blob_b64"),
        ("epk", field w "epk"), ("sig", field w "sig"), ("nonce", field w "nonce")])

/-! ## `_processRelayBlob` -/

inductive PollPc where
  | next
  /-- `verifyPeerSig` of a blob, with what it returns: `none` if no key is held. -/
  | verifying (verdict : Option Bool)
  | opening
  deriving DecidableEq

def verifyPeerSig (s : Signaling.State N Key) (blob : Value N) :
    Signaling.State N Key × Option Bool :=
  match field blob "from", field blob "nonce", field blob "blob_b64", field blob "epk",
      field blob "sig" with
  | some (.str sender), some nonce, some b64, some epk, some sig =>
    (verifyDeposit env.signaling s sender nonce b64 epk sig,
      (s.peerKeys.lookup sender).map fun key =>
        env.verify key (bytesOf env.signaling (canonicalDeposit (text env.peerId) (text sender)
          (some nonce) (some b64) (some epk))) sig)
  | _, _, _, _, _ => (s, none)

def hasPeerKey (s : Signaling.State N Key) : Js N → Bool
  | some (.str peer) => (s.peerKeys.lookup peer).isSome
  | _ => false

def blobText (blob : Value N) : Option Text :=
  match field blob "blob_b64" with
  | some (.str b64) => if b64.length > maxRelayBlobB64 then none else some b64
  | _ => none

def startBlob (s : Signaling.State N Key) (blob : Value N) :
    Signaling.State N Key × Option PollPc :=
  if (blobText blob).isNone || !truthy env (field blob "epk") then (s, none)
  else if truthy env (field blob "sig") && truthy env (field blob "nonce") then
    let (s', verdict) := verifyPeerSig env s blob
    (s', some (.verifying verdict))
  else if hasPeerKey s (field blob "from") then (s, none)
  else (s, some .opening)

def openBlob (store : PreKeyStore) (blob : Value N) : Except Failure (Option (Bytes × Js N)) :=
  match blobText blob with
  | some b64 =>
    decryptBlob env store (field blob "from") (template env.platform (field blob "epk")) b64
  | none => .ok none

end Functions

/-! ## The client -/

inductive Phase where
  | connecting
  | connected
  | relay
  | disconnected
  deriving DecidableEq

structure Send (N Key : Type) where
  recipient : Text
  pc : SendPc N Key

structure Poll (N : Type) where
  blobs : List (Value N)
  ackIds : List (Value N)
  pc : PollPc

structure State (N Key : Type) where
  signaling : Signaling.State N Key
  preKeys : PreKeyStore
  peers : FinMap Text Phase
  sends : FinMap Nat (Send N Key)
  polls : FinMap Nat (Poll N)
  nextCall : Nat
  history : List (Event N)

def State.joined (preKeys : PreKeyStore) : State N Key := ⟨.new, preKeys, ∅, ∅, ∅, 0, []⟩

def State.record (s : State N Key) (event : Event N) : State N Key :=
  { s with history := event :: s.history }

section Steps

variable (env : Env N Key)

def State.adopt (s : State N Key) (sender : Js N) : State N Key :=
  match sender with
  | some (.str peer) =>
    match s.peers.lookup peer with
    | some .connecting | some .disconnected => { s with peers := s.peers.insert peer .relay }
    | _ => s
  | _ => s

def State.deliver (s : State N Key) (sender : Js N) (plaintext : Bytes) (opkId : Js N) :
    State N Key :=
  let used := { s with preKeys := s.preKeys.consumeOneTimePreKey opkId }.record (.opened opkId)
  match readPayload env plaintext with
  | none => used
  | some data => (used.adopt sender).record (.message sender (.json data))

def ackId (plaintext : Bytes) (blob : Value N) : Option (Value N) :=
  match readPayload env plaintext, field blob "id" with
  | some _, some id => if truthy env (some id) then some id else none
  | _, _ => none

def State.finishBlob (s : State N Key) (n : Nat) (blob : Value N) (rest ackIds : List (Value N)) :
    State N Key :=
  match openBlob env s.preKeys blob with
  | .ok (some (plaintext, opkId)) =>
    let s' := s.deliver env (field blob "from") plaintext opkId
    { s' with polls := s'.polls.insert n
                ⟨rest, ackIds ++ (ackId env plaintext blob).toList, .next⟩ }
  | _ => { s with polls := s.polls.insert n ⟨rest, ackIds, .next⟩ }

def State.beginBlob (s : State N Key) (n : Nat) (blob : Value N) (rest ackIds : List (Value N)) :
    State N Key :=
  match startBlob env s.signaling blob with
  | (signaling, some pc) =>
    { s with signaling := signaling, polls := s.polls.insert n ⟨blob :: rest, ackIds, pc⟩ }
  | (signaling, none) =>
    { s with signaling := signaling, polls := s.polls.insert n ⟨rest, ackIds, .next⟩ }

def State.endPoll (s : State N Key) (n : Nat) (ackIds : List (Value N)) : State N Key :=
  let ended := { s with polls := s.polls.erase n }
  if ackIds = [] then ended else ended.record (.acked ackIds)

def State.resumePoll (s : State N Key) (n : Nat) : Poll N → State N Key
  | ⟨[], ackIds, _⟩ => s.endPoll n ackIds
  | ⟨blob :: rest, ackIds, .next⟩ => s.beginBlob env n blob rest ackIds
  | ⟨blob :: rest, ackIds, .verifying verdict⟩ =>
    if verdict = some false then { s with polls := s.polls.insert n ⟨rest, ackIds, .next⟩ }
    else { s with polls := s.polls.insert n ⟨blob :: rest, ackIds, .opening⟩ }
  | ⟨blob :: rest, ackIds, .opening⟩ => s.finishBlob env n blob rest ackIds

def State.moveSend (s : State N Key) (n : Nat) (recipient : Text) (moved : Moved N Key) :
    State N Key :=
  { s with
    signaling := moved.signaling
    sends := match moved.pc with
      | some pc => s.sends.insert n ⟨recipient, pc⟩
      | none => s.sends.erase n
    history := moved.events ++ s.history }

inductive Action (N : Type) where
  | deliver (sender : Text) (p : Value N) (now : Int)
  | resumeSignal (n : Nat) (now : Int)
  /-- The state of a peer changes, or the peer is forgotten. -/
  | setPeer (peer : Text) (phase : Option Phase)
  | sendTo (peer : Text) (data : Datum N) (channelOpen : Bool)
  | resumeSend (n : Nat) (answer : Answer N)
  | poll (blobs : List (Value N))
  | resumePoll (n : Nat)
  | receive (peer : Text) (data : Datum N)

def State.sendToPeer (s : State N Key) (peer : Text) (data : Datum N) (channelOpen : Bool) :
    State N Key :=
  match s.peers.lookup peer with
  | some .connected => if channelOpen then s.record (.channelSent peer data) else s
  | some .relay =>
    { s with sends := s.sends.insert s.nextCall ⟨peer, .keys data⟩, nextCall := s.nextCall + 1 }
  | _ => s

def isClaim (s : Signaling.State N Key) (n : Nat) : Bool :=
  match s.threads.lookup n with
  | some ⟨_, _, .claimVerify _⟩ => true
  | _ => false

def step (s : State N Key) : Action N → Option (State N Key)
  | .deliver sender p now =>
    (Signaling.step env.signaling s.signaling (.deliver sender p now)).map fun signaling =>
      { s with signaling := signaling }
  | .resumeSignal n now =>
    if isClaim s.signaling n then none
    else
      (Signaling.step env.signaling s.signaling (.resume n now)).map fun signaling =>
        { s with signaling := signaling }
  | .setPeer peer (some phase) => some { s with peers := s.peers.insert peer phase }
  | .setPeer peer none => some { s with peers := s.peers.erase peer }
  | .sendTo peer data channelOpen => some (s.sendToPeer peer data channelOpen)
  | .resumeSend n answer => do
      let send ← s.sends.lookup n
      let moved ← resumeSend env s.signaling n send.recipient answer send.pc
      return s.moveSend n send.recipient moved
  | .poll blobs =>
    some { s with polls := s.polls.insert s.nextCall ⟨blobs, [], .next⟩
                  nextCall := s.nextCall + 1 }
  | .resumePoll n => (s.polls.lookup n).map (s.resumePoll env n)
  | .receive peer data =>
    if byteSize env data > maxPayloadBytes then some s
    else some (s.record (.message (text peer) data))

def fabric : System (State N Key) (Action N) where
  init := fun s => ∃ idBytes priv sigB64 draws preKeys,
    PreKeyStore.create idBytes priv sigB64 oneTimePreKeyPool draws = some preKeys
    ∧ s = .joined preKeys
  step := step env

end Steps

end VulosRelay.Client.Fabric
