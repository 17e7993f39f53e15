import VulosRelay.Lib.FinMap
import VulosRelay.Lib.Json
import VulosRelay.Lib.System

/-!
# The signaling client

The model of `SignalingClient` (`client/src/signaling.js`): the registries of peer keys and
the handling of inbound frames. Each call of `_processSignal` is a thread that runs up to
its next `await`: the import of a key or the check of a signature. Between two such points
nothing else runs; at each of them any other call may.

The platform is a parameter: how keys are imported and signatures checked, base64, and the
text of numbers. Every reading of the clock is an arbitrary number of milliseconds. Peer
ids are strings; a payload is any JSON value.

The history lists, latest first, the keys stored, the checks begun, the signatures accepted
and the frames dispatched.
-/

namespace VulosRelay.Client.Signaling

open JsText Json

variable {N Key : Type}

def object : List (String × Option (Value N)) → Members N
  | [] => .nil
  | (key, some v) :: rest => .cons (literal key) v (object rest)
  | (_, none) :: rest => object rest

def orNull (v : Option (Value N)) : Option (Value N) := some (v.getD .null)

def canonical (type session addressee sender nonce ts sdp candidate pubKey : Option (Value N)) :
    Value N :=
  .obj (object [("type", type), ("session", session), ("to", orNull addressee),
    ("from", sender), ("nonce", nonce), ("ts", ts), ("sdp", sdp), ("candidate", candidate),
    ("pubKey", pubKey)])

def canonicalJoin (session sender depositPubKey boxPubKey : Option (Value N)) (supportsV2 : Bool)
    (nonce ts : Option (Value N)) : Value N :=
  .obj (object [("type", some (.str (literal "join"))), ("session", session), ("from", sender),
    ("depositPubKey", orNull depositPubKey), ("boxPubKey", orNull boxPubKey),
    ("supportsV2", some (.bool supportsV2)), ("nonce", nonce), ("ts", ts)])

def canonicalDeposit (addressee sender nonce blob epk : Option (Value N)) : Value N :=
  .obj (object [("to", addressee), ("from", sender), ("nonce", nonce), ("blob_b64", blob),
    ("epk", epk)])

structure Env (N Key : Type) where
  session : Text
  peerId : Text
  requirePeerAuth : Bool
  numbers : Numbers N
  importKey : Value N → Option Key
  /-- `_verifyRaw`: the signature is a base64 string, and any failure counts as `false`. -/
  verify : Key → List UInt8 → Value N → Bool
  atob : Text → Option (List UInt8)
  display : Value N → Text

structure SignedPreKey (N : Type) where
  id : Option (Value N)
  pub : Text
  sig : Text
  deriving DecidableEq

structure PreKeyCheck (N Key : Type) where
  key : Key
  preKey : SignedPreKey N
  bytes : List UInt8

inductive Pc (N Key : Type) where
  | joinImport
  | preKeyVerify (check : PreKeyCheck N Key)
  | joinVerify (key : Key)
  | frameImport
  | frameVerify (key : Key)
  | claimVerify (check : PreKeyCheck N Key)

structure Thread (N Key : Type) where
  sender : Text
  p : Value N
  pc : Pc N Key

inductive Kind where
  | frame
  | join
  | deposit
  | preKey
  deriving DecidableEq

inductive Event (N Key : Type) where
  | stored (peer : Text) (key : Key)
  | checked (peer : Text) (key : Key)
  /-- A signature of a peer over some bytes was accepted as one of a kind of message. -/
  | accepted (peer : Text) (kind : Kind) (bytes : List UInt8)
  /-- A peer was pinned v2-capable because a prekey verified. -/
  | pinned (peer : Text) (pub : Text)
  | dispatched (sender : Text) (p : Value N) (now : Int)
  deriving DecidableEq

structure State (N Key : Type) where
  peerKeys : FinMap Text Key
  peerBoxKeys : FinMap Text (Value N)
  peerSignedPreKeys : FinMap Text (SignedPreKey N)
  peerV2Capable : FinMap Text Unit
  seenNonces : List Text
  threads : FinMap Nat (Thread N Key)
  next : Nat
  history : List (Event N Key)

def State.new : State N Key := ⟨∅, ∅, ∅, ∅, [], ∅, 0, []⟩

def State.record (s : State N Key) (event : Event N Key) : State N Key :=
  { s with history := event :: s.history }

def State.storeKey (s : State N Key) (peer : Text) (key : Key) : State N Key :=
  { s with peerKeys := s.peerKeys.insert peer key, history := .stored peer key :: s.history }

def State.pin (s : State N Key) (peer : Text) : State N Key :=
  { s with peerV2Capable := s.peerV2Capable.insert peer () }

def nonceCacheMax : Nat := 1000

def State.remember (s : State N Key) (nonce : Text) : State N Key :=
  { s with seenNonces :=
      (if s.seenNonces.length ≥ nonceCacheMax then s.seenNonces.tail else s.seenNonces) ++ [nonce] }

def field (p : Value N) (name : String) : Option (Value N) := p.get (literal name)

def isText (s : Text) : Option (Value N) → Bool
  | some (.str t) => t = s
  | _ => false

def isTrue : Option (Value N) → Bool
  | some (.bool b) => b
  | _ => false

def isType (p : Value N) (type : String) : Bool := isText (literal type) (field p "type")

def isFrame (p : Value N) : Bool := isType p "offer" || isType p "answer" || isType p "ice"

def isString : Option (Value N) → Bool
  | some (.str _) => true
  | _ => false

def isNumber : Option (Value N) → Bool
  | some (.num _) => true
  | some (.infinite _) => true
  | _ => false

def frameMessage (sender : Text) (p : Value N) : Value N :=
  canonical (field p "type") (field p "session") (field p "to") (some (.str sender))
    (field p "nonce") (field p "ts") (field p "sdp") (field p "candidate") (field p "pubKey")

def joinMessage (sender : Text) (p : Value N) : Value N :=
  canonicalJoin (field p "session") (some (.str sender)) (field p "depositPubKey")
    (field p "boxPubKey") true (field p "nonce") (field p "ts")

section Process

variable (env : Env N Key)

def truthy (v : Option (Value N)) : Bool := v.any (·.truthy env.numbers)

def bytesOf (v : Value N) : List UInt8 := encode (stringify env.numbers v)

def verifySig (key : Key) (message : Value N) (p : Value N) : Bool :=
  (field p "sig").any (env.verify key (bytesOf env message))

def fresh (ts : Option (Value N)) (now : Int) : Bool :=
  match ts with
  | some (.num n) =>
    !(env.numbers.value n > (now + 5000 : Int) || (now : Int) - env.numbers.value n > 30000)
  | _ => false

def passes (p : Value N) : Bool :=
  p.truthy env.numbers
    && !(truthy env (field p "session") && !isText env.session (field p "session"))
    && !(truthy env (field p "to") && !isText env.peerId (field p "to"))

def checkFrame (s : State N Key) (sender : Text) (p : Value N) (now : Int) :
    Option Key → State N Key × Option (Pc N Key)
  | some key =>
    if truthy env (field p "sig") && truthy env (field p "nonce") && isNumber (field p "ts") then
      (s.record (.checked sender key), some (.frameVerify key))
    else (s, none)
  | none =>
    if env.requirePeerAuth then (s, none) else (s.record (.dispatched sender p now), none)

def frameSection (s : State N Key) (sender : Text) (p : Value N) (now : Int) :
    State N Key × Option (Pc N Key) :=
  if isFrame p then
    match s.peerKeys.lookup sender with
    | some key => checkFrame env s sender p now (some key)
    | none =>
      if truthy env (field p "pubKey") then (s, some .frameImport)
      else checkFrame env s sender p now none
  else (s.record (.dispatched sender p now), none)

def joinKey (s : State N Key) (sender : Text) (p : Value N) : Option Key :=
  if isType p "join" && truthy env (field p "sig") && isTrue (field p "supportsV2")
      && isString (field p "nonce") && isNumber (field p "ts") then
    s.peerKeys.lookup sender
  else none

def joinSection (s : State N Key) (sender : Text) (p : Value N) (now : Int) :
    State N Key × Option (Pc N Key) :=
  match joinKey env s sender p with
  | some key => (s.record (.checked sender key), some (.joinVerify key))
  | none => frameSection env s sender p now

def preKeyOf (s : State N Key) (peer : Text) (spk : Value N) : Option (PreKeyCheck N Key) :=
  match s.peerKeys.lookup peer, field spk "pub", field spk "sig" with
  | some key, some (.str pub), some (.str sig) =>
    (env.atob pub).map fun bytes => ⟨key, ⟨field spk "id", pub, sig⟩, bytes⟩
  | _, _, _ => none

def preKeyCheck (s : State N Key) (sender : Text) (p : Value N) : Option (PreKeyCheck N Key) :=
  if isType p "join" && truthy env (field p "signedPreKey")
      && (s.peerSignedPreKeys.lookup sender).isNone then
    (field p "signedPreKey").bind (preKeyOf env s sender)
  else none

def preKeySection (s : State N Key) (sender : Text) (p : Value N) (now : Int) :
    State N Key × Option (Pc N Key) :=
  match preKeyCheck env s sender p with
  | some check => (s.record (.checked sender check.key), some (.preKeyVerify check))
  | none => joinSection env s sender p now

def keepBoxKey (s : State N Key) (sender : Text) (p : Value N) : State N Key :=
  if isType p "join" && truthy env (field p "boxPubKey")
      && (s.peerBoxKeys.lookup sender).isNone then
    match field p "boxPubKey" with
    | some box => { s with peerBoxKeys := s.peerBoxKeys.insert sender box }
    | none => s
  else s

def boxSection (s : State N Key) (sender : Text) (p : Value N) (now : Int) :
    State N Key × Option (Pc N Key) :=
  preKeySection env (keepBoxKey env s sender p) sender p now

def start (s : State N Key) (sender : Text) (p : Value N) (now : Int) :
    State N Key × Option (Pc N Key) :=
  if passes env p then
    if isType p "join" && truthy env (field p "depositPubKey")
        && (s.peerKeys.lookup sender).isNone then (s, some .joinImport)
    else boxSection env s sender p now
  else (s, none)

def storePreKey (s : State N Key) (sender : Text) (check : PreKeyCheck N Key) : State N Key :=
  (({ s with peerSignedPreKeys := s.peerSignedPreKeys.insert sender check.preKey }.pin
    sender).record (.accepted sender .preKey check.bytes)).record (.pinned sender check.preKey.pub)

def nonceKeyOf (sender : Text) (p : Value N) : Text :=
  sender ++ literal ":" ++ ((field p "nonce").map env.display).getD (literal "undefined")

def settleJoin (s : State N Key) (sender : Text) (p : Value N) (now : Int) (key : Key) :
    State N Key :=
  let nonceKey := literal "join:" ++ nonceKeyOf env sender p
  if verifySig env key (joinMessage sender p) p then
    let accepted := s.record (.accepted sender .join (bytesOf env (joinMessage sender p)))
    if fresh env (field p "ts") now && !s.seenNonces.contains nonceKey then
      (accepted.remember nonceKey).pin sender
    else accepted
  else s

def settleFrame (s : State N Key) (sender : Text) (p : Value N) (now : Int) (key : Key) :
    State N Key :=
  let nonceKey := nonceKeyOf env sender p
  if verifySig env key (frameMessage sender p) p then
    let accepted := s.record (.accepted sender .frame (bytesOf env (frameMessage sender p)))
    if fresh env (field p "ts") now && !s.seenNonces.contains nonceKey then
      (accepted.remember nonceKey).record (.dispatched sender p now)
    else accepted
  else s

def settleClaim (s : State N Key) (peer : Text) (check : PreKeyCheck N Key) : State N Key :=
  if env.verify check.key check.bytes (.str check.preKey.sig) then
    ((s.pin peer).record (.accepted peer .preKey check.bytes)).record
      (.pinned peer check.preKey.pub)
  else s

def resume (s : State N Key) (sender : Text) (p : Value N) (now : Int) :
    Pc N Key → State N Key × Option (Pc N Key)
  | .joinImport =>
    match (field p "depositPubKey").bind env.importKey with
    | some key => boxSection env (s.storeKey sender key) sender p now
    | none => boxSection env s sender p now
  | .preKeyVerify check =>
    if env.verify check.key check.bytes (.str check.preKey.sig) then
      joinSection env (storePreKey s sender check) sender p now
    else joinSection env s sender p now
  | .joinVerify key => frameSection env (settleJoin env s sender p now key) sender p now
  | .frameImport =>
    match (field p "pubKey").bind env.importKey with
    | some key => checkFrame env (s.storeKey sender key) sender p now (some key)
    | none => checkFrame env s sender p now none
  | .frameVerify key => (settleFrame env s sender p now key, none)
  | .claimVerify check => (settleClaim env s sender check, none)

def startClaim (s : State N Key) (peer : Text) (spk : Value N) : State N Key × Option (Pc N Key) :=
  match preKeyOf env s peer spk with
  | some check =>
    if check.bytes.length = 32 then
      (s.record (.checked peer check.key), some (.claimVerify check))
    else (s, none)
  | none => (s, none)

def verifyDeposit (s : State N Key) (peer : Text) (nonce blob epk sig : Value N) : State N Key :=
  let message := canonicalDeposit (some (.str env.peerId)) (some (.str peer)) (some nonce)
    (some blob) (some epk)
  match s.peerKeys.lookup peer with
  | none => s
  | some key =>
    let checked := s.record (.checked peer key)
    if env.verify key (bytesOf env message) sig then
      checked.record (.accepted peer .deposit (bytesOf env message))
    else checked

def State.park (s : State N Key) (n : Nat) (sender : Text) (p : Value N) :
    Option (Pc N Key) → State N Key
  | some pc => { s with threads := s.threads.insert n ⟨sender, p, pc⟩ }
  | none => { s with threads := s.threads.erase n }

inductive Action (N : Type) where
  | deliver (sender : Text) (p : Value N) (now : Int)
  | resume (n : Nat) (now : Int)
  | claim (peer : Text) (spk : Value N)
  | deposit (peer : Text) (nonce blob epk sig : Value N)

def step (s : State N Key) : Action N → Option (State N Key)
  | .deliver sender p now =>
    let (s', pc) := start env { s with next := s.next + 1 } sender p now
    some (s'.park s.next sender p pc)
  | .resume n now =>
    (s.threads.lookup n).map fun t =>
      let (s', pc) := resume env s t.sender t.p now t.pc
      s'.park n t.sender t.p pc
  | .claim peer spk =>
    let (s', pc) := startClaim env { s with next := s.next + 1 } peer spk
    some (s'.park s.next peer .null pc)
  | .deposit peer nonce blob epk sig => some (verifyDeposit env s peer nonce blob epk sig)

def client : System (State N Key) (Action N) where
  init := fun s => s = .new
  step := step env

end Process

end VulosRelay.Client.Signaling
