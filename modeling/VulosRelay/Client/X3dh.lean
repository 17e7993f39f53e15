import VulosRelay.Client.RelayBox

/-!
# Forward-secret content keys

The model of `client/src/prekeys.js`: the X3DH handshake that gives a relay blob its key,
and the store of a peer's prekeys. A store keeps one signed prekey and a pool of one-time
prekeys; it cannot be built with an id that `newKeyID` does not make, or with two one-time
prekeys under one id. A private key has 32 bytes by its type, so the length check on one
has no counterpart here.
-/

namespace VulosRelay.Client.X3dh

open JsText Json Signaling RelayBox List

def hkdfInfo : Bytes := encode (literal "vula-x3dh-content-v2")

def urlUnit (c : UInt16) : UInt16 := if c = 0x2B then 0x2D else if c = 0x2F then 0x5F else c

def withoutPad (t : Text) : Text := (t.reverse.dropWhile (· = 0x3D)).reverse

def newKeyID (b : Sized 12) : Text := withoutPad ((bytesToB64 b.val).map urlUnit)

section Keys

variable {N : Type} (p : Platform N)

def greater : Js N → Js N → Bool
  | some (.str s), some (.str t) => t < s
  | a, b => p.exceeds a b

def salt (idA idB : Js N) : Bytes :=
  let (lo, hi) := if greater p idA idB then (idB, idA) else (idA, idB)
  encode (template p lo ++ literal ":" ++ template p hi)

def x3dhKDF (dhConcat : Bytes) (idA idB : Js N) : Sized 32 :=
  p.hkdf (List.replicate 32 0xff ++ dhConcat) (some (salt p idA idB)) hkdfInfo

def agree (priv : Sized 32) (pub : Bytes) : Except Failure Bytes :=
  ofOption (p.getSharedSecret priv pub)

def initiateDh4 (ek : Sized 32) : Option Bytes → Except Failure Bytes
  | some pub => if pub.length = 32 then agree p ek pub else .ok []
  | none => .ok []

def x3dhInitiate (identityPriv : Sized 32) (recipientIdentityPub signedPreKeyPub : Bytes)
    (oneTimePreKeyPub : Option Bytes) (senderId recipientId : Js N) (ek : Sized 32) :
    Except Failure (Bytes × Sized 32) := do
  let dh1 ← agree p identityPriv signedPreKeyPub
  let dh2 ← agree p ek recipientIdentityPub
  let dh3 ← agree p ek signedPreKeyPub
  let dh4 ← initiateDh4 p ek oneTimePreKeyPub
  return (p.getPublicKey ek, x3dhKDF p (dh1 ++ dh2 ++ dh3 ++ dh4) senderId recipientId)

def respondDh4 (ephemeralPub : Bytes) : Option (Sized 32) → Except Failure Bytes
  | some priv => agree p priv ephemeralPub
  | none => .ok []

def x3dhRespond (identityPriv : Sized 32) (senderIdentityPub : Bytes)
    (signedPreKeyPriv : Sized 32) (oneTimePreKeyPriv : Option (Sized 32))
    (ephemeralPub : Bytes) (senderId recipientId : Js N) : Except Failure (Sized 32) :=
  if ephemeralPub.length ≠ 32 then fail "prekeys: bad ephemeral key"
  else do
    let dh1 ← agree p signedPreKeyPriv senderIdentityPub
    let dh2 ← agree p identityPriv ephemeralPub
    let dh3 ← agree p signedPreKeyPriv ephemeralPub
    let dh4 ← respondDh4 p ephemeralPub oneTimePreKeyPriv
    return x3dhKDF p (dh1 ++ dh2 ++ dh3 ++ dh4) senderId recipientId

end Keys

structure SignedPair where
  id : Text
  priv : Sized 32
  sigB64 : Text

def generateSignedPreKey (idBytes : Sized 12) (priv : Sized 32) (sigB64 : Text) : SignedPair :=
  ⟨newKeyID idBytes, priv, sigB64⟩

def IsKeyId (id : Text) : Prop := ∃ b : Sized 12, id = newKeyID b

structure PreKeyStore where
  signed : SignedPair
  opks : List (Text × Sized 32)
  nodup : (opks.map Prod.fst).Nodup
  signedId : IsKeyId signed.id
  opkIds : ∀ opk ∈ opks, IsKeyId opk.1

def setOpk (id : Text) (priv : Sized 32) : List (Text × Sized 32) → List (Text × Sized 32)
  | [] => [(id, priv)]
  | opk :: rest => if opk.1 = id then (id, priv) :: rest else opk :: setOpk id priv rest

theorem mem_setOpk {id : Text} {priv : Sized 32} {opks : List (Text × Sized 32)}
    {opk : Text × Sized 32} (h : opk ∈ setOpk id priv opks) : opk = (id, priv) ∨ opk ∈ opks := by
  induction opks with
  | nil => exact .inl (mem_singleton.mp h)
  | cons first rest ih =>
    rw [setOpk] at h
    split at h
    · rcases mem_cons.mp h with h | h
      · exact .inl h
      · exact .inr (.tail _ h)
    rcases mem_cons.mp h with rfl | h
    · exact .inr (.head _)
    · exact (ih h).imp_right (mem_cons_of_mem _)

theorem nodup_setOpk {id : Text} {priv : Sized 32} {opks : List (Text × Sized 32)}
    (h : (opks.map Prod.fst).Nodup) : ((setOpk id priv opks).map Prod.fst).Nodup := by
  induction opks with
  | nil => exact nodup_singleton id
  | cons first rest ih =>
    rw [map_cons, nodup_cons] at h
    rw [setOpk]
    split
    · rename_i heq
      rw [map_cons, nodup_cons, ← heq]
      exact h
    rename_i hne
    rw [map_cons, nodup_cons]
    refine ⟨fun hmem => ?_, ih h.2⟩
    obtain ⟨opk, hopk, heq⟩ := mem_map.mp hmem
    rcases mem_setOpk hopk with rfl | hopk
    · exact hne heq.symm
    · exact h.1 (heq ▸ mem_map_of_mem hopk)

def PreKeyStore.addOpk (store : PreKeyStore) (idBytes : Sized 12) (priv : Sized 32) :
    PreKeyStore where
  signed := store.signed
  opks := setOpk (newKeyID idBytes) priv store.opks
  nodup := nodup_setOpk store.nodup
  signedId := store.signedId
  opkIds := fun opk hopk => by
    rcases mem_setOpk hopk with rfl | hopk
    · exact ⟨idBytes, rfl⟩
    · exact store.opkIds opk hopk

def PreKeyStore.replenish (target : Nat) :
    PreKeyStore → List (Sized 12 × Sized 32) → Option PreKeyStore
  | store, [] => if store.opks.length < target then none else some store
  | store, (idBytes, priv) :: draws =>
    if store.opks.length < target then (store.addOpk idBytes priv).replenish target draws
    else some store

def PreKeyStore.new (idBytes : Sized 12) (priv : Sized 32) (sigB64 : Text) : PreKeyStore where
  signed := generateSignedPreKey idBytes priv sigB64
  opks := []
  nodup := List.nodup_nil
  signedId := ⟨idBytes, rfl⟩
  opkIds := fun _ hopk => absurd hopk List.not_mem_nil

def PreKeyStore.create (idBytes : Sized 12) (priv : Sized 32) (sigB64 : Text)
    (oneTimeCount : Nat) (draws : List (Sized 12 × Sized 32)) : Option PreKeyStore :=
  (PreKeyStore.new idBytes priv sigB64).replenish oneTimeCount draws

structure OneTimePreKey where
  id : Text
  pub : Text
  deriving DecidableEq

structure Bundle (N : Type) where
  identityVulaId : Text
  signedPreKey : SignedPreKey N
  oneTimePreKeys : List OneTimePreKey

section Store

variable {N : Type} (p : Platform N)

def PreKeyStore.publicBundle (store : PreKeyStore) (identityVulaId : Text) : Bundle N where
  identityVulaId := identityVulaId
  signedPreKey :=
    ⟨text store.signed.id, bytesToB64 (p.getPublicKey store.signed.priv), store.signed.sigB64⟩
  oneTimePreKeys := store.opks.map fun opk => ⟨opk.1, bytesToB64 (p.getPublicKey opk.2)⟩

end Store

def PreKeyStore.signedPreKeyPriv (store : PreKeyStore) (id : Text) : Option (Sized 32) :=
  if id = store.signed.id then some store.signed.priv else none

def PreKeyStore.oneTimePreKeyPriv {N : Type} (store : PreKeyStore) : Js N → Option (Sized 32)
  | some (.str id) => store.opks.lookup id
  | _ => none

def PreKeyStore.withoutOpk (store : PreKeyStore) (id : Text) : PreKeyStore where
  signed := store.signed
  opks := store.opks.filter fun opk => opk.1 ≠ id
  nodup := store.nodup.sublist (List.filter_sublist.map _)
  signedId := store.signedId
  opkIds := fun opk hopk => store.opkIds opk (List.mem_of_mem_filter hopk)

def PreKeyStore.consumeOneTimePreKey {N : Type} (store : PreKeyStore) : Js N → PreKeyStore
  | some (.str id) => store.withoutOpk id
  | _ => store

end VulosRelay.Client.X3dh
