import VulosRelay.Pubcache.Cbor
import VulosRelay.Pubcache.Merkle

/-!
# The verification gate

The model of `tunnel/pubcache/verify.go`. Announces and chunks are addressed by
the hash of their bytes. A manifest is addressed by the Merkle root over one of
its fields, so its verifier parses the body first.
-/

namespace VulosRelay.Pubcache

def manifestKeyID : Nat := 1
def manifestKeySize : Nat := 2
def manifestKeyChunkSz : Nat := 3
def manifestKeyChunks : Nat := 4
def manifestKeyForbidden : Nat := 5
def manifestKeySuite : Nat := 6

def manifestKeyExtensionFloor : Nat := 64

def requireUintField (val : Bytes) (what : String) (bits : Nat) : Except GoError Nat :=
  (readHead val).bind fun h =>
    if h.major ≠ cborMajorUint then
      .error (malformed
        s!"PubManifest.{what} must be an unsigned integer, got cbor major type {h.major.toNat}")
    else if h.n ≠ val.length then
      .error (malformed s!"PubManifest.{what} has trailing bytes")
    else if bits < 64 ∧ h.arg ≥ 2 ^ bits then
      .error (malformed s!"PubManifest.{what} exceeds u{bits} range: {h.arg}")
    else .ok h.arg

structure ManifestFields where
  selfID : Option Addr
  chunks : Option (List Addr)
  haveSize : Bool
  haveCsz : Bool
  haveSuite : Bool

def ManifestFields.empty : ManifestFields := ⟨none, none, false, false, false⟩

def ManifestFields.read (f : ManifestFields) (e : CborEntry) : Except GoError ManifestFields :=
  if e.key = manifestKeyForbidden then .error ⟨.manifestKeyPresent, ""⟩
  else if e.key = manifestKeyID then
    (readHead e.val).bind fun h =>
      if hok : h.major = cborMajorByteStr ∧ h.arg = addrLen ∧ (e.val.drop h.n).length = addrLen then
        .ok { f with selfID := some (.ofBytes (e.val.drop h.n) hok.2.2) }
      else .error (malformed s!"PubManifest.id is not a {addrLen}-byte address")
  else if e.key = manifestKeyChunks then
    (parseAddrArray e.val).bind fun chunks => .ok { f with chunks := some chunks }
  else if e.key = manifestKeySize then
    (requireUintField e.val "size" 64).bind fun _ => .ok { f with haveSize := true }
  else if e.key = manifestKeyChunkSz then
    (requireUintField e.val "chunk_sz" 32).bind fun _ => .ok { f with haveCsz := true }
  else if e.key = manifestKeySuite then .ok { f with haveSuite := true }
  else if e.key < manifestKeyExtensionFloor then
    .error (malformed s!"unknown PubManifest key {e.key}")
  else .ok f

def readFields : ManifestFields → List CborEntry → Except GoError ManifestFields
  | f, [] => .ok f
  | f, e :: rest => (f.read e).bind fun f' => readFields f' rest

def parseManifest (body : Bytes) : Except GoError (Addr × List Addr) :=
  (parseUintKeyedMap body).bind fun entries =>
    (readFields .empty entries).bind fun f =>
      match f.selfID, f.chunks with
      | some selfID, some chunks =>
        if f.haveSize ∧ f.haveCsz ∧ f.haveSuite then .ok (selfID, chunks)
        else .error (malformed "PubManifest missing a required field")
      | _, _ => .error (malformed "PubManifest missing a required field")

def verifiedManifestChunks (blake3 : Bytes → Digest) (want : Addr) (body : Bytes) :
    Except GoError (List Addr) :=
  (parseManifest body).bind fun m =>
    match manifestRoot blake3 m.2 with
    -- the root of an empty list would panic; `parseAddrArray` has refused it
    | none => .error (malformed "")
    | some root =>
      if root ≠ want then
        .error ⟨.addrMismatch,
          s!"manifest chunk list roots to {root.string}, requested as {want.string}"⟩
      else if m.1 ≠ want then
        .error ⟨.addrMismatch,
          s!"PubManifest.id {m.1.string} disagrees with fetch address {want.string}"⟩
      else .ok m.2

def verify (blake3 : Bytes → Digest) (kind : Kind) (want : Addr) (body : Bytes) :
    Except GoError Unit :=
  match kind with
  | .announce | .chunk =>
    if hashBytes blake3 body ≠ want then
      .error ⟨.addrMismatch, s!"{kind.string} hashes to {(hashBytes blake3 body).string}, "
        ++ s!"requested as {want.string}"⟩
    else .ok ()
  | .manifest => (verifiedManifestChunks blake3 want body).bind fun _ => .ok ()

end VulosRelay.Pubcache
