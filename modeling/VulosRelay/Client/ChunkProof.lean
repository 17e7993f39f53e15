import VulosRelay.Lib.JsNumber
import VulosRelay.Pubcache.Addr

/-!
# The browser's chunk proofs

The model of `client/src/chunkProof.js`. Numbers follow the language: integer
values are exact `Int`s, every sum that could leave the doubles is rounded, and
the bitwise operators work on 32 bits. Positions in a byte array are plain
naturals, since an array is never long enough for that to matter.

A thrown `ChunkProofError` is the error of an `Except`. Its constructors are the
message templates of the source with the values they print.
-/

namespace VulosRelay.Client

open JsNumber
open VulosRelay.Pubcache (Bytes Digest Addr)

def hashPrefixBLAKE3 : UInt8 := 0x1e

def digestLen : Nat := 32

def addrLen : Nat := 1 + digestLen

def maxProofPath : Int := 40

def dsManifest : Bytes :=
  ("DMTAP-PUB-v0/manifest".toList.map fun c => UInt8.ofNat c.toNat) ++ [0x00]

def cborMajorUint : Int := 0
def cborMajorByteStr : Int := 2
def cborMajorArray : Int := 4

inductive ChunkProofError where
  | malformed (text : String)
  /-- `proof path of ${count} exceeds the 40-level bound`, malformed. -/
  | pathTooDeep (count : Int)
  | trailingBytes (n : Nat)
  | emptyTree
  | chunkRange (index nChunks : Number)
  | pathTooLong (length : Nat)
  | pathElement
  | pathTooShort (used : Nat)
  | pathUnused (n : Nat)
  | foldsTo (got root : Addr)
  /-- `proof is for chunk ${proofIndex}, requested chunk ${index}`. -/
  | otherChunk (proofIndex : Int) (index : Number)
  deriving DecidableEq

inductive AddrInput where
  | text (s : String)
  | bytes (b : Bytes)

def utf16Length (s : String) : Nat := (s.toList.map fun c => if c.toNat < 0x10000 then 1 else 2).sum

def hexOf (b : UInt8) : String := String.ofList (Nat.toDigits 16 b.toNat)

def parseAddr (s : String) : Except ChunkProofError Addr :=
  if s = "" ∨ utf16Length s > 64 then .error (.malformed "malformed content address")
  else if ¬ s.toList.all (fun c => Base64.alphabet.contains c) then
    .error (.malformed "malformed content address: not base64url")
  else
    match Base64.decode s.toList with
    | none => .error (.malformed "malformed content address: not base64url")
    | some out =>
      if h : out.length = addrLen then
        let a : Addr := ⟨out, h⟩
        if a.head ≠ hashPrefixBLAKE3 then
          .error (.malformed
            s!"malformed content address: unsupported hash prefix 0x{hexOf a.head}")
        else if a.string ≠ s then
          .error (.malformed "malformed content address: non-canonical encoding")
        else .ok a
      else .error (.malformed s!"malformed content address: got {out.length} bytes, want {addrLen}")

def toAddr : AddrInput → Except ChunkProofError Addr
  | .text s => parseAddr s
  | .bytes b =>
    if h : b.length = addrLen then
      let a : Addr := ⟨b, h⟩
      if a.head ≠ hashPrefixBLAKE3 then
        .error (.malformed s!"address has unsupported hash prefix 0x{hexOf a.head}")
      else .ok a
    else .error (.malformed s!"address must be {addrLen} bytes, got {b.length}")

def hashBytes (blake3 : Bytes → Digest) (b : Bytes) : Addr := hashPrefixBLAKE3 ::ᵥ blake3 b

def merkleLeaf (blake3 : Bytes → Digest) (addr : Addr) : Digest :=
  blake3 (dsManifest ++ [0x00] ++ addr.toList)

def merkleNode (blake3 : Bytes → Digest) (left right : Digest) : Digest :=
  blake3 (dsManifest ++ [0x01] ++ left.toList ++ right.toList)

section
variable (leaf : Addr → Digest) (node : Digest → Digest → Digest)

def reduceLevel : List Digest → List Digest
  | a :: b :: rest => node a b :: reduceLevel rest
  | [a] => [a]
  | [] => []

def reduceLevels : Nat → List Digest → List Digest
  | 0, level => level
  | fuel + 1, level =>
    if level.length > 1 then reduceLevels fuel (reduceLevel node level) else level

def manifestRootWith (chunks : List AddrInput) : Except ChunkProofError Addr :=
  if chunks = [] then .error (.malformed "empty chunk list")
  else
    (chunks.mapM toAddr).bind fun addrs =>
      match reduceLevels node chunks.length (addrs.map leaf) with
      | top :: _ => .ok (hashPrefixBLAKE3 ::ᵥ top)
      | [] => .error (.malformed "empty chunk list")

def verifyLoop (path : List Digest) :
    Nat → Int → Int → Nat → Digest → Except ChunkProofError (Digest × Nat)
  | 0, _, _, used, x => .ok (x, used)
  | fuel + 1, cur, levelLen, used, x =>
    if levelLen > 1 then
      if xor32 cur 1 < levelLen then
        match path[used]? with
        | none => .error (.pathTooShort used)
        | some s =>
          verifyLoop path fuel (half cur) (half (toDouble (levelLen + 1))) (used + 1)
            (if cur.tmod 2 = 0 then node x s else node s x)
      else verifyLoop path fuel (half cur) (half (toDouble (levelLen + 1))) used x
    else .ok (x, used)

end

def manifestRoot (blake3 : Bytes → Digest) (chunks : List AddrInput) :
    Except ChunkProofError Addr :=
  manifestRootWith (merkleLeaf blake3) (merkleNode blake3) chunks

def byteAt (b : Bytes) (i : Nat) : Int := (b.getD i 0).toNat

structure Head where
  major : Int
  arg : Int
  n : Nat
  deriving DecidableEq

def bigUint64 (b : Bytes) (off : Nat) : Nat :=
  ((b.drop (off + 1)).take 8).foldl (fun v x => v <<< 8 ||| x.toNat) 0

def readHead (b : Bytes) (off : Nat) : Except ChunkProofError Head :=
  if off ≥ b.length then .error (.malformed "truncated cbor")
  else
    let major := sar32 (byteAt b off) 5
    let ai := and32 (byteAt b off) 0x1f
    if ai < 24 then .ok { major := major, arg := ai, n := 1 }
    else if ai = 24 then
      if off + 2 > b.length then .error (.malformed "truncated cbor head")
      else if byteAt b (off + 1) < 24 then .error (.malformed "non-minimal cbor integer")
      else .ok { major := major, arg := byteAt b (off + 1), n := 2 }
    else if ai = 25 then
      if off + 3 > b.length then .error (.malformed "truncated cbor head")
      else
        let v := or32 (shl32 (byteAt b (off + 1)) 8) (byteAt b (off + 2))
        if v ≤ 0xff then .error (.malformed "non-minimal cbor integer")
        else .ok { major := major, arg := v, n := 3 }
    else if ai = 26 then
      if off + 5 > b.length then .error (.malformed "truncated cbor head")
      else
        let v := toDouble (toDouble (toDouble (toUint32 (shl32 (byteAt b (off + 1)) 24)
          + shl32 (byteAt b (off + 2)) 16) + shl32 (byteAt b (off + 3)) 8) + byteAt b (off + 4))
        if v ≤ 0xffff then .error (.malformed "non-minimal cbor integer")
        else .ok { major := major, arg := v, n := 5 }
    else if ai = 27 then
      if off + 9 > b.length then .error (.malformed "truncated cbor head")
      else
        let v := bigUint64 b off
        if v ≤ 0xffffffff then .error (.malformed "non-minimal cbor integer")
        -- `Number(v)`: anything needing 64 bits is beyond every bound enforced below
        else .ok { major := major, arg := toDouble v, n := 9 }
    else .error (.malformed "reserved or indefinite-length cbor item")

def decodePath (b : Bytes) : Nat → Nat → Except ChunkProofError (List Bytes × Nat)
  | 0, off => .ok ([], off)
  | left + 1, off =>
    (readHead b off).bind fun e =>
      if e.major ≠ cborMajorByteStr ∨ e.arg ≠ digestLen then
        .error (.malformed "proof element is not a 32-byte hash")
      else if (b.length : Int) - (off + e.n : Nat) < e.arg then
        .error (.malformed "truncated proof path")
      else (decodePath b left (off + e.n + e.arg.toNat)).bind fun rest =>
          .ok ((b.drop (off + e.n)).take e.arg.toNat :: rest.1, rest.2)

def decodeChunkProof (b : Bytes) : Except ChunkProofError (Int × List Bytes) :=
  (readHead b 0).bind fun h =>
    if h.major ≠ cborMajorArray ∨ h.arg ≠ 2 then
      .error (.malformed "proof is not a 2-element cbor array")
    else
      (readHead b h.n).bind fun i =>
        if i.major ≠ cborMajorUint then
          .error (.malformed "proof index is not an unsigned integer")
        else if i.arg > shl32 1 20 then .error (.malformed "proof index out of bounds")
        else
          (readHead b (h.n + i.n)).bind fun p =>
            if p.major ≠ cborMajorArray then
              .error (.malformed "proof path is not a cbor array")
            else if p.arg > maxProofPath then .error (.pathTooDeep p.arg)
            else
              (decodePath b p.arg.toNat (h.n + i.n + p.n)).bind fun out =>
                if out.2 ≠ b.length then .error (.trailingBytes (b.length - out.2))
                else .ok (i.arg, out.1)

def pathDigests : List Bytes → Except ChunkProofError (List Digest)
  | [] => .ok []
  | s :: rest =>
    if h : s.length = 32 then (pathDigests rest).bind fun ds => .ok (.ofBytes s h :: ds)
    else .error .pathElement

def verifyChunkProof (blake3 : Bytes → Digest) (root : AddrInput) (nChunks index : Number)
    (chunk : Bytes) (path : List Bytes) : Except ChunkProofError Unit :=
  (toAddr root).bind fun rootAddr =>
    match nChunks.toInteger? with
    | none => .error .emptyTree
    | some n =>
      if n ≤ 0 then .error .emptyTree
      else
        match index.toInteger? with
        | none => .error (.chunkRange index nChunks)
        | some i =>
          if i < 0 ∨ i ≥ n then .error (.chunkRange index nChunks)
          else if (path.length : Int) > maxProofPath then .error (.pathTooLong path.length)
          else
            (pathDigests path).bind fun ds =>
              (verifyLoop (merkleNode blake3) ds n.toNat i n 0
                  (merkleLeaf blake3 (hashBytes blake3 chunk))).bind fun r =>
                if r.2 ≠ ds.length then .error (.pathUnused (ds.length - r.2))
                else
                  let got : Addr := hashPrefixBLAKE3 ::ᵥ r.1
                  if got ≠ rootAddr then .error (.foldsTo got rootAddr) else .ok ()

def verifyChunkResponse (blake3 : Bytes → Digest) (root : AddrInput) (nChunks index : Number)
    (chunk proof : Bytes) : Except ChunkProofError Bytes :=
  (decodeChunkProof proof).bind fun d =>
    if ¬ (Number.ofInt d.1).strictEq index then .error (.otherChunk d.1 index)
    else
      (verifyChunkProof blake3 root nChunks index chunk d.2).bind fun _ => .ok chunk

end VulosRelay.Client
