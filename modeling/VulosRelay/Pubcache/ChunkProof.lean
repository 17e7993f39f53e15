import VulosRelay.Pubcache.Merkle
import VulosRelay.Pubcache.Cbor

/-!
# Chunk-tree range proofs

The model of `tunnel/pubcache/proof.go`: the audit path of one chunk, its
verification against a trusted root, and the CBOR body that carries it.

The three loops of the source run until a level has one node left. Here they
take a fuel argument; every caller passes the width of the bottom level, which
halves at each round, so the fuel is never what ends them.
-/

namespace VulosRelay.Pubcache

def maxProofPath : Nat := 40

section
variable {δ : Type} (node : δ → δ → δ)

def reduceLevel (level : List δ) : List δ := HashTree.pairUp node level

def reduceLevels : Nat → List δ → List δ
  | 0, level => level
  | fuel + 1, level =>
    if level.length > 1 then reduceLevels fuel (reduceLevel node level) else level

def chunkProofLoop : Nat → List δ → Nat → List δ → List δ
  | 0, _, _, path => path
  | fuel + 1, level, cur, path =>
    if level.length > 1 then
      chunkProofLoop fuel (reduceLevel node level) (cur / 2)
        (match level[cur ^^^ 1]? with
         | some sib => path ++ [sib]
         | none => path)
    else path

def verifyLoop (path : List δ) : Nat → Nat → Nat → Nat → δ → Except GoError (δ × Nat)
  | 0, _, _, used, x => .ok (x, used)
  | fuel + 1, cur, levelLen, used, x =>
    if levelLen > 1 then
      if cur ^^^ 1 < levelLen then
        match path[used]? with
        | none => .error ⟨.proofInvalid, s!"path too short at level {used}"⟩
        | some s =>
          verifyLoop path fuel (cur / 2) ((levelLen + 1) / 2) (used + 1)
            (if cur % 2 = 0 then node x s else node s x)
      else verifyLoop path fuel (cur / 2) ((levelLen + 1) / 2) used x
    else .ok (x, used)

end

def chunkProof (blake3 : Bytes → Digest) (chunks : List Addr) (index : Int) :
    Except GoError (List Digest) :=
  if chunks.length = 0 then .error ⟨.proofRange, "empty chunk list"⟩
  else if index < 0 ∨ index ≥ chunks.length then
    .error ⟨.proofRange, s!"chunk {index} of {chunks.length}"⟩
  else
    .ok (chunkProofLoop (merkleNode blake3) chunks.length (chunks.map (merkleLeaf blake3))
      index.toNat [])

def verifyChunkProof (blake3 : Bytes → Digest) (root : Addr) (nChunks index : Int)
    (chunk : Bytes) (path : List Digest) : Except GoError Unit :=
  if nChunks ≤ 0 then .error ⟨.proofRange, "empty tree"⟩
  else if index < 0 ∨ index ≥ nChunks then
    .error ⟨.proofRange, s!"chunk {index} of {nChunks}"⟩
  else if path.length > maxProofPath then
    .error ⟨.proofInvalid, s!"path of {path.length} exceeds the {maxProofPath}-level bound"⟩
  else
    (verifyLoop (merkleNode blake3) path nChunks.toNat index.toNat nChunks.toNat 0
        (merkleLeaf blake3 (hashBytes blake3 chunk))).bind fun r =>
      if r.2 ≠ path.length then
        .error ⟨.proofInvalid, s!"path has {path.length - r.2} unused elements"⟩
      else
        let got : Addr := hashPrefixBLAKE3 ::ᵥ r.1
        if got ≠ root then
          .error ⟨.proofInvalid, s!"folds to {got.string}, want root {root.string}"⟩
        else .ok ()

def encodeChunkProof (index : Int) (path : List Digest) : Bytes :=
  let out : Bytes := [0x82]
  let out := appendCBORUint out cborMajorUint (index % 2 ^ 64).toNat
  let out := appendCBORUint out cborMajorArray path.length
  path.foldl (fun out h => appendCBORUint out cborMajorByteStr h.toList.length ++ h.toList) out

def decodePath (b : Bytes) : Nat → Nat → Except GoError (List Digest × Nat)
  | 0, off => .ok ([], off)
  | left + 1, off =>
    (readHead (b.drop off)).bind fun e =>
      if e.major ≠ cborMajorByteStr ∨ e.arg ≠ digestLen then
        .error (malformed s!"proof element is not a {digestLen}-byte hash")
      else if h : 32 ≤ (b.drop (off + e.n)).length then
        (decodePath b left (off + e.n + digestLen)).bind fun rest =>
          .ok (.ofBytes ((b.drop (off + e.n)).take 32) (List.length_take_of_le h) :: rest.1,
            rest.2)
      else .error (malformed "truncated proof path")

def decodeChunkProof (b : Bytes) : Except GoError (Int × List Digest) :=
  (readHead b).bind fun h =>
    if h.major ≠ cborMajorArray ∨ h.arg ≠ 2 then
      .error (malformed "proof is not a 2-element cbor array")
    else
      (readHead (b.drop h.n)).bind fun i =>
        if i.major ≠ cborMajorUint then
          .error (malformed "proof index is not an unsigned integer")
        else if i.arg > maxCBORItems then .error (malformed "proof index out of bounds")
        else
          (readHead (b.drop (h.n + i.n))).bind fun p =>
            if p.major ≠ cborMajorArray then
              .error (malformed "proof path is not a cbor array")
            else if p.arg > maxProofPath then
              .error (malformed s!"proof path of {p.arg} exceeds the {maxProofPath}-level bound")
            else
              (decodePath b p.arg (h.n + i.n + p.n)).bind fun out =>
                if out.2 ≠ b.length then
                  .error (malformed s!"{b.length - out.2} trailing bytes after proof")
                else .ok (i.arg, out.1)

end VulosRelay.Pubcache
