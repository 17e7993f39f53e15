import Mathlib.Data.Nat.Bitwise
import VulosRelay.Proof.TreeShapes

/-!
# A range proof proves one chunk at one place

Prover and verifier climb the tree separately. The prover has the whole level
and takes the sibling if there is one; the verifier has only the width of the
level and decides from it whether to consume a path element. `verifyLoop_iff`
runs both at once, one level per step: if the verifier ends at the root the
prover computed, then at every level its node was the tree's node and its
sibling the tree's sibling, because a node hash pins both of its inputs.

What is assumed is that BLAKE3 has no collision among the byte strings hashed in
the two computations that are compared.
-/

namespace VulosRelay.Proof

open VulosRelay.Pubcache HashTree List Nat

/-- No two different byte strings of the list have the same hash. -/
def CollisionFree (blake3 : Bytes → Digest) (inputs : List Bytes) : Prop :=
  ∀ x ∈ inputs, ∀ y ∈ inputs, blake3 x = blake3 y → x = y

section
variable {δ : Type} (node : δ → δ → δ)

def levelPairs : List δ → List (δ × δ)
  | a :: b :: rest => (a, b) :: levelPairs rest
  | _ => []

def treePairs : Nat → List δ → List (δ × δ)
  | 0, _ => []
  | fuel + 1, level =>
    if level.length > 1 then levelPairs level ++ treePairs fuel (reduceLevel node level) else []

def verifyPairs (path : List δ) : Nat → Nat → Nat → Nat → δ → List (δ × δ)
  | 0, _, _, _, _ => []
  | fuel + 1, cur, levelLen, used, x =>
    if levelLen > 1 then
      if cur ^^^ 1 < levelLen then
        match path[used]? with
        | none => []
        | some s =>
          let pair := if cur % 2 = 0 then (x, s) else (s, x)
          pair :: verifyPairs path fuel (cur / 2) ((levelLen + 1) / 2) (used + 1)
            (node pair.1 pair.2)
      else verifyPairs path fuel (cur / 2) ((levelLen + 1) / 2) used x
    else []

end

def treeInputs (blake3 : Bytes → Digest) (chunks : List Addr) : List Bytes :=
  chunks.map leafInput
    ++ (treePairs (merkleNode blake3) chunks.length (chunks.map (merkleLeaf blake3))).map
        fun p => nodeInput p.1 p.2

def verifyInputs (blake3 : Bytes → Digest) (nChunks index : Nat) (chunk : Bytes)
    (path : List Digest) : List Bytes :=
  leafInput (hashBytes blake3 chunk)
    :: (verifyPairs (merkleNode blake3) path nChunks index nChunks 0
        (merkleLeaf blake3 (hashBytes blake3 chunk))).map fun p => nodeInput p.1 p.2

theorem leafInput_injective (h : leafInput c = leafInput d) : c = d := by
  apply List.Vector.eq
  exact append_cancel_left h

theorem nodeInput_injective (h : nodeInput a b = nodeInput c d) : a = c ∧ b = d := by
  unfold nodeInput at h
  simp only [append_assoc, append_cancel_left_eq] at h
  obtain ⟨h1, h2⟩ := append_inj h (by rw [a.toList_length, c.toList_length])
  exact ⟨List.Vector.eq _ _ h1, List.Vector.eq _ _ h2⟩

section
variable {δ : Type} (node : δ → δ → δ)

theorem levelPairs_mem : ∀ (level : List δ) (j : Nat) (a b : δ),
    level[2 * j]? = some a → level[2 * j + 1]? = some b → (a, b) ∈ levelPairs level
  | [], j, a, b, h, _ => by simp at h
  | [x], j, a, b, _, h => by simp at h
  | x :: y :: rest, 0, a, b, ha, hb => by
    cases ha
    cases hb
    exact .head _
  | x :: y :: rest, j + 1, a, b, ha, hb => by
    rw [levelPairs]
    exact .tail _ (levelPairs_mem rest j a b ha hb)

theorem chunkProofLoop_append : ∀ (fuel : Nat) (level : List δ) (cur : Nat) (path : List δ),
    chunkProofLoop node fuel level cur path = path ++ chunkProofLoop node fuel level cur []
  | 0, level, cur, path => by rw [chunkProofLoop, chunkProofLoop, append_nil]
  | fuel + 1, level, cur, path => by
    rw [chunkProofLoop, chunkProofLoop]
    split
    · cases hs : level[cur ^^^ 1]? with
      | some s =>
        rw [chunkProofLoop_append fuel _ _ (path ++ [s]),
          chunkProofLoop_append fuel _ _ ([] ++ [s]), nil_append, append_assoc]
      | none =>
        exact chunkProofLoop_append fuel _ _ path
    · rw [append_nil]

theorem chunkProofLoop_length : ∀ (fuel : Nat) (level : List δ) (cur m : Nat),
    level.length ≤ 2 ^ m → (chunkProofLoop node fuel level cur []).length ≤ m
  | 0, level, cur, m, _ => by simp [chunkProofLoop]
  | fuel + 1, level, cur, m, h => by
    rw [chunkProofLoop]
    split
    · rename_i hgt
      obtain ⟨k, rfl⟩ : ∃ k, m = k + 1 := by
        refine ⟨m - 1, ?_⟩
        rcases Nat.eq_zero_or_pos m with h0 | h0
        · rw [h0] at h; simp at h; omega
        · omega
      -- the exponent of the bound goes down by one with each level
      have hlen : (reduceLevel node level).length ≤ 2 ^ k := by
        show (pairUp node level).length ≤ 2 ^ k
        rw [pow_succ] at h
        rw [pairUp_length]; omega
      have ih := chunkProofLoop_length fuel (reduceLevel node level) (cur / 2) k hlen
      cases hs : level[cur ^^^ 1]? with
      | some s =>
        dsimp only
        rw [chunkProofLoop_append, nil_append, length_append, length_singleton]
        omega
      | none =>
        dsimp only
        omega
    · simp

theorem reduceLevel_getElem?_sib (ha : level[cur]? = some a) (hs : level[cur ^^^ 1]? = some s) :
    (if cur % 2 = 0 then (a, s) else (s, a)) ∈ levelPairs level
      ∧ (reduceLevel node level)[cur / 2]?
          = some (if cur % 2 = 0 then node a s else node s a) := by
  by_cases hpar : cur % 2 = 0
  · rw [xor_one_of_even (even_iff.mpr hpar)] at hs
    rw [if_pos hpar, if_pos hpar]
    have hcur : cur = 2 * (cur / 2) := by omega
    rw [hcur] at ha hs
    refine ⟨levelPairs_mem _ _ a s ha hs, (pairUp_getElem? node _ _ a ha).trans ?_⟩
    rw [hs]
    rfl
  · rw [xor_one_of_odd (odd_iff.mpr (by omega))] at hs
    rw [if_neg hpar, if_neg hpar]
    have hcur : cur = 2 * (cur / 2) + 1 := by omega
    have hpr : cur - 1 = 2 * (cur / 2) := by omega
    rw [hpr] at hs
    rw [hcur] at ha
    refine ⟨levelPairs_mem _ _ s a hs ha, (pairUp_getElem? node _ _ s hs).trans ?_⟩
    rw [ha]
    rfl

theorem reduceLevel_getElem?_last (ha : level[cur]? = some a) (hs : level.length ≤ cur ^^^ 1) :
    (reduceLevel node level)[cur / 2]? = some a := by
  obtain ⟨hlt, _⟩ := List.getElem?_eq_some_iff.mp ha
  by_cases hpar : cur % 2 = 0
  · rw [xor_one_of_even (even_iff.mpr hpar)] at hs
    have hcur : cur = 2 * (cur / 2) := by omega
    rw [hcur] at ha
    refine (pairUp_getElem? node _ _ a ha).trans ?_
    rw [getElem?_eq_none (by omega)]
    rfl
  · rw [xor_one_of_odd (odd_iff.mpr (by omega))] at hs
    omega

/--
**Verifier against prover, level by level.** From a node `x` claimed at index
`cur` of a level, the loop ends at that level's root with the whole path used
exactly when `x` is the node at `cur` and the path is the prover's.
-/
theorem verifyLoop_iff (path : List δ) : ∀ (fuel : Nat) (level : List δ) (cur used : Nat) (x r : δ),
    level ≠ [] → level.length ≤ fuel → cur < level.length → used ≤ path.length →
    reduceLevels node fuel level = [r] →
    (∀ p ∈ treePairs node fuel level,
      ∀ q ∈ verifyPairs node path fuel cur level.length used x,
        node p.1 p.2 = node q.1 q.2 → p = q) →
    (verifyLoop node path fuel cur level.length used x = .ok (r, path.length)
      ↔ level[cur]? = some x ∧ path.drop used = chunkProofLoop node fuel level cur [])
  | 0, level, cur, used, x, r, hne, hfl, _, _, _, _ =>
    absurd (length_eq_zero_iff.mp (by omega)) hne
  | fuel + 1, level, cur, used, x, r, hne, hfl, hcur, hus, hrt, hinj => by
    obtain ⟨a, ha⟩ : ∃ a, level[cur]? = some a :=
      ⟨level[cur], getElem?_eq_getElem hcur⟩
    rw [reduceLevels] at hrt
    rw [verifyLoop, chunkProofLoop]
    rw [treePairs, verifyPairs] at hinj
    by_cases hgt : level.length > 1
    · simp only [if_pos hgt] at hrt hinj ⊢
      have hlen : (reduceLevel node level).length = (level.length + 1) / 2 := pairUp_length node _
      have hne' : reduceLevel node level ≠ [] := length_pos_iff.mp (by omega)
      rw [← hlen] at hinj ⊢
      by_cases hsib : cur ^^^ 1 < level.length
      · -- a sibling exists: one path element is consumed
        rw [if_pos hsib] at hinj ⊢
        obtain ⟨s₀, hs₀⟩ : ∃ s₀, level[cur ^^^ 1]? = some s₀ :=
          ⟨level[cur ^^^ 1], getElem?_eq_getElem hsib⟩
        obtain ⟨hpr, hprn⟩ := reduceLevel_getElem?_sib node ha hs₀
        rw [hs₀]
        dsimp only
        rw [nil_append, chunkProofLoop_append, singleton_append]
        cases hp : path[used]? with
        | none =>
          have hdr : path.drop used = [] :=
            drop_eq_nil_of_le (getElem?_eq_none_iff.mp hp)
          rw [hdr]
          constructor
          · intro h; simp at h
          intro hgv
          obtain ⟨_, h⟩ := hgv
          simp at h
        | some s =>
          obtain ⟨hlt, hget⟩ := List.getElem?_eq_some_iff.mp hp
          rw [hp] at hinj
          have ih := verifyLoop_iff path fuel (reduceLevel node level) (cur / 2) (used + 1)
            (if cur % 2 = 0 then node x s else node s x) r hne' (by omega) (by omega)
            (by omega) hrt (fun p hp q hq => hinj p (mem_append_right _ hp) q (by
              refine mem_cons_of_mem _ ?_
              split <;> simp_all))
          rw [ih, hprn, Option.some.injEq, drop_eq_getElem_cons hlt, hget, ha,
            Option.some.injEq, cons.injEq]
          -- the two node hashes agree only if their inputs do
          have hkey := hinj _ (mem_append_left _ hpr) _ (.head _)
          by_cases hpar : cur % 2 = 0
          · simp only [if_pos hpar] at hkey ⊢
            constructor
            · intro hgv
              obtain ⟨h1, h2⟩ := hgv
              have := hkey h1
              simp only [Prod.mk.injEq] at this
              exact ⟨this.1, this.2.symm, h2⟩
            · intro hgv
              obtain ⟨h1, h2, h3⟩ := hgv
              exact ⟨by rw [h1, h2], h3⟩
          · simp only [if_neg hpar] at hkey ⊢
            constructor
            · intro hgv
              obtain ⟨h1, h2⟩ := hgv
              have := hkey h1
              simp only [Prod.mk.injEq] at this
              exact ⟨this.2, this.1.symm, h2⟩
            · intro hgv
              obtain ⟨h1, h2, h3⟩ := hgv
              exact ⟨by rw [h1, h2], h3⟩
      · -- the promoted last node: nothing is consumed
        rw [if_neg hsib] at hinj ⊢
        have hprn := reduceLevel_getElem?_last node ha (by omega)
        have hno : level[cur ^^^ 1]? = none := getElem?_eq_none (by omega)
        rw [hno]
        rw [verifyLoop_iff path fuel (reduceLevel node level) (cur / 2) used x r hne' (by omega)
          (by omega) hus hrt (fun p hp q hq => hinj p (mem_append_right _ hp) q hq),
          hprn, ha]
    · -- one node left: it is the root, and the path must be used up
      rw [if_neg hgt] at hrt ⊢
      rw [if_neg hgt]
      have hcur0 : cur = 0 := by omega
      subst hcur0
      rw [hrt] at ha ⊢
      rw [drop_eq_nil_iff]
      constructor
      · intro h
        injection h with h
        simp only [Prod.mk.injEq] at h
        exact ⟨by rw [h.1]; rfl, by omega⟩
      · intro hgv
        obtain ⟨h1, h2⟩ := hgv
        have hx : r = x := by simpa using h1
        rw [hx, show used = path.length by omega]

end

theorem CollisionFree.leaf (h : CollisionFree blake3 inputs) (hc : leafInput c ∈ inputs)
    (hd : leafInput d ∈ inputs) (heq : merkleLeaf blake3 c = merkleLeaf blake3 d) : c = d :=
  leafInput_injective (h _ hc _ hd heq)

theorem CollisionFree.node {blake3 : Bytes → Digest} {inputs : List Bytes}
    (h : CollisionFree blake3 inputs) {p q : Digest × Digest}
    (hp : nodeInput p.1 p.2 ∈ inputs) (hq : nodeInput q.1 q.2 ∈ inputs)
    (heq : merkleNode blake3 p.1 p.2 = merkleNode blake3 q.1 q.2) : p = q := by
  obtain ⟨h1, h2⟩ := nodeInput_injective (h _ hp _ hq heq)
  exact Prod.ext h1 h2

theorem verifyChunkProof_eq_ok {blake3 : Bytes → Digest} {root : Digest} {n i : Nat}
    {chunk : Bytes} {path : List Digest} (hi : i < n) :
    verifyChunkProof blake3 (hashPrefixBLAKE3 ::ᵥ root) n i chunk path = .ok ()
      ↔ path.length ≤ maxProofPath
        ∧ verifyLoop (merkleNode blake3) path n i n 0
            (merkleLeaf blake3 (hashBytes blake3 chunk)) = .ok (root, path.length) := by
  rw [verifyChunkProof, if_neg (by omega), if_neg (by omega)]
  by_cases hlen : path.length > maxProofPath
  · rw [if_pos hlen]
    constructor
    · intro h; simp at h
    intro hgv
    obtain ⟨h, _⟩ := hgv
    omega
  · rw [if_neg hlen, Except.bind_eq_ok]
    simp only [Int.toNat_natCast]
    constructor
    · intro hgv
      obtain ⟨⟨x, used⟩, hlp, h⟩ := hgv
      refine ⟨by omega, ?_⟩
      dsimp only at h
      split at h
      · simp at h
      rename_i hus
      split at h
      · simp at h
      rename_i hgot
      have hx : x = root := by
        have := congrArg List.Vector.tail (not_not.mp hgot)
        simpa using this
      rw [hlp, hx, not_not.mp hus]
    · intro hgv
      obtain ⟨_, hlp⟩ := hgv
      refine ⟨_, hlp, ?_⟩
      simp

/--
**A range proof verifies exactly when it is the honest proof of the honest
chunk.** Against the root of a chunk list, a chunk and a path are accepted at
index `i` if and only if the chunk hashes to the `i`-th address and the path is
the one `ChunkProof` computes.
-/
theorem verifyChunkProof_iff (blake3 : Bytes → Digest) (chunks : List Addr)
    (hlen : chunks.length ≤ 2 ^ 20) (i : Nat) (hi : i < chunks.length) (chunk : Bytes)
    (path : List Digest)
    (hcf : CollisionFree blake3
      (treeInputs blake3 chunks ++ verifyInputs blake3 chunks.length i chunk path)) :
    ∃ root : Addr, manifestRoot blake3 chunks = some root
      ∧ (verifyChunkProof blake3 root chunks.length i chunk path = .ok ()
          ↔ hashBytes blake3 chunk = chunks[i] ∧ chunkProof blake3 chunks i = .ok path) := by
  have hne : chunks ≠ [] := length_pos_iff.mp (by omega)
  obtain ⟨r, hr⟩ := mth_isSome (merkleLeaf blake3) (merkleNode blake3) hne
  refine ⟨hashPrefixBLAKE3 ::ᵥ r, ?_, ?_⟩
  · rw [manifestRoot, merkleRoot_eq_mth _ _ hne, hr]
    rfl
  have hrt := reduceLevels_eq_mth _ _ hne hr le_rfl
  have hmap : (chunks.map (merkleLeaf blake3)).length = chunks.length := length_map ..
  have hlp := verifyLoop_iff (merkleNode blake3) path chunks.length
    (chunks.map (merkleLeaf blake3)) i 0 (merkleLeaf blake3 (hashBytes blake3 chunk)) r
    (by simpa using hne) (by omega) (by omega) (zero_le _) hrt (by
      rw [hmap]
      intro p hp q hq heq
      refine hcf.node ?_ ?_ heq
      · exact mem_append_left _ (mem_append_right _ (mem_map_of_mem hp))
      · exact mem_append_right _ (mem_cons_of_mem _ (mem_map_of_mem hq)))
  rw [hmap, drop_zero, getElem?_map, getElem?_eq_getElem hi] at hlp
  -- the proof of the honest prover, which is never longer than the bound
  have hpr : chunkProof blake3 chunks i
      = .ok (chunkProofLoop (merkleNode blake3) chunks.length
          (chunks.map (merkleLeaf blake3)) i []) := by
    rw [chunkProof, if_neg (by omega), if_neg (by omega)]
    rfl
  have hsh := chunkProofLoop_length (merkleNode blake3) chunks.length
    (chunks.map (merkleLeaf blake3)) i 20 (by omega)
  rw [verifyChunkProof_eq_ok hi, hlp, hpr]
  constructor
  · intro hgv
    obtain ⟨_, hlf, hpt⟩ := hgv
    refine ⟨?_, by rw [hpt]⟩
    refine hcf.leaf ?_ ?_ (Option.some.inj hlf).symm
    · exact mem_append_right _ (.head _)
    · exact mem_append_left _ (mem_append_left _ (mem_map_of_mem (getElem_mem hi)))
  · intro hgv
    obtain ⟨hch, hpt⟩ := hgv
    injection hpt with hpt
    refine ⟨?_, ?_, hpt.symm⟩
    · rw [← hpt, maxProofPath]; omega
    · rw [hch]; rfl

/-! ### Known answers

The BLAKE3 values of the one-byte chunks `a` and `b` and of the tree over them,
as the interoperability vectors of the repository use them.
-/

def digestA : Digest :=
  ⟨[0x17, 0x76, 0x2f, 0xdd, 0xd9, 0x69, 0xa4, 0x53, 0x92, 0x5d, 0x65, 0x71, 0x7a, 0xc3, 0xee, 0xa2,
    0x13, 0x20, 0xb6, 0x6b, 0x54, 0x34, 0x2f, 0xde, 0x15, 0x12, 0x8d, 0x6c, 0xaf, 0x21, 0x21, 0x5f],
    rfl⟩

def digestB : Digest :=
  ⟨[0x10, 0xe5, 0xcf, 0x3d, 0x3c, 0x8a, 0x4f, 0x9f, 0x34, 0x68, 0xc8, 0xcc, 0x58, 0xee, 0xa8, 0x48,
    0x92, 0xa2, 0x2f, 0xda, 0xdb, 0xc1, 0xac, 0xb2, 0x24, 0x10, 0x19, 0x00, 0x44, 0xc1, 0xd5, 0x53],
    rfl⟩

def leafA : Digest :=
  ⟨[0x20, 0x8e, 0x13, 0x1b, 0xd1, 0x41, 0x1e, 0x9d, 0x8c, 0x1d, 0x84, 0x17, 0xb9, 0xe9, 0xf3, 0x70,
    0xe2, 0x11, 0x8a, 0x32, 0xb3, 0x75, 0x35, 0xc7, 0x73, 0x57, 0xc6, 0xd1, 0x52, 0x34, 0x8a, 0xc7],
    rfl⟩

def leafB : Digest :=
  ⟨[0x60, 0x9a, 0xd1, 0x6c, 0xa3, 0x18, 0x6f, 0xc1, 0x2d, 0xd3, 0x2c, 0xe1, 0xd4, 0x9e, 0xd5, 0x7d,
    0xd8, 0x79, 0xc8, 0x02, 0x24, 0x6d, 0xe3, 0x85, 0xa2, 0x0f, 0x7d, 0xbe, 0xe2, 0xf8, 0x94, 0x39],
    rfl⟩

def nodeAB : Digest :=
  ⟨[0xab, 0xd3, 0x6c, 0x78, 0xc5, 0xc4, 0x84, 0x69, 0x8b, 0xf9, 0x62, 0xa2, 0x4a, 0xdc, 0x92, 0x93,
    0x46, 0x76, 0x61, 0x69, 0x6e, 0x08, 0x97, 0xa5, 0x00, 0xdf, 0x26, 0x1d, 0x2b, 0x16, 0x64, 0xf2],
    rfl⟩

def knownBlake3 (b : Bytes) : Digest :=
  if b = [0x61] then digestA
  else if b = [0x62] then digestB
  else if b = leafInput (hashPrefixBLAKE3 ::ᵥ digestA) then leafA
  else if b = leafInput (hashPrefixBLAKE3 ::ᵥ digestB) then leafB
  else if b = nodeInput leafA leafB then nodeAB
  else List.Vector.replicate 32 0

def chunksAB : List Addr := [hashPrefixBLAKE3 ::ᵥ digestA, hashPrefixBLAKE3 ::ᵥ digestB]

theorem chunksAB_collisionFree :
    CollisionFree knownBlake3
      (treeInputs knownBlake3 chunksAB ++ verifyInputs knownBlake3 2 0 [0x61] [leafB]) := by
  unfold CollisionFree
  decide

theorem verifyChunkProof_iff_chunksAB :
    ∃ root : Addr, manifestRoot knownBlake3 chunksAB = some root
      ∧ (verifyChunkProof knownBlake3 root 2 0 [0x61] [leafB] = .ok ()
          ↔ hashBytes knownBlake3 [0x61] = chunksAB[0]
            ∧ chunkProof knownBlake3 chunksAB 0 = .ok [leafB]) :=
  verifyChunkProof_iff knownBlake3 chunksAB (by decide) 0 (by decide) [0x61] [leafB]
    chunksAB_collisionFree

end VulosRelay.Proof
