import VulosRelay.Client.ChunkProof
import VulosRelay.Pubcache.ChunkProof

/-!
# One tree, three constructions

`merkleRoot` keeps a stack of complete subtrees, the range-proof code and the
browser reduce level by level, and RFC 6962 recurses on a split. They compute the
same root for every non-empty list.

The stack argument is that of a binary counter. Frames cover consecutive
segments of the list, their counts are powers of two, and from the top of the
stack down they strictly increase; merging two equal frames is a carry. Folding
the leftovers from the top therefore always joins a block of `2 ^ j` leaves with
a block to its right that is no longer, which is exactly the split `mth` makes.
-/

namespace VulosRelay.Proof

open VulosRelay.Pubcache HashTree List

section
variable {α δ : Type} (leaf : α → δ) (node : δ → δ → δ)

structure FrameOf (f : Frame δ) (seg : List α) : Prop where
  pow : ∃ j, f.count = 2 ^ j
  length : seg.length = f.count
  root : mth leaf node seg = some f.root

inductive Covers : List (Frame δ) → List α → Prop where
  | nil : Covers [] []
  | cons {f : Frame δ} {stack : List (Frame δ)} {pre seg : List α} :
      Covers stack pre → FrameOf leaf node f seg → (∀ g ∈ stack, f.count < g.count) →
      Covers (f :: stack) (pre ++ seg)

theorem two_mul_le_of_lt (ha : ∃ j, a = 2 ^ j) (hb : ∃ k, b = 2 ^ k) (h : a < b) : 2 * a ≤ b := by
  obtain ⟨j, rfl⟩ := ha
  obtain ⟨k, rfl⟩ := hb
  have hjk : j < k := (Nat.pow_lt_pow_iff_right (by omega)).mp h
  calc 2 * 2 ^ j = 2 ^ (j + 1) := by rw [Nat.pow_succ, Nat.mul_comm]
    _ ≤ 2 ^ k := Nat.pow_le_pow_right (by omega) hjk

theorem covers_pow (h : Covers leaf node stack xs) :
    ∀ g ∈ stack, ∃ j, g.count = 2 ^ j := by
  induction h with
  | nil => intro g hg; simp at hg
  | cons _ hf _ ih =>
    intro g hg
    rcases mem_cons.mp hg with rfl | hg
    · exact hf.pow
    · exact ih g hg

theorem frameOf_append (hf : FrameOf leaf node f seg) (hne : ys ≠ []) (hle : ys.length ≤ f.count)
    (hr : mth leaf node ys = some r) :
    mth leaf node (seg ++ ys) = some (node f.root r) := by
  obtain ⟨j, hj⟩ := hf.pow
  exact mth_append leaf node (hf.length.trans hj) hne (hj ▸ hle) hf.root hr

theorem frameOf_ne_nil (hf : FrameOf leaf node f seg) : seg ≠ [] := by
  obtain ⟨j, hj⟩ := hf.pow
  intro h0
  have hlen := hf.length
  have hpos : 0 < 2 ^ j := Nat.pow_pos (by omega)
  rw [h0, length_nil] at hlen
  omega

theorem pushFrame_covers : ∀ {stack : List (Frame δ)} {pre seg : List α} {f : Frame δ},
    Covers leaf node stack pre → FrameOf leaf node f seg → (∀ g ∈ stack, f.count ≤ g.count) →
    Covers leaf node (pushFrame node stack f) (pre ++ seg) := by
  intro stack
  induction stack with
  | nil =>
    intro pre seg f hc hf _
    exact Covers.cons hc hf (by simp)
  | cons top stack ih =>
    intro pre seg f hc hf hle
    rw [pushFrame]
    split
    · -- equal counts: the two segments become one of twice the length
      rename_i heq
      cases hc with
      | @cons _ _ pre' seg' hc' htop hlt =>
        rw [append_assoc]
        refine ih hc' ⟨?_, ?_, ?_⟩ ?_
        · obtain ⟨j, hj⟩ := htop.pow
          exact ⟨j + 1, by show top.count + f.count = _; rw [← heq, hj, Nat.pow_succ]; omega⟩
        · rw [length_append, htop.length, hf.length]
        · exact frameOf_append leaf node htop (frameOf_ne_nil leaf node hf)
            (by rw [hf.length, heq]) hf.root
        intro g hg
        have := two_mul_le_of_lt htop.pow (covers_pow leaf node hc' g hg) (hlt g hg)
        show top.count + f.count ≤ g.count
        omega
    · rename_i hne
      have htop := hle top (.head _)
      have hlt : f.count < top.count := by omega
      refine Covers.cons hc hf ?_
      intro g hg
      rcases mem_cons.mp hg with rfl | hg
      · exact hlt
      · cases hc with
        | cons _ _ hgs => exact lt_trans hlt (hgs g hg)

theorem pushHashes_covers : ∀ (hashes : List α) {stack : List (Frame δ)} {pre : List α},
    Covers leaf node stack pre →
    Covers leaf node (pushHashes leaf node stack hashes) (pre ++ hashes)
  | [], stack, pre, hc => by rw [append_nil]; exact hc
  | h :: hashes, stack, pre, hc => by
    have hlf : FrameOf leaf node { root := leaf h, count := 1 } [h] :=
      ⟨⟨0, rfl⟩, rfl, mth_singleton leaf node h⟩
    have hpos : ∀ g ∈ stack, 1 ≤ g.count := by
      intro g hg
      obtain ⟨j, hj⟩ := covers_pow leaf node hc g hg
      rw [hj]; exact Nat.pow_pos (by omega)
    have hps := pushFrame_covers leaf node hc hlf hpos
    have hrs := pushHashes_covers hashes hps
    rw [append_assoc] at hrs
    exact hrs

theorem foldFrames_mth : ∀ {stack : List (Frame δ)} {pre ys : List α} {acc : Frame δ},
    Covers leaf node stack pre → ys ≠ [] → (∀ g ∈ stack, ys.length ≤ g.count) →
    mth leaf node ys = some acc.root →
    mth leaf node (pre ++ ys) = some (foldFrames node acc stack).root := by
  intro stack
  induction stack with
  | nil =>
    intro pre ys acc hc _ _ hacc
    cases hc
    exact hacc
  | cons f stack ih =>
    intro pre ys acc hc hne hle hacc
    cases hc with
    | @cons _ _ pre' seg hc' hf hlt =>
      rw [append_assoc]
      refine @ih pre' (seg ++ ys) { root := node f.root acc.root, count := f.count + acc.count }
        hc' (by simp [hne]) ?_ ?_
      · intro g hg
        have h2 := two_mul_le_of_lt hf.pow (covers_pow leaf node hc' g hg) (hlt g hg)
        have hys := hle f (.head _)
        rw [length_append, hf.length]
        omega
      · exact frameOf_append leaf node hf hne (hle f (.head _)) hacc

theorem merkleRoot_eq_mth (h : hashes ≠ []) :
    merkleRoot leaf node hashes = mth leaf node hashes := by
  match hashes, h with
  | [x], _ => rw [mth_singleton]; rfl
  | x :: y :: rest, _ =>
    have hc := pushHashes_covers leaf node (x :: y :: rest) Covers.nil
    rw [nil_append] at hc
    rw [merkleRoot]
    · split
      · rename_i hemp
        rw [hemp] at hc
        cases hc
      rename_i top stack hst
      rw [hst] at hc
      generalize hz : x :: y :: rest = zs at hc ⊢
      cases hc with
      | @cons _ _ pre seg hc' htop hlt =>
        refine (foldFrames_mth leaf node hc' (frameOf_ne_nil leaf node htop) ?_ htop.root).symm
        intro g hg
        rw [htop.length]
        exact le_of_lt (hlt g hg)
    · intro z hz
      simp at hz

theorem reduceLevels_iterate : ∀ (fuel : Nat) (level : List δ), level ≠ [] → level.length ≤ fuel →
    ∃ (x : δ) (m : Nat), reduceLevels node fuel level = [x] ∧ (pairUp node)^[m] level = [x]
  | 0, level, hne, hle => absurd (length_eq_zero_iff.mp (by omega)) hne
  | fuel + 1, level, hne, hle => by
    have hpos := length_pos_iff.mpr hne
    rw [reduceLevels]
    split
    · rename_i hgt
      have hlen : (reduceLevel node level).length = (level.length + 1) / 2 := pairUp_length node _
      obtain ⟨x, m, h1, h2⟩ := reduceLevels_iterate fuel (reduceLevel node level)
        (length_pos_iff.mp (by omega)) (by omega)
      exact ⟨x, m + 1, h1, h2⟩
    · obtain ⟨x, rfl⟩ := length_eq_one_iff.mp (show level.length = 1 by omega)
      exact ⟨x, 0, rfl, rfl⟩

theorem reduceLevels_eq_mth (h : hashes ≠ []) (hr : mth leaf node hashes = some root)
    (hfl : hashes.length ≤ fuel) :
    reduceLevels node fuel (hashes.map leaf) = [root] := by
  obtain ⟨x, m, h1, h2⟩ := reduceLevels_iterate node fuel (hashes.map leaf)
    (by simpa using h) (by rw [length_map]; exact hfl)
  -- run both iterations to the larger of the two round counts
  have hbig : hashes.length ≤ 2 ^ (hashes.length + m) := by
    have := Nat.lt_two_pow_self (n := hashes.length + m)
    omega
  have hx : (pairUp node)^[hashes.length + m] (hashes.map leaf) = [x] := by
    rw [Function.iterate_add_apply, h2, pairUp_iterate_singleton]
  rw [pairUp_iterate_mth leaf node h hr hbig] at hx
  rw [h1, hx]

end

theorem client_reduceLevel_eq (node : Digest → Digest → Digest) :
    ∀ level : List Digest, Client.reduceLevel node level = reduceLevel node level
  | a :: b :: rest => by
    rw [Client.reduceLevel, client_reduceLevel_eq node rest]
    rfl
  | [a] => rfl
  | [] => rfl

theorem client_reduceLevels_eq (node : Digest → Digest → Digest) :
    ∀ (fuel : Nat) (level : List Digest),
      Client.reduceLevels node fuel level = reduceLevels node fuel level
  | 0, level => rfl
  | fuel + 1, level => by
    rw [Client.reduceLevels, reduceLevels, client_reduceLevel_eq, client_reduceLevels_eq node fuel]

theorem mapM_ok_length {ε α β : Type} {f : α → Except ε β} :
    ∀ {xs : List α} {ys : List β}, xs.mapM f = .ok ys → xs.length = ys.length
  | [], ys, h => by
    have hnil : (.ok [] : Except ε (List β)) = .ok ys := h
    cases hnil
    rfl
  | x :: xs, ys, h => by
    rw [mapM_cons] at h
    obtain ⟨y, _, h⟩ := Except.bind_eq_ok.mp h
    obtain ⟨zs, hzs, h⟩ := Except.bind_eq_ok.mp h
    have hcn : (.ok (y :: zs) : Except ε (List β)) = .ok ys := h
    injection hcn with hcn
    rw [← hcn, length_cons, length_cons, mapM_ok_length hzs]

/--
**The three constructions give one root.** The explicit stack, the RFC 6962
recursion and the level-by-level fold agree on every non-empty list, and the
browser puts the address prefix in front of the same value for any spelling of
the same addresses.
-/
theorem chunkTree_constructions_agree (leaf : Addr → Digest) (node : Digest → Digest → Digest)
    (chunks : List Addr) (h : chunks ≠ []) :
    ∃ root : Digest,
      merkleRoot leaf node chunks = some root
      ∧ mth leaf node chunks = some root
      ∧ (∀ fuel, chunks.length ≤ fuel →
          reduceLevels node fuel (chunks.map leaf) = [root])
      ∧ ∀ inputs : List Client.AddrInput, inputs.mapM Client.toAddr = .ok chunks →
          Client.manifestRootWith leaf node inputs = .ok (Client.hashPrefixBLAKE3 ::ᵥ root) := by
  obtain ⟨root, hrt⟩ := mth_isSome leaf node h
  refine ⟨root, ?_, hrt, fun fuel hf => reduceLevels_eq_mth leaf node h hrt hf, ?_⟩
  · rw [merkleRoot_eq_mth leaf node h, hrt]
  intro inputs hin
  have hlen := mapM_ok_length hin
  have hne : inputs ≠ [] := by
    intro h0
    rw [h0, length_nil] at hlen
    exact h (length_eq_zero_iff.mp hlen.symm)
  rw [Client.manifestRootWith, if_neg hne, Except.bind_of_eq_ok hin,
    client_reduceLevels_eq, reduceLevels_eq_mth leaf node h hrt (by omega)]

def constAddr (b : UInt8) : Addr := hashPrefixBLAKE3 ::ᵥ List.Vector.replicate 32 b

def skewNode (l r : Digest) : Digest := List.Vector.map₂ (fun x y => 3 * x + y) l r

theorem chunkTree_constructions_agree_three :
    ∃ root : Digest,
      merkleRoot List.Vector.tail skewNode
          [constAddr 1, constAddr 2, constAddr 4] = some root
      ∧ mth List.Vector.tail skewNode
          [constAddr 1, constAddr 2, constAddr 4] = some root
      ∧ reduceLevels skewNode 3
          ([constAddr 1, constAddr 2, constAddr 4].map List.Vector.tail) = [root]
      ∧ Client.manifestRootWith List.Vector.tail skewNode
          ([constAddr 1, constAddr 2, constAddr 4].map fun a => .bytes a.toList)
          = .ok (Client.hashPrefixBLAKE3 ::ᵥ root) := by
  obtain ⟨root, h1, h2, h3, h4⟩ := chunkTree_constructions_agree List.Vector.tail
    skewNode [constAddr 1, constAddr 2, constAddr 4] (by simp)
  exact ⟨root, h1, h2, h3 3 (by simp), h4 _ rfl⟩

end VulosRelay.Proof
