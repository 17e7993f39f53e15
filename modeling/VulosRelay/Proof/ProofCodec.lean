import VulosRelay.Proof.CborHeads
import VulosRelay.Proof.RangeProofs

/-!
# The proof body is a code

`EncodeChunkProof` and `DecodeChunkProof` are inverse to each other: what is
encoded within the bounds decodes to itself, and a body that decodes is the
encoding of what it decodes to. Together the decoder accepts exactly the
encoder's image, so no second byte string carries the same proof.

Both directions follow the body from left to right. `decodePath` works at an
offset into the whole body, so its two lemmas speak about the bytes that are
left from there on.
-/

namespace VulosRelay.Proof

open VulosRelay.Pubcache Wire List Except

def elementBytes (h : Digest) : Bytes := appendCBORUint [] cborMajorByteStr 32 ++ h.toList

def pathBytes (path : List Digest) : Bytes := path.flatMap elementBytes

@[simp] theorem pathBytes_cons (h : Digest) (path : List Digest) :
    pathBytes (h :: path) = elementBytes h ++ pathBytes path := by
  rw [pathBytes, flatMap_cons]
  rfl

theorem elementBytes_length (h : Digest) :
    (elementBytes h).length = (appendCBORUint [] cborMajorByteStr 32).length + 32 := by
  rw [elementBytes, length_append, h.toList_length]

theorem encodeElements_eq : ∀ (path : List Digest) (out : Bytes),
    path.foldl (fun out h => appendCBORUint out cborMajorByteStr h.toList.length ++ h.toList) out
      = out ++ pathBytes path
  | [], out => by simp [pathBytes]
  | h :: path, out => by
    rw [foldl_cons, encodeElements_eq path, pathBytes_cons, h.toList_length,
      appendCBORUint_eq out, elementBytes, append_assoc, append_assoc,
      append_assoc]

theorem encodeChunkProof_eq (index : Int) (path : List Digest) :
    encodeChunkProof index path
      = appendCBORUint [] cborMajorArray 2
        ++ (appendCBORUint [] cborMajorUint (index % 2 ^ 64).toNat
        ++ (appendCBORUint [] cborMajorArray path.length ++ pathBytes path)) := by
  rw [encodeChunkProof, encodeElements_eq, appendCBORUint_eq _ cborMajorArray path.length,
    appendCBORUint_eq [0x82] cborMajorUint]
  simp only [append_assoc]
  rfl

theorem decodePath_append : ∀ (path : List Digest) (b rest : Bytes) (off : Nat),
    b.drop off = pathBytes path ++ rest →
    decodePath b path.length off = .ok (path, off + (pathBytes path).length)
  | [], b, rest, off, _ => by rw [length_nil, decodePath]; simp [pathBytes]
  | h :: path, b, rest, off, hb => by
    rw [pathBytes_cons, elementBytes, append_assoc, append_assoc] at hb
    have hhd := readHead_append cborMajorByteStr (by decide) 32 (by decide)
      (h.toList ++ (pathBytes path ++ rest))
    rw [← hb] at hhd
    generalize hn : (appendCBORUint [] cborMajorByteStr 32).length = n at hhd
    -- the bytes after the head, and the bytes after the element
    have hd1 : b.drop (off + n) = h.toList ++ (pathBytes path ++ rest) := by
      rw [← drop_drop, hb, ← hn, drop_left]
    have hd2 : b.drop (off + n + digestLen) = pathBytes path ++ rest := by
      rw [← drop_drop, hd1]
      exact drop_left' h.toList_length
    have ih := decodePath_append path b rest (off + n + digestLen) hd2
    have hlen : 32 ≤ (b.drop (off + n)).length := by
      rw [hd1, length_append, h.toList_length]; omega
    have htk : (b.drop (off + n)).take 32 = h.toList := by
      rw [hd1]
      exact take_left' h.toList_length
    have hvec : Digest.ofBytes ((b.drop (off + n)).take 32) (length_take_of_le hlen) = h :=
      List.Vector.eq _ _ htk
    rw [length_cons, decodePath, bind_of_eq_ok hhd, if_neg (by simp [digestLen]),
      dif_pos hlen, bind_of_eq_ok ih]
    rw [hvec, pathBytes_cons, length_append, elementBytes_length, hn, digestLen]
    congr 2
    omega

theorem decodePath_inv : ∀ (left : Nat) {off off' : Nat} {path : List Digest},
    decodePath b left off = .ok (path, off') →
    path.length = left ∧ b.drop off = pathBytes path ++ b.drop off'
  | 0, off, off', path, h => by
    rw [decodePath] at h
    injection h with h
    simp only [Prod.mk.injEq] at h
    obtain ⟨rfl, rfl⟩ := h
    exact ⟨rfl, rfl⟩
  | left + 1, off, off', path, h => by
    rw [decodePath] at h
    obtain ⟨e, he, h⟩ := bind_eq_ok.mp h
    split at h
    · simp at h
    rename_i hchk
    split at h
    · rename_i hlen
      obtain ⟨⟨path', off''⟩, hrs, h⟩ := bind_eq_ok.mp h
      injection h with h
      simp only [Prod.mk.injEq] at h
      obtain ⟨rfl, rfl⟩ := h
      obtain ⟨hl, hd⟩ := decodePath_inv left hrs
      have hhd := readHead_inv he
      rw [not_or, not_not, not_not] at hchk
      refine ⟨by rw [length_cons, hl], ?_⟩
      rw [pathBytes_cons, elementBytes, Digest.toList_ofBytes, append_assoc, append_assoc, ← hd]
      -- the element is the 32 bytes after its head
      have hsp : (b.drop (off + e.n)).take 32 ++ b.drop (off + e.n + digestLen)
          = b.drop (off + e.n) := by
        rw [← drop_drop (l := b) (j := off + e.n)]
        exact take_append_drop 32 _
      have hby := hhd.bytes
      rw [hchk.1, hchk.2, drop_drop] at hby
      rw [hby]
      congr 1
      exact hsp.symm
    · simp at h

theorem decode_encodeChunkProof {index : Nat} {path : List Digest} (hi : index ≤ 2 ^ 20)
    (hp : path.length ≤ 40) :
    decodeChunkProof (encodeChunkProof index path) = .ok (index, path) := by
  have hidx : ((index : Int) % 2 ^ 64).toNat = index := by omega
  have henc := encodeChunkProof_eq index path
  rw [hidx] at henc
  generalize encodeChunkProof index path = b at henc
  generalize hn1 : (appendCBORUint [] cborMajorArray 2).length = n1
  generalize hn2 : (appendCBORUint [] cborMajorUint index).length = n2
  generalize hn3 : (appendCBORUint [] cborMajorArray path.length).length = n3
  -- the three heads, each at its own offset
  have hd1 : b.drop n1 = appendCBORUint [] cborMajorUint index
      ++ (appendCBORUint [] cborMajorArray path.length ++ pathBytes path) := by
    rw [henc, ← hn1, drop_left]
  have hd2 : b.drop (n1 + n2) = appendCBORUint [] cborMajorArray path.length ++ pathBytes path := by
    rw [← drop_drop, hd1, ← hn2, drop_left]
  have hd3 : b.drop (n1 + n2 + n3) = pathBytes path ++ [] := by
    rw [← drop_drop, hd2, ← hn3, drop_left, append_nil]
  have h1 := readHead_append cborMajorArray (by decide) 2 (by decide)
    (appendCBORUint [] cborMajorUint index
      ++ (appendCBORUint [] cborMajorArray path.length ++ pathBytes path))
  rw [← henc, hn1] at h1
  have h2 := readHead_append cborMajorUint (by decide) index (by omega)
    (appendCBORUint [] cborMajorArray path.length ++ pathBytes path)
  rw [← hd1, hn2] at h2
  have h3 := readHead_append cborMajorArray (by decide) path.length (by omega)
    (pathBytes path)
  rw [← hd2, hn3] at h3
  have h4 := decodePath_append path b [] (n1 + n2 + n3) hd3
  have hlen : b.length = n1 + n2 + n3 + (pathBytes path).length := by
    rw [henc, length_append, length_append, length_append, hn1, hn2, hn3]
    omega
  rw [decodeChunkProof, bind_of_eq_ok h1, if_neg (by simp), bind_of_eq_ok h2,
    if_neg (by simp), if_neg (by rw [maxCBORItems]; dsimp only; omega),
    bind_of_eq_ok h3, if_neg (by simp), if_neg (by rw [maxProofPath]; dsimp only; omega),
    bind_of_eq_ok h4, if_neg (by dsimp only; omega)]

theorem decodeChunkProof_inv {b : Bytes} {index : Int} {path : List Digest}
    (h : decodeChunkProof b = .ok (index, path)) :
    0 ≤ index ∧ index ≤ 2 ^ 20 ∧ path.length ≤ 40 ∧ encodeChunkProof index path = b := by
  rw [decodeChunkProof] at h
  obtain ⟨h1, hr1, h⟩ := bind_eq_ok.mp h
  split at h
  · simp at h
  rename_i hc1
  obtain ⟨h2, hr2, h⟩ := bind_eq_ok.mp h
  split at h
  · simp at h
  rename_i hc2
  split at h
  · simp at h
  rename_i hc3
  obtain ⟨h3, hr3, h⟩ := bind_eq_ok.mp h
  split at h
  · simp at h
  rename_i hc4
  split at h
  · simp at h
  rename_i hc5
  obtain ⟨⟨path', off⟩, hr4, h⟩ := bind_eq_ok.mp h
  split at h
  · simp at h
  rename_i hoff
  injection h with h
  simp only [Prod.mk.injEq] at h
  obtain ⟨rfl, rfl⟩ := h
  rw [not_or, not_not, not_not] at hc1
  -- each head was in shortest form, so the bytes are the ones the encoder writes
  have b1 := (readHead_inv hr1).bytes
  have b2 := (readHead_inv hr2).bytes
  have b3 := (readHead_inv hr3).bytes
  obtain ⟨hl, hd⟩ := decodePath_inv _ hr4
  rw [hc1.1, hc1.2] at b1
  rw [not_not.mp hc2, drop_drop] at b2
  rw [not_not.mp hc4, drop_drop, ← hl] at b3
  dsimp only at hoff
  rw [not_not.mp hoff, drop_length, append_nil] at hd
  have hidx : ((h2.arg : Int) % 2 ^ 64).toNat = h2.arg := by
    have := (readHead_inv hr2).arg
    omega
  rw [maxCBORItems] at hc3
  rw [maxProofPath] at hc5
  refine ⟨by omega, by omega, by omega, ?_⟩
  rw [encodeChunkProof_eq, hidx, ← hd, ← b3, ← b2, ← b1]

/--
**The wire format is exact.** Everything within the bounds survives the round
trip, and every accepted body is the encoding of what it was read as.
-/
theorem chunkProof_wire_exact :
    (∀ (index : Nat) (path : List Digest), index ≤ 2 ^ 20 → path.length ≤ 40 →
      decodeChunkProof (encodeChunkProof index path) = .ok (index, path))
    ∧ ∀ (b : Bytes) (index : Int) (path : List Digest),
      decodeChunkProof b = .ok (index, path) → encodeChunkProof index path = b :=
  ⟨fun _ _ hi hp => decode_encodeChunkProof hi hp, fun _ _ _ h => (decodeChunkProof_inv h).2.2.2⟩

theorem chunkProof_wire_exact_leafB :
    decodeChunkProof (encodeChunkProof 0 [leafB]) = .ok (0, [leafB])
    ∧ encodeChunkProof 0 [leafB] = [0x82, 0x00, 0x81, 0x58, 0x20] ++ leafB.toList :=
  ⟨chunkProof_wire_exact.1 0 [leafB] (by decide) (by decide),
    chunkProof_wire_exact.2 _ 0 [leafB] (by decide +kernel)⟩

end VulosRelay.Proof
