import VulosRelay.Proof.ProofCodec

/-!
# The browser and the node accept the same proofs

`chunkProof.js` was written by hand next to `proof.go`, in a language whose
integers are doubles and whose bitwise operators work on 32 bits. The two are
compared function by function: `Mirrors` says that both fail or both succeed,
with results that are the same up to representation.

The numbers part in one place. A 64-bit head argument is rounded when it becomes
a `Number`, so the two heads carry different arguments from `2 ^ 53` on. Every
argument is compared with a bound far below that before it is used, and rounding
does not move a value across such a bound.
-/

namespace VulosRelay.Proof

open VulosRelay VulosRelay.Pubcache Wire JsNumber Outcome List Nat Except

theorem client_byteAt (h : b.drop off = b0 :: rest) (k : Nat) :
    Client.byteAt b (off + k) = (((b0 :: rest).getD k 0).toNat : Int) := by
  rw [Client.byteAt, getD_eq_getElem?_getD, getD_eq_getElem?_getD, ← h, getElem?_drop]

theorem client_foldBytes : ∀ (bs : Bytes) (v : Nat),
    bs.foldl (fun v x => v <<< 8 ||| x.toNat) v = v * 256 ^ bs.length + beUint bs
  | [], v => by simp [beUint]
  | x :: bs, v => by
    have hx : v <<< 8 ||| x.toNat = v * 256 + x.toNat := by
      rw [← shiftLeft_add_eq_or_of_lt (by have := x.toNat_lt; omega), shiftLeft_eq]
    rw [foldl_cons, client_foldBytes bs, hx, beUint, length_cons, pow_succ,
      add_mul, mul_assoc, mul_comm 256, add_assoc]

def clientHead (h : Head) : Client.Head :=
  { major := h.major.toNat, arg := toDouble h.arg, n := h.n }

theorem client_firstByte (b : UInt8) :
    sar32 b.toNat 5 = ((b >>> 5).toNat : Int)
      ∧ and32 b.toNat 0x1f = ((b &&& 0x1f).toNat : Int) := by
  have hb := b.toNat_lt
  constructor
  · rw [sar32_natCast (by omega)]
    rfl
  · exact and32_natCast b.toNat (b := 0x1f) (by omega)

variable {rest : Bytes}

theorem mirrors_readWide {b : Bytes} {off : Nat} {b0 : UInt8} {w narrower : Nat} {v : Int}
    {c : Prop} [Decidable c] {e₁ e₂ : Client.ChunkProofError} (h : b.drop off = b0 :: rest)
    (hn : narrower < 2 ^ 52) (hc : c ↔ v ≤ narrower)
    (hv : w ≤ rest.length → v = toDouble (beUint (rest.take w))) :
    Mirrors clientHead (readWide (b0 :: rest) (b0 >>> 5) w narrower)
      (if off + (1 + w) > b.length then .error e₁
       else if c then .error e₂
       else .ok { major := (b0 >>> 5).toNat, arg := v, n := 1 + w }) := by
  have hlen : (b0 :: rest).length = b.length - off := by rw [← h, length_drop]
  rw [length_cons] at hlen
  rw [readWide]
  refine .check (by rw [length_cons]; omega) fun hln => ?_
  rw [length_cons] at hln
  have hv' := hv (by omega)
  refine .check ?_ fun _ => .of_eq ?_
  · rw [hc, hv', toDouble_natCast_le_iff hn]
    rfl
  · rw [hv', clientHead]
    rfl

/-! The argument of each width, from the bytes after the first. -/

theorem client_wide1 (h : 1 ≤ rest.length) :
    ((rest.getD 0 0).toNat : Int) = toDouble (beUint (rest.take 1)) := by
  match rest, h with
  | x :: rest, _ =>
    have hx := x.toNat_lt
    simp only [getD_cons_zero, take_succ_cons, take_zero, beUint, length_nil]
    rw [toDouble_of_nonneg (by omega) (by omega)]
    omega

theorem client_wide2 (h : 2 ≤ rest.length) :
    or32 (shl32 (rest.getD 0 0).toNat 8) (rest.getD 1 0).toNat
      = toDouble (beUint (rest.take 2)) := by
  match rest, h with
  | x :: y :: rest, _ =>
    have hx := x.toNat_lt
    have hy := y.toNat_lt
    simp only [getD_cons_zero, getD_cons_succ, take_succ_cons, take_zero,
      beUint, length_nil, length_cons]
    rw [shl32_natCast (by omega), or32_natCast (by omega) (by omega), ← shiftLeft_eq,
      ← shiftLeft_add_eq_or_of_lt (by omega), shiftLeft_eq,
      toDouble_of_nonneg (by omega) (by omega)]
    omega

theorem client_wide4 (h : 4 ≤ rest.length) :
    toDouble (toDouble (toDouble (toUint32 (shl32 (rest.getD 0 0).toNat 24)
        + shl32 (rest.getD 1 0).toNat 16) + shl32 (rest.getD 2 0).toNat 8) + (rest.getD 3 0).toNat)
      = toDouble (beUint (rest.take 4)) := by
  match rest, h with
  | x :: y :: z :: u :: rest, _ =>
    have hx := x.toNat_lt
    have hy := y.toNat_lt
    have hz := z.toNat_lt
    have hu := u.toNat_lt
    simp only [getD_cons_zero, getD_cons_succ, take_succ_cons, take_zero,
      beUint, length_nil, length_cons]
    rw [toUint32_shl32 (by omega), shl32_natCast (by omega), shl32_natCast (by omega)]
    rw [toDouble_of_nonneg (i := ((x.toNat * 2 ^ 24 : Nat) : Int) + (y.toNat * 2 ^ 16 : Nat))
        (by omega) (by omega),
      toDouble_of_nonneg (i := _ + ((z.toNat * 2 ^ 8 : Nat) : Int)) (by omega) (by omega)]
    refine congrArg toDouble ?_
    omega

theorem mirrors_readHead {b : Bytes} (off : Nat) :
    Mirrors clientHead (readHead (b.drop off)) (Client.readHead b off) := by
  cases hd : b.drop off with
  | nil =>
    have hoff : b.length ≤ off := drop_eq_nil_iff.mp hd
    rw [readHead, Client.readHead, if_pos hoff]
    exact .error _ _
  | cons b0 rest =>
    have hoff : off < b.length := by
      have := congrArg length hd
      rw [length_drop, length_cons] at this
      omega
    have hby := client_byteAt hd
    obtain ⟨hmaj, hai⟩ := client_firstByte b0
    rw [readHead, Client.readHead, if_neg (show ¬ off ≥ b.length by omega)]
    have h0 : Client.byteAt b off = (b0.toNat : Int) := hby 0
    simp only [h0, hby, hmaj, hai, getD_cons_succ]
    -- the five tests on the low field, in the order both sides make them
    refine .ite ?_ (fun hlt => .of_eq ?_) fun _ => ?_
    · rw [UInt8.lt_iff_toNat_lt]
      exact Int.ofNat_lt.symm
    · have hbn := (b0 &&& 0x1f).toNat_lt
      rw [clientHead, toDouble_of_nonneg (by omega) (by dsimp only; omega)]
    refine .ite ?_ (fun _ => ?_) fun _ => ?_
    · rw [← UInt8.toNat_inj]
      exact Int.natCast_inj.symm
    · exact mirrors_readWide hd (by omega) (by omega) client_wide1
    refine .ite ?_ (fun _ => ?_) fun _ => ?_
    · rw [← UInt8.toNat_inj]
      exact Int.natCast_inj.symm
    · exact mirrors_readWide hd (by omega) Iff.rfl client_wide2
    refine .ite ?_ (fun _ => ?_) fun _ => ?_
    · rw [← UInt8.toNat_inj]
      exact Int.natCast_inj.symm
    · exact mirrors_readWide hd (by omega) Iff.rfl client_wide4
    refine .ite ?_ (fun _ => ?_) fun _ => .error _ _
    · rw [← UInt8.toNat_inj]
      exact Int.natCast_inj.symm
    refine mirrors_readWide hd (by omega) (toDouble_natCast_le_iff (by omega)).symm fun _ => ?_
    have hrs : b.drop (off + 1) = rest := by rw [← drop_drop, hd]; rfl
    rw [Client.bigUint64, hrs, client_foldBytes, zero_mul, zero_add]

/-! The checks on a head, in the browser's numbers. -/

theorem clientHead_major_ne (hk : k = (m.toNat : Int)) :
    h.major ≠ m ↔ (clientHead h).major ≠ k := by
  rw [hk, Ne, ← UInt8.toNat_inj]
  exact not_congr Int.natCast_inj.symm

variable {h : Head} {n : Nat}

theorem clientHead_arg_ne {k : Int} (hk : k = n) (hn : n < 2 ^ 52) :
    h.arg ≠ n ↔ (clientHead h).arg ≠ k := by
  rw [hk]
  exact not_congr (toDouble_natCast_eq_iff hn).symm

theorem clientHead_arg_gt {k : Int} (hk : k = n) (hn : n < 2 ^ 52) :
    h.arg > n ↔ (clientHead h).arg > k := by
  rw [hk, gt_iff_lt, gt_iff_lt, ← not_le, ← Int.not_le]
  exact not_congr (toDouble_natCast_le_iff hn).symm

theorem clientHead_arg (hn : h.arg < 2 ^ 52) : (clientHead h).arg = h.arg :=
  (toDouble_natCast_eq_iff hn).mpr rfl

def clientPath (out : List Digest × Nat) : List Bytes × Nat :=
  (out.1.map List.Vector.toList, out.2)

theorem mirrors_decodePath (b : Bytes) : ∀ left off : Nat,
    Mirrors clientPath (decodePath b left off) (Client.decodePath b left off)
  | 0, off => .ok _
  | left + 1, off => by
    rw [decodePath, Client.decodePath]
    refine (mirrors_readHead off).bind fun e _ => ?_
    have hlen := length_drop (i := off + e.n) (l := b)
    refine .check (or_congr (clientHead_major_ne rfl) (clientHead_arg_ne rfl (by decide)))
      fun hchk => ?_
    rw [not_or, not_not, not_not, digestLen] at hchk
    have harg : (clientHead e).arg = 32 := by rw [clientHead_arg (by omega), hchk.2]; rfl
    rw [harg]
    by_cases hfit : 32 ≤ (b.drop (off + e.n)).length
    · rw [dif_pos hfit, if_neg (by show ¬ (_ - ((off + e.n : Nat) : Int) < _); omega)]
      exact (mirrors_decodePath b left _).bind fun rest _ => .ok _
    · rw [dif_neg hfit, if_pos (by show _ - ((off + e.n : Nat) : Int) < _; omega)]
      exact .error _ _

theorem mirrors_decodeChunkProof (b : Bytes) :
    Mirrors (fun d : Int × List Digest => (d.1, d.2.map List.Vector.toList))
      (decodeChunkProof b) (Client.decodeChunkProof b) := by
  rw [decodeChunkProof, Client.decodeChunkProof]
  refine (mirrors_readHead 0).bind fun h _ => ?_
  refine .check (or_congr (clientHead_major_ne rfl) (clientHead_arg_ne rfl (by decide)))
    fun _ => ?_
  refine (mirrors_readHead h.n).bind fun i _ => ?_
  refine .check (clientHead_major_ne rfl) fun _ => ?_
  refine .check (clientHead_arg_gt (by decide) (by decide)) fun hi => ?_
  refine (mirrors_readHead (h.n + i.n)).bind fun p _ => ?_
  refine .check (clientHead_major_ne rfl) fun _ => ?_
  refine .check (clientHead_arg_gt rfl (by decide)) fun hp => ?_
  rw [maxCBORItems] at hi
  rw [maxProofPath] at hp
  rw [clientHead_arg (h := p) (by omega), clientHead_arg (h := i) (by omega), Int.toNat_natCast]
  refine (mirrors_decodePath b p.arg _).bind fun out _ => ?_
  exact .check Iff.rfl fun _ => .ok _

theorem client_pathDigests : ∀ path : List Digest,
    Client.pathDigests (path.map List.Vector.toList) = .ok path
  | [] => rfl
  | h :: path => by
    rw [map_cons, Client.pathDigests, dif_pos h.toList_length,
      bind_of_eq_ok (client_pathDigests path)]
    rfl

theorem client_merkleLeaf :
    Client.merkleLeaf blake3 = merkleLeaf blake3 := by
  have hds : Client.dsManifest = dsManifest := by decide
  funext h
  rw [Client.merkleLeaf, hds]
  rfl

theorem client_merkleNode :
    Client.merkleNode blake3 = merkleNode blake3 := by
  have hds : Client.dsManifest = dsManifest := by decide
  funext l r
  rw [Client.merkleNode, hds]
  rfl

theorem mirrors_verifyLoop (node : Digest → Digest → Digest) (path : List Digest) :
    ∀ (fuel cur levelLen used : Nat) (x : Digest), cur < 2 ^ 31 → levelLen < 2 ^ 53 →
      Mirrors id (verifyLoop node path fuel cur levelLen used x)
        (Client.verifyLoop node path fuel cur levelLen used x)
  | 0, cur, levelLen, used, x, _, _ => .ok _
  | fuel + 1, cur, levelLen, used, x, hcur, hlen => by
    -- neither the halving nor the sum leaves the doubles that are exact integers
    have hhl : half cur = ((cur / 2 : Nat) : Int) := by rw [half]; omega
    have hnx : half (toDouble (levelLen + 1)) = (((levelLen + 1) / 2 : Nat) : Int) := by
      rw [toDouble_of_nonneg (by omega) (by omega), half]; omega
    have hpar : ((cur : Int).tmod 2 = 0) ↔ cur % 2 = 0 := by
      rw [Int.tmod_eq_emod_of_nonneg (by omega)]; omega
    rw [verifyLoop, Client.verifyLoop, hhl, hnx]
    refine .ite (by omega) (fun _ => ?_) fun _ => .ok _
    refine .ite ?_ (fun _ => ?_) fun _ => ?_
    · have hxor : xor32 cur 1 = ((cur ^^^ 1 : Nat) : Int) :=
          xor32_natCast (b := 1) hcur (by decide)
      rw [hxor]
      omega
    · cases path[used]? with
      | none => exact .error _ _
      | some s =>
        simp only [hpar]
        exact mirrors_verifyLoop node path fuel _ _ _ _ (by omega) (by omega)
    · exact mirrors_verifyLoop node path fuel _ _ _ _ (by omega) (by omega)

theorem mirrors_verifyChunkProof {blake3 : Bytes → Digest} {root : Addr} {input : Client.AddrInput}
    (hrt : Client.toAddr input = .ok root) {i : Nat} (hn : n < 2 ^ 53) (hi : i < 2 ^ 31)
    {chunk : Bytes} {path : List Digest} :
    Mirrors id (verifyChunkProof blake3 root n i chunk path)
      (Client.verifyChunkProof blake3 input (.ofInt n) (.ofInt i) chunk
        (path.map List.Vector.toList)) := by
  rw [verifyChunkProof, Client.verifyChunkProof, bind_of_eq_ok hrt,
    Number.toInteger?_ofInt, Number.toInteger?_ofInt]
  refine .check Iff.rfl fun _ => ?_
  refine .check Iff.rfl fun _ => ?_
  refine .check (by rw [length_map, maxProofPath, Client.maxProofPath]; omega) fun _ => ?_
  rw [bind_of_eq_ok (client_pathDigests path), client_merkleLeaf, client_merkleNode,
    Int.toNat_natCast, Int.toNat_natCast]
  refine (mirrors_verifyLoop _ path n i n 0 _ hi hn).bind fun r _ => ?_
  refine .check Iff.rfl fun _ => ?_
  exact .check Iff.rfl fun _ => .ok _

theorem client_utf16Length_string {a : Addr} : Client.utf16Length a.string = 44 := by
  have hun : ∀ c ∈ a.string.toList, (if c.toNat < 0x10000 then 1 else 2) = 1 := by
    intro c hc
    have hall : (Base64.alphabet.all fun d => decide (d.toNat < 0x10000)) = true := by
      decide
    exact if_pos (of_decide_eq_true (all_eq_true.mp hall c (Addr.mem_string hc)))
  rw [Client.utf16Length, map_congr_left hun, map_const', sum_replicate, a.string_toList_length]
  rfl

theorem client_toAddr {root : Addr} (hp : root.hashPrefix = hashPrefixBLAKE3)
    {input : Client.AddrInput} (h : input = .bytes root.toList ∨ input = .text root.string) :
    Client.toAddr input = .ok root := by
  have hlen : root.toList.length = Client.addrLen := root.toList_length
  rcases h with rfl | rfl
  · rw [Client.toAddr, dif_pos hlen]
    exact if_neg (not_not.mpr hp)
  have hfit : ¬ (root.string = "" ∨ Client.utf16Length root.string > 64) := by
    rw [client_utf16Length_string]
    exact not_or.mpr ⟨root.string_ne_empty, by omega⟩
  have hall : root.string.toList.all (fun c => Base64.alphabet.contains c) = true := by
    rw [all_eq_true]
    intro c hc
    exact contains_iff_mem.mpr (Addr.mem_string hc)
  rw [Client.toAddr, Client.parseAddr, if_neg hfit, if_neg (not_not.mpr hall), root.decode_string]
  dsimp only
  rw [dif_pos hlen]
  show (if root.hashPrefix ≠ hashPrefixBLAKE3 then _ else
    if root.string ≠ root.string then _ else _) = _
  rw [if_neg (not_not.mpr hp), if_neg (not_not.mpr rfl)]
  rfl

/--
**The browser accepts exactly what the node would.** For a trusted root and
count, a chunk and a proof body are accepted for a requested index if and only
if the node's decoder finds that index in the body and the node's verifier
accepts the chunk there. The index may be any number value at all.
-/
theorem verifyChunkResponse_iff (blake3 : Bytes → Digest) (root : Addr)
    (hp : root.hashPrefix = hashPrefixBLAKE3) (input : Client.AddrInput)
    (hin : input = .bytes root.toList ∨ input = .text root.string)
    (nChunks : Nat) (hn : nChunks < 2 ^ 53) (index : Number)
    (chunk proof : Bytes) :
    (∃ served, Client.verifyChunkResponse blake3 input (.ofInt nChunks) index chunk proof
        = .ok served)
      ↔ ∃ i path, decodeChunkProof proof = .ok (i, path) ∧ index = .ofInt i
          ∧ verifyChunkProof blake3 root nChunks i chunk path = .ok () := by
  have hrt := client_toAddr hp hin
  have hdec := mirrors_decodeChunkProof proof
  constructor
  · intro hgv
    obtain ⟨served, h⟩ := hgv
    rw [Client.verifyChunkResponse] at h
    obtain ⟨d, hd, h⟩ := bind_eq_ok.mp h
    obtain ⟨⟨i, path⟩, hgo, rfl⟩ := hdec.ok_iff.mp hd
    split at h
    · simp at h
    rename_i hidx
    have hind : index = .ofInt i := Number.strictEq_ofInt.mp (not_not.mp hidx)
    obtain ⟨u, hv, _⟩ := bind_eq_ok.mp h
    -- a decoded index is at most 2 ^ 20, so the 32-bit operators see it whole
    obtain ⟨h0, h20, _, _⟩ := decodeChunkProof_inv hgo
    obtain ⟨k, rfl⟩ := Int.eq_ofNat_of_zero_le h0
    rw [hind] at hv
    obtain ⟨u', hgov, _⟩ :=
      (mirrors_verifyChunkProof hrt hn (by omega)).ok_iff.mp hv
    exact ⟨k, path, hgo, hind, hgov⟩
  · intro hgv
    obtain ⟨i, path, hgo, rfl, hv⟩ := hgv
    obtain ⟨h0, h20, _, _⟩ := decodeChunkProof_inv hgo
    obtain ⟨k, rfl⟩ := Int.eq_ofNat_of_zero_le h0
    have hjs := (mirrors_verifyChunkProof hrt hn (i := k) (by omega)).ok_iff.mpr
      ⟨(), hv, rfl⟩
    refine ⟨chunk, ?_⟩
    rw [Client.verifyChunkResponse, bind_of_eq_ok (hdec.ok_iff.mpr ⟨_, hgo, rfl⟩),
      if_neg (not_not.mpr (Number.strictEq_ofInt.mpr rfl)), bind_of_eq_ok hjs]

theorem verifyChunkResponse_iff_chunksAB :
    ∃ served, Client.verifyChunkResponse knownBlake3
        (.bytes (hashPrefixBLAKE3 ::ᵥ nodeAB).toList) (.ofInt 2) (.ofInt 0) [0x61]
        (encodeChunkProof 0 [leafB]) = .ok served :=
  (verifyChunkResponse_iff knownBlake3 (hashPrefixBLAKE3 ::ᵥ nodeAB) rfl _ (.inl rfl) 2 (by decide)
    (.ofInt 0) [0x61] (encodeChunkProof 0 [leafB])).mpr
    ⟨0, [leafB], @decode_encodeChunkProof 0 [leafB] (by decide) (by decide), rfl, by decide⟩

end VulosRelay.Proof
