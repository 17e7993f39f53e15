import VulosRelay.Proof.CborItems
import VulosRelay.Proof.RangeProofs
import VulosRelay.Pubcache.Verify

/-!
# Which addresses name one byte string

An announce or a chunk is addressed by the hash of its bytes, so two bodies that
verify at one address are a collision or the same. A manifest is addressed by
the Merkle root over its chunk list alone. Its verifier asks for the other
fields but compares them with nothing, so every address at which one manifest
verifies has others: `manifestBody` writes down one for every `size`.
-/

namespace VulosRelay.Proof

open VulosRelay.Pubcache List Except

def bodyInputs (blake3 : Bytes → Digest) : Kind → Bytes → List Bytes
  | .announce, body => [body]
  | .chunk, body => [body]
  | .manifest, body =>
    match parseManifest body with
    | .ok m => treeInputs blake3 m.2
    | .error _ => []

/--
The law the store relies on when it keeps the old body on a second `put`, at one
kind and address: without a collision among what is hashed, two bodies that
verify are one.
-/
def NamesOneBody (blake3 : Bytes → Digest) (kind : Kind) (a : Addr) : Prop :=
  ∀ b₁ b₂ : Bytes,
    CollisionFree blake3 (bodyInputs blake3 kind b₁ ++ bodyInputs blake3 kind b₂) →
    verify blake3 kind a b₁ = .ok () → verify blake3 kind a b₂ = .ok () → b₁ = b₂

variable {blake3 : Bytes → Digest}

theorem verify_hashed (hk : kind ≠ .manifest) (h : verify blake3 kind a body = .ok ()) :
    hashBytes blake3 body = a ∧ bodyInputs blake3 kind body = [body] := by
  cases kind with
  | manifest => exact absurd rfl hk
  | announce | chunk =>
    rw [verify] at h
    split at h
    · simp at h
    · rename_i heq
      exact ⟨not_not.mp heq, rfl⟩

theorem namesOneBody_hashed (hk : kind ≠ .manifest) : NamesOneBody blake3 kind a := by
  intro b₁ b₂ hcf h₁ h₂
  obtain ⟨e₁, i₁⟩ := verify_hashed hk h₁
  obtain ⟨e₂, i₂⟩ := verify_hashed hk h₂
  rw [i₁, i₂] at hcf
  have heq : blake3 b₁ = blake3 b₂ := by
    have := congrArg List.Vector.tail (e₁.trans e₂.symm)
    simpa [hashBytes] using this
  exact hcf b₁ (by simp) b₂ (by simp) heq

theorem readFields_chunks : ∀ (es : List CborEntry) {f f' : ManifestFields},
    (∀ chunks, f.chunks = some chunks → ChunkList chunks) → readFields f es = .ok f' →
    ∀ chunks, f'.chunks = some chunks → ChunkList chunks
  | [], f, f', hf, h => by
    rw [readFields] at h
    cases h
    exact hf
  | e :: es, f, f', hf, h => by
    rw [readFields] at h
    obtain ⟨g, hg, h⟩ := bind_eq_ok.mp h
    refine readFields_chunks es ?_ h
    -- only the `chunks` field of the manifest touches the list
    rw [ManifestFields.read] at hg
    split at hg
    · simp at hg
    split at hg
    · obtain ⟨_, _, hg⟩ := bind_eq_ok.mp hg
      split at hg
      · cases hg
        exact hf
      · simp at hg
    split at hg
    · obtain ⟨chunks, hc, hg⟩ := bind_eq_ok.mp hg
      cases hg
      intro cs hcs
      cases hcs
      exact parseAddrArray_inv hc
    split at hg
    · obtain ⟨_, _, hg⟩ := bind_eq_ok.mp hg
      cases hg
      exact hf
    split at hg
    · obtain ⟨_, _, hg⟩ := bind_eq_ok.mp hg
      cases hg
      exact hf
    split at hg
    · cases hg
      exact hf
    split at hg
    · simp at hg
    cases hg
    exact hf

variable {id : Addr}

theorem parseManifest_chunks {body : Bytes} {chunks : List Addr}
    (h : parseManifest body = .ok (id, chunks)) : ChunkList chunks := by
  rw [parseManifest] at h
  obtain ⟨es, _, h⟩ := bind_eq_ok.mp h
  obtain ⟨f, hf, h⟩ := bind_eq_ok.mp h
  have hno : ∀ cs, ManifestFields.empty.chunks = some cs → False := by
    intro cs hcs
    exact absurd hcs (by simp [ManifestFields.empty])
  have hinv := readFields_chunks es (fun cs hcs => (hno cs hcs).elim) hf
  split at h
  · rename_i id' cs _ hcs
    split at h
    · injection h with h
      simp only [Prod.mk.injEq] at h
      rw [← h.2]
      exact hinv cs hcs
    · simp at h
  · simp at h

theorem verify_manifest_inv (h : verify blake3 .manifest a body = .ok ()) :
    ∃ chunks, parseManifest body = .ok (a, chunks) ∧ ChunkList chunks
      ∧ manifestRoot blake3 chunks = some a := by
  rw [verify, bind_eq_ok] at h
  obtain ⟨cs, h, _⟩ := h
  rw [verifiedManifestChunks] at h
  obtain ⟨⟨id, chunks⟩, hm, h⟩ := bind_eq_ok.mp h
  split at h
  · simp at h
  rename_i root hrt
  split at h
  · simp at h
  rename_i hwn
  split at h
  · simp at h
  rename_i hid
  have hid' : id = a := not_not.mp hid
  subst hid'
  refine ⟨chunks, hm, parseManifest_chunks hm, ?_⟩
  rw [← not_not.mp hwn]
  exact hrt

def manifestFields (id : Addr) (size : Nat) (chunks : List Addr) : List CborEntry :=
  [⟨manifestKeyID, bytesItem id.toList⟩, ⟨manifestKeySize, uintItem size⟩,
   ⟨manifestKeyChunkSz, uintItem 1⟩, ⟨manifestKeyChunks, addrArrayItem chunks⟩,
   ⟨manifestKeySuite, uintItem 0⟩]

def manifestBody (id : Addr) (size : Nat) (chunks : List Addr) : Bytes :=
  encodeMap (manifestFields id size chunks)

theorem manifestBody_parses {size : Nat} {chunks : List Addr} (hs : size < 2 ^ 64)
    (hc : ChunkList chunks) :
    parseUintKeyedMap (manifestBody id size chunks) = .ok (manifestFields id size chunks) := by
  refine parseUintKeyedMap_encode ?_ ?_ ?_
  · show 5 ≤ maxCBORItems
    decide
  · exact ⟨rfl, rfl, rfl, rfl, rfl, trivial⟩
  have harr : IsItem maxCBORDepth (addrArrayItem chunks) := by
    refine @isItem_array 15 _ (by rw [length_map]; exact hc.length) ?_
    intro v hv
    obtain ⟨c, _, rfl⟩ := mem_map.mp hv
    exact @isItem_bytes 14 _ (by rw [c.toList_length]; decide)
  have hkey : ∀ k : Nat, k ≤ 6 → k < 2 ^ 64 := by omega
  intro e he
  simp only [manifestFields, mem_cons, not_mem_nil, or_false] at he
  rcases he with rfl | rfl | rfl | rfl | rfl
  · exact ⟨hkey manifestKeyID (by decide), @isItem_bytes 15 _ (by rw [id.toList_length]; decide)⟩
  · exact ⟨hkey manifestKeySize (by decide), @isItem_uint _ 15 hs⟩
  · exact ⟨hkey manifestKeyChunkSz (by decide), @isItem_uint 1 15 (by decide)⟩
  · exact ⟨hkey manifestKeyChunks (by decide), harr⟩
  · exact ⟨hkey manifestKeySuite (by decide), @isItem_uint 0 15 (by decide)⟩

/-! The fields of that body, one by one. -/

theorem read_id {f : ManifestFields} :
    f.read ⟨manifestKeyID, bytesItem id.toList⟩ = .ok { f with selfID := some id } := by
  have hhd := readHead_append cborMajorByteStr (by decide) 33 (by decide) id.toList
  have hitm : bytesItem id.toList = appendCBORUint [] cborMajorByteStr 33 ++ id.toList := by
    rw [bytesItem, id.toList_length]
  rw [← hitm] at hhd
  have hdr : (bytesItem id.toList).drop (appendCBORUint [] cborMajorByteStr 33).length
      = id.toList := by
    rw [hitm, drop_left]
  have hok : cborMajorByteStr = cborMajorByteStr ∧ 33 = addrLen
      ∧ ((bytesItem id.toList).drop (appendCBORUint [] cborMajorByteStr 33).length).length
        = addrLen := ⟨rfl, rfl, by rw [hdr, id.toList_length]; rfl⟩
  rw [ManifestFields.read, if_neg (by show ¬ manifestKeyID = _; decide), if_pos rfl,
    bind_of_eq_ok hhd, dif_pos hok]
  refine congrArg (fun a => ok { f with selfID := some a }) ?_
  exact List.Vector.eq _ _ hdr

theorem requireUintField_uintItem (hv : v < 2 ^ 64) (hb : bits < 64 → v < 2 ^ bits) :
    requireUintField (uintItem v) what bits = .ok v := by
  have hhd := readHead_append cborMajorUint (by decide) v hv []
  rw [append_nil] at hhd
  rw [requireUintField, uintItem, bind_of_eq_ok hhd, if_neg (by simp),
    if_neg (by simp), if_neg]
  intro hgv
  obtain ⟨h64, hge⟩ := hgv
  exact absurd (hb h64) (Nat.not_lt.mpr hge)

section

variable (f : ManifestFields)

theorem read_size (hs : size < 2 ^ 64) :
    f.read ⟨manifestKeySize, uintItem size⟩ = .ok { f with haveSize := true } := by
  rw [ManifestFields.read, if_neg (by show ¬ manifestKeySize = _; decide),
    if_neg (by show ¬ manifestKeySize = _; decide), if_neg (by show ¬ manifestKeySize = _; decide),
    if_pos rfl, bind_of_eq_ok (requireUintField_uintItem hs (by omega))]

theorem read_chunkSz :
    f.read ⟨manifestKeyChunkSz, uintItem 1⟩ = .ok { f with haveCsz := true } := by
  rw [ManifestFields.read, if_neg (by decide), if_neg (by decide), if_neg (by decide),
    if_neg (by decide), if_pos rfl,
    bind_of_eq_ok (requireUintField_uintItem (by decide) (by intro; decide))]

theorem read_chunks (hc : ChunkList chunks) :
    f.read ⟨manifestKeyChunks, addrArrayItem chunks⟩ = .ok { f with chunks := some chunks } := by
  rw [ManifestFields.read, if_neg (by show ¬ manifestKeyChunks = _; decide),
    if_neg (by show ¬ manifestKeyChunks = _; decide), if_pos rfl,
    bind_of_eq_ok (parseAddrArray_encode hc.nonempty hc.length hc.hashPrefix)]

theorem read_suite : f.read ⟨manifestKeySuite, uintItem 0⟩ = .ok { f with haveSuite := true } := by
  rw [ManifestFields.read, if_neg (by decide), if_neg (by decide), if_neg (by decide),
    if_neg (by decide), if_neg (by decide), if_pos rfl]

end

theorem verify_manifestBody {a : Addr} {size : Nat} {chunks : List Addr}
    (hs : size < 2 ^ 64) (hc : ChunkList chunks) (hrt : manifestRoot blake3 chunks = some a) :
    parseManifest (manifestBody a size chunks) = .ok (a, chunks)
      ∧ verify blake3 .manifest a (manifestBody a size chunks) = .ok () := by
  have hpr : parseManifest (manifestBody a size chunks) = .ok (a, chunks) := by
    rw [parseManifest, bind_of_eq_ok (manifestBody_parses hs hc), manifestFields,
      readFields, bind_of_eq_ok read_id,
      readFields, bind_of_eq_ok (read_size _ hs),
      readFields, bind_of_eq_ok (read_chunkSz _),
      readFields, bind_of_eq_ok (read_chunks _ hc),
      readFields, bind_of_eq_ok (read_suite _), readFields]
    rfl
  refine ⟨hpr, ?_⟩
  rw [verify, verifiedManifestChunks, bind_of_eq_ok hpr]
  rw [hrt]
  dsimp only
  rw [if_neg (not_not.mpr rfl), if_neg (not_not.mpr rfl)]
  rfl

theorem manifestBody_ne {a : Addr} {chunks : List Addr} :
    manifestBody a 0 chunks ≠ manifestBody a 1 chunks := by
  intro h
  simp only [manifestBody, encodeMap, manifestFields, flatMap_cons, length_cons,
    entryBytes, append_assoc, append_cancel_left_eq] at h
  rw [show uintItem 0 = [0x00] by decide, show uintItem 1 = [0x01] by decide, cons_append,
    cons_append] at h
  exact absurd (cons.inj h).1 (by decide)

/--
**An address names one byte string unless it names a manifest.** The law holds
at a kind and an address exactly when the kind is addressed by the hash of its
bytes, or no manifest verifies there at all.
-/
theorem namesOneBody_iff (blake3 : Bytes → Digest) (kind : Kind) (a : Addr) :
    NamesOneBody blake3 kind a
      ↔ kind ≠ .manifest
        ∨ ¬ ∃ body, verify blake3 .manifest a body = .ok ()
            ∧ CollisionFree blake3 (bodyInputs blake3 .manifest body) := by
  constructor
  · intro hlaw
    by_cases hk : kind = .manifest
    · refine .inr ?_
      intro hgv
      obtain ⟨body, hv, hcf⟩ := hgv
      subst hk
      obtain ⟨chunks, hm, hc, hrt⟩ := verify_manifest_inv hv
      obtain ⟨p₀, v₀⟩ := @verify_manifestBody _ _ 0 _ (by decide) hc hrt
      obtain ⟨p₁, v₁⟩ := @verify_manifestBody _ _ 1 _ (by decide) hc hrt
      -- all three bodies have the same chunk list, so the same byte strings are hashed
      have hin : bodyInputs blake3 .manifest body = treeInputs blake3 chunks := by
        rw [bodyInputs, hm]
      rw [hin] at hcf
      have heq := hlaw _ _ (by
        rw [bodyInputs, bodyInputs, p₀, p₁]
        intro x hx y hy
        exact hcf x ((mem_append.mp hx).elim id id) y ((mem_append.mp hy).elim id id))
        v₀ v₁
      exact manifestBody_ne heq
    · exact .inl hk
  · intro hgv
    rcases hgv with hk | hno
    · exact namesOneBody_hashed hk
    by_cases hk : kind = .manifest
    · subst hk
      intro b₁ b₂ hcf h₁ _
      exfalso
      refine hno ⟨b₁, h₁, ?_⟩
      intro x hx y hy
      exact hcf x (mem_append_left _ hx) y (mem_append_left _ hy)
    · exact namesOneBody_hashed hk

/--
The one-chunk blob `a` has two manifests at its address: same chunk list, same
id, sizes 0 and 1. BLAKE3 has its real values on everything that is hashed.
-/
theorem manifest_two_bodies :
    ∃ b₁ b₂ : Bytes, b₁ ≠ b₂
      ∧ verify knownBlake3 .manifest (hashPrefixBLAKE3 ::ᵥ leafA) b₁ = .ok ()
      ∧ verify knownBlake3 .manifest (hashPrefixBLAKE3 ::ᵥ leafA) b₂ = .ok ()
      ∧ CollisionFree knownBlake3
          (bodyInputs knownBlake3 .manifest b₁ ++ bodyInputs knownBlake3 .manifest b₂) := by
  refine ⟨manifestBody (hashPrefixBLAKE3 ::ᵥ leafA) 0 [hashPrefixBLAKE3 ::ᵥ digestA],
    manifestBody (hashPrefixBLAKE3 ::ᵥ leafA) 1 [hashPrefixBLAKE3 ::ᵥ digestA],
    manifestBody_ne, by decide, by decide, ?_⟩
  unfold CollisionFree
  decide

end VulosRelay.Proof
