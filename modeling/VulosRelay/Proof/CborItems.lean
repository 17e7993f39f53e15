import VulosRelay.Proof.CborHeads

/-!
# Items and maps in shortest form are accepted

The scanner is strict, so what it accepts has to be shown: an unsigned integer,
a byte string and an array of such items, each written with the shortest heads,
are skipped in full, and a map with ascending integer keys over such items is
parsed into exactly its entries.

`IsItem levels v` says that `v` is one item as far as the scanner can tell,
whatever bytes follow it. The loops below work at an offset into the whole
buffer, so their lemmas speak about the bytes left from there on.
-/

namespace VulosRelay.Proof

open VulosRelay.Pubcache List Except

def IsItem (levels : Nat) (v : Bytes) : Prop :=
  ∀ rest, skipLevels levels (v ++ rest) = .ok v.length

def uintItem (v : Nat) : Bytes := appendCBORUint [] cborMajorUint v

def bytesItem (bs : Bytes) : Bytes := appendCBORUint [] cborMajorByteStr bs.length ++ bs

def arrayItem (vs : List Bytes) : Bytes := appendCBORUint [] cborMajorArray vs.length ++ vs.flatten

def entryBytes (e : CborEntry) : Bytes := uintItem e.key ++ e.val

def encodeMap (es : List CborEntry) : Bytes :=
  appendCBORUint [] cborMajorMap es.length ++ es.flatMap entryBytes

theorem isItem_uint (hv : v < 2 ^ 64) : IsItem (levels + 1) (uintItem v) := by
  intro rest
  rw [skipLevels, uintItem,
    bind_of_eq_ok (readHead_append cborMajorUint (by decide) v hv rest),
    if_pos (.inl rfl)]

theorem isItem_bytes (hb : bs.length < 2 ^ 64) : IsItem (levels + 1) (bytesItem bs) := by
  intro rest
  have hhd := readHead_append cborMajorByteStr (by decide) bs.length hb (bs ++ rest)
  rw [← append_assoc] at hhd
  rw [skipLevels, bytesItem, bind_of_eq_ok hhd, if_neg (by dsimp only; decide),
    if_pos (.inl rfl), if_neg ?_, length_append]
  rw [length_append, length_append]
  dsimp only
  omega

theorem skipItems_flatten {levels : Nat} {b rest : Bytes} : ∀ (vs : List Bytes) (off : Nat),
    (∀ v ∈ vs, IsItem levels v) → b.drop off = vs.flatten ++ rest →
    skipItems (skipLevels levels) b vs.length off = .ok (off + vs.flatten.length)
  | [], off, _, _ => by rw [length_nil, skipItems, flatten_nil, length_nil]; rfl
  | v :: vs, off, hitm, hb => by
    rw [flatten_cons, append_assoc] at hb
    have hv := hitm v (.head _) (vs.flatten ++ rest)
    rw [← hb] at hv
    have hdr : b.drop (off + v.length) = vs.flatten ++ rest := by
      rw [← drop_drop, hb, drop_left]
    have ih := skipItems_flatten vs (off + v.length)
      (fun w hw => hitm w (.tail _ hw)) hdr
    rw [length_cons, skipItems, bind_of_eq_ok hv, ih, flatten_cons,
      length_append, Nat.add_assoc]

theorem isItem_array {levels : Nat} {vs : List Bytes} (hlen : vs.length ≤ maxCBORItems)
    (hitm : ∀ v ∈ vs, IsItem levels v) : IsItem (levels + 1) (arrayItem vs) := by
  intro rest
  rw [maxCBORItems] at hlen
  have hhd := readHead_append cborMajorArray (by decide) vs.length (by omega) (vs.flatten ++ rest)
  rw [← append_assoc] at hhd
  rw [skipLevels, arrayItem, bind_of_eq_ok hhd, if_neg (by dsimp only; decide),
    if_neg (by dsimp only; decide), if_pos (.inl rfl)]
  dsimp only
  rw [if_neg (show ¬ cborMajorArray = 5 by decide), if_neg (by rw [maxCBORItems]; omega)]
  rw [@skipItems_flatten levels _ rest vs _ hitm ?_, length_append]
  rw [append_assoc, drop_left]

def AscendingFrom : Option Nat → List CborEntry → Prop
  | _, [] => True
  | prev, e :: es => prev.any (fun p => e.key ≤ p) = false ∧ AscendingFrom (some e.key) es

theorem parseEntries_encode : ∀ (es : List CborEntry) (prev : Option Nat)
    (off : Nat), AscendingFrom prev es → (∀ e ∈ es, e.key < 2 ^ 64 ∧ IsItem maxCBORDepth e.val) →
    b.drop off = es.flatMap entryBytes ++ rest →
    parseEntries b es.length prev off = .ok (es, off + (es.flatMap entryBytes).length)
  | [], prev, off, _, _, _ => rfl
  | e :: es, prev, off, hasc, hitm, hb => by
    obtain ⟨hkey, hval⟩ := hitm e (.head _)
    rw [flatMap_cons, entryBytes, append_assoc, append_assoc] at hb
    have hhd := readHead_append cborMajorUint (by decide) e.key hkey
      (e.val ++ (es.flatMap entryBytes ++ rest))
    rw [show appendCBORUint [] cborMajorUint e.key = uintItem e.key from rfl, ← hb] at hhd
    -- what is left after the key, and after the value
    have hd1 : b.drop (off + (uintItem e.key).length)
        = e.val ++ (es.flatMap entryBytes ++ rest) := by
      rw [← drop_drop, hb, drop_left]
    have hsk : skipValue (b.drop (off + (uintItem e.key).length)) 1 = .ok e.val.length := by
      rw [hd1]
      exact hval _
    have hd2 : b.drop (off + (uintItem e.key).length + e.val.length)
        = es.flatMap entryBytes ++ rest := by
      rw [← drop_drop, hd1, drop_left]
    have ih := parseEntries_encode es (some e.key) _ hasc.2
      (fun x hx => hitm x (.tail _ hx)) hd2
    rw [length_cons, parseEntries, bind_of_eq_ok hhd, if_neg (by simp),
      if_neg (by dsimp only; rw [hasc.1]; decide), bind_of_eq_ok hsk,
      bind_of_eq_ok ih, hd1, take_left, flatMap_cons, entryBytes,
      length_append, length_append]
    congr 2
    omega

theorem parseUintKeyedMap_encode (hlen : es.length ≤ maxCBORItems) (hasc : AscendingFrom none es)
    (hitm : ∀ e ∈ es, e.key < 2 ^ 64 ∧ IsItem maxCBORDepth e.val) :
    parseUintKeyedMap (encodeMap es) = .ok es := by
  rw [maxCBORItems] at hlen
  have hhd := readHead_append cborMajorMap (by decide) es.length (by omega)
    (es.flatMap entryBytes)
  have hdr : (encodeMap es).drop (appendCBORUint [] cborMajorMap es.length).length
      = es.flatMap entryBytes ++ [] := by
    rw [encodeMap, drop_left, append_nil]
  rw [parseUintKeyedMap, encodeMap, bind_of_eq_ok hhd, if_neg (by simp),
    if_neg (by dsimp only; rw [maxCBORItems]; omega), ← encodeMap,
    bind_of_eq_ok (parseEntries_encode es none _ hasc hitm hdr), if_neg (by
      rw [encodeMap, length_append]; exact not_not.mpr rfl)]

def addrArrayItem (chunks : List Addr) : Bytes :=
  arrayItem (chunks.map fun a => bytesItem a.toList)

theorem parseAddrs_encode : ∀ (chunks : List Addr) (off : Nat),
    (∀ a ∈ chunks, a.hashPrefix = hashPrefixBLAKE3) →
    b.drop off = (chunks.map fun a => bytesItem a.toList).flatten ++ rest →
    parseAddrs b chunks.length off
      = .ok (chunks, off + (chunks.map fun a => bytesItem a.toList).flatten.length)
  | [], off, _, _ => rfl
  | a :: chunks, off, hpre, hb => by
    rw [map_cons, flatten_cons, bytesItem, a.toList_length, append_assoc, append_assoc] at hb
    have hhd := readHead_append cborMajorByteStr (by decide) 33 (by decide)
      (a.toList ++ ((chunks.map fun a => bytesItem a.toList).flatten ++ rest))
    rw [← hb] at hhd
    -- only the length of the head matters from here on
    generalize hn : (appendCBORUint [] cborMajorByteStr 33).length = n at hhd
    have hd1 : b.drop (off + n)
        = a.toList ++ ((chunks.map fun a => bytesItem a.toList).flatten ++ rest) := by
      rw [← drop_drop, hb, ← hn, drop_left]
    have hd2 : b.drop (off + n + addrLen)
        = (chunks.map fun a => bytesItem a.toList).flatten ++ rest := by
      rw [← drop_drop, hd1]
      exact drop_left' a.toList_length
    have ih := parseAddrs_encode chunks (off + n + addrLen)
      (fun c hc => hpre c (.tail _ hc)) hd2
    have hlen : addrLen ≤ (b.drop (off + n)).length := by
      rw [hd1, length_append, a.toList_length, addrLen, digestLen]; omega
    have hvec : Addr.ofBytes ((b.drop (off + n)).take 33) (length_take_of_le hlen) = a := by
      apply List.Vector.eq
      rw [Addr.toList_ofBytes, hd1]
      exact take_left' a.toList_length
    rw [length_cons, parseAddrs, bind_of_eq_ok hhd, if_neg (by simp), dif_pos ⟨rfl, hlen⟩]
    rw [hvec, if_neg (not_not.mpr (hpre a (.head _))), bind_of_eq_ok ih,
      map_cons, flatten_cons, length_append, bytesItem, a.toList_length,
      length_append, a.toList_length, hn]
    congr 2
    rw [addrLen, digestLen]
    omega

theorem parseAddrArray_encode (hne : chunks ≠ []) (hlen : chunks.length ≤ maxCBORItems)
    (hpre : ∀ a ∈ chunks, a.hashPrefix = hashPrefixBLAKE3) :
    parseAddrArray (addrArrayItem chunks) = .ok chunks := by
  rw [maxCBORItems] at hlen
  have hpos : chunks.length ≠ 0 := fun h => hne (length_eq_zero_iff.mp h)
  have hhd := readHead_append cborMajorArray (by decide) chunks.length (by omega)
    (chunks.map fun a => bytesItem a.toList).flatten
  have hdr : (addrArrayItem chunks).drop (appendCBORUint [] cborMajorArray chunks.length).length
      = (chunks.map fun a => bytesItem a.toList).flatten ++ [] := by
    rw [addrArrayItem, arrayItem, length_map, drop_left, append_nil]
  have hby : addrArrayItem chunks = appendCBORUint [] cborMajorArray chunks.length
      ++ (chunks.map fun a => bytesItem a.toList).flatten := by
    rw [addrArrayItem, arrayItem, length_map]
  rw [← hby] at hhd
  rw [parseAddrArray, bind_of_eq_ok hhd, if_neg (by simp), if_neg hpos,
    if_neg (by dsimp only; rw [maxCBORItems]; omega),
    bind_of_eq_ok (parseAddrs_encode chunks _ hpre hdr), if_neg (by
      rw [hby, length_append]; exact not_not.mpr rfl)]

structure ChunkList (chunks : List Addr) : Prop where
  nonempty : chunks ≠ []
  length : chunks.length ≤ maxCBORItems
  hashPrefix : ∀ a ∈ chunks, a.hashPrefix = hashPrefixBLAKE3

theorem parseAddrs_inv : ∀ (left off : Nat) {chunks : List Addr} {off' : Nat},
    parseAddrs b left off = .ok (chunks, off') →
    chunks.length = left ∧ ∀ a ∈ chunks, a.hashPrefix = hashPrefixBLAKE3
  | 0, off, chunks, off', h => by
    rw [parseAddrs] at h
    injection h with h
    simp only [Prod.mk.injEq] at h
    rw [← h.1]
    exact ⟨rfl, by simp⟩
  | left + 1, off, chunks, off', h => by
    rw [parseAddrs] at h
    obtain ⟨e, _, h⟩ := bind_eq_ok.mp h
    split at h
    · simp at h
    split at h
    · dsimp only at h
      split at h
      · simp at h
      rename_i hp
      obtain ⟨⟨rest, _⟩, hrs, h⟩ := bind_eq_ok.mp h
      injection h with h
      simp only [Prod.mk.injEq] at h
      -- the loop checked this element before it went on to the rest
      obtain ⟨hl, hall⟩ := parseAddrs_inv left _ hrs
      rw [← h.1]
      refine ⟨by rw [length_cons, hl], ?_⟩
      intro a ha
      rcases mem_cons.mp ha with rfl | ha
      · exact not_not.mp hp
      · exact hall a ha
    · simp at h

theorem parseAddrArray_inv (h : parseAddrArray b = .ok chunks) : ChunkList chunks := by
  rw [parseAddrArray] at h
  obtain ⟨e, _, h⟩ := bind_eq_ok.mp h
  split at h
  · simp at h
  split at h
  · simp at h
  rename_i hzr
  split at h
  · simp at h
  obtain ⟨⟨out, _⟩, hout, h⟩ := bind_eq_ok.mp h
  split at h
  · simp at h
  injection h with h
  obtain ⟨hl, hall⟩ := parseAddrs_inv _ _ hout
  rw [← h]
  refine ⟨?_, by dsimp only; omega, hall⟩
  intro h0
  rw [show out = [] from h0, length_nil] at hl
  exact hzr hl.symm

end VulosRelay.Proof
