import VulosRelay.Pubcache.Cbor

/-!
# Heads have one spelling

`appendCBORUint` writes the shortest head for a value and `readHead` accepts no
other. Both directions are needed: `readHead_append` says what was written is
read back, `readHead_inv` says that whatever is read, the bytes consumed are the
bytes the writer would have produced.
-/

namespace VulosRelay.Proof

open VulosRelay.Pubcache Wire List UInt8

theorem firstByte_join (b : UInt8) : (b >>> 5) <<< 5 ||| (b &&& 0x1f) = b := by
  have hall : ∀ i : Fin 256,
      (ofNat i.val >>> 5) <<< 5 ||| (ofNat i.val &&& 0x1f) = ofNat i.val := by
    decide +kernel
  have h := hall ⟨b.toNat, b.toNat_lt⟩
  simpa using h

theorem firstByte_major_lt (b : UInt8) : (b >>> 5).toNat < 8 := by
  have hall : ∀ i : Fin 256, (ofNat i.val >>> 5).toNat < 8 := by decide +kernel
  have h := hall ⟨b.toNat, b.toNat_lt⟩
  simpa using h

theorem firstByte_split {m a : UInt8} (hm : m.toNat < 8) (ha : a.toNat < 32) :
    (m <<< 5 ||| a) >>> 5 = m ∧ (m <<< 5 ||| a) &&& 0x1f = a := by
  have hall : ∀ i : Fin 8, ∀ j : Fin 32,
      (ofNat i.val <<< 5 ||| ofNat j.val) >>> 5 = ofNat i.val
        ∧ (ofNat i.val <<< 5 ||| ofNat j.val) &&& 0x1f = ofNat j.val := by
    decide
  have h := hall ⟨m.toNat, hm⟩ ⟨a.toNat, ha⟩
  simpa using h

theorem appendCBORUint_eq (b : Bytes) (major : UInt8) (v : Nat) :
    appendCBORUint b major v = b ++ appendCBORUint [] major v := by
  unfold appendCBORUint
  split
  · rfl
  split
  · rfl
  split
  · rfl
  · split <;> rfl

/-- The wide heads: low field, number of bytes, and the largest value a narrower head holds. -/
inductive Wide : UInt8 → Nat → Nat → Prop where
  | one : Wide 24 1 23
  | two : Wide 25 2 0xff
  | four : Wide 26 4 0xffff
  | eight : Wide 27 8 0xffffffff

theorem exists_wide (hlo : ¬ v < 24) (hv : v < 2 ^ 64) :
    ∃ ai w narrower, Wide ai w narrower ∧ narrower < v ∧ v < 256 ^ w := by
  by_cases h1 : v ≤ 0xff
  · exact ⟨24, 1, 23, .one, by omega, by omega⟩
  by_cases h2 : v ≤ 0xffff
  · exact ⟨25, 2, 0xff, .two, by omega, by omega⟩
  by_cases h4 : v ≤ 0xffffffff
  · exact ⟨26, 4, 0xffff, .four, by omega, by omega⟩
  · exact ⟨27, 8, 0xffffffff, .eight, by omega, by omega⟩

variable {narrower : Nat}

theorem Wide.info_lt (h : Wide ai w narrower) : ai.toNat < 32 := by
  cases h with
  | one | two | four | eight => decide

theorem appendCBORUint_narrow (h : v < 24) :
    appendCBORUint [] major v = [major <<< 5 ||| ofNat v] :=
  if_pos h

theorem appendCBORUint_wide (h : Wide ai w narrower) (hlo : narrower < v) (hhi : v < 256 ^ w) :
    appendCBORUint [] major v = (major <<< 5 ||| ai) :: beBytes w v := by
  unfold appendCBORUint
  cases h with
  | one => rw [if_neg (by omega), if_pos (by omega)]; rfl
  | two => rw [if_neg (by omega), if_neg (by omega), if_pos (by omega)]; rfl
  | four => rw [if_neg (by omega), if_neg (by omega), if_neg (by omega), if_pos (by omega)]; rfl
  | eight => rw [if_neg (by omega), if_neg (by omega), if_neg (by omega), if_neg (by omega)]; rfl

theorem readHead_wide (h : Wide ai w narrower) (hai : b0 &&& 0x1f = ai) (rest : Bytes) :
    readHead (b0 :: rest) = readWide (b0 :: rest) (b0 >>> 5) w narrower := by
  rw [readHead, hai]
  cases h with
  | one | two | four | eight => rfl

theorem readWide_append {m a : UInt8} (hlo : narrower < v) (hhi : v < 256 ^ w) :
    readWide (a :: beBytes w v ++ rest) m w narrower
      = .ok { major := m, arg := v, n := 1 + w } := by
  have htk : ((a :: beBytes w v ++ rest).drop 1).take w = beBytes w v := by
    show (beBytes w v ++ rest).take w = beBytes w v
    rw [take_append_of_le_length (by simp), take_of_length_le (by simp)]
  have hval : beUint (beBytes w v) = v := by rw [beUint_beBytes, Nat.mod_eq_of_lt hhi]
  rw [readWide, htk, hval, if_neg (by simp; omega), if_neg (by omega)]

theorem readHead_append (major : UInt8) (hm : major.toNat < 8) (v : Nat) (hv : v < 2 ^ 64)
    (rest : Bytes) :
    readHead (appendCBORUint [] major v ++ rest)
      = .ok { major := major, arg := v, n := (appendCBORUint [] major v).length } := by
  by_cases hlt : v < 24
  · have ha : (ofNat v).toNat = v := by rw [toNat_ofNat']; omega
    obtain ⟨h1, h2⟩ := firstByte_split hm (a := ofNat v) (by omega)
    rw [appendCBORUint_narrow hlt, singleton_append, readHead]
    rw [h1, h2, if_pos (by rw [lt_iff_toNat_lt, ha]; exact hlt), ha]
    rfl
  · obtain ⟨ai, w, narrower, hw, hlo, hhi⟩ := exists_wide hlt hv
    obtain ⟨h1, h2⟩ := firstByte_split hm hw.info_lt
    rw [appendCBORUint_wide hw hlo hhi, cons_append, readHead_wide hw h2, h1,
      ← cons_append, readWide_append hlo hhi, length_cons, beBytes_length,
      Nat.add_comm]

structure HeadOf (b : Bytes) (h : Head) : Prop where
  major : h.major.toNat < 8
  arg : h.arg < 2 ^ 64
  bytes : b = appendCBORUint [] h.major h.arg ++ b.drop h.n
  n : h.n = (appendCBORUint [] h.major h.arg).length

theorem readWide_inv (hr : readWide (b0 :: rest) (b0 >>> 5) w narrower = .ok h)
    (hai : b0 &&& 0x1f = ai) :
    h.major = b0 >>> 5 ∧ narrower < h.arg ∧ h.arg < 256 ^ w ∧ h.n = 1 + w
      ∧ b0 :: rest = (h.major <<< 5 ||| ai) :: beBytes w h.arg ++ (b0 :: rest).drop h.n := by
  rw [readWide] at hr
  split at hr
  · simp at hr
  rename_i hlen
  split at hr
  · simp at hr
  rename_i hmin
  cases hr
  simp only [length_cons] at hlen
  have hw : (rest.take w).length = w := length_take_of_le (by omega)
  have hdr : (b0 :: rest).drop 1 = rest := rfl
  rw [hdr] at hmin ⊢
  have hlt := beUint_lt (rest.take w)
  rw [hw] at hlt
  refine ⟨rfl, Nat.lt_of_not_le hmin, hlt, rfl, ?_⟩
  have hby : beBytes w (beUint (rest.take w)) = rest.take w := by
    have := beBytes_beUint (rest.take w)
    rwa [hw] at this
  rw [← hai, firstByte_join, hby, show 1 + w = w + 1 by omega, drop_succ_cons,
    cons_append, take_append_drop]

theorem headOf_wide (hw : Wide ai w narrower) (hai : b0 &&& 0x1f = ai)
    (hr : readHead (b0 :: rest) = .ok h) :
    HeadOf (b0 :: rest) h := by
  rw [readHead_wide hw hai] at hr
  obtain ⟨hmj, hlo, hhi, hn, hby⟩ := readWide_inv hr hai
  have happ : appendCBORUint [] h.major h.arg = (h.major <<< 5 ||| ai) :: beBytes w h.arg :=
    appendCBORUint_wide hw hlo hhi
  refine ⟨hmj ▸ firstByte_major_lt b0, ?_, ?_, ?_⟩
  · cases hw with
    | one | two | four | eight => omega
  · rw [happ]
    exact hby
  · rw [happ, hn, length_cons, beBytes_length, Nat.add_comm]

theorem readHead_inv (hr : readHead b = .ok h) : HeadOf b h := by
  match b with
  | [] => exact absurd hr (by simp [readHead])
  | b0 :: rest =>
    by_cases hlt : b0 &&& 0x1f < 24
    · -- the argument sits in the first byte
      rw [readHead, if_pos hlt] at hr
      cases hr
      rw [lt_iff_toNat_lt] at hlt
      have happ : appendCBORUint [] (b0 >>> 5) (b0 &&& 0x1f).toNat = [b0] := by
        rw [appendCBORUint_narrow hlt, UInt8.ofNat_toNat, firstByte_join]
      refine ⟨firstByte_major_lt b0, lt_of_lt_of_le hlt (by decide), ?_, ?_⟩
      all_goals
        rw [happ]
        rfl
    by_cases h1 : b0 &&& 0x1f = 24
    · exact headOf_wide .one h1 hr
    by_cases h2 : b0 &&& 0x1f = 25
    · exact headOf_wide .two h2 hr
    by_cases h4 : b0 &&& 0x1f = 26
    · exact headOf_wide .four h4 hr
    by_cases h8 : b0 &&& 0x1f = 27
    · exact headOf_wide .eight h8 hr
    · rw [readHead, if_neg hlt, if_neg h1, if_neg h2, if_neg h4, if_neg h8] at hr
      simp at hr

end VulosRelay.Proof
