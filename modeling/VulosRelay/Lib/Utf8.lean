import Mathlib.Data.List.Basic

/-!
# UTF-8, read leniently

`String::from_utf8_lossy`. A byte sequence is read from the left. A complete encoding of a
character is that character; where the bytes stop being the beginning of one, what was read
of it becomes one replacement character, and the byte that did not fit is read anew.
-/

namespace Utf8

open List UInt8

def encode (s : List Char) : List UInt8 := s.flatMap String.utf8EncodeChar

def isContinuation (b : UInt8) : Bool := 0x80 ≤ b && b ≤ 0xBF

def width (b : UInt8) : Nat :=
  if b < 0x80 then 1
  else if 0xC2 ≤ b ∧ b ≤ 0xDF then 2
  else if 0xE0 ≤ b ∧ b ≤ 0xEF then 3
  else if 0xF0 ≤ b ∧ b ≤ 0xF4 then 4
  else 0

/-- The bytes that may stand second after a first byte of a long encoding: neither an
overlong form, nor a surrogate, nor beyond the last code point. -/
def isSecond (first b : UInt8) : Bool :=
  if first = 0xE0 then 0xA0 ≤ b && b ≤ 0xBF
  else if first = 0xED then 0x80 ≤ b && b ≤ 0x9F
  else if first = 0xF0 then 0x90 ≤ b && b ≤ 0xBF
  else if first = 0xF4 then 0x80 ≤ b && b ≤ 0x8F
  else isContinuation b

def replacement : Char := Char.ofNat 0xFFFD

def char2 (b c : UInt8) : Char := Char.ofNat ((b.toNat - 0xC0) * 64 + (c.toNat - 0x80))

def char3 (b c d : UInt8) : Char :=
  Char.ofNat (((b.toNat - 0xE0) * 64 + (c.toNat - 0x80)) * 64 + (d.toNat - 0x80))

def char4 (b c d e : UInt8) : Char :=
  Char.ofNat ((((b.toNat - 0xF0) * 64 + (c.toNat - 0x80)) * 64 + (d.toNat - 0x80)) * 64
    + (e.toNat - 0x80))

def decodeLossy : List UInt8 → List Char
  | [] => []
  | b :: rest =>
    match width b with
    | 1 => Char.ofNat b.toNat :: decodeLossy rest
    | 2 =>
      match rest with
      | [] => [replacement]
      | c :: rest' =>
        if isContinuation c then char2 b c :: decodeLossy rest'
        else replacement :: decodeLossy (c :: rest')
    | 3 =>
      match rest with
      | [] => [replacement]
      | c :: rest' =>
        if isSecond b c then
          match rest' with
          | [] => [replacement]
          | d :: rest'' =>
            if isContinuation d then char3 b c d :: decodeLossy rest''
            else replacement :: decodeLossy (d :: rest'')
        else replacement :: decodeLossy (c :: rest')
    | 4 =>
      match rest with
      | [] => [replacement]
      | c :: rest' =>
        if isSecond b c then
          match rest' with
          | [] => [replacement]
          | d :: rest'' =>
            if isContinuation d then
              match rest'' with
              | [] => [replacement]
              | e :: rest''' =>
                if isContinuation e then char4 b c d e :: decodeLossy rest'''
                else replacement :: decodeLossy (e :: rest''')
            else replacement :: decodeLossy (d :: rest'')
        else replacement :: decodeLossy (c :: rest')
    | _ => replacement :: decodeLossy rest

section
variable {n m k l : Nat} {rest : List UInt8}

theorem toNat_byte (h : n < 256) : (ofNat n).toNat = n := toNat_ofNat_of_lt' h

theorem width_byte (h : n < 256) :
    width (ofNat n) = if n < 0x80 then 1 else if 0xC2 ≤ n ∧ n ≤ 0xDF then 2
      else if 0xE0 ≤ n ∧ n ≤ 0xEF then 3 else if 0xF0 ≤ n ∧ n ≤ 0xF4 then 4 else 0 := by
  simp only [width, lt_iff_toNat_lt, le_iff_toNat_le, toNat_byte h]
  rfl

theorem isContinuation_byte (h : n < 64) : isContinuation (ofNat (n + 128)) = true := by
  simp only [isContinuation, Bool.and_eq_true, decide_eq_true_eq, le_iff_toNat_le,
    toNat_byte (show n + 128 < 256 by omega)]
  exact ⟨Nat.le_add_left .., Nat.add_le_add_right (show n ≤ 63 by omega) 128⟩

theorem byte_eq_iff (h : n < 256) {b : UInt8} : UInt8.ofNat n = b ↔ n = b.toNat := by
  rw [← UInt8.toNat_inj, toNat_byte h]

theorem isSecond_byte (hn : n < 256) (hm : m < 64)
    (h : (n = 0xE0 → 32 ≤ m) ∧ (n = 0xED → m < 32) ∧ (n = 0xF0 → 16 ≤ m) ∧ (n = 0xF4 → m < 16)) :
    isSecond (ofNat n) (ofNat (m + 128)) = true := by
  have hle (a b : UInt8) (ha : a.toNat ≤ m + 128) (hb : m + 128 ≤ b.toNat) :
      (decide (a ≤ ofNat (m + 128)) && decide (ofNat (m + 128) ≤ b)) = true := by
    simp only [Bool.and_eq_true, decide_eq_true_eq, le_iff_toNat_le,
      toNat_byte (show m + 128 < 256 by omega)]
    exact ⟨ha, hb⟩
  rw [isSecond]
  simp only [byte_eq_iff hn]
  split
  · rename_i hfst
    exact hle 0xA0 0xBF (by have := h.1 hfst; show 160 ≤ _; omega) (by show _ ≤ 191; omega)
  split
  · rename_i hfst
    exact hle 0x80 0x9F (by show 128 ≤ _; omega)
      (by have := h.2.1 hfst; show _ ≤ 159; omega)
  split
  · rename_i hfst
    exact hle 0x90 0xBF (by have := h.2.2.1 hfst; show 144 ≤ _; omega)
      (by show _ ≤ 191; omega)
  split
  · rename_i hfst
    exact hle 0x80 0x8F (by show 128 ≤ _; omega)
      (by have := h.2.2.2 hfst; show _ ≤ 143; omega)
  · exact isContinuation_byte hm

end

theorem decodeLossy_one (h : n < 128) :
    decodeLossy (ofNat n :: rest) = Char.ofNat n :: decodeLossy rest := by
  rw [decodeLossy.eq_def]
  dsimp only
  rw [width_byte (by omega), if_pos h, toNat_byte (by omega)]
  rfl

theorem decodeLossy_two (hn : 2 ≤ n) (hn' : n < 32) (hm : m < 64) :
    decodeLossy (ofNat (n + 192) :: ofNat (m + 128) :: rest)
      = Char.ofNat (n * 64 + m) :: decodeLossy rest := by
  have hwd : width (ofNat (n + 192)) = 2 := by
    rw [width_byte (by omega), if_neg (by omega), if_pos (by omega)]
  rw [decodeLossy.eq_def]
  simp only [hwd]
  rw [if_pos (isContinuation_byte hm), char2, toNat_byte (by omega), toNat_byte (by omega),
    show (n + 192 - 0xC0) * 64 + (m + 128 - 0x80) = n * 64 + m by omega]

theorem decodeLossy_three (hn : n < 16) (hm : m < 64) (hk : k < 64) (hlow : n = 0 → 32 ≤ m)
    (hsr : n = 13 → m < 32) :
    decodeLossy (ofNat (n + 224) :: ofNat (m + 128) :: ofNat (k + 128) :: rest)
      = Char.ofNat ((n * 64 + m) * 64 + k) :: decodeLossy rest := by
  have hwd : width (ofNat (n + 224)) = 3 := by
    rw [width_byte (by omega), if_neg (by omega), if_neg (by omega), if_pos (by omega)]
  have hsnd : isSecond (ofNat (n + 224)) (ofNat (m + 128)) = true :=
    isSecond_byte (by omega) hm ⟨by omega, by omega, by omega, by omega⟩
  rw [decodeLossy.eq_def]
  simp only [hwd]
  rw [if_pos hsnd, if_pos (isContinuation_byte hk), char3, toNat_byte (by omega),
    toNat_byte (by omega), toNat_byte (by omega),
    show ((n + 224 - 0xE0) * 64 + (m + 128 - 0x80)) * 64 + (k + 128 - 0x80)
      = (n * 64 + m) * 64 + k by omega]

theorem decodeLossy_four (hn : n < 5) (hm : m < 64) (hk : k < 64) (hl : l < 64)
    (hlow : n = 0 → 16 ≤ m) (hhg : n = 4 → m < 16) :
    decodeLossy (ofNat (n + 240) :: ofNat (m + 128) :: ofNat (k + 128)
        :: ofNat (l + 128) :: rest)
      = Char.ofNat (((n * 64 + m) * 64 + k) * 64 + l) :: decodeLossy rest := by
  have hwd : width (ofNat (n + 240)) = 4 := by
    rw [width_byte (by omega), if_neg (by omega), if_neg (by omega), if_neg (by omega),
      if_pos (by omega)]
  have hsnd : isSecond (ofNat (n + 240)) (ofNat (m + 128)) = true :=
    isSecond_byte (by omega) hm ⟨by omega, by omega, by omega, by omega⟩
  rw [decodeLossy.eq_def]
  simp only [hwd]
  rw [if_pos hsnd, if_pos (isContinuation_byte hk), if_pos (isContinuation_byte hl), char4,
    toNat_byte (by omega), toNat_byte (by omega), toNat_byte (by omega), toNat_byte (by omega),
    show (((n + 240 - 0xF0) * 64 + (m + 128 - 0x80)) * 64 + (k + 128 - 0x80)) * 64
      + (l + 128 - 0x80) = ((n * 64 + m) * 64 + k) * 64 + l by omega]

theorem decodeLossy_char :
    decodeLossy (String.utf8EncodeChar c ++ rest) = c :: decodeLossy rest := by
  have hvl : c.toNat < 0xD800 ∨ (0xDFFF < c.toNat ∧ c.toNat < 0x110000) := c.valid
  have hch : Char.ofNat c.toNat = c := Char.ofNat_toNat c
  have hval : c.val.toNat = c.toNat := rfl
  simp only [String.utf8EncodeChar, hval]
  generalize c.toNat = v at hvl hch
  subst hch
  split
  · exact decodeLossy_one (by omega)
  split
  · rw [cons_append, cons_append, nil_append, decodeLossy_two (by omega) (by omega) (by omega)]
    congr 2
    omega
  · split
    · rw [cons_append, cons_append, cons_append, nil_append,
        decodeLossy_three (by omega) (by omega) (by omega) (by omega) (by omega)]
      congr 2
      omega
    · rw [cons_append, cons_append, cons_append, cons_append,
        nil_append, decodeLossy_four (by omega) (by omega) (by omega) (by omega) (by omega)
          (by omega)]
      congr 2
      omega

theorem decodeLossy_encode (s : List Char) : decodeLossy (encode s) = s := by
  induction s with
  | nil => rfl
  | cons c s ih =>
    rw [encode, flatMap_cons, decodeLossy_char]
    exact congrArg (c :: ·) ih

/-! ## ASCII

A byte below 128 is a character of its own wherever it stands.
-/

theorem encode_cons (c : Char) (s : List Char) :
    encode (c :: s) = String.utf8EncodeChar c ++ encode s := List.flatMap_cons

theorem encode_append (s t : List Char) : encode (s ++ t) = encode s ++ encode t :=
  flatMap_append

theorem toNat_of_mem_encodeChar (h : b ∈ String.utf8EncodeChar c) (hb : b < 0x80) :
    c.toNat = b.toNat := by
  have hlt : b.toNat < 128 := hb
  have hvl : c.toNat < 0x110000 := by
    have := c.valid
    have hval : c.val.toNat = c.toNat := rfl
    rcases this with h | h <;> omega
  have hval : c.val.toNat = c.toNat := rfl
  have hby : ∀ n : Nat, n < 256 → b = ofNat n → b.toNat = n := fun n hn hbn => by
    rw [hbn, toNat_byte hn]
  simp only [String.utf8EncodeChar, hval] at h
  split at h
  · have := hby _ (by omega) (mem_singleton.mp h)
    omega
  split at h
  · simp only [mem_cons, not_mem_nil, or_false] at h
    rcases h with h | h <;> have := hby _ (by omega) h <;> omega
  split at h
  · simp only [mem_cons, not_mem_nil, or_false] at h
    rcases h with h | h | h <;> have := hby _ (by omega) h <;> omega
  · simp only [mem_cons, not_mem_nil, or_false] at h
    rcases h with h | h | h | h <;> have := hby _ (by omega) h <;> omega

theorem mem_of_mem_encode (h : b ∈ encode s) (hb : b < 0x80) : Char.ofNat b.toNat ∈ s := by
  obtain ⟨c, hc, hmem⟩ := mem_flatMap.mp h
  rw [← toNat_of_mem_encodeChar hmem hb, Char.ofNat_toNat]
  exact hc

end Utf8
