/-!
# JavaScript strings

Strings as the language has them: sequences of UTF-16 code units, compared unit by unit.
A string may hold a surrogate without its partner; `TextEncoder` writes a replacement
character for it, so two such strings can have one encoding. On strings without lone
surrogates the encoding is injective (`encode_inj`).
-/

namespace JsText

open List UInt16

abbrev Text := List UInt16

def isHigh (c : UInt16) : Bool := 0xD800 ≤ c && c ≤ 0xDBFF

def isLow (c : UInt16) : Bool := 0xDC00 ≤ c && c ≤ 0xDFFF

def isSurrogate (c : UInt16) : Bool := isHigh c || isLow c

def units (c : Char) : Text :=
  if c.toNat < 0x10000 then [UInt16.ofNat c.toNat]
  else [UInt16.ofNat (0xD800 + (c.toNat - 0x10000) / 0x400),
    UInt16.ofNat (0xDC00 + (c.toNat - 0x10000) % 0x400)]

def literal (s : String) : Text := s.toList.flatMap units

def pairChar (hi lo : UInt16) : Char :=
  Char.ofNat (0x10000 + (hi.toNat - 0xD800) * 0x400 + (lo.toNat - 0xDC00))

def unitChar (c : UInt16) : Char := if isSurrogate c then Char.ofNat 0xFFFD else Char.ofNat c.toNat

def chars : Text → List Char
  | [] => []
  | [c] => [unitChar c]
  | hi :: lo :: rest =>
    if isHigh hi && isLow lo then pairChar hi lo :: chars rest
    else unitChar hi :: chars (lo :: rest)

def encode (s : Text) : List UInt8 := (chars s).flatMap String.utf8EncodeChar

/-- Every surrogate of the string is half of a pair. -/
inductive Paired : Text → Prop where
  | nil : Paired []
  | unit {c : UInt16} {rest : Text} : isSurrogate c = false → Paired rest → Paired (c :: rest)
  | pair {hi lo : UInt16} {rest : Text} :
      isHigh hi = true → isLow lo = true → Paired rest → Paired (hi :: lo :: rest)

theorem Paired.append (hs : Paired s) (ht : Paired t) : Paired (s ++ t) := by
  induction hs with
  | nil => exact ht
  | unit hc _ ih => exact .unit hc ih
  | pair hhi hlo _ ih => exact .pair hhi hlo ih

theorem Paired.of_cons (hc : isSurrogate c = false) (h : Paired (c :: rest)) : Paired rest := by
  cases h with
  | unit _ hrs => exact hrs
  | pair hhi _ _ =>
    rw [isSurrogate, hhi] at hc
    cases hc

theorem Paired.of_units (h : ∀ c ∈ s, isSurrogate c = false) : Paired s := by
  induction s with
  | nil => exact .nil
  | cons c s ih =>
    exact .unit (h c mem_cons_self) (ih fun d hd => h d (.tail _ hd))

theorem Paired.of_all (h : (s.all fun c => !isSurrogate c) = true) : Paired s := by
  refine .of_units fun c hc => ?_
  rw [← Bool.not_eq_true']
  exact all_eq_true.mp h c hc

theorem chars_unit (hc : isSurrogate c = false) :
    chars (c :: rest) = Char.ofNat c.toNat :: chars rest := by
  have hun : unitChar c = Char.ofNat c.toNat := by rw [unitChar, hc]; rfl
  have hhg : isHigh c = false := by
    rw [isSurrogate, Bool.or_eq_false_iff] at hc
    exact hc.1
  cases rest with
  | nil => exact congrArg (· :: []) hun
  | cons d rest => rw [chars, hhg, Bool.false_and, if_neg Bool.false_ne_true, hun]

theorem chars_pair (hhi : isHigh hi = true) (hlo : isLow lo = true) :
    chars (hi :: lo :: rest) = pairChar hi lo :: chars rest := by
  rw [chars, hhi, hlo, Bool.true_and, if_pos rfl]

theorem chars_append (hs : Paired s) : chars (s ++ t) = chars s ++ chars t := by
  induction hs with
  | nil => rfl
  | unit hc _ ih => rw [cons_append, chars_unit hc, chars_unit hc, ih, cons_append]
  | pair hhi hlo _ ih =>
    rw [cons_append, cons_append, chars_pair hhi hlo, chars_pair hhi hlo, ih, cons_append]

theorem toNat_ofNat (h : n.isValidChar) : (Char.ofNat n).toNat = n := by
  rw [Char.ofNat, dif_pos h]
  rfl

theorem isHigh_iff : isHigh c = true ↔ 0xD800 ≤ c.toNat ∧ c.toNat ≤ 0xDBFF := by
  rw [isHigh, Bool.and_eq_true, decide_eq_true_eq, decide_eq_true_eq]
  rfl

theorem isLow_iff : isLow c = true ↔ 0xDC00 ≤ c.toNat ∧ c.toNat ≤ 0xDFFF := by
  rw [isLow, Bool.and_eq_true, decide_eq_true_eq, decide_eq_true_eq]
  rfl

theorem isSurrogate_eq_false : isSurrogate c = false ↔ c.toNat < 0xD800 ∨ 0xDFFF < c.toNat := by
  rw [isSurrogate, ← Bool.not_eq_true, Bool.or_eq_true, isHigh_iff, isLow_iff]
  omega

theorem units_unitChar (hc : isSurrogate c = false) : units (Char.ofNat c.toNat) = [c] := by
  have hsz : c.toNat < 0x10000 := c.toNat_lt
  have hval : c.toNat.isValidChar := by
    rw [isSurrogate_eq_false] at hc
    rw [Nat.isValidChar]
    omega
  rw [units, toNat_ofNat hval, if_pos hsz, UInt16.ofNat_toNat]

theorem units_pairChar (hhi : isHigh hi = true) (hlo : isLow lo = true) :
    units (pairChar hi lo) = [hi, lo] := by
  rw [isHigh_iff] at hhi
  rw [isLow_iff] at hlo
  have hval : (0x10000 + (hi.toNat - 0xD800) * 0x400 + (lo.toNat - 0xDC00)).isValidChar := by
    rw [Nat.isValidChar]
    omega
  have hbig : ¬ 0x10000 + (hi.toNat - 0xD800) * 0x400 + (lo.toNat - 0xDC00) < 0x10000 := by omega
  rw [units, pairChar, toNat_ofNat hval, if_neg hbig]
  have hhi' : 0xD800 + (0x10000 + (hi.toNat - 0xD800) * 0x400 + (lo.toNat - 0xDC00) - 0x10000)
      / 0x400 = hi.toNat := by omega
  have hlo' : 0xDC00 + (0x10000 + (hi.toNat - 0xD800) * 0x400 + (lo.toNat - 0xDC00) - 0x10000)
      % 0x400 = lo.toNat := by omega
  rw [hhi', hlo', UInt16.ofNat_toNat, UInt16.ofNat_toNat]

theorem units_chars (hs : Paired s) : (chars s).flatMap units = s := by
  induction hs with
  | nil => rfl
  | unit hc _ ih =>
    rw [chars_unit hc, flatMap_cons, units_unitChar hc, ih, singleton_append]
  | pair hhi hlo _ ih =>
    rw [chars_pair hhi hlo, flatMap_cons, units_pairChar hhi hlo, ih]
    rfl

theorem encode_inj (hs : Paired s) (ht : Paired t) (h : encode s = encode t) : s = t := by
  have hby : (chars s).utf8Encode = (chars t).utf8Encode := congrArg toByteArray h
  have hch : chars s = chars t := by
    have hst : String.ofList (chars s) = String.ofList (chars t) := by
      apply String.toByteArray_inj.mp
      rw [String.toByteArray_ofList, String.toByteArray_ofList, hby]
    have hls := congrArg String.toList hst
    rw [String.toList_ofList, String.toList_ofList] at hls
    exact hls
  rw [← units_chars hs, hch, units_chars ht]

theorem exists_decode : ∃ decode : List UInt8 → Text, ∀ s, Paired s → decode (encode s) = s := by
  classical
  refine ⟨fun bs => if h : ∃ s, Paired s ∧ encode s = bs then h.choose else [], fun s hs => ?_⟩
  have hex : ∃ t, Paired t ∧ encode t = encode s := ⟨s, hs, rfl⟩
  dsimp only
  rw [dif_pos hex]
  exact encode_inj hex.choose_spec.1 hs hex.choose_spec.2

theorem length_chars_le_encode (s : Text) : (chars s).length ≤ (encode s).length := by
  rw [encode]
  induction chars s with
  | nil => exact Nat.le_refl 0
  | cons c cs ih =>
    have hpos : 0 < (String.utf8EncodeChar c).length := by
      rw [String.length_utf8EncodeChar]
      exact c.utf8Size_pos
    rw [flatMap_cons, length_cons, length_append]
    omega

theorem encode_append (hs : Paired s) : encode (s ++ t) = encode s ++ encode t := by
  rw [encode, chars_append hs, flatMap_append]
  rfl

def wellFormed (s : Text) : Text := (chars s).flatMap units

theorem isSurrogate_unit {c : Char} (h : c.toNat < 0x10000) :
    isSurrogate (ofNat c.toNat) = false := by
  have hval : c.toNat < 0xD800 ∨ 0xDFFF < c.toNat ∧ c.toNat < 0x110000 := c.valid
  have hnat : (ofNat c.toNat).toNat = c.toNat := toNat_ofNat_of_lt h
  rw [isSurrogate_eq_false, hnat]
  omega

theorem toNat_high (h : n < 0x400) :
    (ofNat (0xD800 + n)).toNat = 0xD800 + n ∧ isHigh (ofNat (0xD800 + n)) = true := by
  have hnat : (ofNat (0xD800 + n)).toNat = 0xD800 + n :=
    toNat_ofNat_of_lt (show 0xD800 + n < 2 ^ 16 by omega)
  refine ⟨hnat, ?_⟩
  rw [isHigh_iff, hnat]
  omega

theorem toNat_low (h : n < 0x400) :
    (ofNat (0xDC00 + n)).toNat = 0xDC00 + n ∧ isLow (ofNat (0xDC00 + n)) = true := by
  have hnat : (ofNat (0xDC00 + n)).toNat = 0xDC00 + n :=
    toNat_ofNat_of_lt (show 0xDC00 + n < 2 ^ 16 by omega)
  refine ⟨hnat, ?_⟩
  rw [isLow_iff, hnat]
  omega

theorem chars_units (c : Char) (rest : Text) :
    chars (units c ++ rest) = c :: chars rest ∧ (Paired rest → Paired (units c ++ rest)) := by
  by_cases hsm : c.toNat < 0x10000
  · have hun : units c = [ofNat c.toNat] := if_pos hsm
    have hnat : (ofNat c.toNat).toNat = c.toNat := toNat_ofNat_of_lt hsm
    rw [hun, singleton_append, chars_unit (isSurrogate_unit hsm), hnat, Char.ofNat_toNat]
    exact ⟨rfl, .unit (isSurrogate_unit hsm)⟩
  · have hval : c.toNat < 0xD800 ∨ 0xDFFF < c.toNat ∧ c.toNat < 0x110000 := c.valid
    have hun : units c = [ofNat (0xD800 + (c.toNat - 0x10000) / 0x400),
        ofNat (0xDC00 + (c.toNat - 0x10000) % 0x400)] := if_neg hsm
    obtain ⟨hhi, hhg⟩ := toNat_high (n := (c.toNat - 0x10000) / 0x400) (by omega)
    obtain ⟨hlo, hlow⟩ := toNat_low (n := (c.toNat - 0x10000) % 0x400) (by omega)
    have hch : pairChar (ofNat (0xD800 + (c.toNat - 0x10000) / 0x400))
        (ofNat (0xDC00 + (c.toNat - 0x10000) % 0x400)) = c := by
      have hcd : 0x10000 + (0xD800 + (c.toNat - 0x10000) / 0x400 - 0xD800) * 0x400
          + (0xDC00 + (c.toNat - 0x10000) % 0x400 - 0xDC00) = c.toNat := by omega
      rw [pairChar, hhi, hlo, hcd]
      exact Char.ofNat_toNat c
    rw [hun, cons_append, singleton_append, chars_pair hhg hlow, hch]
    exact ⟨rfl, .pair hhg hlow⟩

theorem chars_flatMap (cs : List Char) :
    chars (cs.flatMap units) = cs ∧ Paired (cs.flatMap units) := by
  induction cs with
  | nil => exact ⟨rfl, .nil⟩
  | cons c cs ih =>
    have hun := chars_units c (cs.flatMap units)
    rw [flatMap_cons, hun.1, ih.1]
    exact ⟨rfl, hun.2 ih.2⟩

theorem encode_wellFormed (s : Text) : encode (wellFormed s) = encode s := by
  rw [encode, wellFormed, (chars_flatMap (chars s)).1, encode]

theorem wellFormed_eq_iff : wellFormed s = s ↔ Paired s := by
  constructor
  · intro h
    rw [← h]
    exact (chars_flatMap (chars s)).2
  · exact units_chars

theorem length_encode_ascii (h : ∀ c ∈ s, c < 0x80) : (encode s).length = s.length := by
  induction s with
  | nil => rfl
  | cons c s ih =>
    have hc : c.toNat < 0x80 := lt_iff_toNat_lt.mp (h c mem_cons_self)
    have hun : isSurrogate c = false := by
      have hlt := h c mem_cons_self
      unfold isSurrogate isHigh isLow
      grind
    have hvl : c.toNat.isValidChar := .inl (by omega)
    have hsz : (Char.ofNat c.toNat).utf8Size = 1 := by
      have hval : (Char.ofNat c.toNat).val ≤ 0x7f := by
        rw [UInt32.le_iff_toNat_le]
        have := toNat_ofNat hvl
        rw [Char.toNat] at this
        rw [this]
        exact Nat.le_of_lt_succ hc
      exact if_pos hval
    have htl := ih fun d hd => h d (.tail _ hd)
    rw [encode] at htl ⊢
    rw [chars_unit hun, flatMap_cons, length_append, String.length_utf8EncodeChar,
      hsz, htl, length_cons, Nat.add_comm]

end JsText
