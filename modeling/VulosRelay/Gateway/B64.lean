import VulosRelay.Gateway.Text
import VulosRelay.Lib.Utf8
import VulosRelay.Lib.Base64

/-!
# Base64 of the gateway

The model of `crates/gateway/src/b64.rs`: the standard alphabet with padding. The decoder is
lenient: padding is optional, white space is passed over, and the bits of a short last group
are dropped. It reads back what the encoder writes (`decode_encode`).
-/

namespace VulosRelay.Gateway.B64

open UInt8 List Base64

def alphabet : Str :=
  "ABCDEFGHIJKLMNOPQRSTUVWXYZabcdefghijklmnopqrstuvwxyz0123456789+/".toList

def charOf (n : Nat) : Char := alphabet.getD n 'A'

def group (b0 b1 b2 : Nat) : Nat := b0 * 2 ^ 16 + b1 * 2 ^ 8 + b2

def encode : List UInt8 → Str
  | b0 :: b1 :: b2 :: rest =>
    let n := group b0.toNat b1.toNat b2.toNat
    charOf (n / 2 ^ 18 % 64) :: charOf (n / 2 ^ 12 % 64) :: charOf (n / 2 ^ 6 % 64)
      :: charOf (n % 64) :: encode rest
  | [b0, b1] =>
    let n := group b0.toNat b1.toNat 0
    [charOf (n / 2 ^ 18 % 64), charOf (n / 2 ^ 12 % 64), charOf (n / 2 ^ 6 % 64), '=']
  | [b0] =>
    let n := group b0.toNat 0 0
    [charOf (n / 2 ^ 18 % 64), charOf (n / 2 ^ 12 % 64), '=', '=']
  | [] => []

def value (c : UInt8) : Option Nat :=
  if 0x41 ≤ c && c ≤ 0x5A then some (c.toNat - 0x41)
  else if 0x61 ≤ c && c ≤ 0x7A then some (c.toNat - 0x61 + 26)
  else if 0x30 ≤ c && c ≤ 0x39 then some (c.toNat - 0x30 + 52)
  else if c = 0x2B then some 62
  else if c = 0x2F then some 63
  else none

def isSpace (c : UInt8) : Bool := c == 0x20 || c == 0x09 || c == 0x0D || c == 0x0A

def decodeFrom (bits nbits : Nat) : List UInt8 → Option (List UInt8)
  | [] => some []
  | c :: rest =>
    if c = 0x3D then some []
    else if isSpace c then decodeFrom bits nbits rest
    else (value c).bind fun v =>
        let bits := (bits * 64 + v) % 2 ^ 32
        if nbits + 6 ≥ 8 then
          (decodeFrom bits (nbits + 6 - 8) rest).map
            (UInt8.ofNat (bits / 2 ^ (nbits + 6 - 8)) :: ·)
        else decodeFrom bits (nbits + 6) rest

def decode (input : Str) : Option (List UInt8) := decodeFrom 0 0 (Utf8.encode input)

theorem charOf_spec :
    ∃ c, String.utf8EncodeChar (charOf (n % 64)) = [c] ∧ value c = some (n % 64) ∧ c ≠ 0x3D ∧
      isSpace c = false := by
  have hall : ∀ i : Fin 64, ∃ c, String.utf8EncodeChar (charOf i.val) = [c] ∧
      value c = some i.val ∧ c ≠ 0x3D ∧ isSpace c = false := by
    intro i
    refine ⟨ofNat (charOf i.val).toNat, ?_⟩
    revert i
    decide +kernel
  exact hall ⟨n % 64, Nat.mod_lt n (by decide)⟩

theorem charOf_plain : charOf (n % 64) ≠ ';' ∧ isWhitespace (charOf (n % 64)) = false ∧
    (charOf (n % 64)).toNat < 128 := by
  have hall : ∀ i : Fin 64, charOf i.val ≠ ';' ∧ isWhitespace (charOf i.val) = false ∧
      (charOf i.val).toNat < 128 := by decide +kernel
  exact hall ⟨n % 64, Nat.mod_lt n (by decide)⟩

theorem encode_plain : ∀ bs : List UInt8,
    ∀ c ∈ encode bs, c ≠ ';' ∧ isWhitespace c = false ∧ c.toNat < 128
  | b0 :: b1 :: b2 :: rest, c, hc => by
    simp only [encode, mem_cons] at hc
    rcases hc with rfl | rfl | rfl | rfl | hc
    · exact charOf_plain
    · exact charOf_plain
    · exact charOf_plain
    · exact charOf_plain
    · exact encode_plain rest c hc
  | [b0, b1], c, hc => by
    simp only [encode, mem_cons, not_mem_nil, or_false] at hc
    rcases hc with rfl | rfl | rfl | rfl
    · exact charOf_plain
    · exact charOf_plain
    · exact charOf_plain
    · decide
  | [b0], c, hc => by
    simp only [encode, mem_cons, not_mem_nil, or_false] at hc
    rcases hc with rfl | rfl | rfl | rfl
    · exact charOf_plain
    · exact charOf_plain
    · decide
    · decide
  | [], c, hc => absurd hc not_mem_nil

theorem decodeFrom_char :
    decodeFrom bits nbits (Utf8.encode (charOf (n % 64) :: s)) =
      if nbits + 6 ≥ 8 then
        (decodeFrom ((bits * 64 + n % 64) % 2 ^ 32) (nbits + 6 - 8) (Utf8.encode s)).map
          (ofNat ((bits * 64 + n % 64) % 2 ^ 32 / 2 ^ (nbits + 6 - 8)) :: ·)
      else decodeFrom ((bits * 64 + n % 64) % 2 ^ 32) (nbits + 6) (Utf8.encode s) := by
  obtain ⟨c, hby, hvl, hpad, hsp⟩ := charOf_spec
  rw [Utf8.encode_cons, hby, singleton_append, decodeFrom, if_neg hpad, hsp, hvl]
  rfl

theorem decodeFrom_pad :
    decodeFrom bits nbits (Utf8.encode ('=' :: s)) = some [] := by
  rw [Utf8.encode_cons, show String.utf8EncodeChar '=' = [0x3D] by decide, singleton_append,
    decodeFrom, if_pos rfl]

theorem ofNat_eq_of_mod (h : m % 256 = n) : UInt8.ofNat m = UInt8.ofNat n := by
  rw [← UInt8.toNat_inj, UInt8.toNat_ofNat', UInt8.toNat_ofNat', ← h]
  omega

/-! The byte that is complete with the second of two values; what was read before them is
shifted out. -/

section
variable (u v bits : Nat)

theorem emit_first : ofNat (((bits * 64 + u % 64) % 2 ^ 32 * 64 + v % 64) % 2 ^ 32 / 2 ^ 4)
    = ofNat (u % 64 * 4 + v % 64 / 16) :=
  ofNat_eq_of_mod (by omega)

theorem emit_second : ofNat (((bits * 64 + u) % 2 ^ 32 * 64 + v % 64) % 2 ^ 32 / 2 ^ 2)
    = ofNat (u % 16 * 16 + v % 64 / 4) :=
  ofNat_eq_of_mod (by omega)

theorem emit_third : ofNat (((bits * 64 + u) % 2 ^ 32 * 64 + v % 64) % 2 ^ 32 / 2 ^ 0)
    = ofNat (u % 4 * 64 + v % 64) :=
  ofNat_eq_of_mod (by omega)

end

theorem decodeFrom_encode : ∀ (bs : List UInt8) (bits : Nat),
    decodeFrom bits 0 (Utf8.encode (encode bs)) = some bs
  | b0 :: b1 :: b2 :: rest, bits => by
    have h0 := b0.toNat_lt
    have h1 := b1.toNat_lt
    have h2 := b2.toNat_lt
    simp only [encode]
    rw [decodeFrom_char, if_neg (by decide), decodeFrom_char, if_pos (by decide), emit_first,
      decodeFrom_char, if_pos (by decide), emit_second, decodeFrom_char, if_pos (by decide),
      emit_third, decodeFrom_encode rest, group, ofNat_eq_of_toNat (a := b0) (by omega),
      ofNat_eq_of_toNat (a := b1) (by omega),
      ofNat_eq_of_toNat (a := b2) (by omega)]
    rfl
  | [b0, b1], bits => by
    have h0 := b0.toNat_lt
    have h1 := b1.toNat_lt
    simp only [encode]
    rw [decodeFrom_char, if_neg (by decide), decodeFrom_char, if_pos (by decide), emit_first,
      decodeFrom_char, if_pos (by decide), emit_second, decodeFrom_pad, group,
      ofNat_eq_of_toNat (a := b0) (by omega),
      ofNat_eq_of_toNat (a := b1) (by omega)]
    rfl
  | [b0], bits => by
    have h0 := b0.toNat_lt
    simp only [encode]
    rw [decodeFrom_char, if_neg (by decide), decodeFrom_char, if_pos (by decide), emit_first,
      decodeFrom_pad, group, ofNat_eq_of_toNat (a := b0) (by omega)]
    rfl
  | [], bits => rfl

theorem decode_encode (bs : List UInt8) : decode (encode bs) = some bs := decodeFrom_encode bs 0

end VulosRelay.Gateway.B64
