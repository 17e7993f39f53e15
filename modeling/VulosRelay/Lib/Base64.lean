/-!
# Unpadded base64url

The URL alphabet of RFC 4648 without padding, as the usual standard-library
codecs implement it: the decoder skips carriage returns and newlines, rejects any
other character outside the alphabet, and ignores the low bits that a final
short group leaves over.
-/

namespace Base64

open List

def alphabet : List Char :=
  "ABCDEFGHIJKLMNOPQRSTUVWXYZabcdefghijklmnopqrstuvwxyz0123456789-_".toList

def char (n : Nat) : Char := alphabet.getD n 'A'

def value (c : Char) : Option Nat := alphabet.findIdx? (· == c)

def sextets : List UInt8 → List Nat
  | a :: b :: c :: rest =>
    (a.toNat / 4) :: (a.toNat % 4 * 16 + b.toNat / 16) :: (b.toNat % 16 * 4 + c.toNat / 64)
      :: (c.toNat % 64) :: sextets rest
  | [a, b] => [a.toNat / 4, a.toNat % 4 * 16 + b.toNat / 16, b.toNat % 16 * 4]
  | [a] => [a.toNat / 4, a.toNat % 4 * 16]
  | [] => []

def encode (bs : List UInt8) : List Char := (sextets bs).map char

def decodeValues : List Nat → Option (List UInt8)
  | a :: b :: c :: d :: rest =>
    (decodeValues rest).map fun bs =>
      UInt8.ofNat (a * 4 + b / 16) :: UInt8.ofNat (b % 16 * 16 + c / 4)
        :: UInt8.ofNat (c % 4 * 64 + d) :: bs
  | [a, b, c] => some [UInt8.ofNat (a * 4 + b / 16), UInt8.ofNat (b % 16 * 16 + c / 4)]
  | [a, b] => some [UInt8.ofNat (a * 4 + b / 16)]
  | [_] => none
  | [] => some []

def decode (s : List Char) : Option (List UInt8) :=
  ((s.filter fun c => c != '\r' && c != '\n').mapM value).bind decodeValues

theorem value_char (h : n < 64) : value (char n) = some n := by
  have hall : ∀ i : Fin 64, value (char i.val) = some i.val := by decide +kernel
  exact hall ⟨n, h⟩

theorem char_ne_newline (h : n < 64) : (char n != '\r' && char n != '\n') = true := by
  have hall : ∀ i : Fin 64, (char i.val != '\r' && char i.val != '\n') = true := by
    decide +kernel
  exact hall ⟨n, h⟩

theorem sextets_lt : ∀ (bs : List UInt8), ∀ n ∈ sextets bs, n < 64
  | a :: b :: c :: rest, n, hn => by
    have ha := a.toNat_lt; have hb := b.toNat_lt; have hc := c.toNat_lt
    simp only [sextets, mem_cons] at hn
    rcases hn with rfl | rfl | rfl | rfl | hn
    · omega
    · omega
    · omega
    · omega
    · exact sextets_lt rest n hn
  | [a, b], n, hn => by
    have ha := a.toNat_lt; have hb := b.toNat_lt
    simp only [sextets, mem_cons, not_mem_nil, or_false] at hn
    rcases hn with rfl | rfl | rfl <;> omega
  | [a], n, hn => by
    have ha := a.toNat_lt
    simp only [sextets, mem_cons, not_mem_nil, or_false] at hn
    rcases hn with rfl | rfl <;> omega
  | [], n, hn => by simp [sextets] at hn

theorem ofNat_eq_of_toNat (h : n = a.toNat) : UInt8.ofNat n = a := by
  rw [h, UInt8.ofNat_toNat]

theorem decodeValues_sextets : ∀ bs : List UInt8, decodeValues (sextets bs) = some bs
  | a :: b :: c :: rest => by
    have ha := a.toNat_lt; have hb := b.toNat_lt; have hc := c.toNat_lt
    simp only [sextets, decodeValues, decodeValues_sextets rest, Option.map_some]
    rw [ofNat_eq_of_toNat (a := a) (by omega), ofNat_eq_of_toNat (a := b) (by omega),
      ofNat_eq_of_toNat (a := c) (by omega)]
  | [a, b] => by
    have ha := a.toNat_lt; have hb := b.toNat_lt
    simp only [sextets, decodeValues]
    rw [ofNat_eq_of_toNat (a := a) (by omega), ofNat_eq_of_toNat (a := b) (by omega)]
  | [a] => by
    simp only [sextets, decodeValues]
    rw [ofNat_eq_of_toNat (a := a) (by omega)]
  | [] => rfl

theorem mapM_value_map_char : ∀ ns : List Nat, (∀ n ∈ ns, n < 64) →
    (ns.map char).mapM value = some ns
  | [], _ => rfl
  | n :: ns, h => by
    rw [map_cons, mapM_cons, value_char (h n (.head _)),
      mapM_value_map_char ns (fun k hk => h k (.tail _ hk))]
    rfl

theorem decode_encode (bs : List UInt8) : decode (encode bs) = some bs := by
  have hlt := sextets_lt bs
  have hkp : ((sextets bs).map char).filter (fun c => c != '\r' && c != '\n')
      = (sextets bs).map char := by
    rw [filter_eq_self]
    intro c hc
    obtain ⟨n, hn, rfl⟩ := mem_map.mp hc
    exact char_ne_newline (hlt n hn)
  rw [decode, encode, hkp, mapM_value_map_char _ hlt, Option.bind_some, decodeValues_sextets]

theorem encode_injective (h : encode bs = encode cs) : bs = cs := by
  have hd : some bs = some cs := by rw [← decode_encode bs, ← decode_encode cs, h]
  exact Option.some.inj hd

theorem sextets_length : ∀ bs : List UInt8, (sextets bs).length = (bs.length * 4 + 2) / 3
  | a :: b :: c :: rest => by
    simp only [sextets, length_cons, sextets_length rest]
    omega
  | [a, b] => by simp [sextets]
  | [a] => by simp [sextets]
  | [] => by simp [sextets]

theorem encode_length (bs : List UInt8) : (encode bs).length = (bs.length * 4 + 2) / 3 := by
  rw [encode, length_map, sextets_length]

end Base64
