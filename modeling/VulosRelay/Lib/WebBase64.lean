import VulosRelay.Lib.Base64
import VulosRelay.Lib.JsText

/-!
# `btoa` and `atob`

Base64 as browsers have it, between bytes and strings: `btoa` writes the standard alphabet
and pads to a multiple of four units, `atob` reads it forgivingly. It skips ASCII white
space, drops one or two pad units where the length allows them, and ignores the bits that
a short last group leaves over. Every text that `btoa` writes is read back (`atob_btoa`).
-/

namespace WebBase64

open JsText List Base64

def unit (n : Nat) : UInt16 :=
  UInt16.ofNat (if n < 26 then 0x41 + n
    else if n < 52 then 0x47 + n
    else if n < 62 then n - 4
    else if n = 62 then 0x2B
    else 0x2F)

def value (c : UInt16) : Option Nat :=
  if 0x41 ≤ c && c ≤ 0x5A then some (c.toNat - 0x41)
  else if 0x61 ≤ c && c ≤ 0x7A then some (c.toNat - 0x47)
  else if 0x30 ≤ c && c ≤ 0x39 then some (c.toNat + 4)
  else if c = 0x2B then some 62
  else if c = 0x2F then some 63
  else none

def padded (t : Text) : Text := t ++ List.replicate ((4 - t.length % 4) % 4) 0x3D

def btoa (bs : List UInt8) : Text := padded ((Base64.sextets bs).map unit)

def isSpace (c : UInt16) : Bool := c = 0x09 || c = 0x0A || c = 0x0C || c = 0x0D || c = 0x20

def dropPad (t : Text) : Text := if t.getLast? = some 0x3D then t.dropLast else t

def unpadded (t : Text) : Text := if t.length % 4 = 0 then dropPad (dropPad t) else t

def atob (t : Text) : Option (List UInt8) :=
  ((unpadded (t.filter fun c => !isSpace c)).mapM value).bind Base64.decodeValues

theorem value_unit (h : n < 64) : value (unit n) = some n := by
  have hall : ∀ i : Fin 64, value (unit i.val) = some i.val := by decide
  exact hall ⟨n, h⟩

theorem unit_ne_pad (h : n < 64) : unit n ≠ 0x3D := by
  have hall : ∀ i : Fin 64, unit i.val ≠ 0x3D := by decide
  exact hall ⟨n, h⟩

theorem isSpace_unit (h : n < 64) : isSpace (unit n) = false := by
  have hall : ∀ i : Fin 64, isSpace (unit i.val) = false := by decide
  exact hall ⟨n, h⟩

theorem mapM_value_map_unit : ∀ ns : List Nat, (∀ n ∈ ns, n < 64) →
    (ns.map unit).mapM value = some ns
  | [], _ => rfl
  | n :: ns, h => by
    rw [map_cons, mapM_cons, value_unit (h n mem_cons_self),
      mapM_value_map_unit ns fun k hk => h k (.tail _ hk)]
    rfl

theorem dropPad_concat (t : Text) : dropPad (t ++ [0x3D]) = t := by
  rw [dropPad, if_pos getLast?_concat, dropLast_concat]

theorem dropPad_of_notMem (h : 0x3D ∉ t) : dropPad t = t := by
  rw [dropPad, if_neg]
  exact fun hls => h (mem_of_getLast? hls)

theorem length_padded (t : Text) : (padded t).length = (t.length + 3) / 4 * 4 := by
  rw [padded, length_append, length_replicate]
  omega

theorem unpadded_padded (hpad : 0x3D ∉ t) (hlen : t.length % 4 ≠ 1) : unpadded (padded t) = t := by
  have hwh : (padded t).length % 4 = 0 := by
    rw [length_padded]
    omega
  rw [unpadded, if_pos hwh, padded]
  have hms : (4 - t.length % 4) % 4 = 0 ∨ (4 - t.length % 4) % 4 = 1 ∨
      (4 - t.length % 4) % 4 = 2 := by omega
  rcases hms with h | h | h
  · rw [h, replicate_zero, append_nil, dropPad_of_notMem hpad, dropPad_of_notMem hpad]
  · rw [h, replicate_one, dropPad_concat, dropPad_of_notMem hpad]
  have htwo : t ++ replicate 2 0x3D = t ++ [0x3D] ++ [0x3D] := by
    rw [append_assoc]
    rfl
  rw [h, htwo, dropPad_concat, dropPad_concat]

theorem mem_btoa (h : c ∈ btoa bs) : c = 0x3D ∨ ∃ n, n < 64 ∧ c = unit n := by
  rw [btoa, padded, mem_append] at h
  rcases h with h | h
  · obtain ⟨n, hn, rfl⟩ := mem_map.mp h
    exact .inr ⟨n, sextets_lt bs n hn, rfl⟩
  · exact .inl (eq_of_mem_replicate h)

theorem isSpace_btoa (h : c ∈ btoa bs) : isSpace c = false := by
  rcases mem_btoa h with rfl | ⟨n, hn, rfl⟩
  · decide
  · exact isSpace_unit hn

theorem atob_btoa (bs : List UInt8) : atob (btoa bs) = some bs := by
  have hlt := sextets_lt bs
  have hkp : (btoa bs).filter (fun c => !isSpace c) = btoa bs := by
    rw [filter_eq_self]
    intro c hc
    rw [isSpace_btoa hc]
    rfl
  have hpad : 0x3D ∉ (sextets bs).map unit := by
    intro hmem
    obtain ⟨n, hn, heq⟩ := mem_map.mp hmem
    exact unit_ne_pad (hlt n hn) heq
  have hlen : ((sextets bs).map unit).length % 4 ≠ 1 := by
    rw [length_map, sextets_length]
    omega
  rw [atob, hkp, btoa, unpadded_padded hpad hlen, mapM_value_map_unit _ hlt,
    Option.bind_some, decodeValues_sextets]

theorem length_btoa (bs : List UInt8) : (btoa bs).length = (bs.length + 2) / 3 * 4 := by
  rw [btoa, length_padded, length_map, sextets_length]
  omega

end WebBase64
