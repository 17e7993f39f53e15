import Mathlib
import VulosRelay.Lib.Json

/-!
# Integers as JSON numbers

The decimal texts of the integers are told apart by their characters, each of which is one
code unit: a digit or the minus sign. So the integers are a lawful choice of numbers
(`integers_lawful`).
-/

namespace Json

open JsText UInt16

def integers : Numbers Int := ⟨fun n => literal n.repr, fun n => n⟩

theorem mem_repr {n : Int} (h : c ∈ n.repr.toList) : c = '-' ∨ c.isDigit = true := by
  have hdg : ∀ m : Nat, c ∈ m.repr.toList → c.isDigit = true := by
    intro m hm
    rw [Nat.repr_eq_ofList_toDigits, String.toList_ofList] at hm
    exact Nat.isDigit_of_mem_toDigits (by decide) (by decide) hm
  rw [Int.repr_eq_if] at h
  split at h
  · exact .inr (hdg _ h)
  rw [String.toList_append] at h
  rcases List.mem_append.mp h with hsg | hdgt
  · exact .inl (List.mem_singleton.mp hsg)
  · exact .inr (hdg _ hdgt)

theorem units_decimal (h : c = '-' ∨ c.isDigit = true) :
    ∃ u, units c = [u] ∧ isNumeric u = true ∧ Char.ofNat u.toNat = c := by
  rcases h with rfl | h
  · exact ⟨0x2D, by decide, by decide, by decide⟩
  have hc : 0x30 ≤ c.toNat ∧ c.toNat ≤ 0x39 := by
    rw [Char.isDigit, Bool.and_eq_true, decide_eq_true_eq, decide_eq_true_eq] at h
    exact h
  have hu : (ofNat c.toNat).toNat = c.toNat :=
    toNat_ofNat_of_lt (lt_of_le_of_lt hc.2 (by decide))
  have hlow : 0x30 ≤ ofNat c.toNat := by
    rw [le_iff_toNat_le, hu]
    exact hc.1
  have hhg : ofNat c.toNat ≤ 0x39 := by
    rw [le_iff_toNat_le, hu]
    exact hc.2
  refine ⟨ofNat c.toNat, if_pos (lt_of_le_of_lt hc.2 (by decide)), ?_, ?_⟩
  · rw [isNumeric, decide_eq_true hlow, decide_eq_true hhg]
    rfl
  · rw [hu, Char.ofNat_toNat]

theorem read_decimal {cs : List Char} (h : ∀ c ∈ cs, c = '-' ∨ c.isDigit = true) :
    (∀ u ∈ cs.flatMap units, isNumeric u = true)
    ∧ (cs.flatMap units).map (fun u => Char.ofNat u.toNat) = cs := by
  induction cs with
  | nil =>
    refine ⟨fun u hu => ?_, rfl⟩
    cases hu
  | cons c cs ih =>
    obtain ⟨u, hun, hnm, hbc⟩ := units_decimal (h c List.mem_cons_self)
    obtain ⟨hrs, hrd⟩ := ih fun d hd => h d (.tail _ hd)
    rw [List.flatMap_cons, hun, List.singleton_append, List.map_cons, hbc, hrd]
    refine ⟨fun v hv => ?_, rfl⟩
    rcases List.mem_cons.mp hv with rfl | hv
    · exact hnm
    · exact hrs v hv

theorem integers_lawful : integers.Lawful where
  inj := by
    intro n m h
    have hn := (read_decimal fun c (hc : c ∈ n.repr.toList) => mem_repr hc).2
    have hm := (read_decimal fun c (hc : c ∈ m.repr.toList) => mem_repr hc).2
    have htx : n.repr.toList.flatMap units = m.repr.toList.flatMap units := h
    rw [htx, hm] at hn
    exact Int.repr_inj.mp (String.toList_injective hn.symm)
  ne_nil := by
    intro n h
    have htx := (read_decimal fun c (hc : c ∈ n.repr.toList) => mem_repr hc).2
    have hemp : n.repr.toList.flatMap units = [] := h
    rw [hemp, Int.repr_eq_if] at htx
    split at htx
    · rw [Nat.repr_eq_ofList_toDigits, String.toList_ofList] at htx
      exact Nat.toDigits_ne_nil htx.symm
    · rw [String.toList_append] at htx
      cases htx
  numeric := fun n u hu => (read_decimal fun _ => mem_repr).1 u hu

end Json
