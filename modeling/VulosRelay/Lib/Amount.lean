import Mathlib.Algebra.BigOperators.Group.List.Basic
import Mathlib.Algebra.Ring.Int.Defs
import Mathlib.Algebra.Ring.Nat

/-!
# Amounts of money in machine words

Saturating arithmetic on 64-bit unsigned words, and the signed reading of such a
word, each with its meaning in the naturals or the integers. A saturating operation
is the exact one cut off at `limit`, so a chain of saturating additions is one exact
sum cut off once; the signed operations are exact as long as the result fits.

`tally` is what the entries of one account add up to in a list of records.
-/

namespace Amount

open List Nat Int

def limit : Nat := 2 ^ 64 - 1

theorem toNat_le_limit (a : UInt64) : a.toNat ≤ limit :=
  le_pred_of_lt a.toNat_lt

def satAdd (a b : UInt64) : UInt64 :=
  if a.toNat + b.toNat ≤ limit then a + b else UInt64.ofNat limit

def satSub (a b : UInt64) : UInt64 := if b ≤ a then a - b else 0

def satMul (a b : UInt64) : UInt64 :=
  if a.toNat * b.toNat ≤ limit then a * b else UInt64.ofNat limit

theorem toNat_ofNat_limit : (UInt64.ofNat limit).toNat = limit := rfl

theorem toNat_satAdd (a b : UInt64) : (satAdd a b).toNat = min (a.toNat + b.toNat) limit := by
  unfold satAdd
  split
  · rename_i hle
    have hlt : a.toNat + b.toNat < 2 ^ 64 := lt_of_le_pred (by decide) hle
    rw [UInt64.toNat_add, mod_eq_of_lt hlt, min_eq_left hle]
  · rename_i hgt
    rw [toNat_ofNat_limit, Nat.min_eq_right (Nat.le_of_not_le hgt)]

theorem zero_satAdd (a : UInt64) : satAdd 0 a = a := by
  apply UInt64.toNat_inj.mp
  rw [toNat_satAdd, UInt64.toNat_zero, Nat.zero_add]
  exact Nat.min_eq_left (toNat_le_limit a)

theorem toNat_satSub (a b : UInt64) : (satSub a b).toNat = a.toNat - b.toNat := by
  unfold satSub
  split
  · next hle => rw [UInt64.toNat_sub_of_le a b hle]
  rename_i hgt
  have hlt : a.toNat < b.toNat := Nat.lt_of_not_le fun h => hgt (UInt64.le_iff_toNat_le.mpr h)
  rw [Nat.sub_eq_zero_of_le (le_of_lt hlt)]
  rfl

theorem toNat_satMul (a b : UInt64) : (satMul a b).toNat = min (a.toNat * b.toNat) limit := by
  unfold satMul
  split
  · rename_i hle
    have hlt : a.toNat * b.toNat < 2 ^ 64 := lt_of_le_pred (by decide) hle
    rw [UInt64.toNat_mul, mod_eq_of_lt hlt, min_eq_left hle]
  · rename_i hgt
    rw [toNat_ofNat_limit, Nat.min_eq_right (Nat.le_of_not_le hgt)]

theorem toNat_foldl_satAdd (words : List UInt64) (a : UInt64) :
    (words.foldl satAdd a).toNat = min (a.toNat + (words.map UInt64.toNat).sum) limit := by
  induction words generalizing a with
  | nil =>
    have hle := toNat_le_limit a
    simp only [foldl_nil, map_nil, sum_nil, add_zero]
    exact (min_eq_left hle).symm
  | cons w words ih =>
    rw [foldl_cons, ih, toNat_satAdd, map_cons, sum_cons]
    omega

theorem min_sum_min (terms : List Nat) (k : Nat) :
    min ((terms.map fun t => min t k).sum) k = min terms.sum k := by
  induction terms with
  | nil => rfl
  | cons t terms ih =>
    rw [map_cons, sum_cons, sum_cons]
    omega

theorem sum_min_of_le {terms : List Nat} {k : Nat} (h : terms.sum ≤ k) :
    (terms.map fun t => min t k).sum = terms.sum := by
  induction terms with
  | nil => rfl
  | cons t terms ih =>
    rw [sum_cons] at h
    rw [map_cons, sum_cons, sum_cons, ih (by omega)]
    omega

def signedLimit : Int := 2 ^ 63 - 1

theorem toInt_le_signedLimit (a : Int64) : a.toInt ≤ signedLimit :=
  le_sub_one_of_lt (Int64.toInt_lt a)

theorem neg_signedLimit_le_toInt (a : Int64) : -signedLimit - 1 ≤ a.toInt :=
  Int64.le_toInt a

theorem toInt_toInt64 (a : UInt64) : a.toInt64.toInt = (a.toNat : Int).bmod (2 ^ 64) := by
  have hwr : a.toInt64.toBitVec = a.toBitVec := UInt64.toBitVec_toInt64 a
  rw [← Int64.toInt_toBitVec, hwr, BitVec.toInt_eq_toNat_bmod, UInt64.toNat_toBitVec]

theorem toInt_toInt64_of_le {a : UInt64} (h : (a.toNat : Int) ≤ signedLimit) :
    a.toInt64.toInt = a.toNat := by
  unfold signedLimit at h
  rw [toInt_toInt64]
  exact bmod_eq_of_le_mul_two (by omega) (by omega)

theorem toInt_toInt64_of_gt {a : UInt64} (h : signedLimit < a.toNat) :
    a.toInt64.toInt = a.toNat - 2 ^ 64 := by
  unfold signedLimit at h
  have hlt : a.toNat < 2 ^ 64 := a.toNat_lt
  rw [toInt_toInt64]
  have hwr : (a.toNat : Int).bmod (2 ^ 64) = ((a.toNat : Int) - (2 ^ 64 : Nat)).bmod (2 ^ 64) :=
    (sub_bmod_right _ _).symm
  rw [hwr]
  exact bmod_eq_of_le_mul_two (by omega) (by omega)

theorem toInt_add {a b : Int64} (hlow : -signedLimit - 1 ≤ a.toInt + b.toInt)
    (hhg : a.toInt + b.toInt ≤ signedLimit) : (a + b).toInt = a.toInt + b.toInt := by
  unfold signedLimit at hlow hhg
  rw [Int64.toInt_add]
  exact bmod_eq_of_le_mul_two (by omega) (by omega)

theorem toInt_sub {a b : Int64} (hlow : -signedLimit - 1 ≤ a.toInt - b.toInt)
    (hhg : a.toInt - b.toInt ≤ signedLimit) : (a - b).toInt = a.toInt - b.toInt := by
  unfold signedLimit at hlow hhg
  rw [Int64.toInt_sub]
  exact bmod_eq_of_le_mul_two (by omega) (by omega)

theorem sum_bmod_emod (terms : List Int) :
    (terms.map fun t => t.bmod (2 ^ 64)).sum % 2 ^ 64 = terms.sum % 2 ^ 64 := by
  induction terms with
  | nil => rfl
  | cons t terms ih =>
    have htr : t.bmod (2 ^ 64) % 2 ^ 64 = t % 2 ^ 64 := bmod_emod
    rw [map_cons, sum_cons, sum_cons, add_emod, ih, htr, ← add_emod]

theorem sum_bmod_of_le {terms : List Int} (hng : ∀ t ∈ terms, 0 ≤ t)
    (hsum : terms.sum ≤ signedLimit) :
    (terms.map fun t => t.bmod (2 ^ 64)).sum = terms.sum := by
  unfold signedLimit at hsum
  have hfit : 0 ≤ terms.sum ∧ (terms.map fun t => t.bmod (2 ^ 64)).sum = terms.sum := by
    induction terms with
    | nil => exact ⟨Int.le_refl 0, rfl⟩
    | cons t terms ih =>
      have ht := hng t (.head _)
      rw [sum_cons] at hsum
      have hrs : ∀ t ∈ terms, 0 ≤ t := fun t ht => hng t (.tail _ ht)
      obtain ⟨hpos, heq⟩ := ih hrs (by omega)
      have htr : t.bmod (2 ^ 64) = t := bmod_eq_of_le_mul_two (by omega) (by omega)
      rw [map_cons, sum_cons, sum_cons, heq, htr]
      exact ⟨by omega, rfl⟩
  exact hfit.2

section
variable {α κ : Type} [DecidableEq κ]

def tally (account : α → κ) (amount : α → UInt64) (k : κ) (records : List α) : Nat :=
  ((records.filter fun r => account r = k).map fun r => (amount r).toNat).sum

variable (account : α → κ) (amount : α → UInt64)

theorem tally_concat (k : κ) (records : List α) (r : α) :
    tally account amount k (records ++ [r])
      = tally account amount k records + if account r = k then (amount r).toNat else 0 := by
  unfold tally
  rw [filter_append, map_append, List.sum_append]
  by_cases hk : account r = k
  · rw [if_pos hk, filter_cons_of_pos (by simpa using hk)]
    simp
  · rw [if_neg hk, filter_cons_of_neg (by simpa using hk)]
    simp

end

end Amount
