import Mathlib.Algebra.Ring.Int.Defs
import Mathlib.Algebra.Ring.Nat
import Mathlib.Data.Nat.Log

/-!
# JavaScript numbers

The part of the language's number semantics that integer code meets: values are
IEEE doubles, sums and `BigInt` conversions round to the nearest double (ties to
even), bitwise operators truncate to 32 bits, and `===` and `Number.isInteger`
are the only questions asked of a value that may not be an integer at all.

Integers are kept exact as `Int`. The rounding lemmas say when that changes
nothing: below `2 ^ 53` every integer is a double.
-/

namespace JsNumber

open BitVec Nat

inductive Number where
  | fin (q : Rat)
  | inf (negative : Bool)
  | nan
  deriving DecidableEq

def Number.ofInt (i : Int) : Number := .fin i

def Number.strictEq : Number → Number → Bool
  | .fin p, .fin q => p == q
  | .inf a, .inf b => a == b
  | _, _ => false

def Number.toInteger? : Number → Option Int
  | .fin q => if q.den = 1 then some q.num else none
  | _ => none

theorem Number.toInteger?_ofInt (i : Int) : (Number.ofInt i).toInteger? = some i := by
  simp [Number.ofInt, Number.toInteger?]

theorem Number.strictEq_ofInt : (Number.ofInt i).strictEq x = true ↔ x = Number.ofInt i := by
  cases x with
  | fin q =>
    simp only [Number.ofInt, Number.strictEq, beq_iff_eq, Number.fin.injEq]
    exact eq_comm
  | inf n | nan => simp [Number.ofInt, Number.strictEq]

def roundTo (e n : Nat) : Nat :=
  if n % 2 ^ e * 2 < 2 ^ e ∨ (n % 2 ^ e * 2 = 2 ^ e ∧ n / 2 ^ e % 2 = 0) then n / 2 ^ e * 2 ^ e
  else (n / 2 ^ e + 1) * 2 ^ e

def roundNat (n : Nat) : Nat := if n < 2 ^ 53 then n else roundTo (Nat.log 2 n - 52) n

def toDouble (i : Int) : Int := if i < 0 then -(roundNat i.natAbs : Int) else roundNat i.natAbs

theorem roundNat_of_lt (h : n < 2 ^ 53) : roundNat n = n := by
  rw [roundNat, if_pos h]

theorem roundNat_two_pow : roundNat (2 ^ 53) = 2 ^ 53 := by decide

theorem roundNat_of_le (h : n ≤ 2 ^ 53) : roundNat n = n := by
  rcases lt_or_eq_of_le h with hlt | heq
  · exact roundNat_of_lt hlt
  · rw [heq, roundNat_two_pow]

theorem toDouble_of_nonneg (h0 : 0 ≤ i) (h : i ≤ 2 ^ 53) : toDouble i = i := by
  rw [toDouble, if_neg (by omega), roundNat_of_le (by omega)]
  omega

theorem le_roundNat (h : 2 ^ 52 ≤ n) : 2 ^ 52 ≤ roundNat n := by
  rw [roundNat]
  split
  · exact h
  have hlog : 53 ≤ log 2 n := (le_log_iff_pow_le (by omega) (by omega)).mpr (by omega)
  have hsl := pow_log_le_self 2 (x := n) (by omega)
  -- the quotient keeps the leading bit, so it is at least `2 ^ 52`
  have hq : 2 ^ 52 ≤ n / 2 ^ (log 2 n - 52) := by
    rw [Nat.le_div_iff_mul_le (Nat.pow_pos (by omega)), ← Nat.pow_add,
      show 52 + (Nat.log 2 n - 52) = Nat.log 2 n by omega]
    exact hsl
  have hpos : 0 < 2 ^ (Nat.log 2 n - 52) := Nat.pow_pos (by omega)
  have hmul : n / 2 ^ (Nat.log 2 n - 52)
      ≤ n / 2 ^ (Nat.log 2 n - 52) * 2 ^ (Nat.log 2 n - 52) := Nat.le_mul_of_pos_right _ hpos
  rw [roundTo]
  split
  · omega
  · rw [Nat.add_mul]; omega

theorem toDouble_natCast_le_iff {n k : Nat} (hk : k < 2 ^ 52) : toDouble n ≤ k ↔ n ≤ k := by
  rcases lt_or_ge n (2 ^ 53) with hn | hn
  · rw [toDouble_of_nonneg (by omega) (by omega)]
    omega
  have hbig := le_roundNat (n := n) (by omega)
  have hdb : toDouble n = roundNat n := by
    rw [toDouble, if_neg (by omega), Int.natAbs_natCast]
  rw [hdb]
  omega

theorem toDouble_natCast_eq_iff {n k : Nat} (hk : k < 2 ^ 52) : toDouble n = k ↔ n = k := by
  constructor
  · intro h
    have hle := (toDouble_natCast_le_iff hk).mp (Int.le_of_eq h)
    rw [toDouble_of_nonneg (by omega) (by omega)] at h
    exact Int.natCast_inj.mp h
  · intro h
    rw [h, toDouble_of_nonneg (by omega) (by omega)]

def xor32 (a b : Int) : Int := (BitVec.ofInt 32 a ^^^ BitVec.ofInt 32 b).toInt

def shl32 (a : Int) (k : Nat) : Int := (BitVec.ofInt 32 a <<< k).toInt

def or32 (a b : Int) : Int := (BitVec.ofInt 32 a ||| BitVec.ofInt 32 b).toInt

def and32 (a b : Int) : Int := (BitVec.ofInt 32 a &&& BitVec.ofInt 32 b).toInt

def sar32 (a : Int) (k : Nat) : Int := ((BitVec.ofInt 32 a).sshiftRight k).toInt

def toUint32 (a : Int) : Int := (BitVec.ofInt 32 a).toNat

/-! Below `2 ^ 31` the sign bit stays clear and the operators are those of the naturals. -/

theorem toInt_ofNat_of_lt (h : a < 2 ^ 31) : (BitVec.ofNat 32 a).toInt = a := by
  rw [BitVec.toInt_eq_toNat_of_lt (by rw [BitVec.toNat_ofNat]; omega), BitVec.toNat_ofNat]
  omega

theorem xor32_natCast {a b : Nat} (ha : a < 2 ^ 31) (hb : b < 2 ^ 31) :
    xor32 a b = (a ^^^ b : Nat) := by
  rw [xor32, ofInt_natCast, ofInt_natCast, ← ofNat_xor,
    toInt_ofNat_of_lt (xor_lt_two_pow ha hb)]

theorem or32_natCast {a b : Nat} (ha : a < 2 ^ 31) (hb : b < 2 ^ 31) :
    or32 a b = (a ||| b : Nat) := by
  rw [or32, ofInt_natCast, ofInt_natCast, ← ofNat_or,
    toInt_ofNat_of_lt (or_lt_two_pow ha hb)]

theorem and32_natCast (a : Nat) {b : Nat} (hb : b < 2 ^ 31) : and32 a b = (a &&& b : Nat) := by
  rw [and32, ofInt_natCast, ofInt_natCast, ← ofNat_and,
    toInt_ofNat_of_lt (and_lt_two_pow a hb)]

theorem toUint32_shl32 {a k : Nat} (h : a * 2 ^ k < 2 ^ 32) :
    toUint32 (shl32 a k) = (a * 2 ^ k : Nat) := by
  rw [toUint32, shl32, ofInt_natCast, ofInt_toInt, toNat_shiftLeft,
    toNat_ofNat, Nat.shiftLeft_eq, Nat.mod_mul_mod, Nat.mod_eq_of_lt h]

theorem shl32_natCast {a k : Nat} (h : a * 2 ^ k < 2 ^ 31) : shl32 a k = (a * 2 ^ k : Nat) := by
  have hn : (BitVec.ofNat 32 a <<< k).toNat = a * 2 ^ k := by
    rw [BitVec.toNat_shiftLeft, BitVec.toNat_ofNat, Nat.shiftLeft_eq, Nat.mod_mul_mod,
      Nat.mod_eq_of_lt (by omega)]
  rw [shl32, ofInt_natCast, toInt_eq_toNat_of_lt (by omega), hn]

theorem sar32_natCast {a k : Nat} (h : a < 2 ^ 31) : sar32 a k = (a >>> k : Nat) := by
  rw [sar32, ofInt_natCast, toInt_sshiftRight, toInt_ofNat_of_lt h]
  rfl
def half (a : Int) : Int := a / 2

end JsNumber
