import Mathlib.Algebra.Ring.Nat

/-!
# Bytes on the wire

Fixed-width big-endian integers over byte lists, in both directions.
-/

namespace Wire

open Nat

def beUint : List UInt8 → Nat
  | [] => 0
  | b :: bs => b.toNat * 256 ^ bs.length + beUint bs

def beBytes : Nat → Nat → List UInt8
  | 0, _ => []
  | w + 1, v => UInt8.ofNat (v / 256 ^ w) :: beBytes w v

@[simp] theorem beBytes_length : ∀ w v : Nat, (beBytes w v).length = w
  | 0, _ => rfl
  | w + 1, v => by rw [beBytes, List.length_cons, beBytes_length w v]

theorem beUint_lt : ∀ bs : List UInt8, beUint bs < 256 ^ bs.length
  | [] => by simp [beUint]
  | b :: bs => by
    have hb := b.toNat_lt
    have ih := beUint_lt bs
    have hmul : b.toNat * 256 ^ bs.length ≤ 255 * 256 ^ bs.length :=
      mul_le_mul_right _ (by omega)
    rw [beUint, List.length_cons, pow_succ]
    omega

theorem beUint_beBytes : ∀ w v : Nat, beUint (beBytes w v) = v % 256 ^ w
  | 0, v => by simp [beBytes, beUint, mod_one]
  | w + 1, v => by
    have hsp : v % 256 ^ (w + 1) = v % 256 ^ w + 256 ^ w * (v / 256 ^ w % 256) := by
      rw [pow_succ, mod_mul]
    rw [beBytes, beUint, beBytes_length, beUint_beBytes w v, UInt8.toNat_ofNat', hsp,
      mul_comm, add_comm]

theorem beBytes_append_inj (hv : v < 256 ^ w) (hv' : v' < 256 ^ w)
    (h : beBytes w v ++ xs = beBytes w v' ++ ys) : v = v' ∧ xs = ys := by
  obtain ⟨hby, hrs⟩ := List.append_inj h (by simp)
  have hvl := congrArg beUint hby
  rw [beUint_beBytes, beUint_beBytes, mod_eq_of_lt hv, mod_eq_of_lt hv'] at hvl
  exact ⟨hvl, hrs⟩

theorem beBytes_mul_add : ∀ (w v c : Nat), beBytes w (c * 256 ^ w + v) = beBytes w v
  | 0, _, _ => rfl
  | w + 1, v, c => by
    have hsp : c * 256 ^ (w + 1) + v = c * 256 * 256 ^ w + v := by
      rw [pow_succ, mul_comm (256 ^ w) 256, mul_assoc]
    have hpos : 0 < 256 ^ w := Nat.pow_pos (by omega)
    rw [hsp, beBytes, beBytes, beBytes_mul_add w v (c * 256)]
    congr 1
    apply UInt8.toNat_inj.mp
    rw [UInt8.toNat_ofNat', UInt8.toNat_ofNat', mul_comm (c * 256), mul_add_div hpos]
    omega

theorem beBytes_beUint : ∀ bs : List UInt8, beBytes bs.length (beUint bs) = bs
  | [] => rfl
  | b :: bs => by
    have hb := b.toNat_lt
    have hlt := beUint_lt bs
    have hpos : 0 < 256 ^ bs.length := Nat.pow_pos (by omega)
    rw [List.length_cons, beBytes, beUint, beBytes_mul_add, beBytes_beUint bs]
    congr 1
    apply UInt8.toNat_inj.mp
    rw [UInt8.toNat_ofNat', mul_comm, mul_add_div hpos, div_eq_of_lt hlt]
    omega

end Wire
