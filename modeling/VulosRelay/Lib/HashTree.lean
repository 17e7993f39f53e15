import Mathlib.Algebra.Ring.Nat
import Mathlib.Data.Nat.Log
import Mathlib.Logic.Function.Iterate

/-!
# Hash trees over lists of any length

Two ways to hash a non-empty list down to one value, over an arbitrary leaf hash
and an arbitrary node hash.

* `mth` is the recursive tree of RFC 6962: split at the largest power of two
  strictly below the length, hash both halves, combine.
* `pairUp` builds one level from the level below it: pair neighbours left to
  right and carry an unpaired last node up unchanged. Iterating it until one
  node is left is the bottom-up construction.

`pairUp_iterate_mth` says the two are the same tree: a block whose length is a power
of two never sees the promotion rule.
-/

namespace HashTree

open List Nat

variable {α δ : Type} (leaf : α → δ) (node : δ → δ → δ)

def splitPoint (n : Nat) : Nat := 2 ^ Nat.log 2 (n - 1)

theorem splitPoint_lt (h : 2 ≤ n) : splitPoint n < n := by
  have hle : 2 ^ log 2 (n - 1) ≤ n - 1 := pow_log_le_self 2 (by omega)
  unfold splitPoint
  omega

theorem splitPoint_pos (n : Nat) : 0 < splitPoint n := by
  unfold splitPoint
  exact Nat.pow_pos (by omega)

theorem splitPoint_eq (h1 : 2 ^ j < n) (h2 : n ≤ 2 ^ (j + 1)) : splitPoint n = 2 ^ j := by
  unfold splitPoint
  congr 1
  exact (log_eq_iff (.inr ⟨by omega, by omega⟩)).mpr ⟨by omega, by omega⟩

theorem splitPoint_spec (h : 2 ≤ n) :
    ∃ j, splitPoint n = 2 ^ j ∧ 2 ^ j < n ∧ n ≤ 2 ^ (j + 1) := by
  refine ⟨log 2 (n - 1), rfl, splitPoint_lt h, ?_⟩
  have := lt_pow_succ_log_self (b := 2) (by omega) (n - 1)
  omega

def mth : List α → Option δ
  | [] => none
  | [x] => some (leaf x)
  | x :: y :: rest =>
    match mth ((x :: y :: rest).take (splitPoint (rest.length + 2))),
          mth ((x :: y :: rest).drop (splitPoint (rest.length + 2))) with
    | some l, some r => some (node l r)
    | _, _ => none
  termination_by xs => xs.length
  decreasing_by
    · have := splitPoint_lt (n := rest.length + 2) (by omega)
      simp only [List.length_take, List.length_cons]
      omega
    have := splitPoint_pos (rest.length + 2)
    simp only [List.length_drop, List.length_cons]
    omega

@[simp] theorem mth_singleton (x : α) : mth leaf node [x] = some (leaf x) := by
  rw [mth]

theorem mth_append (hx : xs.length = 2 ^ j) (hy0 : ys ≠ []) (hy : ys.length ≤ 2 ^ j)
    (hl : mth leaf node xs = some l) (hr : mth leaf node ys = some r) :
    mth leaf node (xs ++ ys) = some (node l r) := by
  have hyl : 0 < ys.length := length_pos_iff.mpr hy0
  have hxl : 0 < xs.length := by rw [hx]; exact Nat.pow_pos (by omega)
  obtain ⟨a, b, rest, hab⟩ : ∃ a b rest, xs ++ ys = a :: b :: rest := by
    have h2 : 2 ≤ (xs ++ ys).length := by rw [length_append]; omega
    match hzs : xs ++ ys, h2 with
    | a :: b :: rest, _ => exact ⟨a, b, rest, rfl⟩
    | [], h2 => simp at h2
    | [_], h2 => simp at h2
  have hlen : rest.length + 2 = xs.length + ys.length := by
    have := congrArg length hab
    simpa [length_append] using this.symm
  have hsp : splitPoint (rest.length + 2) = xs.length := by
    rw [hlen, hx]
    exact splitPoint_eq (by omega) (by rw [pow_succ]; omega)
  rw [hab, mth, hsp, ← hab, take_left, drop_left, hl, hr]

theorem mth_isSome (h : xs ≠ []) : ∃ r, mth leaf node xs = some r := by
  induction hn : xs.length using Nat.strongRecOn generalizing xs with
  | ind n ih =>
    match xs, h with
    | [x], _ => exact ⟨leaf x, mth_singleton leaf node x⟩
    | x :: y :: rest, _ =>
      have hlt := splitPoint_lt (n := rest.length + 2) (by omega)
      have hpos := splitPoint_pos (rest.length + 2)
      simp only [length_cons] at hn
      -- both halves are shorter than the list, and neither is empty
      obtain ⟨l, hl⟩ := @ih _ (by simp only [length_take, length_cons]; omega)
        ((x :: y :: rest).take (splitPoint (rest.length + 2)))
        (by
          intro h0
          have := congrArg length h0
          simp only [length_take, length_cons, length_nil] at this
          omega) rfl
      obtain ⟨r, hr⟩ := @ih _ (by simp only [length_drop, length_cons]; omega)
        ((x :: y :: rest).drop (splitPoint (rest.length + 2)))
        (by
          intro h0
          have := congrArg length h0
          simp only [length_drop, length_cons, length_nil] at this
          omega) rfl
      exact ⟨node l r, by rw [mth, hl, hr]⟩

def pairUp : List δ → List δ
  | a :: b :: rest => node a b :: pairUp rest
  | [a] => [a]
  | [] => []

@[simp] theorem pairUp_length : ∀ xs : List δ, (pairUp node xs).length = (xs.length + 1) / 2
  | a :: b :: rest => by
    simp only [pairUp, length_cons, pairUp_length rest]
    omega
  | [a] => by simp [pairUp]
  | [] => by simp [pairUp]

theorem pairUp_append : ∀ (xs ys : List δ), xs.length % 2 = 0 →
    pairUp node (xs ++ ys) = pairUp node xs ++ pairUp node ys
  | [], ys, _ => rfl
  | [a], ys, h => by simp at h
  | a :: b :: rest, ys, h => by
    simp only [length_cons] at h
    simp only [cons_append, pairUp]
    rw [pairUp_append rest ys (by omega)]

theorem pairUp_getElem? : ∀ (xs : List δ) (j : Nat) (a : δ), xs[2 * j]? = some a →
    (pairUp node xs)[j]? = some (xs[2 * j + 1]?.elim a (node a))
  | [], j, a, h => by simp at h
  | [x], 0, a, h => by simpa [pairUp] using h
  | [x], j + 1, a, h => by simp [mul_add] at h
  | x :: y :: rest, 0, a, h => by
    cases h
    rfl
  | x :: y :: rest, j + 1, a, h => by
    rw [pairUp, getElem?_cons_succ]
    exact pairUp_getElem? rest j a h

theorem pairUp_iterate_append : ∀ (m c : Nat) (xs ys : List δ), xs.length = 2 ^ m * c →
    (pairUp node)^[m] (xs ++ ys) = (pairUp node)^[m] xs ++ (pairUp node)^[m] ys
  | 0, _, xs, ys, _ => rfl
  | m + 1, c, xs, ys, h => by
    have hdb : xs.length = 2 * (2 ^ m * c) := by
      rw [h, pow_succ, mul_comm (2 ^ m) 2, mul_assoc]
    have hm : (pairUp node xs).length = 2 ^ m * c := by
      rw [pairUp_length]
      omega
    simp only [Function.iterate_succ_apply]
    rw [pairUp_append node xs ys (by omega), pairUp_iterate_append m c _ _ hm]

theorem pairUp_iterate_singleton (x : δ) : ∀ m : Nat, (pairUp node)^[m] [x] = [x]
  | 0 => rfl
  | m + 1 => by
    rw [Function.iterate_succ_apply]
    exact pairUp_iterate_singleton x m

/--
**The bottom-up construction is the recursive one.** Any number of levels that
is enough for the length takes the leaves to the single node `mth` computes.
-/
theorem pairUp_iterate_mth {xs : List α} (h : xs ≠ []) {r : δ}
    (hr : mth leaf node xs = some r) {m : Nat} (hm : xs.length ≤ 2 ^ m) :
    (pairUp node)^[m] (xs.map leaf) = [r] := by
  -- strong induction on the length; the two halves of the split are shorter
  induction hn : xs.length using Nat.strongRecOn generalizing xs r m with
  | ind n ih =>
    match xs, h with
    | [x], _ =>
      rw [mth_singleton, Option.some.injEq] at hr
      subst hr
      exact pairUp_iterate_singleton node (leaf x) m
    | x :: y :: rest, _ =>
      have hlen : (x :: y :: rest).length = rest.length + 2 := rfl
      obtain ⟨j, hj, hj1, hj2⟩ := splitPoint_spec (n := rest.length + 2) (by omega)
      generalize hz : x :: y :: rest = zs at *
      have hzne : zs ≠ [] := by rw [← hz]; simp
      have hpos : 0 < 2 ^ j := Nat.pow_pos (by omega)
      have hl1 : (zs.take (2 ^ j)).length = 2 ^ j := by rw [length_take]; omega
      have hl2 : (zs.drop (2 ^ j)).length = zs.length - 2 ^ j := length_drop ..
      have hne1 : zs.take (2 ^ j) ≠ [] := by
        intro h0; rw [h0] at hl1; simp at hl1; omega
      have hne2 : zs.drop (2 ^ j) ≠ [] := by
        intro h0; rw [h0] at hl2; simp at hl2; omega
      obtain ⟨lh, hlh⟩ := mth_isSome leaf node hne1
      obtain ⟨rh, hrh⟩ := mth_isSome leaf node hne2
      have hsp := mth_append leaf node hl1 hne2 (by rw [hl2]; rw [pow_succ] at hj2; omega)
        hlh hrh
      rw [take_append_drop, hr, Option.some.injEq] at hsp
      -- `m` levels are at least the `j` that each half needs and one more
      have hjm : j + 1 ≤ m := by
        by_contra hc
        have : 2 ^ m ≤ 2 ^ j := Nat.pow_le_pow_right (by omega) (by omega)
        omega
      obtain ⟨d, rfl⟩ := Nat.exists_eq_add_of_le hjm
      have hL := @ih _ (by omega) (zs.take (2 ^ j)) hne1 lh hlh j (by omega) rfl
      have hR := @ih _ (by omega) (zs.drop (2 ^ j)) hne2 rh hrh j
        (by rw [pow_succ] at hj2; omega) rfl
      have happ : (pairUp node)^[j] (zs.map leaf) = [lh, rh] := by
        conv_lhs => rw [← take_append_drop (2 ^ j) zs, map_append]
        rw [pairUp_iterate_append node j 1 _ _ (by rw [length_map, hl1, mul_one]), hL, hR]
        rfl
      rw [show j + 1 + d = d + 1 + j by omega, Function.iterate_add_apply, happ,
        Function.iterate_succ_apply]
      show (pairUp node)^[d] [node lh rh] = [r]
      rw [pairUp_iterate_singleton, hsp]

end HashTree
