import Mathlib.Data.List.Basic

/-!
# Positions in a list

Where a value stands in a list, and when those places follow one another without a gap.
An increasing list of numbers is a range exactly if it leaves out no number between two
of its own, and the positions of a value are such a list.
-/

namespace VulosRelay

open List Option

variable {α : Type} [DecidableEq α]

def positions (a : α) (l : List α) : List Nat :=
  l.zipIdx.filterMap fun x => if x.1 = a then some x.2 else none

/-- Nothing else stands between two occurrences of a value. -/
def Unbroken (a : α) (l : List α) : Prop :=
  ∀ i j k : Nat, i < j → j < k → l[i]? = some a → l[k]? = some a → l[j]? = some a

/-- The numbers are a start and those that follow it one by one. -/
def Consecutive (l : List Nat) : Prop := ∃ start, l = List.range' start l.length

theorem mem_positions {a : α} {l : List α} {i : Nat} : i ∈ positions a l ↔ l[i]? = some a := by
  unfold positions
  rw [mem_filterMap]
  constructor
  · intro h
    obtain ⟨x, hmem, hx⟩ := h
    obtain ⟨heq, hi⟩ := ite_none_right_eq_some.mp hx
    rw [mem_zipIdx_iff_getElem?, heq, some.inj hi] at hmem
    exact hmem
  · intro h
    exact ⟨(a, i), mem_zipIdx_iff_getElem?.mpr h, if_pos rfl⟩

theorem pairwise_positions (a : α) (l : List α) : (positions a l).Pairwise (· < ·) := by
  have hidx : l.zipIdx.Pairwise fun x y => x.2 < y.2 := by
    rw [← pairwise_map (f := Prod.snd) (R := (· < ·)), zipIdx_map_snd]
    exact pairwise_lt_range'
  refine hidx.filterMap _ fun x y hlt i hi j hj => ?_
  obtain ⟨-, hi⟩ := ite_none_right_eq_some.mp hi
  obtain ⟨-, hj⟩ := ite_none_right_eq_some.mp hj
  rw [← some.inj hi, ← some.inj hj]
  exact hlt

theorem consecutive_of_pairwise {l : List Nat} (hlt : l.Pairwise (· < ·))
    (hfl : ∀ i j k, i < j → j < k → i ∈ l → k ∈ l → j ∈ l) : Consecutive l := by
  induction l with
  | nil => exact ⟨0, rfl⟩
  | cons a l ih =>
    obtain ⟨hhd, htl⟩ := pairwise_cons.mp hlt
    have hfl' : ∀ i j k, i < j → j < k → i ∈ l → k ∈ l → j ∈ l := by
      intro i j k hij hjk hi hk
      rcases mem_cons.mp
        (hfl i j k hij hjk (mem_cons_of_mem a hi) (mem_cons_of_mem a hk)) with
        hj | hj
      · have hai := hhd i hi
        omega
      · exact hj
    obtain ⟨start, hrn⟩ := ih htl hfl'
    refine ⟨a, ?_⟩
    rw [length_cons, range'_succ, cons_inj_right]
    rcases Nat.eq_zero_or_pos l.length with hzr | hpos
    · rw [eq_nil_of_length_eq_zero hzr]
      rfl
    -- the tail starts right above `a`, or the number above `a` would be left out
    have hmem : ∀ i, i ∈ l ↔ start ≤ i ∧ i < start + l.length := by
      intro i
      rw [← mem_range'_1, ← hrn]
    have hst := (hmem start).mpr ⟨Nat.le_refl start, by omega⟩
    have hlow := hhd start hst
    have hnx : start = a + 1 := by
      rcases Nat.lt_or_ge (a + 1) start with hgap | hle
      · have hin := hfl a (a + 1) start (by omega) hgap (.head _)
          (mem_cons_of_mem a hst)
        rcases mem_cons.mp hin with heq | hin
        · omega
        · have hab := ((hmem (a + 1)).mp hin).1
          omega
      · omega
    rw [← hnx]
    exact hrn

/-- **A value stands at consecutive positions exactly if it is not broken up.** -/
theorem consecutive_positions_iff (a : α) (l : List α) :
    Consecutive (positions a l) ↔ Unbroken a l := by
  constructor
  · intro h i j k hij hjk hi hk
    obtain ⟨start, hrn⟩ := h
    have hmem : ∀ i, l[i]? = some a ↔ start ≤ i ∧ i < start + (positions a l).length := by
      intro i
      rw [← mem_range'_1, ← hrn, mem_positions]
    have hlow := ((hmem i).mp hi).1
    have hhg := ((hmem k).mp hk).2
    exact (hmem j).mpr ⟨by omega, by omega⟩
  · intro h
    refine consecutive_of_pairwise (pairwise_positions a l) fun i j k hij hjk hi hk => ?_
    exact mem_positions.mpr (h i j k hij hjk (mem_positions.mp hi) (mem_positions.mp hk))

end VulosRelay
