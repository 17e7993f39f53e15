import Mathlib.Data.Finmap
import Mathlib.Algebra.BigOperators.Group.Finset.Basic
import Mathlib.Algebra.Order.BigOperators.Group.Multiset
import Mathlib.Algebra.Order.Ring.Int

/-!
# Finite maps with a filter and a sum

Mathlib's `Finmap` at a constant value type, with operations it does not have:
keeping the entries a predicate accepts, asking whether there is one, and adding
up what the entries are worth, in the naturals or the integers. Equality of maps is
equality of lookups, so a program that inserts and later erases is back where it was.
-/

abbrev FinMap (κ α : Type) := Finmap fun _ : κ => α

namespace FinMap

open Finmap Option Multiset

variable {κ α : Type}

def filter (p : κ → α → Bool) (m : FinMap κ α) : FinMap κ α where
  entries := m.entries.filter fun e => p e.1 e.2
  nodupKeys := by
    obtain ⟨s, hs⟩ := m
    induction s using Quotient.inductionOn with
    | h l => exact List.NodupKeys.sublist List.filter_sublist hs

def mapFilter {β : Type} (f : κ → α → Option β) (m : FinMap κ α) : FinMap κ β where
  entries := m.entries.filterMap fun e => (f e.1 e.2).map fun b => ⟨e.1, b⟩
  nodupKeys := by
    obtain ⟨s, hs⟩ := m
    induction s using Quotient.inductionOn with
    | h l =>
      refine List.Nodup.sublist ?_ hs
      induction l with
      | nil => exact List.Sublist.slnil
      | cons e l ih =>
        obtain ⟨-, hl⟩ := List.nodupKeys_cons.mp hs
        cases he : f e.1 e.2 with
        | none =>
          rw [List.filterMap_cons_none (by rw [he]; rfl)]
          exact (ih hl).cons e.1
        | some b =>
          rw [List.filterMap_cons_some (by rw [he]; rfl)]
          exact (ih hl).cons_cons e.1

def any (p : κ → α → Bool) (m : FinMap κ α) : Bool :=
  decide (0 < m.entries.countP fun e => p e.1 e.2 = true)

def total (m : FinMap κ Nat) : Nat := (m.entries.map Sigma.snd).sum

def weigh (size : α → Nat) (m : FinMap κ α) : Nat := (m.entries.map fun e => size e.2).sum

variable [DecidableEq κ]

theorem lookup_filter (p : κ → α → Bool) (m : FinMap κ α) (k : κ) :
    (filter p m).lookup k = (m.lookup k).filter (p k) := by
  apply Option.ext
  intro v
  rw [filter_eq_some_iff, lookup_eq_some_iff, lookup_eq_some_iff, filter, mem_filter]

variable {m : FinMap κ α} {k : κ}

theorem lookup_filter_eq_some :
    (filter p m).lookup k = some v ↔ m.lookup k = some v ∧ p k v = true := by
  rw [lookup_filter, filter_eq_some_iff]

theorem mem_iff_lookup : k ∈ m ↔ ∃ v, m.lookup k = some v := by
  rw [← lookup_isSome, isSome_iff_exists]

theorem mem_of_lookup (h : m.lookup k = some v) : k ∈ m :=
  mem_iff_lookup.mpr ⟨v, h⟩

theorem lookup_mapFilter (f : κ → α → Option β) (m : FinMap κ α) (k : κ) :
    (mapFilter f m).lookup k = (m.lookup k).bind (f k) := by
  apply Option.ext
  intro b
  rw [bind_eq_some_iff, lookup_eq_some_iff, mapFilter, mem_filterMap]
  constructor
  · intro hgv
    obtain ⟨e, he, hb⟩ := hgv
    obtain ⟨b', hb', heq⟩ := map_eq_some_iff.mp hb
    injection heq with hk hbb
    obtain ⟨k', v⟩ := e
    cases hk
    cases hbb
    exact ⟨v, lookup_eq_some_iff.mpr he, hb'⟩
  · intro hgv
    obtain ⟨v, hv, hb⟩ := hgv
    exact ⟨⟨k, v⟩, lookup_eq_some_iff.mp hv, by rw [hb]; rfl⟩

theorem mem_filter_key {p : κ → Bool} : k ∈ filter (fun k _ => p k) m ↔ k ∈ m ∧ p k = true := by
  rw [mem_iff_lookup, mem_iff_lookup]
  constructor
  · intro hgv
    obtain ⟨v, h⟩ := hgv
    obtain ⟨h1, h2⟩ := lookup_filter_eq_some.mp h
    exact ⟨⟨v, h1⟩, h2⟩
  · intro hgv
    obtain ⟨⟨v, h1⟩, h2⟩ := hgv
    exact ⟨v, lookup_filter_eq_some.mpr ⟨h1, h2⟩⟩

theorem any_iff : any p m = true ↔ ∃ k v, m.lookup k = some v ∧ p k v = true := by
  rw [any, decide_eq_true_iff, countP_pos]
  constructor
  · intro hgv
    obtain ⟨⟨k, v⟩, hmem, hp⟩ := hgv
    exact ⟨k, v, lookup_eq_some_iff.mpr hmem, hp⟩
  intro hgv
  obtain ⟨k, v, hl, hp⟩ := hgv
  exact ⟨⟨k, v⟩, lookup_eq_some_iff.mp hl, hp⟩

theorem forall_insert {P : α → Prop} {v : α} (h : ∀ k v, m.lookup k = some v → P v) (hv : P v) :
    ∀ k' v', (m.insert k v).lookup k' = some v' → P v' := by
  intro k' v' hlk
  by_cases heq : k' = k
  · rw [heq, lookup_insert] at hlk
    exact some.inj hlk ▸ hv
  · rw [lookup_insert_of_ne _ heq] at hlk
    exact h k' v' hlk

theorem forall_erase {P : α → Prop} (h : ∀ k v, m.lookup k = some v → P v) :
    ∀ k' v', (m.erase k).lookup k' = some v' → P v' := by
  intro k' v' hlk
  by_cases heq : k' = k
  · rw [heq, lookup_erase] at hlk
    simp at hlk
  · rw [lookup_erase_ne heq] at hlk
    exact h k' v' hlk

theorem insert_erase (m : FinMap κ α) (k : κ) (v : α) : (m.erase k).insert k v = m.insert k v := by
  refine ext_lookup fun j => ?_
  by_cases hj : j = k
  · rw [hj, lookup_insert, lookup_insert]
  · rw [lookup_insert_of_ne _ hj, lookup_insert_of_ne _ hj, lookup_erase_ne hj]

theorem insert_lookup (h : m.lookup k = some v) : m.insert k v = m := by
  refine ext_lookup fun j => ?_
  by_cases hj : j = k
  · rw [hj, lookup_insert, h]
  · rw [lookup_insert_of_ne _ hj]

theorem total_insert {m : FinMap κ Nat} (v : Nat) (h : k ∉ m) :
    total (m.insert k v) = v + total m := by
  rw [total, entries_insert_of_notMem h, map_cons, sum_cons]
  rfl

theorem total_erase {m : FinMap κ Nat} {v : Nat} (h : m.lookup k = some v) :
    total m = v + total (m.erase k) := by
  rw [← total_insert v (notMem_erase_self), insert_erase, insert_lookup h]

omit [DecidableEq κ] in
theorem total_filter (p : κ → Nat → Bool) (m : FinMap κ Nat) :
    total m = total (filter p m) + total (filter (fun k v => !p k v) m) := by
  have hsp := filter_add_not (fun e : (_ : κ) × Nat => p e.1 e.2 = true) m.entries
  rw [total, ← hsp, map_add, sum_add]
  simp only [total, filter, Bool.not_eq_true, Bool.not_eq_eq_eq_not, Bool.not_true]

theorem total_le_of_submap {m m' : FinMap κ Nat}
    (h : ∀ k v, m'.lookup k = some v → m.lookup k = some v) : total m' ≤ total m := by
  have hfl : filter (fun k _ => decide (k ∈ m')) m = m' := by
    refine ext_lookup fun k => ?_
    apply Option.ext
    intro v
    rw [lookup_filter_eq_some, decide_eq_true_eq]
    constructor
    · intro hgv
      obtain ⟨hv, hk⟩ := hgv
      obtain ⟨v', hv'⟩ := mem_iff_lookup.mp hk
      rw [hv', ← hv, h k v' hv']
    · intro hv
      exact ⟨h k v hv, mem_of_lookup hv⟩
  have hsp := total_filter (fun k _ => decide (k ∈ m')) m
  rw [hfl] at hsp
  omega

theorem weigh_eq_sum :
    weigh size m = ∑ k ∈ m.keys, ((m.lookup k).map size).getD 0 := by
  have hsum : ∑ k ∈ m.keys, ((m.lookup k).map size).getD 0
      = (m.entries.map fun e => ((m.lookup e.1).map size).getD 0).sum := by
    show ((m.entries.map Sigma.fst).map fun k => ((m.lookup k).map size).getD 0).sum = _
    rw [Multiset.map_map]
    rfl
  rw [hsum, weigh]
  refine congrArg sum (map_congr rfl fun e he => ?_)
  have hlk : m.lookup e.1 = some e.2 := lookup_eq_some_iff.mpr he
  rw [hlk]
  rfl

theorem weigh_eq_total {ι : Type} [DecidableEq ι] {m : FinMap κ Nat} {m' : FinMap ι α}
    {size : α → Nat} (g : ι → κ)
    (hmap : ∀ i a, m'.lookup i = some a → m.lookup (g i) = some (size a))
    (hinj : ∀ i ∈ m', ∀ j ∈ m', g i = g j → i = j) (hsr : ∀ k ∈ m, ∃ i ∈ m', g i = k) :
    weigh size m' = total m := by
  have htl : total m = weigh id m := rfl
  rw [htl, weigh_eq_sum, weigh_eq_sum]
  refine Finset.sum_nbij g ?_ ?_ ?_ ?_
  · intro i hi
    obtain ⟨a, ha⟩ := mem_iff_lookup.mp (mem_keys.mp hi)
    exact mem_keys.mpr (mem_of_lookup (hmap i a ha))
  · intro i hi j hj heq
    exact hinj i (mem_keys.mp hi) j (mem_keys.mp hj) heq
  · intro k hk
    obtain ⟨i, hi, heq⟩ := hsr k (mem_keys.mp hk)
    exact ⟨i, mem_keys.mpr hi, heq⟩
  intro i hi
  obtain ⟨a, ha⟩ := mem_iff_lookup.mp (mem_keys.mp hi)
  rw [ha, hmap i a ha]
  rfl

def sumOf (f : κ → α → Int) (m : FinMap κ α) : Int := (m.entries.map fun e => f e.1 e.2).sum

section

variable (f : κ → α → Int)

theorem sumOf_insert_of_notMem (h : k ∉ m) (v : α) :
    sumOf f (m.insert k v) = f k v + sumOf f m := by
  rw [sumOf, entries_insert_of_notMem h, map_cons, sum_cons]
  rfl

theorem sumOf_eq_add_erase (m : FinMap κ α) (k : κ) :
    sumOf f m = ((m.lookup k).map (f k)).getD 0 + sumOf f (m.erase k) := by
  cases hv : m.lookup k with
  | none =>
    have hout : m.erase k = m := by
      refine ext_lookup fun j => ?_
      by_cases hj : j = k
      · rw [hj, lookup_erase, hv]
      · rw [lookup_erase_ne hj]
    rw [hout]
    exact (Int.zero_add _).symm
  | some v =>
    have hsum := sumOf_insert_of_notMem f (notMem_erase_self (s := m) (a := k)) v
    rw [insert_erase, insert_lookup hv] at hsum
    exact hsum

theorem sumOf_insert (m : FinMap κ α) (k : κ) (v : α) :
    sumOf f (m.insert k v) = sumOf f m + f k v - ((m.lookup k).map (f k)).getD 0 := by
  have hnew := sumOf_insert_of_notMem f (notMem_erase_self (s := m) (a := k)) v
  have hold := sumOf_eq_add_erase f m k
  rw [insert_erase] at hnew
  omega

end

theorem sumOf_nonneg (h : ∀ k v, m.lookup k = some v → 0 ≤ f k v) : 0 ≤ sumOf f m := by
  refine sum_nonneg fun x hx => ?_
  obtain ⟨e, he, heq⟩ := mem_map.mp hx
  rw [← heq]
  exact h e.1 e.2 (lookup_eq_some_iff.mpr he)

theorem le_sumOf (h : ∀ k v, m.lookup k = some v → 0 ≤ f k v) (k : κ) :
    ((m.lookup k).map (f k)).getD 0 ≤ sumOf f m := by
  have hrs : 0 ≤ sumOf f (m.erase k) := by
    refine sumOf_nonneg fun j v hv => h j v ?_
    by_cases hj : j = k
    · rw [hj, lookup_erase] at hv
      simp at hv
    · rwa [lookup_erase_ne hj] at hv
  rw [sumOf_eq_add_erase f m k]
  omega

def size (m : FinMap κ α) : Nat := m.keys.card

omit [DecidableEq κ] in
theorem size_le_of_subset (h : ∀ k, k ∈ m → k ∈ m') : size m ≤ size m' := by
  refine Finset.card_le_card fun k hk => ?_
  exact mem_keys.mpr (h k (mem_keys.mp hk))

theorem size_insert_le (m : FinMap κ α) (k : κ) (v : α) : size (m.insert k v) ≤ size m + 1 := by
  have hky : (m.insert k v).keys = insert k m.keys := by
    ext j
    rw [mem_keys, mem_insert, Finset.mem_insert, mem_keys]
  rw [size, hky]
  exact Finset.card_insert_le k m.keys

end FinMap
