import VulosRelay.Server.Pool
import Mathlib.Data.List.MinMax
import Mathlib.Data.Prod.Lex

/-!
# Which node is chosen

Both loops keep the least member so far by a flag, the load and the id, in this order (`rank`). So
they are Mathlib's `argmin` over the members that may be chosen, and since ids are distinct, the
least member does not depend on the order of the loop.
-/

namespace VulosRelay.Server.Autoscale

open List Finmap Option

variable {Load : Type}

namespace Pool

def Has (p : Pool Load) (m : Member Load) : Prop := p.members.lookup m.node.id = some m

/-- The members of the pool, in any order. -/
def Order (p : Pool Load) : Type := { ms : List (Member Load) // ∀ m, m ∈ ms ↔ p.Has m }

end Pool

theorem lookup_setDraining (p : Pool Load) (id : String) (draining : Bool) (other : String) :
    (p.setDraining id draining).members.lookup other =
      if other = id then (p.members.lookup id).map ({ · with draining })
      else p.members.lookup other := by
  have hkey := p.keyed id
  rw [Pool.setDraining]
  split <;> grind [Pool.put, lookup_insert, lookup_insert_of_ne]

theorem lookup_undrain_drain (p : Pool Load) (id other : String) :
    ((p.drain id).undrain id).members.lookup other =
      if other = id then (p.members.lookup id).map ({ · with draining := false })
      else p.members.lookup other := by
  rw [Pool.undrain, lookup_setDraining, Pool.drain, lookup_setDraining, lookup_setDraining]
  split
  · rw [if_pos rfl, Option.map_map]
    rfl
  · rfl

variable [LinearOrder Load] {p : Pool Load}

def rank (flag : Member Load → Bool) (m : Member Load) : Bool ×ₗ Load ×ₗ String :=
  toLex (flag m, toLex (m.loadRatio, m.node.id))

/-- A member is the least of those of the pool that a predicate accepts. -/
def Pool.Least (p : Pool Load) (ok flag : Member Load → Bool) (m : Member Load) : Prop :=
  p.Has m ∧ ok m = true ∧ ∀ m', p.Has m' → ok m' = true → rank flag m ≤ rank flag m'

theorem rank_lt_iff (flag : Member Load → Bool) (m b : Member Load) :
    rank flag m < rank flag b ↔
      if flag m ≠ flag b then flag m = false
      else m.loadRatio < b.loadRatio ∨ m.loadRatio = b.loadRatio ∧ m.node.id < b.node.id := by
  rw [rank, rank, Prod.Lex.toLex_lt_toLex, Prod.Lex.toLex_lt_toLex]
  cases flag m <;> cases flag b <;> simp

theorem least_unique {ok flag : Member Load → Bool} (hm : p.Least ok flag m)
    (hm' : p.Least ok flag m') : m = m' := by
  have heq : rank flag m = rank flag m' := le_antisymm (hm.2.2 m' hm'.1 hm'.2.1)
    (hm'.2.2 m hm.1 hm.2.1)
  have hid : m.node.id = m'.node.id := congrArg (fun r => (ofLex (ofLex r).2).2) heq
  have hlk : p.members.lookup m'.node.id = some m := hid ▸ hm.1
  exact some.inj (hlk.symm.trans hm'.1)

theorem argmin_eq_some_iff (ms : p.Order) (ok flag : Member Load → Bool) :
    argmin (rank flag) (ms.1.filter ok) = some m ↔ p.Least ok flag m := by
  have hlt : ∀ b, argmin (rank flag) (ms.1.filter ok) = some b → p.Least ok flag b := by
    intro b hb
    obtain ⟨hmem, hok⟩ := mem_filter.mp (argmin_mem hb)
    refine ⟨(ms.2 b).mp hmem, hok, fun m' hm' hok' => ?_⟩
    exact le_of_mem_argmin (mem_filter.mpr ⟨(ms.2 m').mpr hm', hok'⟩) hb
  refine ⟨hlt m, fun hm => ?_⟩
  cases hb : argmin (rank flag) (ms.1.filter ok) with
  | some b => rw [least_unique (hlt b hb) hm]
  | none =>
    have hmem : m ∈ ms.1.filter ok := mem_filter.mpr ⟨(ms.2 m).mpr hm.1, hm.2.1⟩
    rw [argmin_eq_none.mp hb] at hmem
    cases hmem

theorem argmin_eq_none_iff (ms : p.Order) (ok flag : Member Load → Bool) :
    argmin (rank flag) (ms.1.filter ok) = none ↔ ∀ m, p.Has m → ok m = false := by
  rw [argmin_eq_none, filter_eq_nil_iff]
  exact forall_congr' fun m => by rw [ms.2 m, Bool.not_eq_true]

theorem foldl_nearestStep (env : Regions) (region : String) (ms : List (Member Load)) :
    ms.foldl (nearestStep env region) none =
      (argmin (rank fun m => !sameRegion env region m) (ms.filter Member.routable)).map
        fun m => (m, sameRegion env region m) := by
  rw [argmin, foldl_filter]
  show ms.foldl _ (Option.map (fun m => (m, sameRegion env region m)) none) = _
  refine foldl_hom _ fun best m => ?_
  cases best with
  | none => grind [nearestStep, argAux]
  | some b => grind [nearestStep, argAux, rank_lt_iff]

theorem foldl_drainStep (selfId : String) (ms : List (Member Load)) :
    ms.foldl (drainStep selfId) none =
      argmin (rank Member.routable) (ms.filter fun m => m.node.id ≠ selfId) := by
  rw [argmin, foldl_filter]
  congr 1
  funext best m
  cases best with
  | none => grind [drainStep, argAux]
  | some b => grind [drainStep, argAux, rank_lt_iff, better]

/-- **Node choice does not depend on map order.** Whatever the order of the loop, `Nearest` returns
the routable member that is least by (not in region, load, id) and `DrainCandidate` the member other
than the node itself that is least by (routable, load, id); they return none exactly if there is no
such member. -/
theorem node_choice_orderless (p : Pool Load) (ms : p.Order) (env : Regions)
    (region selfId : String) :
    (∀ n, nearest env ms.1 region = some n ↔ ∃ m, p.Least Member.routable
      (fun m => !sameRegion env (env.normalize region) m) m ∧ m.node = n) ∧
    (nearest env ms.1 region = none ↔ ∀ m, p.Has m → m.routable = false) ∧
    (∀ id, drainCandidate ms.1 selfId = some id ↔
      ∃ m, p.Least (fun m => m.node.id ≠ selfId) Member.routable m ∧ m.node.id = id) ∧
    (drainCandidate ms.1 selfId = none ↔ ∀ m, p.Has m → m.node.id = selfId) := by
  simp only [nearest, drainCandidate, foldl_nearestStep, foldl_drainStep, Option.map_map,
    map_eq_some_iff, map_eq_none_iff, argmin_eq_some_iff ms, argmin_eq_none_iff ms]
  simp

def drainedMember : Member Nat := ⟨⟨"a", "eu", "hetzner", "https://a", ""⟩, true, true, 0⟩

def drainedPool : Pool Nat := Pool.put ⟨∅, nofun⟩ drainedMember

theorem mem_drainedPool (m : Member Nat) : m ∈ [drainedMember] ↔ drainedPool.Has m := by
  by_cases hid : m.node.id = "a" <;> grind [Pool.Has, drainedPool, drainedMember, Pool.put,
    lookup_insert, lookup_insert_of_ne, lookup_empty]

/-! ## A failed scale-down -/

/-- **A failed scale-down leaves no trace** exactly if the node that was chosen was not draining. -/
theorem failed_decommission_traceless_iff (p : Pool Load) (ms : List (Member Load))
    (selfId : String) :
    (∀ id, (doDecommission p ms selfId fun _ => false).members.lookup id = p.members.lookup id) ↔
      ∀ id m, drainCandidate ms selfId = some id → p.members.lookup id = some m →
        m.draining = false := by
  rw [doDecommission]
  cases drainCandidate ms selfId with
  | none => simp
  | some id =>
    simp only [Bool.false_eq_true, if_false, lookup_undrain_drain, some.injEq]
    constructor
    · rintro h _ m rfl hm
      have hid := h id
      rw [if_pos rfl, hm] at hid
      exact (congrArg Member.draining (some.inj hid)).symm
    · intro h other
      split
      · rename_i heq
        rw [heq]
        cases hm : p.members.lookup id with
        | none => rfl
        | some m => simp [← h id m rfl hm]
      · rfl

/-- A node that an operator had put in drain is chosen, and is taken out of drain. -/
theorem drained_node_undrained :
    (∀ m, m ∈ [drainedMember] ↔ drainedPool.Has m) ∧ drainedMember.draining = true ∧
      (doDecommission drainedPool [drainedMember] "self" fun _ => false).members.lookup "a"
        = some { drainedMember with draining := false } := by
  refine ⟨mem_drainedPool, rfl, (lookup_undrain_drain drainedPool "a" "a").trans ?_⟩
  exact (if_pos rfl).trans (congrArg (Option.map _) ((mem_drainedPool _).mp (.head _)))

end VulosRelay.Server.Autoscale
