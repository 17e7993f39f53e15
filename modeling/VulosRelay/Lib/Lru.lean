import Mathlib.Algebra.Ring.Nat
import VulosRelay.Lib.FinMap

/-!
# Caches that forget what was used least recently

The purpose of such a cache, said without a list. Every key that is held carries
the number of its last use; a new item is let in by forgetting exactly the keys
for which *they and everything used since* do not fit under the cap. An item also
has a lifetime, counted from when it was stored, and is dropped by the first
reading that finds it over.

A program keeps such a cache as a list, most recent first. `Listing` says what
the list has to be, and there is one lemma for each thing a program does to it.
`stored_run` reads off a whole history of operations what is stored under a key.
-/

namespace Lru

open List Finmap FinMap

variable {κ α : Type}

structure Slot (α : Type) where
  value : α
  storedAt : Int
  usedAt : Nat
  deriving DecidableEq

structure Policy (α : Type) where
  size : α → Nat
  maxItem : Option Nat
  cap : Option Nat
  ttl : Option Int

structure Cache (κ α : Type) where
  held : FinMap κ (Slot α)
  uses : Nat

inductive Op (κ α : Type) where
  | put (key : κ) (value : α) (now : Int)
  | get (key : κ) (now : Int)
  | purge

namespace Policy

def accepts (p : Policy α) (v : α) : Bool :=
  p.maxItem.all (fun m => p.size v ≤ m) && p.cap.all (fun c => p.size v ≤ c)

def expired (p : Policy α) (storedAt now : Int) : Bool := p.ttl.any fun t => t ≤ now - storedAt

def usedSince (p : Policy α) (m : FinMap κ (Slot α)) (n : Nat) : Nat :=
  FinMap.weigh (fun s => p.size s.value) (FinMap.filter (fun _ s => n ≤ s.usedAt) m)

/-- **Eviction.** A key stays exactly if it and everything used since fit. -/
def fit (p : Policy α) (m : FinMap κ (Slot α)) : FinMap κ (Slot α) :=
  FinMap.filter (fun _ s => p.cap.all fun c => p.usedSince m s.usedAt ≤ c) m

end Policy

namespace Cache

variable [DecidableEq κ]

def empty : Cache κ α := ⟨∅, 0⟩

def touch (c : Cache κ α) (k : κ) (v : α) (storedAt : Int) : Cache κ α :=
  ⟨c.held.insert k ⟨v, storedAt, c.uses⟩, c.uses + 1⟩

def put (p : Policy α) (now : Int) (c : Cache κ α) (k : κ) (v : α) : Cache κ α :=
  if p.accepts v then
    match c.held.lookup k with
    | some slot => c.touch k slot.value now
    | none => { c.touch k v now with held := p.fit (c.touch k v now).held }
  else c

def get (p : Policy α) (now : Int) (c : Cache κ α) (k : κ) : Cache κ α × Option (α × Int) :=
  match c.held.lookup k with
  | none => (c, none)
  | some slot =>
    if p.expired slot.storedAt now then ({ c with held := c.held.erase k }, none)
    else (c.touch k slot.value slot.storedAt, some (slot.value, slot.storedAt))

def step (p : Policy α) (c : Cache κ α) : Op κ α → Cache κ α × Option (α × Int)
  | .put k v now => (c.put p now k v, none)
  | .get k now => c.get p now k
  | .purge => (empty, none)

def run (p : Policy α) (c : Cache κ α) (ops : List (Op κ α)) : Cache κ α :=
  ops.foldl (fun c op => (c.step p op).1) c

def answers (p : Policy α) : Cache κ α → List (Op κ α) → List (Option (α × Int))
  | _, [] => []
  | c, op :: ops => (c.step p op).2 :: answers p (c.step p op).1 ops

def stored (c : Cache κ α) (k : κ) : Option (α × Int) :=
  (c.held.lookup k).map fun s => (s.value, s.storedAt)

/-- The operation makes the cache forget `k`: it is evicted by what is put in, a reading finds
it past its lifetime, or everything goes. -/
def Loses (p : Policy α) (c : Cache κ α) (k : κ) : Op κ α → Prop
  | .put k' v now => k ∈ c.held ∧ k ∉ (c.put p now k' v).held
  | .get k' now => k' = k ∧ ∃ slot, c.held.lookup k = some slot ∧ p.expired slot.storedAt now = true
  | .purge => True

/-- No operation of the list makes the cache forget `k`. -/
def Keeps (p : Policy α) (k : κ) : Cache κ α → List (Op κ α) → Prop
  | _, [] => True
  | c, op :: ops => ¬ c.Loses p k op ∧ Keeps p k (c.step p op).1 ops

def putClock (p : Policy α) (k : κ) : Op κ α → Option Int
  | .put k' v now => if k' = k ∧ p.accepts v = true then some now else none
  | _ => none

def lastPut (p : Policy α) (k : κ) (ops : List (Op κ α)) : Option Int :=
  ops.foldl (fun t op => (putClock p k op).or t) none

variable {k : κ} {p : Policy α} {now : Int} {op : Op κ α} {c : Cache κ α}

theorem get_of_absent (h : c.held.lookup k = none) : c.get p now k = (c, none) := by
  rw [get, h]

theorem get_of_expired {slot : Slot α} (h : c.held.lookup k = some slot)
    (hexp : p.expired slot.storedAt now = true) :
    c.get p now k = ({ c with held := c.held.erase k }, none) := by
  rw [get, h]
  exact if_pos hexp

theorem get_of_live {slot : Slot α} (h : c.held.lookup k = some slot)
    (hexp : ¬ p.expired slot.storedAt now = true) :
    c.get p now k = (c.touch k slot.value slot.storedAt, some (slot.value, slot.storedAt)) := by
  rw [get, h]
  exact if_neg hexp

/-! ## What an operation does to what is stored -/

theorem mem_held_iff : k ∈ c.held ↔ ∃ v t, c.stored k = some (v, t) := by
  rw [mem_iff_lookup]
  constructor
  · intro hgv
    obtain ⟨s, hs⟩ := hgv
    exact ⟨s.value, s.storedAt, by rw [stored, hs]; rfl⟩
  intro hgv
  obtain ⟨v, t, h⟩ := hgv
  obtain ⟨s, hs, -⟩ := Option.map_eq_some_iff.mp h
  exact ⟨s, hs⟩

theorem notMem_held_iff : k ∉ c.held ↔ c.stored k = none := by
  rw [mem_held_iff]
  cases h : c.stored k with
  | none => simp
  | some x => simp [← Prod.exists']

variable {v : α} {t : Int}

theorem stored_touch_self {k : κ} :
    (c.touch k v t).stored k = some (v, t) := by
  rw [stored, touch, lookup_insert]
  rfl

theorem stored_touch_of_ne (h : j ≠ k) :
    (c.touch k v t).stored j = c.stored j := by
  rw [stored, touch, lookup_insert_of_ne _ h]
  rfl

def Past (c : Cache κ α) : Prop := ∀ k s, c.held.lookup k = some s → s.usedAt < c.uses

theorem past_touch (h : c.Past) {k : κ} :
    (c.touch k v t).Past := by
  intro j s hs
  by_cases hj : j = k
  · rw [hj, touch, lookup_insert] at hs
    cases hs
    exact Nat.lt_succ_self c.uses
  · rw [touch, lookup_insert_of_ne _ hj] at hs
    exact Nat.lt_succ_of_lt (h j s hs)

theorem past_sub {c' : Cache κ α} (h : c.Past)
    (hsub : ∀ k s, c'.held.lookup k = some s → c.held.lookup k = some s) (hus : c'.uses = c.uses) :
    c'.Past := by
  intro k s hs
  rw [hus]
  exact h k s (hsub k s hs)

theorem lookup_fit_sub (h : (p.fit m).lookup k = some s) : m.lookup k = some s :=
  (lookup_filter_eq_some.mp h).1

theorem lookup_erase_sub {m : FinMap κ (Slot α)} {j : κ} {s : Slot α}
    (h : (m.erase k).lookup j = some s) : m.lookup j = some s := by
  by_cases hj : j = k
  · rw [hj, lookup_erase] at h
    simp at h
  · rwa [lookup_erase_ne hj] at h

theorem past_step (h : c.Past) {op : Op κ α} : (c.step p op).1.Past := by
  cases op with
  | put k v now =>
    rw [step, put]
    split
    · split
      · exact past_touch h
      · exact past_sub (past_touch h) (fun _ _ => lookup_fit_sub) rfl
    · exact h
  | get k now =>
    rw [step, get]
    split
    · exact h
    split
    · exact past_sub h (fun _ _ => lookup_erase_sub) rfl
    · exact past_touch h
  | purge =>
    intro k s hs
    exact absurd hs (by simp [step, empty])

theorem usedSince_newest {p : Policy α} (h : c.Past) {k : κ} :
    p.usedSince (c.touch k v t).held c.uses = p.size v := by
  have hal : filter (fun _ s => decide (c.uses ≤ s.usedAt)) (c.touch k v t).held
      = (∅ : FinMap κ (Slot α)).insert k ⟨v, t, c.uses⟩ := by
    refine ext_lookup fun j => ?_
    rw [lookup_filter, touch]
    by_cases hj : j = k
    · rw [hj, lookup_insert, lookup_insert]
      simp
    rw [lookup_insert_of_ne _ hj, lookup_insert_of_ne _ hj, lookup_empty, Option.filter_eq_none_iff]
    intro s hs
    have := h j s hs
    simp
    omega
  rw [Policy.usedSince, hal]
  rfl

theorem stored_put_self (h : c.Past) (hacc : p.accepts v = true) :
    (c.put p now k v).stored k = some (((c.stored k).map Prod.fst).getD v, now) := by
  have hcap := (Bool.and_eq_true _ _ ▸ hacc : _ ∧ p.cap.all (fun b => p.size v ≤ b) = true).2
  unfold put
  rw [if_pos hacc]
  split
  · rename_i slot hk
    rw [stored_touch_self, stored, hk]
    rfl
  rename_i hk
  have hkp : (p.fit (c.touch k v now).held).lookup k = some ⟨v, now, c.uses⟩ := by
    refine lookup_filter_eq_some.mpr ⟨lookup_insert _, ?_⟩
    rw [usedSince_newest h]
    exact hcap
  simp only [stored, hkp, hk]
  rfl

theorem lookup_put_sub {j : κ} {s : Slot α} (hne : j ≠ k)
    (hs : (c.put p now k v).held.lookup j = some s) : c.held.lookup j = some s := by
  unfold put at hs
  split at hs
  · split at hs
    · rwa [touch, lookup_insert_of_ne _ hne] at hs
    · have hs' := lookup_fit_sub hs
      rwa [touch, lookup_insert_of_ne _ hne] at hs'
  · exact hs

theorem stored_put_of_ne {j : κ} (hne : j ≠ k) (hkp : ¬ c.Loses p j (.put k v now)) :
    (c.put p now k v).stored j = c.stored j := by
  by_cases hmem : j ∈ (c.put p now k v).held
  · obtain ⟨s, hs⟩ := mem_iff_lookup.mp hmem
    rw [stored, stored, hs, lookup_put_sub hne hs]
  · have hpre : j ∉ c.held := fun hj => hkp ⟨hj, hmem⟩
    rw [notMem_held_iff.mp hmem, notMem_held_iff.mp hpre]

theorem stored_step_of_loses (h : c.Loses p k op) : (c.step p op).1.stored k = none := by
  cases op with
  | put k' v now => exact notMem_held_iff.mp h.2
  | get k' now =>
    obtain ⟨hk, slot, hs, hexp⟩ := h
    rw [step, hk, get_of_expired hs hexp, stored, lookup_erase]
    rfl
  | purge => rfl

theorem putClock_eq_some
    (h : putClock p k op = some now) : ∃ v, op = .put k v now ∧ p.accepts v = true := by
  cases op with
  | put k' v now' =>
    rw [putClock] at h
    split at h
    · rename_i hput
      rw [Option.some.inj h, hput.1]
      exact ⟨v, rfl, hput.2⟩
    · simp at h
  | get k' now' | purge => exact absurd h (by simp [putClock])

theorem stored_step_of_keeps (h : ¬ c.Loses p k op) (hput : putClock p k op = none) :
    (c.step p op).1.stored k = c.stored k := by
  cases op with
  | put k' v now =>
    show (c.put p now k' v).stored k = c.stored k
    by_cases hk : k' = k
    · have hacc : ¬ p.accepts v = true := by
        intro hacc
        rw [putClock, if_pos ⟨hk, hacc⟩] at hput
        simp at hput
      rw [put, if_neg hacc]
    · exact stored_put_of_ne (fun heq => hk heq.symm) h
  | get k' now =>
    show (c.get p now k').1.stored k = c.stored k
    cases hs : c.held.lookup k' with
    | none => rw [get_of_absent hs]
    | some slot =>
      by_cases hexp : p.expired slot.storedAt now = true
      · have hk : k ≠ k' := fun hk => h ⟨hk.symm, slot, hk ▸ hs, hexp⟩
        rw [get_of_expired hs hexp, stored, stored, lookup_erase_ne hk]
      rw [get_of_live hs hexp]
      by_cases hk : k = k'
      · rw [hk, stored_touch_self, stored, hs]
        rfl
      · exact stored_touch_of_ne hk
  | purge => exact absurd trivial h

/-! ## Histories -/

theorem run_snoc :
    run p c (ops ++ [op]) = ((run p c ops).step p op).1 := by
  rw [run, foldl_append]
  rfl

theorem past_run (p : Policy α) (ops : List (Op κ α)) : (run p (empty : Cache κ α) ops).Past := by
  induction ops using reverseRecOn with
  | nil => exact nofun
  | append_singleton ops op ih =>
    rw [run_snoc]
    exact past_step ih

theorem keeps_snoc :
    ∀ {ops : List (Op κ α)} {c : Cache κ α},
      Keeps p k c (ops ++ [op]) ↔ Keeps p k c ops ∧ ¬ (run p c ops).Loses p k op
  | [], c => by simp [Keeps, run]
  | o :: ops, c => by
    show (¬ c.Loses p k o ∧ Keeps p k (c.step p o).1 (ops ++ [op])) ↔ _
    rw [keeps_snoc, ← and_assoc]
    rfl

theorem lastPut_snoc :
    lastPut p k (ops ++ [op]) = (putClock p k op).or (lastPut p k ops) := by
  rw [lastPut, foldl_append]
  rfl

/-- What put `v` under `k`: at a time when the key was free, and not undone since. -/
structure StoredBy (p : Policy α) (ops : List (Op κ α)) (k : κ) (v : α) (t : Int)
    (pre : List (Op κ α)) (t₀ : Int) (post : List (Op κ α)) : Prop where
  split : ops = pre ++ .put k v t₀ :: post
  accepted : p.accepts v = true
  free : k ∉ (run p empty pre).held
  kept : Keeps p k (run p empty (pre ++ [.put k v t₀])) post
  last : lastPut p k (.put k v t₀ :: post) = some t

theorem run_split :
    run p c (pre ++ op :: post) = run p (run p c (pre ++ [op])) post := by
  rw [run, run, run, ← foldl_append, append_assoc]
  rfl

theorem StoredBy.snoc (h : StoredBy p ops k v t pre t₀ post)
    (hkp : ¬ (run p empty ops).Loses p k op)
    (hls : lastPut p k (.put k v t₀ :: (post ++ [op])) = some t') :
    StoredBy p (ops ++ [op]) k v t' pre t₀ (post ++ [op]) where
  split := by rw [h.split, append_assoc]; rfl
  accepted := h.accepted
  free := h.free
  kept := by
    refine keeps_snoc.mpr ⟨h.kept, ?_⟩
    rwa [← run_split, ← h.split]
  last := hls

theorem lastPut_put (hacc : p.accepts v = true) (t₀ : Int) (post : List (Op κ α)) :
    ∃ t, lastPut p k (.put k v t₀ :: post) = some t := by
  induction post using reverseRecOn with
  | nil =>
    refine ⟨t₀, ?_⟩
    show (putClock p k (.put k v t₀)).or none = some t₀
    rw [putClock, if_pos ⟨rfl, hacc⟩]
    rfl
  | append_singleton post op ih =>
    obtain ⟨t, ht⟩ := ih
    rw [← cons_append, lastPut_snoc, ht]
    cases putClock p k op with
    | none => exact ⟨t, rfl⟩
    | some now => exact ⟨now, rfl⟩

theorem StoredBy.snoc_inv {ops : List (Op κ α)} {pre : List (Op κ α)} {t₀ : Int}
    {post : List (Op κ α)} (h : StoredBy p (ops ++ [op]) k v t pre t₀ post) :
    (op = .put k v t ∧ p.accepts v = true ∧ (run p empty ops).stored k = none) ∨
    (∃ post' t', StoredBy p ops k v t' pre t₀ post' ∧ ¬ (run p empty ops).Loses p k op ∧
      some t = (putClock p k op).or (some t')) := by
  obtain ⟨hsp, hacc, hfr, hkp, hls⟩ := h
  rcases eq_nil_or_concat post with hps | ⟨post', op', hps⟩
  · left
    rw [hps] at hsp hls
    obtain ⟨hpre, hop⟩ := append_inj' hsp rfl
    have ht : (putClock p k (.put k v t₀)).or none = some t := hls
    rw [putClock, if_pos ⟨rfl, hacc⟩] at ht
    rw [singleton_inj.mp hop, hpre, ← Option.some.inj ht]
    exact ⟨rfl, hacc, notMem_held_iff.mp hfr⟩
  · right
    rw [concat_eq_append] at hps
    rw [hps, ← cons_append, ← append_assoc] at hsp
    obtain ⟨hops, hop⟩ := append_inj' hsp rfl
    rw [hps, ← singleton_inj.mp hop] at hkp hls
    rw [keeps_snoc, ← run_split, ← hops] at hkp
    obtain ⟨t', ht'⟩ := lastPut_put hacc t₀ post'
    rw [← cons_append, lastPut_snoc, ht'] at hls
    exact ⟨post', t', ⟨hops, hacc, hfr, hkp.1, ht'⟩, hkp.2, hls.symm⟩

/-- **What a history stores under a key**: the value of a put that found the key free and was not
followed by an eviction, a purge or a reading past the lifetime, with the clock of the last put. -/
theorem stored_run (p : Policy α) (ops : List (Op κ α)) (k : κ) (v : α) (t : Int) :
    (run p empty ops).stored k = some (v, t) ↔ ∃ pre t₀ post, StoredBy p ops k v t pre t₀ post := by
  induction ops using reverseRecOn generalizing t with
  | nil =>
    constructor
    · intro h
      exact absurd h (by simp [run, stored, empty])
    intro hgv
    obtain ⟨pre, t₀, post, h⟩ := hgv
    exact absurd h.split (by simp)
  | append_singleton ops op ih =>
    rw [run_snoc]
    constructor
    · intro h
      have hkp : ¬ (run p empty ops).Loses p k op := by
        intro hls
        rw [stored_step_of_loses hls] at h
        simp at h
      cases hput : putClock p k op with
      | none =>
        rw [stored_step_of_keeps hkp hput] at h
        obtain ⟨pre, t₀, post, hby⟩ := (ih t).mp h
        refine ⟨pre, t₀, post ++ [op], hby.snoc hkp ?_⟩
        rw [← cons_append, lastPut_snoc, hput]
        exact hby.last
      | some now =>
        obtain ⟨v', hop, hacc⟩ := putClock_eq_some hput
        rw [hop, step, stored_put_self (past_run p ops) hacc] at h
        cases hs : (run p empty ops).stored k with
        | none =>
          rw [hs] at h
          obtain ⟨hv, ht⟩ := Prod.mk.inj (Option.some.inj h)
          have hv' : v' = v := hv
          rw [hv'] at hop hacc
          refine ⟨ops, now, [], ⟨by rw [hop], hacc, notMem_held_iff.mpr hs, trivial, ?_⟩⟩
          rw [← ht, ← hput, hop]
          exact Option.or_none
        | some x =>
          rw [hs] at h
          obtain ⟨hv, ht⟩ := Prod.mk.inj (Option.some.inj h)
          have hx : (run p empty ops).stored k = some (v, x.2) := by
            rw [hs, ← hv]
            rfl
          obtain ⟨pre, t₀, post, hby⟩ := (ih x.2).mp hx
          refine ⟨pre, t₀, post ++ [op], hby.snoc hkp ?_⟩
          rw [← cons_append, lastPut_snoc, hput, ht]
          rfl
    · intro hgv
      obtain ⟨pre, t₀, post, h⟩ := hgv
      rcases h.snoc_inv with ⟨hop, hacc, hfr⟩ | ⟨post', t', hby, hkp, ht⟩
      · rw [hop, step, stored_put_self (past_run p ops) hacc, hfr]
        rfl
      have hpre := (ih t').mpr ⟨pre, t₀, post', hby⟩
      cases hput : putClock p k op with
      | none =>
        rw [hput] at ht
        rw [stored_step_of_keeps hkp hput, hpre, Option.some.inj (ht.trans rfl)]
      | some now =>
        obtain ⟨v', hop, hacc⟩ := putClock_eq_some hput
        rw [hput] at ht
        rw [hop, step, stored_put_self (past_run p ops) hacc, hpre, Option.some.inj ht]
        rfl

end Cache

/-! ## The cache as a list -/

def weight (p : Policy α) (L : List (κ × Slot α)) : Nat := (L.map fun x => p.size x.2.value).sum

theorem weight_append :
    weight p (L ++ M) = weight p L + weight p M := by
  rw [weight, map_append, sum_append]
  rfl

theorem weight_le_append :
    weight p L ≤ weight p (L ++ M) := by
  rw [weight_append]
  exact Nat.le_add_right _ _

variable [DecidableEq κ]

/-- A list that shows what the cache holds, most recent use first. -/
structure Listing (L : List (κ × Slot α)) (c : Cache κ α) : Prop where
  mem : ∀ k s, c.held.lookup k = some s ↔ (k, s) ∈ L
  recent : L.Pairwise fun x y => y.2.usedAt < x.2.usedAt
  past : ∀ x ∈ L, x.2.usedAt < c.uses

/-- The list is cut at the right place: what stays fits, and one more would not. -/
structure Cut (p : Policy α) (L dropped : List (κ × Slot α)) : Prop where
  fits : ∀ cap, p.cap = some cap → weight p L ≤ cap
  least : ∀ x rest, dropped = x :: rest → ∃ cap, p.cap = some cap ∧ cap < weight p (L ++ [x])

namespace Listing

variable {L : List (κ × Slot α)} {c : Cache κ α} {k : κ} {p : Policy α}

theorem empty : Listing [] (Cache.empty : Cache κ α) where
  mem k s := by simp [Cache.empty]
  recent := List.Pairwise.nil
  past _ hx := absurd hx (by simp)

theorem notMem_keys (h : Listing L c) (hk : c.held.lookup k = none) : k ∉ L.map Prod.fst := by
  intro hmem
  obtain ⟨x, hx, heq⟩ := mem_map.mp hmem
  have hlk := (h.mem x.1 x.2).mpr hx
  rw [heq, hk] at hlk
  simp at hlk

theorem nodup (h : Listing L c) : L.Nodup :=
  h.recent.imp fun {x y} hlt heq => by rw [heq] at hlt; exact lt_irrefl _ hlt

theorem entries (h : Listing L c) :
    c.held.entries = ((L.map fun x => (⟨x.1, x.2⟩ : (_ : κ) × Slot α) : List _) : Multiset _) := by
  have hnd : (L.map fun x => (⟨x.1, x.2⟩ : (_ : κ) × Slot α)).Nodup := by
    refine List.Nodup.map ?_ h.nodup
    intro x y heq
    injection heq with h1 h2
    exact Prod.ext h1 h2
  refine (Multiset.Nodup.ext c.held.nodup_entries (Multiset.coe_nodup.mpr hnd)).mpr ?_
  intro e
  obtain ⟨k, s⟩ := e
  rw [← Finmap.lookup_eq_some_iff, h.mem k s, Multiset.mem_coe, mem_map]
  constructor
  · intro hmem
    exact ⟨(k, s), hmem, rfl⟩
  intro hgv
  obtain ⟨x, hx, heq⟩ := hgv
  injection heq with h1 h2
  rw [← h1, ← h2]
  exact hx

theorem usedSince (h : Listing L c) (p : Policy α) (n : Nat) :
    p.usedSince c.held n = weight p (L.filter fun x => n ≤ x.2.usedAt) := by
  show ((c.held.entries.filter fun e => decide (n ≤ e.2.usedAt) = true).map
    fun e => p.size e.2.value).sum = _
  rw [h.entries, Multiset.filter_coe, Multiset.map_coe, Multiset.sum_coe, filter_map,
    map_map, weight]
  refine congrArg (fun l : List (κ × Slot α) => (l.map _).sum) (filter_congr fun x _ => ?_)
  simp

theorem usedSince_split (h : Listing (M ++ x :: N) c) (p : Policy α) :
    p.usedSince c.held x.2.usedAt = weight p (M ++ [x]) := by
  obtain ⟨-, hxN, hMN⟩ := pairwise_append.mp h.recent
  have hM : M.filter (fun y => x.2.usedAt ≤ y.2.usedAt) = M := by
    refine filter_eq_self.mpr fun y hy => ?_
    exact decide_eq_true (Nat.le_of_lt (hMN y hy x mem_cons_self))
  have hN : N.filter (fun y => x.2.usedAt ≤ y.2.usedAt) = [] := by
    refine filter_eq_nil_iff.mpr fun y hy => ?_
    have hlt := (pairwise_cons.mp hxN).1 y hy
    simp
    omega
  rw [h.usedSince p, filter_append, filter_cons, hM, hN]
  simp

theorem erase (h : Listing L c) (k : κ) :
    Listing (L.filter fun x => x.1 ≠ k) { c with held := c.held.erase k } where
  mem j s := by
    rw [mem_filter, ← h.mem j s, decide_eq_true_iff]
    by_cases hj : j = k
    · rw [hj, lookup_erase]
      simp
    · rw [lookup_erase_ne hj]
      simp [hj]
  recent := h.recent.filter _
  past x hx := h.past x (mem_filter.mp hx).1

theorem touch (h : Listing L c) (k : κ) (v : α) (t : Int) :
    Listing ((k, ⟨v, t, c.uses⟩) :: L.filter fun x => x.1 ≠ k) (c.touch k v t) where
  mem j s := by
    rw [mem_cons, mem_filter, ← h.mem j s, decide_eq_true_iff, Cache.touch]
    by_cases hj : j = k
    · rw [hj, lookup_insert, Option.some_inj]
      simp [eq_comm]
    · rw [lookup_insert_of_ne _ hj]
      simp [hj]
  recent := pairwise_cons.mpr
    ⟨fun x hx => h.past x (mem_filter.mp hx).1, h.recent.filter _⟩
  past x hx := by
    rcases mem_cons.mp hx with hx | hx
    · rw [hx]
      exact Nat.lt_succ_self c.uses
    · exact Nat.lt_succ_of_lt (h.past x (mem_filter.mp hx).1)

/-- **Cutting the shortest tail that makes the rest fit is evicting what was used least
recently.** -/
theorem cut (h : Listing (L ++ dropped) c) (hcut : Cut p L dropped) :
    Listing L { c with held := p.fit c.held } where
  mem k s := by
    have hlk : (p.fit c.held).lookup k = some s ↔ c.held.lookup k = some s ∧
        p.cap.all (fun cap => p.usedSince c.held s.usedAt ≤ cap) = true :=
      lookup_filter_eq_some
    rw [hlk, h.mem k s, mem_append]
    constructor
    · intro hgv
      obtain ⟨hmem | hmem, hall⟩ := hgv
      · exact hmem
      -- An item of the tail does not fit with all that stands before it.
      obtain ⟨M, N, hsp⟩ := append_of_mem hmem
      obtain ⟨x, rest, hhd⟩ := exists_cons_of_ne_nil (l := M ++ [(k, s)]) (by simp)
      have hdr : dropped = x :: (rest ++ N) := by
        rw [hsp, ← cons_append, ← hhd, append_assoc]
        rfl
      obtain ⟨cap, hcap, hov⟩ := hcut.least x (rest ++ N) hdr
      rw [hsp, ← append_assoc] at h
      have hus : p.usedSince c.held s.usedAt = weight p (L ++ M ++ [(k, s)]) :=
        h.usedSince_split p
      have hle : p.usedSince c.held s.usedAt ≤ cap := by
        rw [hcap] at hall
        exact of_decide_eq_true hall
      rw [append_assoc, hhd] at hus
      have hgr : weight p (L ++ [x]) ≤ weight p (L ++ x :: rest) := by
        rw [← singleton_append (l := rest), ← append_assoc]
        exact weight_le_append
      omega
    · intro hmem
      refine ⟨.inl hmem, ?_⟩
      obtain ⟨M, N, hsp⟩ := append_of_mem hmem
      have hL := h
      rw [hsp, append_assoc, cons_append] at hL
      rw [hL.usedSince_split p]
      cases hcap : p.cap with
      | none => rfl
      | some cap =>
        have hft := hcut.fits cap hcap
        have hgr : weight p (M ++ [(k, s)]) ≤ weight p L := by
          rw [hsp, ← singleton_append (l := N), ← append_assoc]
          exact weight_le_append
        exact decide_eq_true (le_trans hgr hft)
  recent := (pairwise_append.mp h.recent).1
  past x hx := h.past x (mem_append_left _ hx)

end Listing

end Lru
