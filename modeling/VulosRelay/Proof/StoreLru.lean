import Mathlib.Algebra.Ring.Int.Defs
import VulosRelay.Lib.Lru
import VulosRelay.Pubcache.Store

/-!
# The object cache is a least-recently-used cache

`store.go` keeps a list, a map beside it and a byte counter. The specification
(`Lru.Cache`) has none of the three: it numbers the uses of each key and evicts by
those numbers. The two are run side by side over any sequence of calls:

* `Holds L s`: the store's list, map and counter all show the one list `L`;
* `Lru.Listing L c`: `L` shows what the specification holds, most recent first.

Each method keeps both, so the answers agree, and what the specification says about
histories (`Lru.Cache.stored_run`) is true of the store.
-/

namespace VulosRelay.Pubcache

open List Lru Store

def limit (n : Int) : Option Nat := if n > 0 then some n.toNat else none

def policy (cfg : StoreConfig) : Lru.Policy Bytes where
  size := List.length
  maxItem := limit cfg.maxObjBytes
  cap := limit cfg.maxBytes
  ttl := if cfg.ttl > 0 then some cfg.ttl else none

/-- The body passes both size checks of `put`. -/
def Admissible (cfg : StoreConfig) (body : Bytes) : Prop :=
  (cfg.maxObjBytes > 0 → (body.length : Int) ≤ cfg.maxObjBytes) ∧
  (cfg.maxBytes > 0 → (body.length : Int) ≤ cfg.maxBytes)

/-- An entry stored at `storedAt` has reached its lifetime at `now`. -/
def Expired (cfg : StoreConfig) (storedAt now : Int) : Prop :=
  cfg.ttl > 0 ∧ now - storedAt ≥ cfg.ttl

namespace Store

def call (cfg : StoreConfig) (s : Store) : Lru.Op String Bytes → Store × Option (Bytes × Int)
  | .put key body now => (s.put cfg now key body, none)
  | .get key now => s.get cfg now key
  | .purge => (s.purge, none)

def run (cfg : StoreConfig) (s : Store) (calls : List (Lru.Op String Bytes)) : Store :=
  calls.foldl (fun s c => (s.call cfg c).1) s

def answers (cfg : StoreConfig) : Store → List (Lru.Op String Bytes) → List (Option (Bytes × Int))
  | _, [] => []
  | s, c :: calls => (s.call cfg c).2 :: answers cfg (s.call cfg c).1 calls

end Store

variable {cfg : StoreConfig}

theorem limit_eq_some : limit n = some m ↔ 0 < n ∧ n = m := by
  unfold limit
  split
  · rw [Option.some_inj]
    omega
  · simp only [reduceCtorEq, false_iff]
    omega

theorem limit_all : (limit n).all (fun m => k ≤ m) = true ↔ (n > 0 → (k : Int) ≤ n) := by
  unfold limit
  split
  · rw [Option.all_some, decide_eq_true_eq]
    omega
  · simp only [Option.all_none, true_iff]
    omega

theorem accepts_iff : (policy cfg).accepts body = true ↔ Admissible cfg body := by
  unfold Policy.accepts Admissible
  rw [Bool.and_eq_true]
  exact and_congr limit_all limit_all

theorem expired_iff : (policy cfg).expired storedAt now = true ↔ Expired cfg storedAt now := by
  show (if cfg.ttl > 0 then some cfg.ttl else none).any (fun t => t ≤ now - storedAt) = true ↔ _
  unfold Expired
  by_cases h : cfg.ttl > 0
  · rw [if_pos h, Option.any_some, decide_eq_true_eq]
    omega
  · rw [if_neg h]
    simp [h]

namespace Store

variable {s : Store} {key : String} {now : Int} {e : Entry} {body : Bytes}

theorem get_of_absent (h : s.element key = none) : s.get cfg now key = (s, none) := by
  rw [get, h]

theorem get_of_expired (h : s.element key = some e) (hexp : Expired cfg e.storedAt now) :
    s.get cfg now key = (s.removeLocked e, none) := by
  rw [get, h]
  exact if_pos hexp

theorem get_of_live (h : s.element key = some e) (hexp : ¬ Expired cfg e.storedAt now) :
    s.get cfg now key = ({ s with ll := e :: s.ll.erase e }, some (e.body, e.storedAt)) := by
  rw [get, h]
  exact if_neg hexp

theorem put_of_refused (h : ¬ Admissible cfg body) : s.put cfg now key body = s := by
  unfold put
  split
  · rfl
  split
  · rfl
  · exact absurd h (by unfold Admissible; omega)

theorem put_of_present (h : Admissible cfg body) (hk : s.element key = some e) :
    s.put cfg now key body = { s with ll := { e with storedAt := now } :: s.ll.erase e } := by
  obtain ⟨hobj, hall⟩ := h
  rw [put, if_neg (by omega), if_neg (by omega), hk]

theorem put_of_absent (h : Admissible cfg body) (hk : s.element key = none) :
    s.put cfg now key body =
      evictLocked cfg (s.ll.length + 1)
        { ll := { key := key, body := body, storedAt := now } :: s.ll,
          items := insert key s.items,
          bytes := s.bytes + body.length } := by
  obtain ⟨hobj, hall⟩ := h
  rw [put, if_neg (by omega), if_neg (by omega), hk]

end Store

/-! ## One list behind list, map and counter -/

def entry (x : String × Lru.Slot Bytes) : Entry := ⟨x.1, x.2.value, x.2.storedAt⟩

structure Holds (cfg : StoreConfig) (L : List (String × Lru.Slot Bytes)) (s : Store) : Prop where
  nodup : (L.map Prod.fst).Nodup
  ll : s.ll = L.map entry
  items : s.items = (L.map Prod.fst).toFinset
  bytes : s.bytes = (Lru.weight (policy cfg) L : Nat)

theorem holds_empty : Holds cfg [] empty := ⟨List.nodup_nil, rfl, rfl, rfl⟩

variable {x : String × Lru.Slot Bytes}

theorem erase_entry {L : List (String × Slot Bytes)} (h : (L.map Prod.fst).Nodup) (hx : x ∈ L) :
    (L.map entry).erase (entry x) = (L.filter fun y => y.1 ≠ x.1).map entry := by
  have hky : ((L.map entry).map Entry.key).Nodup := by
    rw [map_map]
    exact h
  rw [hky.of_map.erase_eq_filter, filter_map]
  refine congrArg (map entry) (filter_congr fun y hy => ?_)
  have hiff : entry y = entry x ↔ y.1 = x.1 := by
    constructor
    · exact congrArg Entry.key
    · intro hkey
      rw [inj_on_of_nodup_map h hy hx hkey]
  rw [Bool.eq_iff_iff]
  simp [hiff]

theorem weight_filter_key (h : (L.map Prod.fst).Nodup) (hx : x ∈ L) (p : Policy Bytes) :
    weight p L = p.size x.2.value + weight p (L.filter fun y => y.1 ≠ x.1) := by
  induction L with
  | nil => simp at hx
  | cons y L ih =>
    obtain ⟨hy, hL⟩ := nodup_cons.mp h
    rcases mem_cons.mp hx with heq | hmem
    · -- The rest of the list has no such key.
      have hrs : (L.filter fun z => z.1 ≠ x.1) = L := by
        refine filter_eq_self.mpr fun z hz => decide_eq_true fun hkey => hy ?_
        rw [← heq, ← hkey]
        exact mem_map_of_mem hz
      rw [filter_cons_of_neg (by simp [heq]), hrs, heq]
      rfl
    · have hne : y.1 ≠ x.1 := fun hkey => hy (hkey ▸ mem_map_of_mem hmem)
      rw [filter_cons_of_pos (by simp [hne])]
      have hsum := ih hL hmem
      show p.size y.2.value + weight p L
        = p.size x.2.value + (p.size y.2.value + weight p (L.filter fun y => y.1 ≠ x.1))
      omega

theorem toFinset_filter_key {L : List (String × Slot Bytes)} {key : String} :
    ((L.filter fun y => y.1 ≠ key).map Prod.fst).toFinset
      = ((L.map Prod.fst).toFinset).erase key := by
  ext k
  simp only [mem_toFinset, mem_map, mem_filter, Finset.mem_erase, decide_eq_true_eq]
  constructor
  · intro hgv
    obtain ⟨x, ⟨hx, hne⟩, heq⟩ := hgv
    exact ⟨heq ▸ hne, x, hx, heq⟩
  intro hgv
  obtain ⟨hne, x, hx, heq⟩ := hgv
  exact ⟨x, ⟨hx, heq ▸ hne⟩, heq⟩

namespace Holds

variable {L : List (String × Lru.Slot Bytes)} {s : Store}

section

variable (h : Holds cfg L s)

include h

theorem nodup_filter (key : String) : ((L.filter fun y => y.1 ≠ key).map Prod.fst).Nodup :=
  h.nodup.sublist (filter_sublist.map Prod.fst)

theorem removeLocked (hx : x ∈ L) :
    Holds cfg (L.filter fun y => y.1 ≠ x.1) (s.removeLocked (entry x)) where
  nodup := h.nodup_filter x.1
  ll := by
    show s.ll.erase (entry x) = _
    rw [h.ll, erase_entry h.nodup hx]
  items := by
    show s.items.erase x.1 = _
    rw [h.items, toFinset_filter_key]
  bytes := by
    show s.bytes - (x.2.value.length : Int) = _
    have hsum := weight_filter_key h.nodup hx (policy cfg)
    have hsz : (policy cfg).size x.2.value = x.2.value.length := rfl
    rw [h.bytes]
    omega

theorem moveToFront (hx : x ∈ L) (t : Int) (n : Nat) :
    Holds cfg ((x.1, ⟨x.2.value, t, n⟩) :: L.filter fun y => y.1 ≠ x.1)
      { s with ll := { entry x with storedAt := t } :: s.ll.erase (entry x) } where
  nodup := by
    refine nodup_cons.mpr ⟨?_, h.nodup_filter x.1⟩
    intro hmem
    obtain ⟨y, hy, heq⟩ := mem_map.mp hmem
    exact absurd heq (of_decide_eq_true (mem_filter.mp hy).2)
  ll := by
    show { entry x with storedAt := t } :: s.ll.erase (entry x) = _
    rw [h.ll, erase_entry h.nodup hx]
    rfl
  items := by
    show s.items = _
    have hmem : x.1 ∈ (L.map Prod.fst).toFinset := mem_toFinset.mpr (mem_map_of_mem hx)
    rw [map_cons, toFinset_cons, toFinset_filter_key, Finset.insert_erase hmem, h.items]
  bytes := by
    show s.bytes = _
    rw [h.bytes, weight_filter_key h.nodup hx]
    rfl

theorem pushFront (hkey : key ∉ L.map Prod.fst) (body : Bytes) (t : Int) (n : Nat) :
    Holds cfg ((key, ⟨body, t, n⟩) :: L)
      { ll := { key := key, body := body, storedAt := t } :: s.ll,
        items := insert key s.items,
        bytes := s.bytes + body.length } where
  nodup := nodup_cons.mpr ⟨hkey, h.nodup⟩
  ll := by rw [h.ll]; rfl
  items := by
    show insert key s.items = _
    rw [map_cons, toFinset_cons, h.items]
  bytes := by
    show s.bytes + (body.length : Int) = _
    have hsum : weight (policy cfg) ((key, ⟨body, t, n⟩) :: L)
        = body.length + weight (policy cfg) L := rfl
    rw [h.bytes, hsum]
    omega

end

theorem removeBack (h : Holds cfg (L ++ [x]) s) : Holds cfg L (s.removeLocked (entry x)) := by
  have hnd := h.nodup
  rw [map_append, nodup_append'] at hnd
  have hfl : ((L ++ [x]).filter fun y => y.1 ≠ x.1) = L := by
    rw [filter_append, filter_eq_self.mpr]
    · simp
    intro y hy
    refine decide_eq_true fun hkey => ?_
    exact hnd.2.2 (hkey ▸ mem_map_of_mem hy) (mem_singleton_self x.1)
  have hbc := h.removeLocked (mem_append_right L (mem_singleton_self x))
  rwa [hfl] at hbc

theorem cut_nil : Cut (policy cfg) ([] : List (String × Slot Bytes)) [] :=
  ⟨fun cap _ => Nat.zero_le cap, nofun⟩

/-- **The eviction loop** cuts the list at the right place, with no more turns than the list has
elements. -/
theorem evictLocked : ∀ (fuel : Nat) {L : List (String × Slot Bytes)} {s : Store},
    L.length ≤ fuel → Holds cfg L s →
    ∃ L' dropped, L = L' ++ dropped ∧ Cut (policy cfg) L' dropped ∧
      Holds cfg L' (evictLocked cfg fuel s)
  | 0, L, s, hfl, h => by
    rw [length_eq_zero_iff.mp (Nat.le_zero.mp hfl)] at h ⊢
    exact ⟨[], [], rfl, cut_nil, h⟩
  | fuel + 1, L, s, hfl, h => by
    unfold Store.evictLocked
    split
    · rename_i hov
      obtain ⟨hpos, hov⟩ := hov
      rw [h.bytes] at hov
      rcases eq_nil_or_concat L with hL | ⟨L₀, x, hL⟩
      · -- An empty list weighs nothing and cannot be over the cap.
        rw [hL] at hov
        exact absurd hov (by simp [weight]; omega)
      rw [concat_eq_append] at hL
      have hls : s.ll.getLast? = some (entry x) := by
        rw [h.ll, hL, map_append]
        exact getLast?_concat
      rw [hls]
      rw [hL, length_append, length_singleton] at hfl
      obtain ⟨L', dropped, hsp, hcut, hrs⟩ :=
        evictLocked fuel (Nat.le_of_succ_le_succ hfl) (hL ▸ h).removeBack
      refine ⟨L', dropped ++ [x], by rw [hL, hsp, append_assoc], ⟨hcut.fits, ?_⟩, hrs⟩
      intro y rest hy
      cases dropped with
      | nil =>
        -- The back element was the one too many.
        have hyx : y = x := (cons.inj hy).1.symm
        refine ⟨cfg.maxBytes.toNat, if_pos hpos, ?_⟩
        rw [append_nil] at hsp
        rw [hyx, ← hsp, ← hL]
        omega
      | cons z dropped =>
        rw [← (cons.inj hy).1]
        exact hcut.least z dropped rfl
    · rename_i hun
      refine ⟨L, [], (append_nil L).symm, ⟨?_, by simp⟩, h⟩
      intro cap hcap
      obtain ⟨hpos, heq⟩ := limit_eq_some.mp hcap
      rw [h.bytes] at hun
      omega

end Holds

/-! ## Side by side -/

section simulation

variable {L : List (String × Lru.Slot Bytes)} {s : Store} {c : Lru.Cache String Bytes}

/-- The store is the cache, written as a list. -/
structure Refines (cfg : StoreConfig) (s : Store) (c : Lru.Cache String Bytes) : Prop where
  /-- The list of the store is that of the cache, in order of use. -/
  shown : ∃ L, Holds cfg L s ∧ Lru.Listing L c
  /-- Its size is within the cap. -/
  capped : 0 < cfg.maxBytes → s.bytes ≤ cfg.maxBytes

theorem element_eq (hh : Holds cfg L s) (hl : Listing L c) (key : String) :
    s.element key = (c.held.lookup key).map fun slot => entry (key, slot) := by
  unfold element
  cases hk : c.held.lookup key with
  | none =>
    rw [if_neg]
    · rfl
    intro hmem
    rw [hh.items, mem_toFinset] at hmem
    exact hl.notMem_keys hk hmem
  | some slot =>
    have hsl : (key, slot) ∈ L := (hl.mem key slot).mp hk
    have hmem : key ∈ s.items := by
      rw [hh.items, mem_toFinset]
      exact mem_map_of_mem hsl
    rw [if_pos hmem, hh.ll]
    -- The first entry with the key is the only one.
    have hsm : ((L.map entry).find? fun e => e.key = key).isSome = true := by
      rw [find?_isSome]
      exact ⟨entry (key, slot), mem_map_of_mem hsl, by simp [entry]⟩
    obtain ⟨e, he⟩ := Option.isSome_iff_exists.mp hsm
    have hkey : e.key = key := of_decide_eq_true (find?_some he :)
    obtain ⟨x, hx, hxe⟩ := mem_map.mp (mem_of_find?_eq_some he)
    have hxk : x.1 = key := by
      rw [← hkey, ← hxe]
      rfl
    have hxs : x = (key, slot) := inj_on_of_nodup_map hh.nodup hx hsl hxk
    rw [he, ← hxe, hxs]
    rfl

theorem refines_get (h : Refines cfg s c) (now : Int) :
    (s.get cfg now key).2 = (c.get (policy cfg) now key).2 ∧
      Refines cfg (s.get cfg now key).1 (c.get (policy cfg) now key).1 := by
  obtain ⟨⟨L, hh, hl⟩, hcap⟩ := h
  have helt := element_eq hh hl key
  cases hk : c.held.lookup key with
  | none =>
    rw [hk] at helt
    rw [Cache.get_of_absent hk, get_of_absent helt]
    exact ⟨rfl, ⟨L, hh, hl⟩, hcap⟩
  | some slot =>
    rw [hk] at helt
    have hsl : (key, slot) ∈ L := (hl.mem key slot).mp hk
    by_cases hexp : Expired cfg slot.storedAt now
    · rw [Cache.get_of_expired hk (expired_iff.mpr hexp), get_of_expired helt hexp]
      refine ⟨rfl, ⟨_, hh.removeLocked hsl, hl.erase key⟩, fun hpos => ?_⟩
      show s.bytes - (slot.value.length : Int) ≤ cfg.maxBytes
      omega
    · rw [Cache.get_of_live hk (fun h => hexp (expired_iff.mp h)),
        get_of_live helt hexp]
      exact ⟨rfl, ⟨_, hh.moveToFront hsl slot.storedAt c.uses, hl.touch key _ _⟩, hcap⟩

theorem put_new (hh : Holds cfg L s) (hl : Listing L c) (hadm : Admissible cfg body)
    (hk : c.held.lookup key = none) (now : Int) :
    ∃ L' dropped, (key, (⟨body, now, c.uses⟩ : Slot Bytes)) :: L = L' ++ dropped ∧
      Cut (policy cfg) L' dropped ∧ Holds cfg L' (s.put cfg now key body) ∧
      Listing L' (c.put (policy cfg) now key body) := by
  have helt := element_eq hh hl key
  rw [hk] at helt
  have hkey := hl.notMem_keys hk
  have hfl : (L.filter fun x => x.1 ≠ key) = L := by
    refine filter_eq_self.mpr fun x hx => decide_eq_true fun heq => hkey ?_
    rw [← heq]
    exact mem_map_of_mem hx
  have hlen : ((key, (⟨body, now, c.uses⟩ : Slot Bytes)) :: L).length ≤ s.ll.length + 1 := by
    rw [hh.ll, length_map]
    exact le_rfl
  obtain ⟨L', dropped, hsp, hcut, hrs⟩ :=
    Holds.evictLocked (s.ll.length + 1) hlen (hh.pushFront hkey body now c.uses)
  refine ⟨L', dropped, hsp, hcut, ?_, ?_⟩
  · rw [put_of_absent hadm helt]
    exact hrs
  have htc := hl.touch key body now
  rw [hfl, hsp] at htc
  rw [Cache.put, if_pos (accepts_iff.mpr hadm), hk]
  exact htc.cut hcut

theorem put_held (hh : Holds cfg L s) (hl : Listing L c) (hadm : Admissible cfg body)
    (hk : c.held.lookup key = some slot) (now : Int) :
    (s.put cfg now key body).items = s.items ∧ (s.put cfg now key body).bytes = s.bytes ∧
      Holds cfg ((key, ⟨slot.value, now, c.uses⟩) :: L.filter fun x => x.1 ≠ key)
        (s.put cfg now key body) ∧
      Listing ((key, ⟨slot.value, now, c.uses⟩) :: L.filter fun x => x.1 ≠ key)
        (c.put (policy cfg) now key body) := by
  have helt := element_eq hh hl key
  rw [hk] at helt
  have hsl : (key, slot) ∈ L := (hl.mem key slot).mp hk
  rw [put_of_present hadm helt]
  refine ⟨rfl, rfl, hh.moveToFront hsl now c.uses, ?_⟩
  · rw [Cache.put, if_pos (accepts_iff.mpr hadm), hk]
    exact hl.touch key slot.value now

theorem refines_put (h : Refines cfg s c) {now : Int} :
    Refines cfg (s.put cfg now key body) (c.put (policy cfg) now key body) := by
  obtain ⟨⟨L, hh, hl⟩, hcap⟩ := h
  by_cases hadm : Admissible cfg body
  · cases hk : c.held.lookup key with
    | none =>
      obtain ⟨L', dropped, hsp, hcut, hh', hl'⟩ := put_new hh hl hadm hk now
      refine ⟨⟨L', hh', hl'⟩, fun hpos => ?_⟩
      have hft := hcut.fits cfg.maxBytes.toNat (if_pos hpos)
      rw [hh'.bytes]
      omega
    | some slot =>
      obtain ⟨-, hby, hh', hl'⟩ := put_held hh hl hadm hk now
      exact ⟨⟨_, hh', hl'⟩, hby ▸ hcap⟩
  · rw [put_of_refused hadm, Cache.put, if_neg fun hacc => hadm (accepts_iff.mp hacc)]
    exact ⟨⟨L, hh, hl⟩, hcap⟩

theorem refines_empty : Refines cfg empty Cache.empty :=
  ⟨⟨[], holds_empty, Listing.empty⟩, fun hpos => Int.le_of_lt hpos⟩

/-- **One call**: the answers agree and the store still shows the specification. -/
theorem refines_call (h : Refines cfg s c) :
    (s.call cfg op).2 = (c.step (policy cfg) op).2 ∧
      Refines cfg (s.call cfg op).1 (c.step (policy cfg) op).1 := by
  cases op with
  | put key body now => exact ⟨rfl, refines_put h⟩
  | get key now => exact refines_get h now
  | purge => exact ⟨rfl, refines_empty⟩

theorem refines_run (h : Refines cfg s c) :
    s.answers cfg calls = c.answers (policy cfg) calls ∧
      Refines cfg (s.run cfg calls) (c.run (policy cfg) calls) := by
  induction calls generalizing s c with
  | nil => exact ⟨rfl, h⟩
  | cons op calls ih =>
    obtain ⟨hans, hst⟩ := refines_call h
    obtain ⟨han, hrun⟩ := ih hst
    refine ⟨?_, hrun⟩
    rw [answers, Cache.answers, hans, han]

end simulation

/-! ## What that says of the store -/

def total (ll : List Entry) : Int := (ll.map fun e => (e.body.length : Int)).sum

/-- List, map and counter agree. -/
structure Consistent (s : Store) : Prop where
  /-- No key is listed twice. -/
  nodup : (s.ll.map Entry.key).Nodup
  /-- The map has the keys of the list. -/
  items : ∀ key, key ∈ s.items ↔ key ∈ s.ll.map Entry.key
  /-- The counter is the total size of the entries. -/
  bytes : s.bytes = total s.ll

/-- `after` is `before` without the shortest tail that makes the rest fit. -/
structure EvictsLeast (cfg : StoreConfig) (before after dropped : List Entry) : Prop where
  /-- What is dropped is a tail of the list. -/
  split : before = after ++ dropped
  /-- The rest fits. -/
  fits : 0 < cfg.maxBytes → total after ≤ cfg.maxBytes
  /-- With one more entry it would not. -/
  least : ∀ e rest, dropped = e :: rest → 0 < cfg.maxBytes ∧ cfg.maxBytes < total (after ++ [e])

theorem total_entries (cfg : StoreConfig) :
    total (L.map entry) = (weight (policy cfg) L : Nat) := by
  induction L with
  | nil => rfl
  | cons x L ih =>
    have hlf :
        total ((x :: L).map entry) = (x.2.value.length : Int) + total (L.map entry) := rfl
    have hrg : weight (policy cfg) (x :: L)
        = x.2.value.length + weight (policy cfg) L := rfl
    rw [hlf, hrg, ih]
    omega

theorem Holds.consistent (h : Holds cfg L s) :
    Consistent s where
  nodup := by
    rw [h.ll, map_map]
    exact h.nodup
  items key := by
    rw [h.items, mem_toFinset, h.ll, map_map]
    rfl
  bytes := by rw [h.bytes, h.ll, total_entries cfg]

theorem Cut.evictsLeast (h : Cut (policy cfg) L dropped)
    (hpre : before = (L ++ dropped).map entry) :
    EvictsLeast cfg before (L.map entry) (dropped.map entry) where
  split := by rw [hpre, map_append]
  fits hpos := by
    have hft := h.fits cfg.maxBytes.toNat (if_pos hpos)
    rw [total_entries cfg]
    omega
  least e rest he := by
    cases dropped with
    | nil => simp at he
    | cons x dropped =>
      obtain ⟨cap, hcap, hov⟩ := h.least x dropped rfl
      obtain ⟨hpos, heq⟩ := limit_eq_some.mp hcap
      have hsp : L.map entry ++ [e] = (L ++ [x]).map entry := by
        rw [← (cons.inj he).1, map_append]
        rfl
      rw [hsp, total_entries cfg]
      exact ⟨hpos, by omega⟩

theorem mem_items_iff (hh : Holds cfg L s) (hl : Listing L c) :
    key ∈ s.items ↔ key ∈ c.held := by
  rw [hh.items, mem_toFinset, FinMap.mem_iff_lookup, mem_map]
  constructor
  · intro hgv
    obtain ⟨x, hx, heq⟩ := hgv
    exact ⟨x.2, heq ▸ (hl.mem x.1 x.2).mpr hx⟩
  intro hgv
  obtain ⟨slot, hs⟩ := hgv
  exact ⟨(key, slot), (hl.mem key slot).mp hs, rfl⟩

theorem get_stored (h : Refines cfg s c) {now : Int} {t : Int} :
    (s.get cfg now key).2 = some (body, t) ↔
      c.stored key = some (body, t) ∧ ¬ Expired cfg t now := by
  rw [(refines_get h now).1, Cache.stored]
  cases hk : c.held.lookup key with
  | none =>
    rw [Cache.get_of_absent hk]
    simp
  | some slot =>
    by_cases hexp : Expired cfg slot.storedAt now
    · rw [Cache.get_of_expired hk (expired_iff.mpr hexp)]
      simp only [reduceCtorEq, Option.map_some, Option.some.injEq, Prod.mk.injEq, false_iff]
      intro hgv
      obtain ⟨⟨-, ht⟩, hlv⟩ := hgv
      exact hlv (ht ▸ hexp)
    · rw [Cache.get_of_live hk fun h => hexp (expired_iff.mp h)]
      simp only [Option.map_some, Option.some.injEq, Prod.mk.injEq, iff_self_and]
      intro hgv
      rw [← hgv.2]
      exact hexp

/-- **The store refines its specification**, over every sequence of calls at any clock values. -/
theorem store_refines_lru (cfg : StoreConfig) (calls : List (Op String Bytes)) :
    let s := empty.run cfg calls
    let spec := Cache.empty.run (policy cfg) calls
    -- Every call answers what the specification answers.
    empty.answers cfg calls = Cache.empty.answers (policy cfg) calls ∧
    -- The map and the list hold the same entries, once each, and the counter is their size.
    Consistent s ∧ (0 < cfg.maxBytes → s.bytes ≤ cfg.maxBytes) ∧
    -- The list is what the specification holds, in order of use.
    (∃ L, Listing L spec ∧ s.ll = L.map entry) ∧
    -- An admissible put is in, and evicts the shortest tail that makes room for it.
    (∀ key body now, Admissible cfg body →
      key ∈ (s.put cfg now key body).items ∧
      (key ∈ s.items → (s.put cfg now key body).items = s.items) ∧
      (key ∉ s.items → ∃ dropped,
        EvictsLeast cfg (⟨key, body, now⟩ :: s.ll) (s.put cfg now key body).ll dropped)) ∧
    -- A reading answers the body that was stored and not lost since, within its lifetime.
    (∀ key now body t, (s.get cfg now key).2 = some (body, t) ↔
      (∃ pre t₀ post, Cache.StoredBy (policy cfg) calls key body t pre t₀ post) ∧
        ¬ Expired cfg t now) := by
  intro s spec
  obtain ⟨han, hrun⟩ := refines_run (@refines_empty cfg)
  obtain ⟨L, hh, hl⟩ := hrun.shown
  refine ⟨han, hh.consistent, hrun.capped, ⟨L, hl, hh.ll⟩, ?_, ?_⟩
  · intro key body now hadm
    cases hk : spec.held.lookup key with
    | none =>
      have hout : key ∉ s.items := by
        rw [mem_items_iff hh hl, ← Finmap.lookup_eq_none]
        exact hk
      obtain ⟨L', dropped, hsp, hcut, hh', hl'⟩ := put_new hh hl hadm hk now
      refine ⟨?_, fun hin => absurd hin hout, fun _ => ⟨dropped.map entry, ?_⟩⟩
      · rw [mem_items_iff hh' hl', Cache.mem_held_iff]
        exact ⟨_, _, Cache.stored_put_self (Cache.past_run _ calls) (accepts_iff.mpr hadm)⟩
      rw [hh'.ll]
      refine Cut.evictsLeast hcut ?_
      rw [← hsp, hh.ll]
      rfl
    | some slot =>
      have hin : key ∈ s.items := by
        rw [mem_items_iff hh hl]
        exact FinMap.mem_of_lookup hk
      obtain ⟨hitm, -, -, -⟩ := put_held hh hl hadm hk now
      rw [hitm]
      exact ⟨hin, fun _ => rfl, fun hout => absurd hin hout⟩
  · intro key now body t
    rw [get_stored hrun, Cache.stored_run]

end VulosRelay.Pubcache
