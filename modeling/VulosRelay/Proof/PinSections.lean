import VulosRelay.Pubcache.Service

/-!
# What each critical section does to the maps and the files

One specification for every section of the pin store, in terms of lookups, so
that the invariants of the following modules never unfold one. A key and the
path of its file determine each other, so removing the files of some keys leaves
the files of all others alone.
-/

namespace VulosRelay.Proof

open VulosRelay.Pubcache List FinMap

variable {path : ObjPath} {key badKey o : String} {p p' : PinStore} {d : Disk}

/-! ## Keys and paths -/

theorem splitStoreKey_eq_some (h : splitStoreKey k = some path) :
    storeKeyStr path.kind path.addr = k := by
  unfold splitStoreKey at h
  rw [span_eq_takeWhile_dropWhile] at h
  have hjn := takeWhile_append_dropWhile (p := fun c => decide (c ≠ ':')) (l := k.toList)
  have hhd := head?_dropWhile_not (fun c => decide (c ≠ ':')) k.toList
  cases hd : k.toList.dropWhile (fun c => decide (c ≠ ':')) with
  | nil =>
    rw [hd] at h
    simp at h
  | cons c addr =>
    rw [hd] at h hjn hhd
    dsimp only at h
    split at h
    · simp at h
    injection h with h
    have hc : c = ':' := by simpa using hhd
    rw [hc] at hjn
    rw [← h, storeKeyStr]
    apply String.toList_injective
    simp only [String.toList_append, String.toList_ofList, append_assoc]
    exact hjn

theorem splitStoreKey_inj (hk : splitStoreKey k = some path) (hl : splitStoreKey l = some path) :
    k = l :=
  (splitStoreKey_eq_some hk).symm.trans (splitStoreKey_eq_some hl)

theorem takeWhile_span (h : ':' ∉ kind) :
    (kind ++ ':' :: addr).span (· ≠ ':') = (kind, ':' :: addr) := by
  have hall : ∀ c ∈ kind, decide (c ≠ ':') = true := by
    intro c hc
    exact decide_eq_true fun he => h (he ▸ hc)
  rw [span_eq_takeWhile_dropWhile, takeWhile_append_of_pos hall, dropWhile_append_of_pos hall]
  simp

theorem kind_string_ne_nil {kind : Kind} : kind.string.toList ≠ [] := by
  cases kind <;> decide

theorem colon_notMem_kind (kind : Kind) : ':' ∉ kind.string.toList := by
  cases kind <;> decide

theorem splitStoreKey_key (kind : Kind) (addr : Addr) :
    splitStoreKey (storeKeyStr kind.string addr.string) = some (objectPath kind addr) := by
  have htl : (storeKeyStr kind.string addr.string).toList
      = kind.string.toList ++ ':' :: addr.string.toList := by
    rw [storeKeyStr, String.toList_append, String.toList_append, append_assoc]
    rfl
  have had : addr.string.toList ≠ [] := by
    intro h
    have hlen := addr.string_toList_length
    rw [h] at hlen
    cases hlen
  rw [splitStoreKey, htl, takeWhile_span (colon_notMem_kind kind)]
  dsimp only
  rw [if_neg (not_or.mpr ⟨kind_string_ne_nil, had⟩), String.ofList_toList,
    String.ofList_toList]
  rfl

theorem storeKeyStr_inj {k l : Kind} {a b : Addr}
    (h : storeKeyStr k.string a.string = storeKeyStr l.string b.string) : k = l ∧ a = b := by
  have hpt := splitStoreKey_key k a
  rw [h, splitStoreKey_key l b] at hpt
  injection hpt with hpt
  rw [objectPath, objectPath, ObjPath.mk.injEq] at hpt
  exact ⟨Kind.string_injective hpt.1.symm, Addr.string_injective hpt.2.symm⟩

theorem mem_pathsOf {keys : Multiset String} :
    path ∈ pathsOf keys ↔ ∃ k ∈ keys, splitStoreKey k = some path :=
  Multiset.mem_filterMap _ _

theorem notMem_pathsOf {keys : Multiset String} {k : String} (hk : splitStoreKey k = some path)
    (h : k ∉ keys) : path ∉ pathsOf keys := by
  intro hmem
  obtain ⟨l, hl, hsp⟩ := mem_pathsOf.mp hmem
  exact h (splitStoreKey_inj hk hsp ▸ hl)

/-! ## Who names what -/

theorem named_iff :
    named pins key = true ↔ ∃ root rec, pins.lookup root = some rec ∧ key ∈ rec.objects := by
  rw [named, any_iff]
  simp only [recordReferences, decide_eq_true_eq]

theorem live_iff : p.live key = true ↔ named p.pins key = true ∨ key ∈ p.pending := by
  rw [PinStore.live, Bool.or_eq_true, decide_eq_true_eq]

theorem mem_garbage : key ∈ p.garbage ↔ key ∈ p.objects ∧ ¬ p.live key = true := by
  rw [PinStore.garbage, mem_filter_key, Bool.not_eq_true', Bool.not_eq_true]

/-! ## Sections that only take away -/

/--
The maps after a section that adds nothing: fewer pins, objects and flags, the
same claims, and a byte count that has fallen by as much as the sum of the sizes.
-/
structure Shrinks (p p' : PinStore) : Prop where
  pins : ∀ root rec, p'.pins.lookup root = some rec → p.pins.lookup root = some rec
  objects : ∀ k n, p'.objects.lookup k = some n → p.objects.lookup k = some n
  verified : p'.verified ⊆ p.verified
  pending : p'.pending = p.pending
  balance : p'.bytes + FinMap.total p.objects = p.bytes + FinMap.total p'.objects

theorem Shrinks.refl (p : PinStore) : Shrinks p p :=
  ⟨fun _ _ h => h, fun _ _ h => h, Finset.Subset.refl _, rfl, rfl⟩

theorem Shrinks.trans (h : Shrinks p q) (h' : Shrinks q r) : Shrinks p r :=
  ⟨fun root rec hr => h.pins root rec (h'.pins root rec hr),
    fun k n hk => h.objects k n (h'.objects k n hk), h'.verified.trans h.verified,
    h'.pending.trans h.pending, by
      have hb := h.balance
      have hb' := h'.balance
      omega⟩

section

variable (h : Shrinks p p')

include h

theorem Shrinks.bytes (hb : p.bytes = total p.objects) :
    p'.bytes = total p'.objects := by
  have hbal := h.balance
  omega

theorem Shrinks.mem_pins (hr : root ∈ p'.pins) : root ∈ p.pins := by
  obtain ⟨rec, hrec⟩ := mem_iff_lookup.mp hr
  exact mem_of_lookup (h.pins root rec hrec)

theorem Shrinks.mem_objects (hk : k ∈ p'.objects) : k ∈ p.objects := by
  obtain ⟨n, hn⟩ := mem_iff_lookup.mp hk
  exact mem_of_lookup (h.objects k n hn)

theorem Shrinks.size_le : size p'.pins ≤ size p.pins :=
  size_le_of_subset fun _ hr => h.mem_pins hr

theorem Shrinks.bytes_le (hb : p.bytes = total p.objects) : p'.bytes ≤ p.bytes := by
  rw [hb, h.bytes hb]
  exact Int.ofNat_le.mpr (total_le_of_submap h.objects)

end

theorem shrinks_dropObject : Shrinks p (dropObject p key) := by
  unfold dropObject
  cases hk : p.objects.lookup key with
  | none => exact .refl p
  | some sz =>
    refine ⟨fun _ _ h => h, ?_, Finset.erase_subset _ _, rfl, ?_⟩
    · intro k n h
      by_cases hkey : k = key
      · rw [hkey] at h
        simp at h
      · rwa [Finmap.lookup_erase_ne hkey] at h
    · dsimp only
      rw [total_erase hk]
      omega

theorem mem_dropObject : k ∈ (dropObject p key).objects ↔ k ∈ p.objects ∧ k ≠ key := by
  unfold dropObject
  cases hk : p.objects.lookup key with
  | none =>
    constructor
    · intro h
      refine ⟨h, ?_⟩
      intro heq
      subst heq
      exact Finmap.lookup_eq_none.mp hk h
    · exact fun h => h.1
  | some sz =>
    rw [Finmap.mem_erase]
    exact and_comm

theorem dropObject_pins : (dropObject p key).pins = p.pins := by
  unfold dropObject
  cases p.objects.lookup key <;> rfl

theorem dropObject_pending :
    (dropObject p key).pending = p.pending := shrinks_dropObject.pending

theorem lookup_erase_eq_some {pins : FinMap String PinRecord} {rootKey root : String}
    {rec : PinRecord} :
    (pins.erase rootKey).lookup root = some rec ↔ root ≠ rootKey ∧ pins.lookup root = some rec := by
  by_cases hr : root = rootKey
  · rw [hr, Finmap.lookup_erase]
    simp
  · rw [Finmap.lookup_erase_ne hr]
    simp [hr]

theorem shrinks_erase (p : PinStore) (rootKey : String) :
    Shrinks p { p with pins := p.pins.erase rootKey } :=
  ⟨fun _ _ h => (lookup_erase_eq_some.mp h).2, fun _ _ h => h, Finset.Subset.refl _, rfl, rfl⟩

/-! ### Reclaim -/

theorem shrinks_reclaim : Shrinks p (reclaimUnreferencedLocked p).1 := by
  refine ⟨fun _ _ h => h, ?_, Finset.filter_subset _ _, rfl, ?_⟩
  · intro k n h
    exact (lookup_filter_eq_some.mp h).1
  have hsp := total_filter (fun k _ => p.live k) p.objects
  rw [reclaimUnreferencedLocked]
  dsimp only
  rw [hsp, PinStore.garbage]
  omega

theorem mem_reclaim :
    k ∈ (reclaimUnreferencedLocked p).1.objects ↔ k ∈ p.objects ∧ p.live k = true :=
  mem_filter_key

/-! ### Quarantine -/

def survivors (p : PinStore) (badKey : String) : FinMap String PinRecord :=
  FinMap.filter (fun _ rec => !recordReferences rec badKey) p.pins

theorem lookup_survivors {root : String} {rec : PinRecord} :
    (survivors p badKey).lookup root = some rec
      ↔ p.pins.lookup root = some rec ∧ badKey ∉ rec.objects := by
  rw [survivors, lookup_filter_eq_some, recordReferences, Bool.not_eq_true',
    decide_eq_false_iff_not]

def afterDrop (p : PinStore) (badKey : String) : PinStore :=
  dropObject { p with pins := survivors p badKey } badKey

theorem quarantine_fst {indexOk : Bool} :
    (quarantine p badKey indexOk).1 = (reclaimUnreferencedLocked (afterDrop p badKey)).1 := rfl

theorem shrinks_afterDrop {p : PinStore} {badKey : String} : Shrinks p (afterDrop p badKey) := by
  refine Shrinks.trans (q := { p with pins := survivors p badKey }) ?_
    shrinks_dropObject
  refine ⟨?_, fun _ _ h => h, Finset.Subset.refl _, rfl, rfl⟩
  intro root rec h
  exact (lookup_survivors.mp h).1

theorem shrinks_quarantine (p : PinStore) (badKey : String) (indexOk : Bool) :
    Shrinks p (quarantine p badKey indexOk).1 :=
  shrinks_afterDrop.trans shrinks_reclaim

theorem quarantine_survivors (p : PinStore) (badKey : String) (indexOk : Bool) :
    (quarantine p badKey indexOk).1.pins = survivors p badKey := dropObject_pins

theorem quarantine_objects :
    o ∈ (quarantine p badKey indexOk).1.objects
      ↔ (o ∈ p.objects ∧ o ≠ badKey)
        ∧ (named (survivors p badKey) o = true ∨ o ∈ p.pending) := by
  rw [quarantine_fst, mem_reclaim, afterDrop, mem_dropObject, live_iff, dropObject_pins,
    dropObject_pending]

/-! ### Rollback and release -/

theorem shrinks_foldl_dropObject : ∀ (wrote : List String) (p : PinStore),
    Shrinks p (wrote.foldl dropObject p)
  | [], p => .refl p
  | k :: wrote, p =>
    shrinks_dropObject.trans (shrinks_foldl_dropObject wrote (dropObject p k))

theorem mem_foldl_dropObject : ∀ (wrote : List String) (p : PinStore),
    o ∈ (wrote.foldl dropObject p).objects ↔ o ∈ p.objects ∧ o ∉ wrote
  | [], p => by simp
  | k :: wrote, p => by
    rw [foldl_cons, mem_foldl_dropObject wrote, mem_dropObject, mem_cons, not_or, and_assoc]

theorem lookup_dropObject (hk : k ≠ key) :
    (dropObject p key).objects.lookup k = p.objects.lookup k := by
  unfold dropObject
  cases p.objects.lookup key with
  | none => rfl
  | some sz =>
    rw [Finmap.lookup_erase_ne hk]

theorem lookup_foldl_dropObject : ∀ (wrote : List String) (p : PinStore), o ∉ wrote →
    (wrote.foldl dropObject p).objects.lookup o = p.objects.lookup o
  | [], p, _ => rfl
  | k :: wrote, p, h => by
    rw [mem_cons, not_or] at h
    rw [foldl_cons, lookup_foldl_dropObject wrote _ h.2, lookup_dropObject h.1]

theorem foldl_dropObject_pins : ∀ (wrote : List String) (p : PinStore),
    (wrote.foldl dropObject p).pins = p.pins
  | [], p => rfl
  | k :: wrote, p => by
    rw [foldl_cons, foldl_dropObject_pins wrote, dropObject_pins]

def claims (wrote : List String) (k : String) : Option Nat :=
  if wrote.count k = 0 then none else some (wrote.count k)

theorem lookup_releaseKey (h : ∀ k, pending.lookup k = claims (key :: wrote) k) (k : String) :
    (releaseKey pending key).lookup k = claims wrote k := by
  have hkey : pending.lookup key = some (wrote.count key + 1) := by
    rw [h key, claims, count_cons_self]
    exact if_neg (Nat.succ_ne_zero _)
  unfold releaseKey
  rw [hkey, Option.getD_some]
  by_cases hk : k = key
  · subst hk
    split
    · rename_i hle
      have hzr : wrote.count k = 0 := by omega
      rw [Finmap.lookup_erase, claims, if_pos hzr]
    · rename_i hgt
      rw [Finmap.lookup_insert, claims, if_neg (by omega), Nat.add_sub_cancel]
  · have hcnt : (key :: wrote).count k = wrote.count k :=
      count_cons_of_ne (fun he => hk he.symm)
    have hoth : pending.lookup k = claims wrote k := by rw [h k, claims, claims, hcnt]
    split
    · rw [Finmap.lookup_erase_ne hk, hoth]
    · rw [Finmap.lookup_insert_of_ne _ hk, hoth]

theorem foldl_releaseKey : ∀ (wrote : List String) (pending : FinMap String Nat),
    (∀ k, pending.lookup k = claims wrote k) → wrote.foldl releaseKey pending = ∅
  | [], pending, h => by
    refine Finmap.ext_lookup fun k => ?_
    rw [foldl_nil, h k, Finmap.lookup_empty]
    rfl
  | key :: wrote, pending, h =>
    foldl_releaseKey wrote (releaseKey pending key) (lookup_releaseKey h)

theorem claims_register {pending : FinMap String Nat} {wrote : List String}
    (h : ∀ k, pending.lookup k = claims wrote k) (k : String) :
    (pending.insert key ((pending.lookup key).getD 0 + 1)).lookup k
      = claims (wrote ++ [key]) k := by
  have hcnt : (wrote ++ [key]).count k = wrote.count k + [key].count k := count_append ..
  by_cases hk : k = key
  · subst hk
    have hone : [k].count k = 1 := by simp
    have hval : (pending.lookup k).getD 0 = wrote.count k := by
      rw [h k, claims]
      split
      · rename_i h0
        rw [h0]
        rfl
      · rfl
    rw [Finmap.lookup_insert, hval, claims, if_neg (by omega), hcnt, hone]
  · have hzr : [key].count k = 0 := by
      rw [count_singleton, if_neg]
      simpa using fun he => hk he.symm
    rw [Finmap.lookup_insert_of_ne _ hk, h k, claims, claims, hcnt, hzr, Nat.add_zero]

theorem mem_pending_iff {pending : FinMap String Nat} {wrote : List String}
    (h : ∀ k, pending.lookup k = claims wrote k) {k : String} : k ∈ pending ↔ k ∈ wrote := by
  rw [mem_iff_lookup, h k, claims]
  split
  · rename_i h0
    simpa using count_eq_zero.mp h0
  · rename_i h0
    simpa using count_pos_iff.mp (Nat.pos_of_ne_zero h0)

/-! ## Files -/

@[simp] theorem run_cons (d : Disk) (op : DiskOp) (ops : List DiskOp) :
    d.run (op :: ops) = (op.apply d).run ops := rfl

theorem run_append (d : Disk) (ops ops' : List DiskOp) :
    d.run (ops ++ ops') = (d.run ops).run ops' := List.foldl_append ..

@[simp] theorem run_writeIndex_files (d : Disk) (p : PinStore) (ok : Bool) :
    (d.run (writeIndexLocked p ok)).files = d.files := by
  cases ok <;> rfl

theorem run_commitRecord_files (d : Disk) (p : PinStore) (rootKey : String) (rec : PinRecord)
    (ok : Bool) : (d.run (commitRecord p rootKey rec ok).2).files = d.files :=
  run_writeIndex_files d _ ok

theorem lookup_removeObjects (d : Disk) (ps : Multiset ObjPath) (path : ObjPath) :
    ((DiskOp.removeObjects ps).apply d).files.lookup path
      = if path ∈ ps then none else d.files.lookup path := by
  show (filter _ d.files).lookup path = _
  rw [lookup_filter]
  by_cases h : path ∈ ps
  · rw [if_pos h]
    cases d.files.lookup path <;> simp [h]
  · rw [if_neg h]
    cases d.files.lookup path <;> simp [h]

theorem removeObjects_sub (h : ((DiskOp.removeObjects ps).apply d).files.lookup path = some b) :
    d.files.lookup path = some b := by
  rw [lookup_removeObjects] at h
  split at h
  · simp at h
  · exact h

theorem reclaim_files_sub (h : (d.run (reclaimUnreferencedLocked p).2).files.lookup path = some b) :
    d.files.lookup path = some b := removeObjects_sub h

theorem reclaim_files_keep (hsp : splitStoreKey o = some path)
    (hkp : o ∈ p.objects → o ∈ (reclaimUnreferencedLocked p).1.objects) :
    (d.run (reclaimUnreferencedLocked p).2).files.lookup path = d.files.lookup path := by
  have hgr : path ∉ pathsOf p.garbage.keys.val := by
    refine notMem_pathsOf hsp fun hm => ?_
    obtain ⟨hobj, hde⟩ := mem_garbage.mp (Finmap.mem_keys.mp hm)
    exact hde (mem_reclaim.mp (hkp hobj)).2
  show ((DiskOp.removeObjects _).apply d).files.lookup path = _
  rw [lookup_removeObjects, if_neg hgr]

theorem quarantine_snd (p : PinStore) (badKey : String) (indexOk : Bool) :
    (quarantine p badKey indexOk).2
      = .removeObjects (pathsOf {badKey})
        :: ((reclaimUnreferencedLocked (afterDrop p badKey)).2
          ++ writeIndexLocked (quarantine p badKey indexOk).1 indexOk) := rfl

theorem quarantine_files_sub
    (h : (d.run (quarantine p badKey indexOk).2).files.lookup path = some b) :
    d.files.lookup path = some b := by
  rw [quarantine_snd, run_cons, run_append, run_writeIndex_files] at h
  exact removeObjects_sub (reclaim_files_sub h)

theorem quarantine_files_keep (hsp : splitStoreKey o = some path) (hne : o ≠ badKey)
    (hkp : o ∈ p.objects → o ∈ (quarantine p badKey indexOk).1.objects) :
    (d.run (quarantine p badKey indexOk).2).files.lookup path = d.files.lookup path := by
  have hbad : path ∉ pathsOf {badKey} :=
    notMem_pathsOf hsp (fun hm => hne (Multiset.mem_singleton.mp hm))
  have hkp' : o ∈ (afterDrop p badKey).objects →
      o ∈ (reclaimUnreferencedLocked (afterDrop p badKey)).1.objects :=
    fun ho => hkp (shrinks_afterDrop.mem_objects ho)
  rw [quarantine_snd, run_cons, run_append, run_writeIndex_files,
    reclaim_files_keep hsp hkp', lookup_removeObjects, if_neg hbad]

/-! ### Unpin -/

def afterUnpin (p : PinStore) (rootKey : String) : PinStore :=
  (reclaimUnreferencedLocked { p with pins := p.pins.erase rootKey }).1

theorem shrinks_afterUnpin (p : PinStore) (rootKey : String) : Shrinks p (afterUnpin p rootKey) :=
  (shrinks_erase p rootKey).trans shrinks_reclaim

theorem unpin_cases (p : PinStore) (kind : Kind) (addr : Addr) (owner : String) (indexOk : Bool) :
    ((unpin p kind addr owner indexOk).1 = p ∧ (unpin p kind addr owner indexOk).2.1 = []
        ∧ ¬ ∃ rec, p.pins.lookup (storeKeyStr kind.string addr.string) = some rec
          ∧ (rec.owner = "" ∨ rec.owner = owner))
      ∨ ∃ rec, p.pins.lookup (storeKeyStr kind.string addr.string) = some rec
          ∧ (rec.owner = "" ∨ rec.owner = owner)
          ∧ unpin p kind addr owner indexOk
            = (afterUnpin p (storeKeyStr kind.string addr.string),
              (reclaimUnreferencedLocked
                  { p with pins := p.pins.erase (storeKeyStr kind.string addr.string) }).2
                ++ writeIndexLocked (afterUnpin p (storeKeyStr kind.string addr.string)) indexOk,
              if indexOk then .ok rec else .error ⟨.io, "persist pin index"⟩) := by
  unfold unpin
  dsimp only
  cases hrec : p.pins.lookup (storeKeyStr kind.string addr.string) with
  | none => exact .inl ⟨rfl, rfl, fun ⟨rec, hrec, _⟩ => absurd hrec (by simp)⟩
  | some rec =>
    dsimp only
    split
    · rename_i how
      refine .inl ⟨rfl, rfl, ?_⟩
      intro hgv
      obtain ⟨rec', hrec', hok⟩ := hgv
      cases hrec'
      rw [keyEq, decide_eq_true_eq] at how
      exact hok.elim how.1 how.2
    · rename_i how
      refine .inr ⟨rec, rfl, ?_, rfl⟩
      rw [not_and_or, not_not, not_not, keyEq, decide_eq_true_eq] at how
      exact how

theorem mem_afterUnpin (ho : o ∈ p.objects) (hn : named (p.pins.erase rootKey) o = true) :
    o ∈ (afterUnpin p rootKey).objects :=
  mem_reclaim.mpr ⟨ho, live_iff.mpr (.inl hn)⟩

/-! ### Writing an object -/

theorem run_writeObject (d : Disk) (kind : Kind) (addr : Addr) (body : Bytes)
    (outcome : WriteOutcome) :
    (d.run (writeObject kind addr body outcome)).files
      = if outcome = .ok then d.files.insert (objectPath kind addr) body else d.files := by
  cases outcome <;> rfl

theorem run_failedWrite
    (h : ops = [] ∨ ∃ body outcome, outcome ≠ .ok ∧ ops = writeObject kind addr body outcome) :
    (d.run ops).files = d.files ∧ (d.run ops).index = d.index := by
  rcases h with rfl | ⟨body, outcome, hne, rfl⟩
  · exact ⟨rfl, rfl⟩
  · rw [run_writeObject, if_neg hne]
    cases outcome <;> exact ⟨rfl, rfl⟩

end VulosRelay.Proof
