import VulosRelay.Proof.PinSections

/-!
# What opening a directory yields

`load` goes through the records of the index and takes those that are complete.
`Loaded d seen p` says what the maps are after the records `seen`; it is kept by
one round of the loop, so it holds of the maps `newPinStore` returns and all the
records of the index. The sweep then removes whatever has no entry in the maps.

Two complete records under one root key are a trap: the later one replaces the
earlier in `pins`, while the objects of both stay counted.
-/

namespace VulosRelay.Proof

open VulosRelay.Pubcache List Finmap FinMap

variable {d : Disk} {rec : PinRecord} {o : String} {p : PinStore} {seen : List (Option PinRecord)}

def recordKey (rec : PinRecord) : String := storeKeyStr rec.kind rec.addr

def complete (d : Disk) (rec : PinRecord) : Bool :=
  !skipRecord rec && rec.objects.all fun obj => (statObject d obj).isSome

def indexRecords (d : Disk) : List (Option PinRecord) :=
  match d.index with
  | .doc _ recs => recs
  | _ => []

/-- No two different complete records have the same root. -/
def DistinctRoots (d : Disk) : Prop :=
  ∀ rec rec', some rec ∈ indexRecords d → some rec' ∈ indexRecords d →
    complete d rec = true → complete d rec' = true → recordKey rec = recordKey rec' → rec = rec'

theorem complete_stat (h : complete d rec = true) (ho : o ∈ rec.objects) :
    ∃ n, statObject d o = some n := by
  rw [complete, Bool.and_eq_true] at h
  exact Option.isSome_iff_exists.mp (all_eq_true.mp h.2 o ho)

structure Counted (d : Disk) (objs : List String) (p p' : PinStore) : Prop where
  pins : p'.pins = p.pins
  pending : p'.pending = p.pending
  verified : p'.verified = p.verified
  kept : ∀ o n, p.objects.lookup o = some n → p'.objects.lookup o = some n
  sized : ∀ o n, p'.objects.lookup o = some n →
    p.objects.lookup o = some n ∨ (o ∈ objs ∧ statObject d o = some n)
  covers : ∀ o ∈ objs, (∃ n, statObject d o = some n) → o ∈ p'.objects
  bytes : p.bytes = FinMap.total p.objects → p'.bytes = FinMap.total p'.objects

theorem counted_addObject :
    Counted d [o] p (addObject d p o) := by
  unfold addObject
  split
  · rename_i hmem
    refine ⟨rfl, rfl, rfl, fun _ _ h => h, fun _ _ h => .inl h, ?_, fun h => h⟩
    intro x hx _
    rw [mem_singleton.mp hx]
    exact hmem
  · rename_i hmem
    -- not counted yet: it counts if there is a file
    cases hst : statObject d o with
    | none =>
      refine ⟨rfl, rfl, rfl, fun _ _ h => h, fun _ _ h => .inl h, ?_, fun h => h⟩
      intro x hx hgv
      obtain ⟨n, hn⟩ := hgv
      rw [mem_singleton.mp hx, hst] at hn
      simp at hn
    | some sz =>
      refine ⟨rfl, rfl, rfl, ?_, ?_, ?_, ?_⟩
      · intro x n hx
        have hne : x ≠ o := by
          intro heq
          subst heq
          exact hmem (mem_of_lookup hx)
        show (p.objects.insert o sz).lookup x = some n
        rwa [lookup_insert_of_ne _ hne]
      · intro x n hx
        by_cases hxo : x = o
        · subst hxo
          rw [lookup_insert] at hx
          exact .inr ⟨mem_singleton.mpr rfl, hst.trans hx⟩
        · rw [lookup_insert_of_ne _ hxo] at hx
          exact .inl hx
      · intro x hx _
        rw [mem_singleton.mp hx]
        exact mem_insert.mpr (.inl rfl)
      intro hb
      show p.bytes + sz = total (p.objects.insert o sz)
      rw [total_insert sz hmem, hb]
      omega

theorem Counted.trans (h : Counted d objs p q) (h' : Counted d objs' q r) :
    Counted d (objs ++ objs') p r where
  pins := h'.pins.trans h.pins
  pending := h'.pending.trans h.pending
  verified := h'.verified.trans h.verified
  kept := fun o n ho => h'.kept o n (h.kept o n ho)
  sized := by
    intro o n ho
    rcases h'.sized o n ho with hq | ⟨hin, hs⟩
    · rcases h.sized o n hq with hp | ⟨hin, hs⟩
      · exact .inl hp
      · exact .inr ⟨mem_append_left _ hin, hs⟩
    · exact .inr ⟨mem_append_right _ hin, hs⟩
  covers := by
    intro o ho hs
    rcases mem_append.mp ho with ho | ho
    · obtain ⟨n, hn⟩ := mem_iff_lookup.mp (h.covers o ho hs)
      exact mem_of_lookup (h'.kept o n hn)
    · exact h'.covers o ho hs
  bytes := fun hb => h'.bytes (h.bytes hb)

theorem counted_foldl (d : Disk) : ∀ (objs : List String) (p : PinStore),
    Counted d objs p (objs.foldl (addObject d) p)
  | [], p => ⟨rfl, rfl, rfl, fun _ _ h => h, fun _ _ h => .inl h,
      by simp, fun h => h⟩
  | o :: objs, p => counted_addObject.trans (counted_foldl d objs (addObject d p o))

structure Loaded (d : Disk) (seen : List (Option PinRecord)) (p : PinStore) : Prop where
  bytes : p.bytes = FinMap.total p.objects
  pending : p.pending = ∅
  verified : p.verified = ∅
  sized : ∀ o n, p.objects.lookup o = some n → statObject d o = some n
  /-- A record that was taken is a complete one that was seen. -/
  taken : ∀ root rec, p.pins.lookup root = some rec →
    some rec ∈ seen ∧ complete d rec = true ∧ root = recordKey rec
  /-- Under the root of a complete record there is a record. -/
  found : ∀ rec, some rec ∈ seen → complete d rec = true → recordKey rec ∈ p.pins
  /-- What a complete record names is counted, and nothing else is. -/
  counted : ∀ o, o ∈ p.objects ↔ ∃ rec, some rec ∈ seen ∧ complete d rec = true ∧ o ∈ rec.objects

theorem loaded_empty : Loaded d [] .empty where
  bytes := rfl
  pending := rfl
  verified := rfl
  sized := nofun
  taken := nofun
  found := by simp
  counted := by
    intro o
    constructor
    · exact fun h => absurd h notMem_empty
    intro hgv
    obtain ⟨rec, h, _⟩ := hgv
    simp at h

theorem loadRecord_some :
    loadRecord d p (some rec)
      = if complete d rec = true then
          rec.objects.foldl (addObject d) { p with pins := p.pins.insert (recordKey rec) rec }
        else p := by
  rw [loadRecord, complete]
  cases skipRecord rec with
  | true => rfl
  | false => rfl

theorem loaded_skip (h : Loaded d seen p) (hsk : ∀ rec, r = some rec → ¬ complete d rec = true) :
    Loaded d (seen ++ [r]) p := by
  have hbc : ∀ rec, some rec ∈ seen ++ [r] → complete d rec = true → some rec ∈ seen := by
    intro rec hmem hc
    rcases mem_append.mp hmem with hmem | hmem
    · exact hmem
    · exact absurd hc (hsk rec (mem_singleton.mp hmem).symm)
  refine ⟨h.bytes, h.pending, h.verified, h.sized, ?_, ?_, ?_⟩
  · intro root rec hrec
    obtain ⟨hmem, hc, hrt⟩ := h.taken root rec hrec
    exact ⟨mem_append_left _ hmem, hc, hrt⟩
  · intro rec hmem hc
    exact h.found rec (hbc rec hmem hc) hc
  intro o
  rw [h.counted o]
  constructor
  · intro hgv
    obtain ⟨rec, hmem, hc, ho⟩ := hgv
    exact ⟨rec, mem_append_left _ hmem, hc, ho⟩
  intro hgv
  obtain ⟨rec, hmem, hc, ho⟩ := hgv
  exact ⟨rec, hbc rec hmem hc, hc, ho⟩

theorem loaded_take (h : Loaded d seen p) (hc : complete d rec = true)
    (hcnt : Counted d rec.objects { p with pins := p.pins.insert (recordKey rec) rec } p') :
    Loaded d (seen ++ [some rec]) p' where
  bytes := hcnt.bytes h.bytes
  pending := hcnt.pending.trans h.pending
  verified := hcnt.verified.trans h.verified
  sized := by
    intro o n ho
    rcases hcnt.sized o n ho with hold | ⟨_, hs⟩
    · exact h.sized o n hold
    · exact hs
  taken := by
    intro root rec' hrec
    rw [hcnt.pins] at hrec
    by_cases hrt : root = recordKey rec
    · rw [hrt, lookup_insert] at hrec
      cases hrec
      exact ⟨mem_append_right _ (mem_singleton.mpr rfl), hc, hrt⟩
    · rw [lookup_insert_of_ne _ hrt] at hrec
      obtain ⟨hmem, hc', hrt'⟩ := h.taken root rec' hrec
      exact ⟨mem_append_left _ hmem, hc', hrt'⟩
  found := by
    intro rec' hmem hc'
    rw [hcnt.pins, mem_insert]
    rcases mem_append.mp hmem with hmem | hmem
    · exact .inr (h.found rec' hmem hc')
    · injection mem_singleton.mp hmem with heq
      exact .inl (heq ▸ rfl)
  counted := by
    intro o
    constructor
    · intro ho
      obtain ⟨n, hn⟩ := mem_iff_lookup.mp ho
      -- counted before this record, or counted for it
      rcases hcnt.sized o n hn with hold | ⟨hin, _⟩
      · obtain ⟨rec', hmem, hc', ho'⟩ := (h.counted o).mp (mem_of_lookup hold)
        exact ⟨rec', mem_append_left _ hmem, hc', ho'⟩
      · exact ⟨rec, mem_append_right _ (mem_singleton.mpr rfl), hc, hin⟩
    · intro hgv
      obtain ⟨rec', hmem, hc', ho⟩ := hgv
      rcases mem_append.mp hmem with hmem | hmem
      · obtain ⟨n, hn⟩ := mem_iff_lookup.mp ((h.counted o).mpr ⟨rec', hmem, hc', ho⟩)
        exact mem_of_lookup (hcnt.kept o n hn)
      injection mem_singleton.mp hmem with heq
      subst heq
      exact hcnt.covers o ho (complete_stat hc ho)

theorem loaded_step (h : Loaded d seen p) (r : Option PinRecord) :
    Loaded d (seen ++ [r]) (loadRecord d p r) := by
  cases r with
  | none => exact loaded_skip h (by simp)
  | some rec =>
    rw [loadRecord_some]
    by_cases hc : complete d rec = true
    · rw [if_pos hc]
      exact loaded_take h hc (counted_foldl d rec.objects _)
    rw [if_neg hc]
    refine loaded_skip h fun rec' heq => ?_
    injection heq with heq
    exact heq ▸ hc

theorem loaded_foldl : ∀ (recs : List (Option PinRecord)) {seen} {p : PinStore},
    Loaded d seen p → Loaded d (seen ++ recs) (recs.foldl (loadRecord d) p)
  | [], seen, p, h => by rwa [append_nil]
  | r :: recs, seen, p, h => by
    have hrs := loaded_foldl recs (loaded_step h r)
    rwa [append_assoc] at hrs

section

variable (h : newPinStore d mkdirOk indexOk = .ok (p, d'))

include h

theorem newPinStore_cases :
    p = (indexRecords d).foldl (loadRecord d) .empty
      ∧ ((d.index = .missing ∧ d' = sweepOrphans p d)
        ∨ d' = (sweepOrphans p d).run (writeIndexLocked p true)) := by
  unfold newPinStore at h
  -- only a missing index and a readable one of the right version open
  split at h
  · unfold indexRecords
    cases hix : d.index with
    | missing =>
      rw [hix] at h
      injection h with h
      injection h with hp hd
      rw [← hp, ← hd]
      exact ⟨rfl, .inl ⟨rfl, rfl⟩⟩
    | unreadable | garbage => rw [hix] at h; simp at h
    | doc version recs =>
      rw [hix] at h
      dsimp only at h
      split at h
      · simp at h
      split at h
      · injection h with h
        injection h with hp hd
        rw [← hp, ← hd]
        exact ⟨rfl, .inr rfl⟩
      · simp at h
  · simp at h

theorem newPinStore_ok :
    p = (indexRecords d).foldl (loadRecord d) .empty
      ∧ d'.files = (sweepOrphans p d).files ∧ d'.tmps = (sweepOrphans p d).tmps := by
  obtain ⟨hp, hd⟩ := newPinStore_cases h
  rcases hd with ⟨_, rfl⟩ | rfl <;> exact ⟨hp, rfl, rfl⟩

theorem newPinStore_loaded : Loaded d (indexRecords d) p := by
  rw [(newPinStore_ok h).1]
  exact loaded_foldl (indexRecords d) loaded_empty

end

theorem Loaded.held (h : Loaded d seen p) (hrec : p.pins.lookup root = some rec)
    (ho : o ∈ rec.objects) : o ∈ p.objects := by
  obtain ⟨hmem, hc, _⟩ := h.taken root rec hrec
  exact (h.counted o).mpr ⟨rec, hmem, hc, ho⟩

theorem Loaded.pins_iff (h : Loaded d (indexRecords d) p) (hds : DistinctRoots d) :
    p.pins.lookup root = some rec
      ↔ some rec ∈ indexRecords d ∧ complete d rec = true ∧ root = recordKey rec := by
  constructor
  · exact h.taken root rec
  intro hgv
  obtain ⟨hmem, hc, rfl⟩ := hgv
  obtain ⟨rec', hrec'⟩ := mem_iff_lookup.mp (h.found rec hmem hc)
  obtain ⟨hmem', hc', hrt⟩ := h.taken _ rec' hrec'
  rw [hrec', hds rec rec' hmem hmem' hc hc' hrt]

theorem Loaded.named (h : Loaded d (indexRecords d) p) (hds : DistinctRoots d)
    (ho : o ∈ p.objects) : named p.pins o = true := by
  obtain ⟨rec, hmem, hc, hin⟩ := (h.counted o).mp ho
  exact named_iff.mpr ⟨recordKey rec, rec, (h.pins_iff hds).mpr ⟨hmem, hc, rfl⟩, hin⟩

/-- What it takes for an object to have a size: a key that splits into a kind and an address that
both parse, and a file at that path. -/
theorem statObject_parses (h : statObject d o = some n) :
    ∃ path kind addr, splitStoreKey o = some path ∧ parseObjectKind path.kind = some kind
      ∧ parseAddr path.addr = .ok addr ∧ (d.files.lookup path).map List.length = some n := by
  unfold statObject at h
  cases hsp : splitStoreKey o with
  | none => rw [hsp] at h; simp at h
  | some path =>
    rw [hsp] at h
    dsimp only at h
    split at h
    · next kind addr hkn had => exact ⟨path, kind, addr, rfl, hkn, had, h⟩
    · simp at h

theorem statObject_eq_some (h : statObject d o = some n) :
    ∃ path body, splitStoreKey o = some path ∧ d.files.lookup path = some body
      ∧ body.length = n := by
  obtain ⟨path, _, _, hsp, _, _, hfl⟩ := statObject_parses h
  obtain ⟨body, hbd, hlen⟩ := Option.map_eq_some_iff.mp hfl
  exact ⟨path, body, hsp, hbd, hlen⟩

theorem sweep_files (hsp : splitStoreKey o = some path) (ho : o ∈ p.objects) :
    (sweepOrphans p d).files.lookup path = d.files.lookup path := by
  have hkp : decide (storeKeyStr path.kind path.addr ∈ p.objects) = true := by
    rw [splitStoreKey_eq_some hsp]
    exact decide_eq_true ho
  show (filter _ d.files).lookup path = _
  rw [lookup_filter]
  cases d.files.lookup path with
  | none => rfl
  | some body => simpa using hkp

def freshSys : Sys := Sys.opened .empty (sweepOrphans .empty freshDir)

theorem freshSys_init (h : dirOk freshDir .empty) : (system cfg dirOk).init freshSys :=
  ⟨freshDir, true, true, .empty, _, rfl, h, rfl⟩

theorem distinctRoots_fresh : DistinctRoots freshDir :=
  nofun

end VulosRelay.Proof
