import VulosRelay.Proof.PinAccounting

/-!
# Every object file is counted

A section that drops an object removes its file, and a section that counts an
object comes after its file was written. So the object files are those of the
objects in the map, with one more while a pin is between the two. When no pin is
in flight, what is on disk is exactly what the store answers for.

Opening a directory starts from that too, because the sweep removes every other
file. A key of the map has one colon, so it is the key of one path only.
-/

namespace VulosRelay.Proof

open VulosRelay.Pubcache FinMap

variable {d : Disk} {path : ObjPath} {p : PinStore} {cfg : Config}

/-- Some object of the map has its file at the path. -/
def Counts (p : PinStore) (path : ObjPath) : Prop :=
  ∃ o ∈ p.objects, splitStoreKey o = some path

def writtenPath : PinPc → Option ObjPath
  | .register w _ => some (objectPath w.kind w.addr)
  | _ => none

def FilesCounted (p : PinStore) (d : Disk) (op : Option PinOp) : Prop :=
  ∀ path ∈ d.files, Counts p path ∨ ∃ o, op = some o ∧ writtenPath o.pc = some path

theorem mem_removeObjects :
    path ∈ ((DiskOp.removeObjects ps).apply d).files ↔ path ∈ d.files ∧ path ∉ ps := by
  rw [mem_iff_lookup, mem_iff_lookup, lookup_removeObjects]
  by_cases h : path ∈ ps
  · simp [h]
  · simp [h]

theorem mem_reclaim_files (h : path ∈ (d.run (reclaimUnreferencedLocked p).2).files) :
    path ∈ d.files := by
  obtain ⟨body, hbd⟩ := mem_iff_lookup.mp h
  exact mem_of_lookup (reclaim_files_sub hbd)

theorem counts_reclaim (h : path ∈ (d.run (reclaimUnreferencedLocked p).2).files)
    (hc : Counts p path) : Counts (reclaimUnreferencedLocked p).1 path := by
  obtain ⟨o, ho, hsp⟩ := hc
  obtain ⟨_, hkp⟩ := mem_removeObjects.mp h
  refine ⟨o, mem_reclaim.mpr ⟨ho, ?_⟩, hsp⟩
  by_contra hde
  refine hkp (mem_pathsOf.mpr ⟨o, ?_, hsp⟩)
  exact Finmap.mem_keys.mpr (mem_garbage.mpr ⟨ho, hde⟩)

theorem filesCounted_quarantine (h : FilesCounted p d op) (badKey : String) (indexOk : Bool) :
    FilesCounted (quarantine p badKey indexOk).1 (d.run (quarantine p badKey indexOk).2) op := by
  intro path hpt
  rw [quarantine_snd, run_cons, run_append, run_writeIndex_files] at hpt
  obtain ⟨hfl, hbad⟩ := mem_removeObjects.mp (mem_reclaim_files hpt)
  rcases h path hfl with ⟨o, ho, hsp⟩ | hop
  · have hne : o ≠ badKey := by
      intro heq
      subst heq
      exact hbad (mem_pathsOf.mpr ⟨o, Multiset.mem_singleton_self o, hsp⟩)
    exact .inl (counts_reclaim hpt ⟨o, mem_dropObject.mpr ⟨ho, hne⟩, hsp⟩)
  · exact .inr hop

theorem filesCounted_unpin (h : FilesCounted p d none) (kind : Kind) (addr : Addr) (owner : String)
    (indexOk : Bool) :
    FilesCounted (unpin p kind addr owner indexOk).1
      (d.run (unpin p kind addr owner indexOk).2.1) none := by
  rcases unpin_cases p kind addr owner indexOk with ⟨hp, hops, _⟩ | ⟨rec, _, _, heq⟩
  · rw [hp, hops]
    exact h
  rw [heq]
  intro path hpt
  rw [run_append, run_writeIndex_files] at hpt
  rcases h path (mem_reclaim_files hpt) with hc | ⟨o, ho, _⟩
  · exact .inl (counts_reclaim hpt hc)
  · simp at ho

theorem filesCounted_stage (h : FilesCounted p d (some op)) (hfs : d'.files = d.files)
    (hpc : writtenPath op.pc = none) (hobj : ∀ o ∈ p.objects, o ∈ p'.objects) :
    FilesCounted p' d' op' := by
  intro path hpt
  rw [hfs] at hpt
  rcases h path hpt with ⟨o, ho, hsp⟩ | ⟨o, ho, hw⟩
  · exact .inl ⟨o, hobj o ho, hsp⟩
  injection ho with ho
  rw [← ho, hpc] at hw
  simp at hw

theorem filesCounted_move (h : FilesCounted p d (some op)) (hm : PinMove cfg p op p' ops next) :
    FilesCounted p' (d.run ops) next.getLeft? := by
  cases hm with
  | already hpc _ | accept hpc _ _ | resolve hpc _ | full hpc _ | share hpc _ _
  | acquire hpc _ _ _ | fetched hpc | pass hpc _ _ | commitFail hpc | undo hpc | release hpc =>
    exact filesCounted_stage h rfl (by rw [hpc]; rfl) (fun _ ho => ho)
  | turnedAway hpc =>
    rcases hpc with hpc | hpc <;> exact filesCounted_stage h rfl (by rw [hpc]; rfl) (fun _ ho => ho)
  | @written w body hpc =>
    intro path hpt
    rw [run_writeObject, if_pos rfl] at hpt
    rcases Finmap.mem_insert.mp hpt with rfl | hold
    · exact .inr ⟨_, rfl, rfl⟩
    -- the other files were there before
    rcases h path hold with hc | ⟨o, ho, hw⟩
    · exact .inl hc
    injection ho with ho
    rw [← ho, hpc] at hw
    exact absurd hw (by simp [writtenPath])
  | @fail w ops e hpc hops =>
    have hno : writtenPath op.pc = none := by
      rcases hpc with hpc | ⟨body, hpc | hpc⟩ <;> rw [hpc] <;> rfl
    exact filesCounted_stage h (run_failedWrite hops).1 hno (fun _ ho => ho)
  | @register w n hpc =>
    intro path hpt
    rcases h path hpt with ⟨o, ho, hsp⟩ | ⟨o, ho, hw⟩
    · exact .inl ⟨o, Finmap.mem_insert.mpr (.inr ho), hsp⟩
    injection ho with ho
    rw [← ho, hpc] at hw
    cases hw
    exact .inl ⟨w.key, Finmap.mem_insert.mpr (.inl rfl), splitStoreKey_key w.kind w.addr⟩
  | commit hpc =>
    exact filesCounted_stage h (run_commitRecord_files ..) (by rw [hpc]; rfl) (fun _ ho => ho)
  | rollback hpc =>
    intro path hpt
    obtain ⟨hfl, hkp⟩ := mem_removeObjects.mp hpt
    rcases h path hfl with ⟨o, ho, hsp⟩ | ⟨o, ho, hw⟩
    · refine .inl ⟨o, (mem_foldl_dropObject op.wrote p).mpr ⟨ho, fun hw => ?_⟩, hsp⟩
      exact hkp (mem_pathsOf.mpr ⟨o, hw, hsp⟩)
    injection ho with ho
    rw [← ho, hpc] at hw
    exact absurd hw (by simp [writtenPath])

theorem filesCounted_step (h : FilesCounted v.p v.d v.op) (hs : ViewStep cfg q v v') :
    FilesCounted v'.p v'.d v'.op := by
  cases hs with
  | idle => exact h
  | quarantine badKey indexOk => exact filesCounted_quarantine h badKey indexOk
  | mark key => exact h
  | tamper hfl =>
    intro path hpt
    rcases Finmap.mem_insert.mp hpt with rfl | hold
    · exact h _ hfl
    · exact h path hold
  | start kind addr owner hop =>
    intro path hpt
    rcases h path hpt with hc | ⟨o, ho, _⟩
    · exact .inl hc
    · rw [hop] at ho
      simp at ho
  | move hop hmv =>
    rw [hop] at h
    exact filesCounted_move h hmv
  | unpin kind addr owner indexOk hop =>
    rw [hop] at h
    exact filesCounted_unpin h kind addr owner indexOk

theorem parseObjectKind_eq_some (h : parseObjectKind s = some kind) : s = kind.string := by
  unfold parseObjectKind at h
  split at h
  · cases h
    assumption
  split at h
  · cases h
    assumption
  split at h
  · cases h
    assumption
  · simp at h

theorem statObject_key (h : statObject d o = some n) :
    ∃ kind addr, o = storeKeyStr (Kind.string kind) (Addr.string addr)
      ∧ Addr.hashPrefix addr = hashPrefixBLAKE3 := by
  obtain ⟨path, kind, addr, hsp, hkn, had, _⟩ := statObject_parses h
  obtain ⟨hspl, hpr⟩ := parseAddr_eq_ok had
  refine ⟨kind, addr, ?_, hpr⟩
  rw [← splitStoreKey_eq_some hsp, parseObjectKind_eq_some hkn, hspl]

theorem append_colon_inj (h : l₁ ++ ':' :: l₂ = m₁ ++ ':' :: m₂) (h₁ : ':' ∉ m₁) (h₂ : ':' ∉ m₂) :
    l₁ = m₁ ∧ l₂ = m₂ := by
  rcases List.append_eq_append_iff.mp h with ⟨a, hm, hl⟩ | ⟨a, hl, hm⟩
  · cases a with
    | nil =>
      injection hl with _ hl
      exact ⟨by rw [hm, List.append_nil], hl⟩
    | cons c a =>
      injection hl with hc _
      rw [hm, ← hc] at h₁
      exact absurd (List.mem_append_right l₁ (.head _)) h₁
  · cases a with
    | nil =>
      injection hm with _ hm
      exact ⟨by rw [hl, List.append_nil], hm.symm⟩
    | cons c a =>
      injection hm with _ hm
      rw [hm] at h₂
      exact absurd (List.mem_append_right a (.head _)) h₂

theorem path_of_key (h : storeKeyStr path.kind path.addr = storeKeyStr kind.string addr.string) :
    path = objectPath kind addr := by
  have htl : path.kind.toList ++ ':' :: path.addr.toList
      = kind.string.toList ++ ':' :: addr.string.toList := by
    have hl := congrArg String.toList h
    rw [storeKeyStr, storeKeyStr] at hl
    simpa using hl
  have had : ':' ∉ addr.string.toList := fun hc =>
    absurd (Addr.mem_string hc) (by decide)
  obtain ⟨hk, ha⟩ := append_colon_inj htl (colon_notMem_kind kind) had
  rw [objectPath, ← String.toList_injective hk, ← String.toList_injective ha]

theorem filesCounted_opened (h : newPinStore d mkdirOk indexOk = .ok (p, d')) :
    FilesCounted p d' none := by
  have hld := newPinStore_loaded h
  intro path hpt
  rw [(newPinStore_ok h).2.1] at hpt
  obtain ⟨body, hbd⟩ := mem_iff_lookup.mp hpt
  have hkey := of_decide_eq_true (lookup_filter_eq_some.mp hbd).2
  obtain ⟨n, hn⟩ := mem_iff_lookup.mp hkey
  obtain ⟨kind, addr, hsp, _⟩ := statObject_key (hld.sized _ n hn)
  refine .inl ⟨_, hkey, ?_⟩
  rw [hsp, splitStoreKey_key, path_of_key hsp]

theorem filesCounted_reachable (h : (system cfg dirOk).Reachable ok s) :
    FilesCounted (viewOf s).p (viewOf s).d (viewOf s).op := by
  refine h.invariant (P := fun s => FilesCounted (viewOf s).p (viewOf s).d (viewOf s).op) ?_ ?_
  · intro s hgv
    obtain ⟨d, mkdirOk, indexOk, p, d', hop, _, rfl⟩ := hgv
    exact filesCounted_opened hop
  · intro s a s' hinv _ hst
    exact filesCounted_step hinv (step_view hst)

/-- Nothing is claimed and every object file is counted. -/
structure Settled (p : PinStore) (d : Disk) : Prop where
  /-- No object is reserved. -/
  pending : p.pending = ∅
  /-- Every file is that of an object held. -/
  files : ∀ path ∈ d.files, Counts p path

theorem settled_reachable (h : (system cfg dirOk).Reachable ok s) (hpin : s.pin = none) :
    Settled s.svc.pins s.svc.disk := by
  have hop : (viewOf s).op = none := by rw [viewOf_idle hpin]
  refine ⟨(claimInv_reachable h).idle hop, fun path hpt => ?_⟩
  rcases filesCounted_reachable h path hpt with hc | ⟨o, ho, _⟩
  · exact hc
  · rw [hop] at ho
    simp at ho

end VulosRelay.Proof
