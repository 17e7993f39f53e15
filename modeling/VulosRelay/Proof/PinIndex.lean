import VulosRelay.Proof.PinDurability
import VulosRelay.Proof.PinFiles
import VulosRelay.Proof.PinPlan

/-!
# The index on disk and the records in memory

The index may lag behind: an unpin that could not write it has left its record
there. That record is harmless. The file of its root went with the unpin, because
a root is named by its own record only, so the record is not complete and `load`
passes over it. Hence the invariant: every record in memory is listed, and a
listed record whose root is on disk is the one in memory. A pin in flight is
excused for its own root.

All this is for steps that quarantine nothing.
-/

namespace VulosRelay.Proof

open VulosRelay.Pubcache Finmap Multiset

variable {d d' : Disk} {p : PinStore}

structure DirSound (d : Disk) : Prop where
  readable : d.index = .missing ∨ ∃ recs, d.index = .doc pinIndexVersion recs
  shape : ∀ rec, some rec ∈ indexRecords d → RecordShape rec
  distinct : ∀ rec rec', some rec ∈ indexRecords d → some rec' ∈ indexRecords d →
    recordKey rec = recordKey rec' → rec = rec'

def unlisted : PinPc → Bool
  | .start | .release (.ok _) => false
  | _ => true

def Excused (op : Option PinOp) (root : String) : Prop :=
  ∃ o, op = some o ∧ o.rootKey = root ∧ unlisted o.pc = true

structure IndexInv (p : PinStore) (d : Disk) (op : Option PinOp) : Prop where
  dir : DirSound d
  listed : ∀ root rec, p.pins.lookup root = some rec →
    some rec ∈ indexRecords d ∨ Excused op root
  stale : ∀ rec, some rec ∈ indexRecords d → OnDisk d (recordKey rec) →
    p.pins.lookup (recordKey rec) = some rec ∨ Excused op (recordKey rec)

theorem indexRecords_congr (h : d'.index = d.index) : indexRecords d' = indexRecords d := by
  rw [indexRecords, indexRecords, h]

theorem DirSound.congr (h : DirSound d) (hix : d'.index = d.index) : DirSound d' := by
  refine ⟨by rw [hix]; exact h.readable, ?_, ?_⟩
  · rw [indexRecords_congr hix]
    exact h.shape
  · rw [indexRecords_congr hix]
    exact h.distinct

theorem mem_indexRecords_write {rec : PinRecord} :
    some rec ∈ indexRecords (d.run (writeIndexLocked p true))
      ↔ ∃ root, p.pins.lookup root = some rec := by
  have hrc : indexRecords (d.run (writeIndexLocked p true))
      = (sort (p.pins.entries.map Sigma.snd) (· ≤ ·)).map some := rfl
  rw [hrc, List.mem_map]
  constructor
  · intro hgv
    obtain ⟨rec', hmem, heq⟩ := hgv
    cases heq
    obtain ⟨⟨root, rec⟩, hen, rfl⟩ := mem_map.mp ((mem_sort _).mp hmem)
    exact ⟨root, lookup_eq_some_iff.mpr hen⟩
  · intro hgv
    obtain ⟨root, hrec⟩ := hgv
    refine ⟨rec, (mem_sort _).mpr (mem_map.mpr ⟨⟨root, rec⟩, ?_, rfl⟩), rfl⟩
    exact lookup_eq_some_iff.mp hrec

theorem indexInv_write (h : ShapeInv p op) : IndexInv p (d.run (writeIndexLocked p true)) op' := by
  refine ⟨⟨.inr ⟨_, rfl⟩, ?_, ?_⟩, ?_, ?_⟩
  · intro rec hmem
    obtain ⟨root, hrec⟩ := mem_indexRecords_write.mp hmem
    exact (h.records root rec hrec).1
  · intro rec rec' hmem hmem' hkey
    obtain ⟨root, hrec⟩ := mem_indexRecords_write.mp hmem
    obtain ⟨root', hrec'⟩ := mem_indexRecords_write.mp hmem'
    rw [(h.records root rec hrec).2] at hrec
    rw [(h.records root' rec' hrec').2, ← hkey, hrec] at hrec'
    injection hrec'
  · intro root rec hrec
    exact .inl (mem_indexRecords_write.mpr ⟨root, hrec⟩)
  intro rec hmem _
  obtain ⟨root, hrec⟩ := mem_indexRecords_write.mp hmem
  rw [(h.records root rec hrec).2] at hrec
  exact .inl hrec

structure Recoverable (p : PinStore) (d : Disk) (op : Option PinOp) : Prop where
  claims : ClaimInv p op
  covered : Covered p op
  durable : Durable p d op
  files : FilesCounted p d op
  shape : ShapeInv p op
  index : IndexInv p d op

theorem notOnDisk_of_unpinned (hfs : FilesCounted p d op) (hsh : ShapeInv p op)
    (hk : ¬ IsChunkKey k) (hwr : ∀ o, op = some o → writtenPath o.pc = none)
    (hnm : k ∈ p.objects → named p.pins k = true) (hpin : k ∉ p.pins) : ¬ OnDisk d k := by
  intro hgv
  obtain ⟨path, body, hsp, hbd⟩ := hgv
  rcases hfs path (FinMap.mem_of_lookup hbd) with ⟨o, ho, hsp'⟩ | ⟨o, ho, hw⟩
  · rw [← splitStoreKey_inj hsp hsp'] at ho
    exact hpin (hsh.root_named hk (hnm ho))
  · rw [hwr o ho] at hw
    simp at hw

theorem IndexInv.keep (h : IndexInv p d op) (hpn : p'.pins = p.pins) (hix : d'.index = d.index)
    (hfs : ∀ o, OnDisk d' o → OnDisk d o) (hex : ∀ root, Excused op root → Excused op' root) :
    IndexInv p' d' op' := by
  refine ⟨h.dir.congr hix, ?_, ?_⟩
  · intro root rec hrec
    rw [hpn] at hrec
    rw [indexRecords_congr hix]
    exact (h.listed root rec hrec).imp_right (hex root)
  · intro rec hmem hd
    rw [indexRecords_congr hix] at hmem
    rw [hpn]
    exact (h.stale rec hmem (hfs _ hd)).imp_right (hex _)

theorem excused_next (hrt : op'.rootKey = op.rootKey) (hpc : unlisted op'.pc = true)
    (root : String) (h : Excused (some op) root) :
    Excused (some op') root := by
  obtain ⟨o, ho, hr, _⟩ := h
  injection ho with ho
  exact ⟨op', rfl, by rw [hrt, ho, hr], hpc⟩

section

variable (h : IndexInv p d (some op))

include h

theorem IndexInv.drop (hpin : op.rootKey ∉ p.pins) (hd : ¬ OnDisk d op.rootKey) :
    IndexInv p d none := by
  refine ⟨h.dir, ?_, ?_⟩
  · intro root rec hrec
    rcases h.listed root rec hrec with hl | ⟨o, ho, hr, _⟩
    · exact .inl hl
    injection ho with ho
    rw [← hr, ← ho] at hrec
    exact absurd (FinMap.mem_of_lookup hrec) hpin
  · intro rec hmem hds
    rcases h.stale rec hmem hds with hl | ⟨o, ho, hr, _⟩
    · exact .inl hl
    injection ho with ho
    rw [← hr, ← ho] at hds
    exact absurd hds hd

theorem IndexInv.forget (hpc : unlisted op.pc = false) : IndexInv p d none := by
  have hex : ∀ root, ¬ Excused (some op) root := by
    intro root hgv
    obtain ⟨o, ho, _, hu⟩ := hgv
    injection ho with ho
    rw [← ho, hpc] at hu
    simp at hu
  refine ⟨h.dir, ?_, ?_⟩
  · intro root rec hrec
    exact .inl ((h.listed root rec hrec).resolve_right (hex root))
  · intro rec hmem hd
    exact .inl ((h.stale rec hmem hd).resolve_right (hex _))

theorem indexInv_written (hpl : OpPlan op) (hpc : op.pc = .write w body)
    (hix : d'.index = d.index) (hfs : d'.files = d.files.insert (objectPath w.kind w.addr) body)
    (hrt : op'.rootKey = op.rootKey) (hpc' : unlisted op'.pc = true) :
    IndexInv p d' (some op') := by
  refine ⟨h.dir.congr hix, ?_, ?_⟩
  · intro root rec hrec
    rw [indexRecords_congr hix]
    exact (h.listed root rec hrec).imp_right (excused_next hrt hpc' root)
  intro rec hmem hd
  rw [indexRecords_congr hix] at hmem
  by_cases hkey : recordKey rec = w.key
  -- the file of a record key appears: it is the root of this pin, for no chunk is a root
  · rcases hpl.current w (by rw [hpc]; rfl) with hkey' | hch
    · exact .inr ⟨op', rfl, by rw [hrt, hkey, hkey'], hpc'⟩
    · rw [← hkey] at hch
      exact absurd hch (h.dir.shape rec hmem).notChunk
  · obtain ⟨path, b, hsp, hb⟩ := hd
    have hne : path ≠ objectPath w.kind w.addr := by
      intro heq
      subst heq
      exact hkey (splitStoreKey_inj hsp (splitStoreKey_key w.kind w.addr))
    rw [hfs, lookup_insert_of_ne _ hne] at hb
    exact (h.stale rec hmem ⟨path, b, hsp, hb⟩).imp_right (excused_next hrt hpc' _)

theorem indexInv_root (hpn : ∀ root, root ≠ op.rootKey → p'.pins.lookup root = p.pins.lookup root)
    (hrt : op'.rootKey = op.rootKey) (hpc : unlisted op'.pc = true) :
    IndexInv p' d (some op') := by
  refine ⟨h.dir, ?_, ?_⟩
  · intro root rec hrec
    by_cases hr : root = op.rootKey
    · exact .inr ⟨op', rfl, by rw [hrt, hr], hpc⟩
    · rw [hpn root hr] at hrec
      exact (h.listed root rec hrec).imp_right (excused_next hrt hpc root)
  · intro rec hmem hd
    by_cases hr : recordKey rec = op.rootKey
    · exact .inr ⟨op', rfl, by rw [hrt, hr], hpc⟩
    · rw [hpn _ hr]
      exact (h.stale rec hmem hd).imp_right (excused_next hrt hpc _)

end

theorem OnDisk.of_removeObjects (h : OnDisk ((DiskOp.removeObjects ps).apply d) o) :
    OnDisk d o := by
  obtain ⟨path, body, hsp, hbd⟩ := h
  exact ⟨path, body, hsp, removeObjects_sub hbd⟩

theorem Recoverable.root_gone (h : Recoverable p d (some op)) (hpin : op.rootKey ∉ p.pins)
    (hwr : writtenPath op.pc = none) (hcl : op.rootKey ∈ p.objects → op.rootKey ∉ p.pending)
    : ¬ OnDisk d op.rootKey := by
  refine notOnDisk_of_unpinned h.files h.shape (rootKey_notChunk (h.shape.plan op rfl).kind) ?_ ?_
    hpin
  · intro o ho
    cases ho
    exact hwr
  · intro hobj
    exact (h.covered.live _ hobj).resolve_right (hcl hobj)

theorem indexInv_move (h : Recoverable p d (some op)) (hm : PinMove cfg p op p' ops next) :
    IndexInv p' (d.run ops) next.getLeft? := by
  have hi := h.claims.inFlight op rfl
  have hsh := shapeInv_move h.shape hm
  have hst : ∀ {op' : PinOp}, op'.rootKey = op.rootKey → unlisted op'.pc = true →
      IndexInv p d (some op') := fun hrt hpc =>
    h.index.keep rfl rfl (fun _ hd => hd) (excused_next hrt hpc)
  cases hm with
  | already hpc _ => exact h.index.forget (by rw [hpc]; rfl)
  | turnedAway hpc =>
    have hemp := hi.pending_empty hpc
    rcases hpc with hpc | hpc
    · exact h.index.forget (by rw [hpc]; rfl)
    -- given up before anything was written: the root has no file that a record could claim
    · have hpin := hi.unpinned (by rw [hpc]; rfl)
      refine h.index.drop hpin (h.root_gone hpin (by rw [hpc]; rfl) fun _ => ?_)
      rw [hemp]
      exact notMem_empty
  | accept _ _ _ | resolve _ _ | full _ _ | share _ _ _ | fetched _ | pass _ _ _ =>
    exact hst rfl rfl
  | acquire _ _ _ hpc' =>
    rcases hpc' with rfl | ⟨body, rfl⟩ <;> exact hst rfl rfl
  | @written w body hpc =>
    have hfs := run_writeObject d w.kind w.addr body .ok
    rw [if_pos rfl] at hfs
    exact indexInv_written h.index (h.shape.plan op rfl) hpc rfl hfs rfl rfl
  | @fail w ops e _ hops =>
    have hsm := run_failedWrite (d := d) hops
    refine h.index.keep rfl hsm.2 (fun o hd => ?_) (excused_next rfl rfl)
    exact hd.congr fun _ _ => by rw [hsm.1]
  | register _ => exact h.index.keep rfl rfl (fun _ hd => hd) (excused_next rfl rfl)
  | commit _ => exact indexInv_write hsh
  | commitFail _ =>
    exact indexInv_root h.index (fun root hr => lookup_insert_of_ne _ hr) rfl rfl
  | undo _ => exact indexInv_root h.index (fun root hr => lookup_erase_ne hr) rfl rfl
  | rollback _ =>
    exact h.index.keep (foldl_dropObject_pins op.wrote p) rfl
      (fun _ hd => hd.of_removeObjects) (excused_next rfl rfl)
  | @release result hpc =>
    -- the excuse for the root ends here: it is listed, or it is gone
    have hid : IndexInv p d none := by
      cases result with
      | ok rec => exact h.index.forget (by rw [hpc]; rfl)
      | error e =>
        have hpin := hi.unpinned (by rw [hpc]; rfl)
        refine h.index.drop hpin (h.root_gone hpin (by rw [hpc]; rfl) fun hobj hp => ?_)
        exact (h.covered.inFlight op rfl).rolledBack e hpc _ hobj (hi.mem_pending.mp hp)
    exact hid.keep rfl rfl (fun _ hd => hd) (fun _ hex => hex)

theorem run_reclaim_index (d : Disk) (p p' : PinStore) :
    (d.run ((reclaimUnreferencedLocked p).2 ++ writeIndexLocked p' false)).index = d.index := rfl

theorem indexInv_unpin (h : Recoverable p d none) {indexOk : Bool} :
    IndexInv (unpin p kind addr owner indexOk).1
      (d.run (unpin p kind addr owner indexOk).2.1) none := by
  have hsh := h.shape.shrinks (shrinks_unpin p kind addr owner indexOk)
  have hfs := filesCounted_unpin h.files kind addr owner indexOk
  have hcov := covered_unpin h.covered (h.claims.idle rfl) kind addr owner indexOk
  have hemp := (shrinks_unpin p kind addr owner indexOk).pending.trans (h.claims.idle rfl)
  rcases unpin_cases p kind addr owner indexOk with ⟨hp, hops, _⟩ | ⟨rec, _, _, heq⟩
  · rw [hp, hops]
    exact h.index
  rw [heq] at hsh hfs hcov hemp ⊢
  cases indexOk with
  | true =>
    rw [run_append]
    exact indexInv_write hsh
  | false =>
    have hix := run_reclaim_index d
      { p with pins := p.pins.erase (storeKeyStr kind.string addr.string) }
      (afterUnpin p (storeKeyStr kind.string addr.string))
    refine ⟨h.index.dir.congr hix, ?_, ?_⟩
    · intro root rec' hrec'
      rw [indexRecords_congr hix]
      exact h.index.listed root rec' (lookup_erase_eq_some.mp hrec').2
    intro rec' hmem hd
    rw [indexRecords_congr hix] at hmem
    have hch := (h.index.dir.shape rec' hmem).notChunk
    by_cases hr : recordKey rec' = storeKeyStr kind.string addr.string
    · -- the record that went: its root has no name left, so it has no file
      refine absurd hd (notOnDisk_of_unpinned hfs hsh hch
        (by simp) (fun hobj => hcov.named hemp hobj) ?_)
      rw [hr]
      exact notMem_erase_self
    · rcases h.index.stale rec' hmem hd.of_removeObjects with hl | ⟨o, ho, _⟩
      · exact .inl (lookup_erase_eq_some.mpr ⟨hr, hl⟩)
      · simp at ho

theorem recoverable_step (h : Recoverable v.p v.d v.op) (hs : ViewStep cfg none v v') :
    Recoverable v'.p v'.d v'.op where
  claims := claimInv_step h.claims hs
  covered := covered_step h.claims h.covered (fun _ _ hk => absurd hk (by simp)) hs
  durable := durable_step h.claims h.durable (fun _ _ hk => absurd hk (by simp)) hs
  files := filesCounted_step h.files hs
  shape := shapeInv_step h.shape hs
  index := by
    cases hs with
    | idle => exact h.index
    | mark key => exact h.index.keep rfl rfl (fun _ hd => hd) (fun _ hex => hex)
    | @tamper _ path body hfl =>
      refine h.index.keep rfl rfl (fun o hd => ?_) (fun _ hex => hex)
      -- the file that was changed was there
      obtain ⟨path', body', hsp, hbd⟩ := hd
      by_cases hp : path' = path
      · obtain ⟨old, hold⟩ := FinMap.mem_iff_lookup.mp hfl
        exact ⟨path', old, hsp, by rw [hp, hold]⟩
      · exact ⟨path', body', hsp, (lookup_insert_of_ne _ hp).symm.trans hbd⟩
    | start kind addr owner hop _ =>
      refine h.index.keep rfl rfl (fun _ hd => hd) ?_
      intro root hgv
      obtain ⟨o, ho, _⟩ := hgv
      rw [hop] at ho
      simp at ho
    | move hop hmv =>
      rw [hop] at h
      exact indexInv_move h hmv
    | unpin kind addr owner indexOk hop =>
      rw [hop] at h
      exact indexInv_unpin h

theorem DirSound.roots (h : DirSound d) : DistinctRoots d :=
  fun rec rec' hmem hmem' _ _ hkey => h.distinct rec rec' hmem hmem' hkey

theorem newPinStore_index (h : newPinStore d mkdirOk indexOk = .ok
    (p, d')) :
    (d.index = .missing ∧ d'.index = .missing)
      ∨ d' = (sweepOrphans p d).run (writeIndexLocked p true) := by
  rcases (newPinStore_cases h).2 with ⟨hix, hd⟩ | hd
  · exact .inl ⟨hix, by rw [hd]; exact hix⟩
  · exact .inr hd

theorem shapeInv_opened (hdir : DirSound d) (h : newPinStore d mkdirOk indexOk = .ok (p, d')) :
    ShapeInv p none := by
  have hld := newPinStore_loaded h
  refine ⟨?_, ?_, by simp⟩
  · intro o ho
    obtain ⟨n, hn⟩ := FinMap.mem_iff_lookup.mp ho
    exact statObject_key (hld.sized o n hn)
  intro root rec hrec
  obtain ⟨hmem, _, hrt⟩ := hld.taken root rec hrec
  exact ⟨hdir.shape rec hmem, hrt⟩

theorem recoverable_opened (hdir : DirSound d) (h : newPinStore d mkdirOk indexOk = .ok (p, d')) :
    Recoverable p d' none where
  claims := claimInv_opened h
  covered := covered_idle fun _ ho => (newPinStore_loaded h).named hdir.roots ho
  durable := durable_opened h
  files := filesCounted_opened h
  shape := shapeInv_opened hdir h
  index := by
    rcases newPinStore_index h with ⟨hold, hnew⟩ | hnew
    · have hno : indexRecords d' = [] := by rw [indexRecords, hnew]
      refine ⟨⟨.inl hnew, ?_, ?_⟩, ?_, ?_⟩
      · intro rec hmem
        rw [hno] at hmem
        simp at hmem
      · intro rec rec' hmem
        rw [hno] at hmem
        simp at hmem
      · intro root rec hrec
        obtain ⟨hmem, _⟩ := (newPinStore_loaded h).taken root rec hrec
        rw [indexRecords, hold] at hmem
        simp at hmem
      · intro rec hmem
        rw [hno] at hmem
        simp at hmem
    · rw [hnew]
      exact indexInv_write (shapeInv_opened hdir h)

end VulosRelay.Proof
