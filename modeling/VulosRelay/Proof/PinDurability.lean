import VulosRelay.Proof.PinCover

/-!
# Does the store hold what its pins name?

A record should name only objects that are counted and whose files are there.
The sections that run under `p.mu` agree on that: reclaim and quarantine keep
what a surviving record names, and rollback removes only what the pin itself
wrote, which no other record can name.

A pin that has not committed is the exception. It has gone past some objects and
will name them in its record, but the store does not know: a quarantine keeps
those the pin wrote, unless it is their own, and drops those the pin only found.
`SparesPin` is what a quarantine must leave to such a pin. It fails without any
disk fault, by a reader that was delayed: see `pinned_object_missing`.
-/

namespace VulosRelay.Proof

open VulosRelay.Pubcache Finmap

variable {d d' : Disk} {p : PinStore}

/-- The file of an object is there. -/
def OnDisk (d : Disk) (o : String) : Prop :=
  ∃ path body, splitStoreKey o = some path ∧ d.files.lookup path = some body

theorem OnDisk.congr (h : OnDisk d o)
    (hfl : ∀ path, splitStoreKey o = some path → d'.files.lookup path = d.files.lookup path) :
    OnDisk d' o := by
  obtain ⟨path, body, hsp, hbd⟩ := h
  exact ⟨path, body, hsp, by rw [hfl path hsp, hbd]⟩

theorem OnDisk.insert (h : OnDisk d o) (path : ObjPath) (body : Bytes)
    (hfs : d'.files = d.files.insert path body) : OnDisk d' o := by
  obtain ⟨path', body', hsp, hbd⟩ := h
  rw [OnDisk, hfs]
  by_cases hp : path' = path
  · exact ⟨path', body, hsp, by rw [hp, lookup_insert]⟩
  · exact ⟨path', body', hsp, by rw [lookup_insert_of_ne _ hp, hbd]⟩

structure OpDurable (p : PinStore) (d : Disk) (op : PinOp) : Prop where
  passed : beforeCommit op.pc = true → ∀ o ∈ op.objects, o ∈ p.objects
  onDisk : ∀ w n, op.pc = .register w n → OnDisk d w.key
  own : ∀ o ∈ op.wrote, ∀ root rec, p.pins.lookup root = some rec → o ∈ rec.objects →
    root = op.rootKey

structure Durable (p : PinStore) (d : Disk) (op : Option PinOp) : Prop where
  stored : ∀ o ∈ p.objects, OnDisk d o
  records : ∀ root rec, p.pins.lookup root = some rec → ∀ o ∈ rec.objects, o ∈ p.objects
  inFlight : ∀ o, op = some o → OpDurable p d o

/-- What a quarantine of `badKey` must leave to a pin that has not committed. -/
structure SparesPin (p : PinStore) (op : PinOp) (badKey : String) : Prop where
  /-- The pin has not passed the bad object, -/
  passed : badKey ∉ op.objects
  /-- Every object the pin found, and did not write, keeps a record that names it. -/
  shared : ∀ o ∈ op.objects, o ∉ op.wrote → named (survivors p badKey) o = true
  /-- and is not about to register it. -/
  written : ∀ w n, op.pc = .register w n → w.key ≠ badKey

theorem durable_inFlight (hs : ∀ o ∈ p.objects, OnDisk d o)
    (hr : ∀ root rec, p.pins.lookup root = some rec → ∀ o ∈ rec.objects, o ∈ p.objects)
    (hop : OpDurable p d op) : Durable p d (some op) := by
  refine ⟨hs, hr, fun o ho => ?_⟩
  injection ho with ho
  exact ho ▸ hop

theorem Durable.forget (h : Durable p d op) : Durable p d none :=
  ⟨h.stored, h.records, by simp⟩

theorem onDisk_quarantine (h : OnDisk d o) (hne : o ≠ badKey)
    (hkp : o ∈ p.objects → o ∈ (quarantine p badKey indexOk).1.objects) :
    OnDisk (d.run (quarantine p badKey indexOk).2) o :=
  h.congr fun _ hsp => quarantine_files_keep hsp hne hkp

/-- **A quarantine that spares the pin in flight leaves every record its objects.** -/
theorem durable_quarantine (hcl : ClaimInv p op) (h : Durable p d op) {indexOk : Bool}
    (hsp : ∀ o, op = some o → beforeCommit o.pc = true → SparesPin p o badKey) :
    Durable (quarantine p badKey indexOk).1 (d.run (quarantine p badKey indexOk).2) op := by
  have hrc : ∀ {root : String} {rec : PinRecord},
      (quarantine p badKey indexOk).1.pins.lookup root = some rec →
      p.pins.lookup root = some rec ∧ badKey ∉ rec.objects := by
    intro root rec hrec
    rw [quarantine_survivors] at hrec
    exact lookup_survivors.mp hrec
  refine ⟨?_, ?_, ?_⟩
  · intro o ho
    obtain ⟨⟨hobj, hne⟩, _⟩ := quarantine_objects.mp ho
    exact onDisk_quarantine (h.stored o hobj) hne (fun _ => ho)
  · intro root rec hrec o ho
    obtain ⟨hold, hbad⟩ := hrc hrec
    have hne : o ≠ badKey := by
      intro heq
      subst heq
      exact hbad ho
    refine quarantine_objects.mpr ⟨⟨h.records root rec hold o ho, hne⟩, .inl ?_⟩
    exact named_iff.mpr ⟨root, rec, lookup_survivors.mpr ⟨hold, hbad⟩, ho⟩
  · intro op' hop'
    have hop := h.inFlight op' hop'
    have hi := hcl.inFlight op' hop'
    refine ⟨?_, ?_, ?_⟩
    · intro hpc o ho
      have hgr := hsp op' hop' hpc
      have hne : o ≠ badKey := by
        intro heq
        subst heq
        exact hgr.passed ho
      refine quarantine_objects.mpr ⟨⟨hop.passed hpc o ho, hne⟩, ?_⟩
      by_cases hw : o ∈ op'.wrote
      · exact .inr (hi.mem_pending.mpr hw)
      · exact .inl (hgr.shared o ho hw)
    · intro w n hpc
      have hgr := hsp op' hop' (by rw [hpc]; rfl)
      -- the object is not counted yet, so the reclaim does not see its file
      have habs := hi.absent w (by rw [hpc]; rfl)
      exact onDisk_quarantine (hop.onDisk w n hpc) (hgr.written w n hpc)
        (fun hm => absurd hm habs)
    · intro o ho root rec hrec hin
      exact hop.own o ho root rec (hrc hrec).1 hin

theorem durable_unpin (h : Durable p d none) {indexOk : Bool} :
    Durable (unpin p kind addr owner indexOk).1
      (d.run (unpin p kind addr owner indexOk).2.1) none := by
  rcases unpin_cases p kind addr owner indexOk with ⟨hp, hops, _⟩ | ⟨rec, _, _, heq⟩
  · rw [hp, hops]
    exact h
  rw [heq]
  refine ⟨?_, ?_, by simp⟩
  · intro o ho
    refine (h.stored o (mem_reclaim.mp ho).1).congr fun path hsp => ?_
    rw [run_append, run_writeIndex_files]
    exact reclaim_files_keep hsp (fun _ => ho)
  · intro root rec' hrec' o ho
    have hold := (lookup_erase_eq_some.mp hrec').2
    exact mem_afterUnpin (h.records root rec' hold o ho) (named_iff.mpr ⟨root, rec', hrec', ho⟩)

theorem durable_stage (h : Durable p d (some op)) (hd : ∀ o, OnDisk d o → OnDisk d' o)
    (hwr : op'.wrote = op.wrote) (hrt : op'.rootKey = op.rootKey)
    (hps : beforeCommit op'.pc = true → ∀ o ∈ op'.objects, o ∈ p.objects)
    (hon : ∀ w n, op'.pc = .register w n → OnDisk d' w.key) : Durable p d' (some op') := by
  refine durable_inFlight (fun o ho => hd o (h.stored o ho)) h.records ⟨hps, hon, ?_⟩
  rw [hwr, hrt]
  exact (h.inFlight op rfl).own

theorem durable_commit (h : Durable p d (some op)) (hpc : op.pc = .commit)
    (hd : ∀ o, OnDisk d o → OnDisk d' o) (hwr : op'.wrote = op.wrote)
    (hrt : op'.rootKey = op.rootKey) (hpc' : beforeCommit op'.pc = false) :
    Durable (commitRecord p op.rootKey (op.record now) indexOk).1 d' (some op') := by
  have hop := h.inFlight op rfl
  refine durable_inFlight (fun o ho => hd o (h.stored o ho)) ?_ ⟨?_, ?_, ?_⟩
  · intro root rec hrec o ho
    by_cases hr : root = op.rootKey
    · subst hr
      -- the record that is entered names what the loop went past
      have hsm : op.record now = rec := Option.some.inj ((lookup_insert _).symm.trans hrec)
      subst hsm
      exact hop.passed (by rw [hpc]; rfl) o ho
    · exact h.records root rec ((lookup_insert_of_ne _ hr).symm.trans hrec) o ho
  · intro hb
    rw [hpc'] at hb
    simp at hb
  · intro w n hw
    rw [hw] at hpc'
    exact absurd hpc' (by simp [beforeCommit])
  intro o ho root rec hrec hin
  rw [hwr] at ho
  rw [hrt]
  by_cases hr : root = op.rootKey
  · exact hr
  · exact hop.own o ho root rec ((lookup_insert_of_ne _ hr).symm.trans hrec) hin

theorem durable_rollback (h : Durable p d (some op)) (hrt : op.rootKey ∉ p.pins)
    (hwr : op'.wrote = op.wrote) (hrtk : op'.rootKey = op.rootKey)
    (hpc' : beforeCommit op'.pc = false) :
    Durable (rollback p op.wrote).1 (d.run (rollback p op.wrote).2) (some op') := by
  have hop := h.inFlight op rfl
  have hpn : (rollback p op.wrote).1.pins = p.pins := foldl_dropObject_pins op.wrote p
  refine durable_inFlight ?_ ?_ ⟨?_, ?_, ?_⟩
  · intro o ho
    obtain ⟨hobj, hw⟩ := (mem_foldl_dropObject op.wrote p).mp ho
    refine (h.stored o hobj).congr fun path hsp => ?_
    have hkp : path ∉ pathsOf op.wrote := notMem_pathsOf hsp (by simpa using hw)
    show ((DiskOp.removeObjects (pathsOf op.wrote)).apply d).files.lookup path = _
    rw [lookup_removeObjects, if_neg hkp]
  · intro root rec hrec o ho
    rw [hpn] at hrec
    refine (mem_foldl_dropObject op.wrote p).mpr ⟨h.records root rec hrec o ho, fun hw => ?_⟩
    exact hrt (hop.own o hw root rec hrec ho ▸ FinMap.mem_of_lookup hrec)
  · intro hb
    rw [hpc'] at hb
    simp at hb
  · intro w n hw
    rw [hw] at hpc'
    exact absurd hpc' (by simp [beforeCommit])
  intro o ho root rec hrec hin
  rw [hwr] at ho
  rw [hpn] at hrec
  rw [hrtk]
  exact hop.own o ho root rec hrec hin

theorem durable_register (hcl : ClaimInv p (some op)) (h : Durable p d (some op))
    (hpc : op.pc = .register w n) :
    Durable (registerObject p w.key n) d (some { op with
      pc := .next, objects := op.objects ++ [w.key], wrote := op.wrote ++ [w.key],
      pinBytes := op.pinBytes + n }) := by
  have hop := h.inFlight op rfl
  have habs := (hcl.inFlight op rfl).absent w (by rw [hpc]; rfl)
  have hold : ∀ o ∈ p.objects, o ∈ (registerObject p w.key n).objects :=
    fun o ho => mem_insert.mpr (.inr ho)
  refine durable_inFlight ?_ ?_ ⟨?_, by simp, ?_⟩
  · intro o ho
    rcases mem_insert.mp ho with rfl | ho
    · exact hop.onDisk w n hpc
    · exact h.stored o ho
  · intro root rec hrec o ho
    exact hold o (h.records root rec hrec o ho)
  · intro _ o ho
    rcases List.mem_append.mp ho with ho | ho
    · exact hold o (hop.passed (by rw [hpc]; rfl) o ho)
    · exact mem_insert.mpr (.inl (List.mem_singleton.mp ho))
  · intro o ho root rec hrec hin
    rcases List.mem_append.mp ho with ho | ho
    · exact hop.own o ho root rec hrec hin
    -- it was missing, so no record named it
    rw [List.mem_singleton.mp ho] at hin
    exact absurd (h.records root rec hrec _ hin) habs

theorem durable_move (hcl : ClaimInv p (some op)) (h : Durable p d (some op))
    (hm : PinMove cfg p op p' ops next) :
    Durable p' (d.run ops) next.getLeft? := by
  have hop := h.inFlight op rfl
  have hi := hcl.inFlight op rfl
  have hps : ∀ {pc : PinPc}, op.pc = pc → beforeCommit pc = true →
      ∀ o ∈ op.objects, o ∈ p.objects := fun hpc hb => hop.passed (hpc ▸ hb)
  cases hm with
  | already _ _ | turnedAway _ => exact h.forget
  | accept hpc _ _ =>
    refine durable_stage h (fun _ ho => ho) rfl rfl ?_ (by simp)
    intro _ o ho
    rw [show op.objects = [] from (hi.fresh (.inl hpc)).2] at ho
    simp at ho
  | resolve hpc _ | full hpc _ | fetched hpc | pass hpc _ _ =>
    exact durable_stage h (fun _ ho => ho) rfl rfl (fun _ => hps hpc rfl)
      (by simp)
  | @share w rest sz hpc _ hsz =>
    refine durable_stage h (fun _ ho => ho) rfl rfl (fun _ o ho => ?_)
      (by simp)
    -- the shared object was found in the map in this very section
    rcases List.mem_append.mp ho with ho | ho
    · exact hps hpc rfl o ho
    · rw [List.mem_singleton.mp ho]
      exact FinMap.mem_of_lookup hsz
  | acquire hpc _ _ hpc' =>
    rcases hpc' with rfl | ⟨body, rfl⟩
    all_goals
      exact durable_stage h (fun _ ho => ho) rfl rfl (fun _ => hps hpc rfl)
        (by simp)
  | @written w body hpc =>
    have hfs := run_writeObject d w.kind w.addr body .ok
    rw [if_pos rfl] at hfs
    refine durable_stage h (fun o ho => ho.insert _ _ hfs) rfl rfl
      (fun _ => hps hpc rfl) ?_
    intro w' n hw
    cases hw
    -- the rename has put the file in place
    refine ⟨objectPath w.kind w.addr, body, splitStoreKey_key w.kind w.addr, ?_⟩
    rw [hfs, lookup_insert]
  | @fail w ops e hpc hops =>
    refine durable_stage h (fun o ho => ho.congr fun _ _ => ?_) rfl rfl
      nofun nofun
    rw [(run_failedWrite hops).1]
  | register hpc => exact durable_register hcl h hpc
  | commit hpc =>
    refine durable_commit h hpc (fun o ho => ho.congr fun _ _ => ?_) rfl rfl rfl
    rw [run_commitRecord_files]
  | commitFail hpc => exact durable_commit h hpc (fun _ ho => ho) rfl rfl rfl
  | undo _ =>
    refine durable_inFlight h.stored ?_ ⟨nofun, nofun, ?_⟩
    · intro root rec hrec
      exact h.records root rec (lookup_erase_eq_some.mp hrec).2
    · intro o ho root rec hrec
      exact hop.own o ho root rec (lookup_erase_eq_some.mp hrec).2
  | rollback hpc =>
    exact durable_rollback h (hi.unpinned (by rw [hpc]; rfl)) rfl rfl rfl
  | release _ => exact ⟨h.stored, h.records, by simp⟩

theorem durable_step (hcl : ClaimInv v.p v.op) (h : Durable v.p v.d v.op)
    (hsp : ∀ k op, q = some k → v.op = some op → beforeCommit op.pc = true →
      SparesPin v.p op k) (hs : ViewStep cfg q v v') : Durable v'.p v'.d v'.op := by
  cases hs with
  | idle => exact h
  | quarantine badKey indexOk =>
    exact durable_quarantine hcl h fun op hop => hsp badKey op rfl hop
  | mark key => exact ⟨h.stored, h.records, fun o ho =>
    let hop := h.inFlight o ho
    ⟨hop.passed, hop.onDisk, hop.own⟩⟩
  | tamper _ =>
    refine ⟨fun o ho => (h.stored o ho).insert _ _ rfl, h.records, fun o ho => ?_⟩
    have hop := h.inFlight o ho
    exact ⟨hop.passed, fun w n hpc => (hop.onDisk w n hpc).insert _ _ rfl, hop.own⟩
  | start kind addr owner hop =>
    refine durable_inFlight h.stored h.records ⟨fun _ o ho => ?_, fun w n hw => ?_, ?_⟩
    · exact absurd ho (by simp [PinOp.begin])
    · exact absurd hw (by simp [PinOp.begin])
    · exact nofun
  | move hop hmv =>
    rw [hop] at h hcl
    exact durable_move hcl h hmv
  | unpin kind addr owner indexOk hop =>
    rw [hop] at h
    exact durable_unpin h

theorem durable_opened (h : newPinStore d mkdirOk indexOk = .ok (p, d')) : Durable p d' none := by
  have hld := newPinStore_loaded h
  refine ⟨?_, fun root rec hrec o ho => hld.held hrec ho, by simp⟩
  intro o ho
  obtain ⟨n, hn⟩ := FinMap.mem_iff_lookup.mp ho
  obtain ⟨path, body, hsp, hbd, _⟩ := statObject_eq_some (hld.sized o n hn)
  refine ⟨path, body, hsp, ?_⟩
  rw [(newPinStore_ok h).2.1, sweep_files hsp ho, hbd]

/-- A step whose quarantine, if it is one, spares a pin that has not committed. -/
def RespectsPin (s : Sys) (a : Act) : Prop :=
  ∀ k t, quarantineKey s a = some k → s.pin = some t → beforeCommit t.op.pc = true →
    SparesPin s.svc.pins t.op k

theorem durable_reachable (h : (system cfg dirOk).Reachable RespectsPin s) :
    Durable (viewOf s).p (viewOf s).d (viewOf s).op := by
  induction h with
  | init h0 =>
    obtain ⟨d, mkdirOk, indexOk, p, d', hopn, _, rfl⟩ := h0
    exact durable_opened hopn
  | tail hrch hok hst ih =>
    refine durable_step (claimInv_reachable hrch) ih ?_ (step_view hst)
    intro k op hk hop
    obtain ⟨t, ht, rfl⟩ := Option.map_eq_some_iff.mp hop
    exact hok k t hk ht

/--
**Pin durability.** In runs whose quarantines spare a pin that has not committed,
everything a record names is counted and has its file, in every state.
-/
theorem pinned_objects_held (cfg : Config) (s : Sys)
    (h : (system cfg fun _ _ => True).Reachable RespectsPin s) (root : String) (rec : PinRecord)
    (hrec : s.svc.pins.pins.lookup root = some rec) (o : String) (ho : o ∈ rec.objects) :
    o ∈ s.svc.pins.objects ∧ OnDisk s.svc.disk o := by
  have hdur := durable_reachable h
  have hobj := hdur.records root rec hrec o ho
  exact ⟨hobj, hdur.stored o hobj⟩

theorem freshSys_reachable_any : (system sampleConfig fun _ _ => True).Reachable ok freshSys :=
  .init (freshSys_init trivial)

theorem respectsPin_of_isNone (s : Sys) (a : Act) (hno : (quarantineKey s a).isNone = true) :
    RespectsPin s a := by
  intro k t hk
  rw [hk] at hno
  simp at hno

theorem pinned_objects_held_chunk :
    ∃ s, (system sampleConfig fun _ _ => True).Reachable RespectsPin s
      ∧ ∃ rec, s.svc.pins.pins.lookup manifestKeyA = some rec ∧ chunkKeyA ∈ rec.objects
        ∧ chunkKeyA ∈ s.svc.pins.objects ∧ OnDisk s.svc.disk chunkKeyA := by
  obtain ⟨s, hrch, hend⟩ := System.Reachable.exists_of_run
    (fun s a => (quarantineKey s a).isNone) pinManifestA
    (fun s : Sys => (s.svc.pins.pins.lookup manifestKeyA).any fun rec => chunkKeyA ∈ rec.objects)
    respectsPin_of_isNone freshSys_reachable_any (by decide)
  cases hrec : s.svc.pins.pins.lookup manifestKeyA with
  | none => rw [hrec] at hend; simp at hend
  | some rec =>
    rw [hrec] at hend
    have hin : chunkKeyA ∈ rec.objects := by simpa using hend
    exact ⟨s, hrch, rec, hrec, hin,
      pinned_objects_held sampleConfig s hrch manifestKeyA rec hrec chunkKeyA hin⟩

def announceKeyA : String := storeKeyStr Kind.announce.string addrA.string

/--
A pin of the announce `a` and a reader that finds it held; then an unpin, so that
the reader finds no file; then a second pin, up to where the object is counted;
then the reader's quarantine; then the rest of the pin.
-/
def lateQuarantineRun : List Act :=
  .pin .announce addrA "owner" :: turns 13 [0x61]
    ++ [.request 0 .announce addrA, .reader 0 {}, .unpin .announce addrA "owner" {}, .reader 0 {}]
    ++ .pin .announce addrA "owner" :: turns 8 [0x61] ++ [.reader 0 {}] ++ turns 3 [0x61]

theorem pinned_object_missing :
    ∃ s, (system sampleConfig fun _ _ => True).Reachable (fun _ _ => True) s ∧ s.pin = none
      ∧ (∃ rec, s.svc.pins.pins.lookup announceKeyA = some rec ∧ rec.objects = [announceKeyA])
      ∧ announceKeyA ∉ s.svc.pins.objects
      ∧ objectPath .announce addrA ∉ s.svc.disk.files := by
  obtain ⟨s, hrch, hid, hrec, hms⟩ := freshSys_reachable_any.exists_after
    lateQuarantineRun
    (fun s => s.pin.isNone = true
      ∧ ((s.svc.pins.pins.lookup announceKeyA).any fun rec => rec.objects = [announceKeyA]) = true
      ∧ announceKeyA ∉ s.svc.pins.objects ∧ objectPath .announce addrA ∉ s.svc.disk.files)
    (by decide +kernel)
  have hpin := Option.isNone_iff_eq_none.mp hid
  cases hlk : s.svc.pins.pins.lookup announceKeyA with
  | none => rw [hlk] at hrec; simp at hrec
  | some rec =>
    rw [hlk] at hrec
    exact ⟨s, hrch, hpin, ⟨rec, hlk, by simpa using hrec⟩, hms⟩

end VulosRelay.Proof
