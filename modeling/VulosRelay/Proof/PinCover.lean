import VulosRelay.Proof.ManifestAddress
import VulosRelay.Proof.PinAccounting

/-!
# Does a pin name every object?

While a pin is in flight, an object of the store is named by a record or claimed
by the pin. When the pin is over there are no claims, so every object should be
named. `Covered` follows that promise through the stages of a pin.

Every step keeps it except one. A quarantine drops records and then reclaims what
nobody names, but it spares claimed objects. If it drops the record of a pin that
has committed and not yet released its claims, the other objects of that record
are spared here, released by the pin a moment later, and never looked at again.
The same happens to a shared object when the records that named it go while a pin
whose index write failed is about to take its own record back. `KeepsNames` is
what a quarantine must respect at these two stages.
-/

namespace VulosRelay.Proof

open VulosRelay.Pubcache Finmap

/-- A quarantine of `badKey` leaves no object to a pin that is about to forget it. -/
def KeepsNames (p : PinStore) (op : PinOp) (badKey : String) : Prop :=
  match op.pc with
  -- committed, claims not released: what the pin wrote must keep a name
  | .release (.ok _) =>
    ∀ o ∈ op.wrote, o ∈ p.objects → o ≠ badKey → named (survivors p badKey) o = true
  -- the record is about to be taken back: what the pin shared must have another name
  | .undo _ =>
    ∀ o ∈ p.objects, o ≠ badKey → o ∉ op.wrote → named (survivors p badKey) o = true →
      named ((survivors p badKey).erase op.rootKey) o = true
  | _ => True

/-- What a pin promises about the objects, stage by stage. -/
structure OpCovered (p : PinStore) (op : PinOp) : Prop where
  wrote : ∀ o ∈ op.wrote, o ∈ op.objects
  /-- Every object has a name or a claim without the record that is about to go, too. -/
  undo : ∀ e, op.pc = .undo e →
    ∀ o ∈ p.objects, named (p.pins.erase op.rootKey) o = true ∨ o ∈ p.pending
  committed : ∀ r, op.pc = .release (.ok r) → ∀ o ∈ p.objects, named p.pins o = true
  rolledBack : ∀ e, op.pc = .release (.error e) → ∀ o ∈ p.objects, o ∉ op.wrote

/-- Who answers for the objects. -/
structure Covered (p : PinStore) (op : Option PinOp) : Prop where
  live : ∀ o ∈ p.objects, named p.pins o = true ∨ o ∈ p.pending
  inFlight : ∀ o, op = some o → OpCovered p o

variable {p : PinStore}

theorem Covered.named (h : Covered p op) (hpn : p.pending = ∅) (ho : o ∈ p.objects) :
    named p.pins o = true := by
  rcases h.live o ho with hn | hp
  · exact hn
  · rw [hpn] at hp
    exact absurd hp notMem_empty

theorem covered_idle (h : ∀ o ∈ p.objects, named p.pins o = true) : Covered p none :=
  ⟨fun o ho => .inl (h o ho), by simp⟩

theorem covered_inFlight (hlv : ∀ o ∈ p.objects, named p.pins o = true ∨ o ∈ p.pending)
    (hop : OpCovered p op) :
    Covered p (some op) := by
  refine ⟨hlv, fun o ho => ?_⟩
  injection ho with ho
  exact ho ▸ hop

def plainStage : PinPc → Bool
  | .undo _ | .release _ => false
  | _ => true

theorem opCovered_plain (hpc : plainStage op.pc = true) (hwr : ∀ o ∈ op.wrote, o ∈ op.objects) :
    OpCovered p op := by
  refine ⟨hwr, ?_, ?_, ?_⟩
  · intro e he
    rw [he] at hpc
    exact absurd hpc (by simp [plainStage])
  · intro r hr
    rw [hr] at hpc
    exact absurd hpc (by simp [plainStage])
  intro e he
  rw [he] at hpc
  exact absurd hpc (by simp [plainStage])

theorem covered_plain (hpc : plainStage op.pc = true)
    (hlv : ∀ o ∈ p.objects, named p.pins o = true ∨ o ∈ p.pending)
    (hwr : ∀ o ∈ op.wrote, o ∈ op.objects) : Covered p (some op) :=
  covered_inFlight hlv (opCovered_plain hpc hwr)

theorem mem_append_of_subset {wrote objects : List String} (h : ∀ o ∈ wrote, o ∈ objects)
    (k : String) : ∀ o ∈ wrote, o ∈ objects ++ [k] :=
  fun o ho => List.mem_append_left _ (h o ho)

theorem named_insert {pins : FinMap String PinRecord} {rootKey o : String} {rec : PinRecord}
    (hrt : rootKey ∉ pins) (h : named pins o = true ∨ o ∈ rec.objects) :
    named (pins.insert rootKey rec) o = true := by
  rcases h with h | h
  · obtain ⟨root, rec', hrec', ho⟩ := named_iff.mp h
    have hne : root ≠ rootKey := by
      intro heq
      subst heq
      exact hrt (FinMap.mem_of_lookup hrec')
    exact named_iff.mpr ⟨root, rec', by rwa [lookup_insert_of_ne _ hne], ho⟩
  · exact named_iff.mpr ⟨rootKey, rec, lookup_insert _, h⟩

theorem erase_insert {pins : FinMap String PinRecord} {rootKey : String} {rec : PinRecord}
    (hrt : rootKey ∉ pins) : (pins.insert rootKey rec).erase rootKey = pins := by
  refine ext_lookup fun k => ?_
  by_cases hk : k = rootKey
  · rw [hk, lookup_erase, lookup_eq_none.mpr hrt]
  · rw [lookup_erase_ne hk, lookup_insert_of_ne _ hk]

theorem covered_move {cfg : Config} {p' : PinStore} {op : PinOp} {ops : List DiskOp}
    {next : PinOp ⊕ Except GoError PinRecord} (hcl : ClaimInv p (some op))
    (h : Covered p (some op)) (hm : PinMove cfg p op p' ops next) : Covered p' next.getLeft? := by
  have hi := hcl.inFlight op rfl
  have hop := h.inFlight op rfl
  have hwr := hop.wrote
  cases hm with
  | already hpc _ =>
    exact covered_idle fun o ho => h.named (hi.pending_empty (.inl hpc)) ho
  | turnedAway hpc =>
    exact covered_idle fun o ho => h.named (hi.pending_empty hpc) ho
  | accept _ _ _ | resolve _ _ | full _ _ | fetched _ | pass _ _ _ | written _ | fail _ _ =>
    exact covered_plain rfl h.live hwr
  | share _ _ _ => exact covered_plain rfl h.live (mem_append_of_subset hwr _)
  | acquire _ _ _ hpc' =>
    rcases hpc' with rfl | ⟨body, rfl⟩ <;> exact covered_plain rfl h.live hwr
  -- the new object is held by its claim until the commit names it
  | @register w n _ =>
    refine covered_plain rfl ?_ ?_
    · intro o ho
      rcases mem_insert.mp ho with rfl | ho
      · exact .inr (mem_insert.mpr (.inl rfl))
      rcases h.live o ho with hn | hp
      · exact .inl hn
      · exact .inr (mem_insert.mpr (.inr hp))
    · intro o ho
      rcases List.mem_append.mp ho with ho | ho
      · exact List.mem_append_left _ (hwr o ho)
      · exact List.mem_append_right _ ho
  | @commit now hpc =>
    have hrt := hi.unpinned (by rw [hpc]; rfl)
    -- whatever was only claimed is named by the record that is entered
    have hall : ∀ o ∈ p.objects, named (p.pins.insert op.rootKey (op.record now)) o = true := by
      intro o ho
      refine named_insert hrt ?_
      rcases h.live o ho with hn | hp
      · exact .inl hn
      · exact .inr (hwr o (hi.mem_pending.mp hp))
    exact covered_inFlight (fun o ho => .inl (hall o ho))
      ⟨hwr, by simp, fun _ _ => hall, by simp⟩
  | commitFail hpc =>
    have hrt := hi.unpinned (by rw [hpc]; rfl)
    refine covered_inFlight ?_ ⟨hwr, ?_, by simp, by simp⟩
    · intro o ho
      rcases h.live o ho with hn | hp
      · exact .inl (named_insert hrt (.inl hn))
      · exact .inr hp
    · intro e _ o ho
      show named ((p.pins.insert op.rootKey _).erase op.rootKey) o = true ∨ o ∈ p.pending
      -- taking the record back leaves the names there were before it
      rw [erase_insert hrt]
      exact h.live o ho
  | undo hpc => exact covered_plain rfl (hop.undo _ hpc) hwr
  | rollback _ =>
    have hsub := shrinks_foldl_dropObject op.wrote p
    refine covered_inFlight ?_ ⟨hwr, by simp, by simp, ?_⟩
    · intro o ho
      show named (op.wrote.foldl dropObject p).pins o = true
        ∨ o ∈ (op.wrote.foldl dropObject p).pending
      rw [foldl_dropObject_pins, hsub.pending]
      exact h.live o (hsub.mem_objects ho)
    · intro e _ o ho
      exact ((mem_foldl_dropObject op.wrote p).mp ho).2
  | @release result hpc =>
    refine covered_idle fun o ho => ?_
    cases result with
    | ok rec => exact hop.committed rec hpc o ho
    | error e =>
      rcases h.live o ho with hn | hp
      · exact hn
      · exact absurd (hi.mem_pending.mp hp) (hop.rolledBack e hpc o ho)

/-- **A quarantine that respects the pin in flight leaves every object answered for.** -/
theorem covered_quarantine (hcl : ClaimInv p op) (h : Covered p op) (badKey : String)
    (indexOk : Bool) (hkp : ∀ o, op = some o → KeepsNames p o badKey) :
    Covered (quarantine p badKey indexOk).1 op := by
  have hpn := quarantine_survivors p badKey indexOk
  have hpnd := (shrinks_quarantine p badKey indexOk).pending
  have hlv : ∀ o ∈ (quarantine p badKey indexOk).1.objects,
      named (quarantine p badKey indexOk).1.pins o = true
        ∨ o ∈ (quarantine p badKey indexOk).1.pending := by
    intro o ho
    rw [hpn, hpnd]
    exact (quarantine_objects.mp ho).2
  refine ⟨hlv, fun op' hop' => ?_⟩
  have hop := h.inFlight op' hop'
  have hgr := hkp op' hop'
  have hi := hcl.inFlight op' hop'
  refine ⟨hop.wrote, ?_, ?_, ?_⟩
  · intro e he o ho
    -- the record is about to be taken back, so it must not be the one that names
    rw [KeepsNames, he] at hgr
    obtain ⟨⟨hobj, hne⟩, _⟩ := quarantine_objects.mp ho
    by_cases hw : o ∈ op'.wrote
    · rw [hpnd]
      exact .inr (hi.mem_pending.mpr hw)
    rcases hlv o ho with hn | hp
    · rw [hpn] at hn ⊢
      exact .inl (hgr o hobj hne hw hn)
    · exact .inr hp
  · intro r hr o ho
    -- the claims are about to go, so a claim alone is not enough
    rw [KeepsNames, hr] at hgr
    obtain ⟨⟨hobj, hne⟩, hor⟩ := quarantine_objects.mp ho
    rw [hpn]
    rcases hor with hn | hp
    · exact hn
    · exact hgr o (hi.mem_pending.mp hp) hobj hne
  · intro e he o ho
    exact hop.rolledBack e he o ((shrinks_quarantine p badKey indexOk).mem_objects ho)

theorem covered_unpin (h : Covered p none) (hpn : p.pending = ∅) (kind : Kind)
    (addr : Addr) (owner : String) (indexOk : Bool) :
    Covered (unpin p kind addr owner indexOk).1 none := by
  refine covered_idle fun o ho => ?_
  rcases unpin_cases p kind addr owner indexOk with ⟨hp, _⟩ | ⟨rec, _, _, heq⟩
  · rw [hp] at ho ⊢
    exact h.named hpn ho
  rw [heq] at ho ⊢
  rcases live_iff.mp (mem_reclaim.mp ho).2 with hn | hp
  · exact hn
  · exact absurd (hpn ▸ hp) notMem_empty

theorem covered_step (hcl : ClaimInv v.p v.op) (h : Covered v.p v.op)
    (hkp : ∀ k op, q = some k → v.op = some op → KeepsNames v.p op k) (hs : ViewStep cfg q v v') :
    Covered v'.p v'.op := by
  cases hs with
  | idle => exact h
  | quarantine badKey indexOk =>
    exact covered_quarantine hcl h badKey indexOk fun op hop => hkp badKey op rfl hop
  | mark key => exact ⟨h.live, fun o ho =>
    let hop := h.inFlight o ho
    ⟨hop.wrote, hop.undo, hop.committed, hop.rolledBack⟩⟩
  | tamper _ => exact h
  | start kind addr owner hop =>
    exact covered_plain rfl h.live nofun
  | move hop hmv =>
    rw [hop] at h hcl
    exact covered_move hcl h hmv
  | unpin kind addr owner indexOk hop =>
    rw [hop] at h hcl
    exact covered_unpin h (hcl.idle rfl) kind addr owner indexOk

/-- The directory was opened within the budgets, and its index has no two records for one root. -/
structure CleanlyOpened (cfg : Config) (d : Disk) (p : PinStore) : Prop where
  /-- What was loaded fits the budgets. -/
  budget : WithinBudget cfg.pin p
  /-- No root is listed twice. -/
  roots : DistinctRoots d

/-- A step of the system whose quarantine, if it is one, respects the pin in flight. -/
def RespectsNames (s : Sys) (a : Act) : Prop :=
  ∀ k t, quarantineKey s a = some k → s.pin = some t → KeepsNames s.svc.pins t.op k

theorem covered_reachable (h : (system cfg (CleanlyOpened cfg)).Reachable RespectsNames s) :
    Covered (viewOf s).p (viewOf s).op := by
  induction h with
  | init h0 =>
    obtain ⟨d, mkdirOk, indexOk, p, d', hopn, hok, rfl⟩ := h0
    exact covered_idle fun o ho => (newPinStore_loaded hopn).named hok.roots ho
  | tail hrch hok hst ih =>
    refine covered_step (claimInv_reachable hrch) ih ?_ (step_view hst)
    intro k op hk hop
    obtain ⟨t, ht, rfl⟩ := Option.map_eq_some_iff.mp hop
    exact hok k t hk ht

/-- The counter is the sum of the sizes and the budgets are kept. -/
structure Balanced (cfg : PinConfig) (p : PinStore) : Prop where
  /-- The counter is the sum of the sizes of the objects held. -/
  bytes : p.bytes = FinMap.total p.objects
  nonneg : 0 ≤ p.bytes
  /-- It is within the byte budget, if there is one. -/
  budget : cfg.maxBytes > 0 → p.bytes ≤ cfg.maxBytes
  /-- The pins are within theirs. -/
  count : cfg.maxPins > 0 → (FinMap.size p.pins : Int) ≤ cfg.maxPins

theorem PinInv.balanced (h : PinInv cfg p op) :
    Balanced cfg.pin p where
  bytes := h.bytes
  nonneg := by
    rw [h.bytes]
    exact Int.natCast_nonneg _
  budget := h.budget
  count := h.count

/--
**Pin accounting.** From a store opened within budget, every run keeps the
counter and the budgets. In runs whose quarantines respect the pin in flight,
every object is also named by some pin whenever no pin is in flight.
-/
theorem pinStore_accounting (cfg : Config) :
    (∀ s, (system cfg fun _ p => WithinBudget cfg.pin p).Reachable (fun _ _ => True) s →
      Balanced cfg.pin s.svc.pins)
    ∧ (∀ s, (system cfg (CleanlyOpened cfg)).Reachable RespectsNames s →
      Balanced cfg.pin s.svc.pins
        ∧ (s.pin = none → ∀ o ∈ s.svc.pins.objects, named s.svc.pins.pins o = true)) := by
  constructor
  · intro s hs
    exact (pinInv_reachable (fun _ _ h => h) hs).balanced
  intro s hs
  refine ⟨(pinInv_reachable (fun _ _ h => h.budget) hs).balanced, fun hpin o ho => ?_⟩
  exact (covered_reachable hs).named
    ((claimInv_reachable hs).idle (by rw [viewOf_idle hpin])) ho

def sampleConfig : Config :=
  { blake3 := knownBlake3
    pin := { maxBytes := 0, maxPinBytes := 0, maxObjBytes := 0, maxPins := 0 }
    store := { maxBytes := 1024, maxObjBytes := 0, ttl := 0 } }

def addrA : Addr := hashPrefixBLAKE3 ::ᵥ digestA

def manifestAddrA : Addr := hashPrefixBLAKE3 ::ᵥ leafA

def turns (n : Nat) (body : Bytes) : List Act :=
  List.replicate n (.pinTurn { upstream := some body })

def pinManifestA : List Act :=
  .pin .manifest manifestAddrA "owner"
    :: turns 10 (manifestBody manifestAddrA 1 [addrA]) ++ turns 11 [0x61]

theorem withinBudget_sample (p : PinStore) : WithinBudget sampleConfig.pin p :=
  ⟨fun h => absurd h (by decide), fun h => absurd h (by decide)⟩

theorem freshSys_reachable :
    (system sampleConfig (CleanlyOpened sampleConfig)).Reachable ok freshSys :=
  .init (freshSys_init ⟨withinBudget_sample _, distinctRoots_fresh⟩)

theorem pinStore_accounting_pinned :
    ∃ s, (system sampleConfig (CleanlyOpened sampleConfig)).Reachable RespectsNames s
      ∧ s.pin = none ∧ FinMap.size s.svc.pins.objects = 2
      ∧ ∀ o ∈ s.svc.pins.objects, named s.svc.pins.pins o = true := by
  have hchk : ∀ s a, (quarantineKey s a).isNone = true → RespectsNames s a := by
    intro s a hno k t hk
    rw [hk] at hno
    simp at hno
  obtain ⟨s, hrch, hend⟩ := System.Reachable.exists_of_run
    (fun s a => (quarantineKey s a).isNone) (pinManifestA ++ turns 1 [])
    (fun s : Sys => s.pin.isNone && decide (FinMap.size s.svc.pins.objects = 2))
    hchk freshSys_reachable (by decide)
  rw [Bool.and_eq_true, decide_eq_true_eq, Option.isNone_iff_eq_none] at hend
  exact ⟨s, hrch, hend.1, hend.2, ((pinStore_accounting sampleConfig).2 s hrch).2 hend.1⟩

def manifestKeyA : String := storeKeyStr Kind.manifest.string manifestAddrA.string

def chunkKeyA : String := storeKeyStr Kind.chunk.string addrA.string

def orphanRun : List Act :=
  pinManifestA
    ++ [.request 0 .manifest manifestAddrA, .reader 0 {}, .reader 0 { readFails := true },
      .reader 0 {}]
    ++ turns 1 []

/--
The quarantine drops the record and the manifest and spares the chunk, which the
pin has still claimed. Afterwards the chunk is held and no pin names it.
-/
theorem orphan_after_quarantine :
    ∃ s, (system sampleConfig (CleanlyOpened sampleConfig)).Reachable (fun _ _ => True) s
      ∧ s.pin = none
      ∧ chunkKeyA ∈ s.svc.pins.objects ∧ named s.svc.pins.pins chunkKeyA = false := by
  obtain ⟨s, hrch, hid, hend⟩ := freshSys_reachable.exists_after orphanRun
    (fun s => s.pin.isNone = true ∧ chunkKeyA ∈ s.svc.pins.objects
      ∧ named s.svc.pins.pins chunkKeyA = false) (by decide)
  exact ⟨s, hrch, Option.isNone_iff_eq_none.mp hid, hend⟩

end VulosRelay.Proof
