import VulosRelay.Proof.PinAtomic
import VulosRelay.Proof.PinIndex
import VulosRelay.Pubcache.Crash

/-!
# Recovery after a crash

`Recoverable` holds between any two steps of pins and unpins. A crash inside a
step leaves the files and the index of the state before it, or of the state after
it, or it has removed some of the files the step was about to remove, and no
record but that of the interrupted call needs any of those. `Survives` says what
is left in all three cases: the records of the other roots are listed with all
their files, and no listed record has its root on disk that should not.

Opening such a directory yields the records of the other roots, because `load`
takes exactly the complete records of the index.
-/

namespace VulosRelay.Proof

open VulosRelay.Pubcache Option FinMap

variable {p : PinStore} {d d' : Disk} {s s' : Sys} {a : Act} {cfg : Config} {env : Env}
  {root : String} {pins : FinMap String PinRecord} {indexOk : Bool}

/-! ## Calls quarantine nothing -/

def QuietPin (s : Sys) : Prop :=
  ∀ t, s.pin = some t → ∀ w, t.op.wanted = some w → Quiet s.svc.pins w.1 w.2 t.lookup

/-- A pin calls its source for what is not held: a root without a record is not, and neither is
an object that was found missing. -/
theorem Recoverable.quiet_check (h : Recoverable p d (some op)) (hw : op.wanted = some w) :
    Quiet p w.1 w.2 .check := by
  have hi := h.claims.inFlight op rfl
  by_cases hpc : op.pc = .root
  · have hkey : storeKeyStr w.1.string w.2.string = op.rootKey := by
      rw [PinOp.wanted, hpc] at hw
      cases hw
      rfl
    have hpin := hi.unpinned (by rw [hpc]; rfl)
    intro hobj
    rw [hkey] at hobj
    have hnm := h.covered.named (hi.pending_empty (.inr hpc)) hobj
    exact hpin (h.shape.root_named (rootKey_notChunk (h.shape.plan op rfl).kind) hnm)
  · exact Proof.quiet_check hi hpc hw

theorem quarantineKey_call (hcl : a.isCall = true) (h : QuietPin s) : quarantineKey s a = none := by
  cases a with
  | request r kind addr => rfl
  | reader r env => exact absurd hcl (by simp [Act.isCall])
  | pin kind addr owner => rfl
  | unpin kind addr owner env => rfl
  | tamper kind addr body => rfl
  | pinTurn env =>
    rw [quarantineKey]
    cases hpin : s.pin with
    | none => rfl
    | some t =>
      dsimp only
      cases hw : t.op.wanted with
      | none => rfl
      | some w =>
        dsimp only
        rw [quarantining, if_neg (quiet_ne_quarantine (h t hpin w hw))]

theorem pinOwn_lookup (h : (pinOwn cfg env sv op got log).next.getLeft? = some t) :
    t.lookup = .check := by
  rw [pinOwn] at h
  cases hn : (pinStep cfg env sv.pins op got).next with
  | inl op' =>
    rw [hn] at h
    injection h with h
    rw [← h]
  | inr result => rw [hn] at h; simp at h

theorem pinTurn_quiet (hnx : (pinTurn cfg env sv t).next.getLeft? = some t')
    (h : ∀ w, t.op.wanted = some w → Quiet sv.pins w.1 w.2 t.lookup) :
    t'.lookup = .check ∨ ∀ w, t'.op.wanted = some w →
      Quiet (pinTurn cfg env sv t).svc.pins w.1 w.2 t'.lookup := by
  rw [pinTurn] at hnx ⊢
  cases hwn : t.op.wanted with
  | none =>
    rw [hwn] at hnx
    exact .inl (pinOwn_lookup hnx)
  | some w₀ =>
    rw [hwn] at hnx
    cases hret : t.lookup.returned with
    | some got =>
      rw [hret] at hnx
      cases got with
      | none | some body => exact .inl (pinOwn_lookup hnx)
    | none =>
      rw [hret] at hnx
      injection hnx with hnx
      refine .inr fun w hw => ?_
      rw [← hnx] at hw ⊢
      have hsm : w₀ = w := some.inj (hwn.symm.trans hw)
      rw [← hsm]
      exact lookupStep_quiet (h w₀ hwn)

theorem quietPin_step (hcl : a.isCall = true)
    (hrec : Recoverable (viewOf s').p (viewOf s').d (viewOf s').op) (h : QuietPin s)
    (hs : Sys.step cfg s a = some s') : QuietPin s' := by
  have hchk : ∀ t, s'.pin = some t → t.lookup = .check → ∀ w, t.op.wanted = some w →
      Quiet s'.svc.pins w.1 w.2 t.lookup := by
    intro t ht hl w hw
    rw [viewOf_pinning ht] at hrec
    rw [hl]
    exact hrec.quiet_check hw
  intro t' ht' w hw
  cases step_taken hs with
  | request _ | refused _ _ | answered _ _ | lookup _ _ | tamper _ =>
    exact absurd hcl (by simp [Act.isCall])
  | pin _ _ =>
    refine hchk t' ht' ?_ w hw
    rw [← some.inj ht']
  | unpin hpin _ => exact absurd (hpin.symm.trans ht') (by simp)
  | @turn env t hpin =>
    rcases @pinTurn_quiet cfg env s.svc t t' ht' (h t hpin) with hl | hq
    · exact hchk t' ht' hl w hw
    · exact hq w hw

theorem recoverable_call (hcl : a.isCall = true)
    (h : Recoverable (viewOf s).p (viewOf s).d (viewOf s).op ∧ QuietPin s)
    (hs : Sys.step cfg s a = some s') :
    Recoverable (viewOf s').p (viewOf s').d (viewOf s').op ∧ QuietPin s' := by
  have hvw := step_view hs
  rw [quarantineKey_call hcl h.2] at hvw
  have hrec := recoverable_step h.1 hvw
  exact ⟨hrec, quietPin_step hcl hrec h.2 hs⟩

theorem recoverable_reachable (hdir : ∀ d p, dirOk d p → DirSound d)
    (h : (system cfg dirOk).Reachable (fun _ a => a.isCall = true) s) :
    Recoverable (viewOf s).p (viewOf s).d (viewOf s).op ∧ QuietPin s := by
  refine h.invariant
    (P := fun s => Recoverable (viewOf s).p (viewOf s).d (viewOf s).op ∧ QuietPin s) ?_ ?_
  · intro s hgv
    obtain ⟨d, mkdirOk, indexOk, p, d', hop, hok, rfl⟩ := hgv
    refine ⟨recoverable_opened (hdir d p hok) hop, fun t ht => ?_⟩
    exact absurd ht (by simp [Sys.opened])
  · intro s a s' hinv hcl hs
    exact recoverable_call hcl hinv hs

/-! ## What a crash leaves -/

/-- The directory still holds the records of every root but one, and no others. -/
structure Survives (pins : FinMap String PinRecord) (root : String) (d : Disk) : Prop where
  dir : DirSound d
  listed : ∀ r rec, r ≠ root → pins.lookup r = some rec →
    r = recordKey rec ∧ some rec ∈ indexRecords d
  kept : ∀ r rec, r ≠ root → pins.lookup r = some rec → ∀ o ∈ rec.objects,
    OnDisk d o ∧ ValidKey o
  only : ∀ rec, some rec ∈ indexRecords d → OnDisk d (recordKey rec) →
    recordKey rec = root ∨ pins.lookup (recordKey rec) = some rec

theorem Recoverable.survives (h : Recoverable p d op) (hop : ∀ o, op = some o → o.rootKey = root) :
    Survives p.pins root d := by
  have hex : ∀ r, Excused op r → r = root := by
    intro r hgv
    obtain ⟨o, ho, hr, _⟩ := hgv
    rw [← hr, hop o ho]
  refine ⟨h.index.dir, ?_, ?_, ?_⟩
  · intro r rec hr hrec
    refine ⟨(h.shape.records r rec hrec).2, ?_⟩
    exact (h.index.listed r rec hrec).resolve_right fun he => hr (hex r he)
  · intro r rec _ hrec o ho
    have hobj := h.durable.records r rec hrec o ho
    exact ⟨h.durable.stored o hobj, h.shape.keys o hobj⟩
  intro rec hmem hd
  rcases h.index.stale rec hmem hd with hl | he
  · exact .inr hl
  · exact .inl (hex _ he)

theorem Survives.remove (h : Survives pins root d) (hix : d'.index = d.index)
    (hfs : ∀ o, OnDisk d' o → OnDisk d o)
    (hkp : ∀ r rec, r ≠ root → pins.lookup r = some rec → ∀ o ∈ rec.objects,
      OnDisk d o → OnDisk d' o) : Survives pins root d' := by
  refine ⟨h.dir.congr hix, ?_, ?_, ?_⟩
  · rw [indexRecords_congr hix]
    exact h.listed
  · intro r rec hr hrec o ho
    obtain ⟨hd, hv⟩ := h.kept r rec hr hrec o ho
    exact ⟨hkp r rec hr hrec o ho hd, hv⟩
  intro rec hmem hd
  rw [indexRecords_congr hix] at hmem
  exact h.only rec hmem (hfs _ hd)

theorem Survives.congr (h : Survives pins root d)
    (hpn : ∀ r, r ≠ root → pins'.lookup r = pins.lookup r) : Survives pins' root d := by
  refine ⟨h.dir, ?_, ?_, ?_⟩
  · intro r rec hr hrec
    rw [hpn r hr] at hrec
    exact h.listed r rec hr hrec
  · intro r rec hr hrec
    rw [hpn r hr] at hrec
    exact h.kept r rec hr hrec
  intro rec hmem hd
  by_cases hr : recordKey rec = root
  · exact .inl hr
  · rw [hpn _ hr]
    exact h.only rec hmem hd

theorem Survives.removeObjects (h : Survives pins root d) (hps : ps ≤ pathsOf keys)
    (hky : ∀ r rec, r ≠ root → pins.lookup r = some rec → ∀ o ∈ rec.objects, o ∉ keys) :
    Survives pins root ((DiskOp.removeObjects ps).apply d) := by
  refine h.remove rfl (fun _ hd => hd.of_removeObjects) ?_
  intro r rec hr hrec o ho hd
  refine hd.congr fun path hsp => ?_
  have hpt : path ∉ ps := fun hm =>
    notMem_pathsOf hsp (hky r rec hr hrec o ho) (Multiset.mem_of_le hps hm)
  rw [lookup_removeObjects, if_neg hpt]

/-! ### In a pin -/

theorem torn_nil (h : Torn d [] d') : d' = d := by
  cases h
  rfl

theorem torn_cons (h : Torn d [op] d') :
    d' = d ∨ d' = op.apply d
      ∨ ∃ ps ps', ps' ≤ ps ∧ op = .removeObjects ps ∧ d' = (DiskOp.removeObjects ps').apply d := by
  cases h with
  | here => exact .inl rfl
  | later h => exact .inr (.inl (torn_nil h))
  | partWay hle => exact .inr (.inr ⟨_, _, hle, rfl, rfl⟩)

theorem torn_atomic (hop : ∀ ps, op ≠ .removeObjects ps) (h : Torn d [op] d') :
    d' = d ∨ d' = op.apply d := by
  rcases torn_cons h with rfl | rfl | ⟨ps, ps', _, heq, _⟩
  · exact .inl rfl
  · exact .inr rfl
  · exact absurd heq (hop ps)

theorem torn_writeObject (h : Torn d (writeObject kind addr body outcome) d') :
    (d'.files = d.files ∧ d'.index = d.index)
      ∨ d' = d.run (writeObject kind addr body outcome) := by
  cases outcome with
  | noFile => exact .inr (torn_nil h)
  | left =>
    rcases torn_atomic (fun _ => by simp) h with rfl | rfl
    · exact .inl ⟨rfl, rfl⟩
    · exact .inr rfl
  -- the temporary file is created, then renamed or removed
  | ok | removed =>
    cases h with
    | here => exact .inl ⟨rfl, rfl⟩
    | later h =>
      rcases torn_atomic (fun _ => by simp) h with rfl | rfl
      · exact .inl ⟨rfl, rfl⟩
      · exact .inr rfl

theorem pinMove_pins (hm : PinMove cfg p op p' ops next) (hr : r ≠ op.rootKey) :
    p'.pins.lookup r = p.pins.lookup r := by
  cases hm with
  | commit _ | commitFail _ => exact Finmap.lookup_insert_of_ne _ hr
  | undo _ => exact Finmap.lookup_erase_ne hr
  | rollback _ => exact congrArg (Finmap.lookup r) (foldl_dropObject_pins op.wrote p)
  | _ => rfl

theorem pinMove_rootKey (hm : PinMove cfg p op p' ops (.inl op')) : op'.rootKey = op.rootKey := by
  cases hm <;> rfl

theorem survives_move (h : Recoverable p d (some op)) (hm : PinMove cfg p op p' ops next)
    (ht : Torn d ops d') : Survives p.pins op.rootKey d' := by
  have hpre : Survives p.pins op.rootKey d := h.survives fun o ho => by
    injection ho with ho
    rw [← ho]
  have haf : Survives p.pins op.rootKey (d.run ops) := by
    have hrec := recoverable_step (v := ⟨p, d, some op⟩) h (.move rfl hm)
    refine (hrec.survives fun o ho => ?_).congr fun r hr => (pinMove_pins hm hr).symm
    cases next with
    | inl op' =>
      injection ho with ho
      rw [← ho]
      exact pinMove_rootKey hm
    | inr result => simp at ho
  have hsm : d'.files = d.files → d'.index = d.index → Survives p.pins op.rootKey d' := by
    intro hfs hix
    refine hpre.remove hix (fun o hd => hd.congr fun _ _ => by rw [hfs]) ?_
    intro r rec _ _ o _ hd
    exact hd.congr fun _ _ => by rw [hfs]
  cases hm with
  | written _ =>
    rcases torn_writeObject ht with ⟨hfs, hix⟩ | rfl
    · exact hsm hfs hix
    · exact haf
  | fail _ hops =>
    rcases hops with rfl | ⟨body, outcome, _, rfl⟩
    · rw [torn_nil ht]
      exact hpre
    rcases torn_writeObject ht with ⟨hfs, hix⟩ | rfl
    · exact hsm hfs hix
    · exact haf
  | commit _ =>
    rcases torn_atomic (fun _ => by simp) ht with rfl | rfl
    · exact hpre
    · exact haf
  | rollback hpc =>
    rcases torn_cons ht with rfl | rfl | ⟨ps, ps', hle, hop, rfl⟩
    · exact hpre
    · exact haf
    -- some of what the pin wrote is gone, and no record names any of it
    injection hop with hop
    refine hpre.removeObjects (hop ▸ hle) fun r rec hr hrec o ho hw => ?_
    exact hr ((h.durable.inFlight op rfl).own o hw r rec hrec ho)
  | _ =>
    rw [torn_nil ht]
    exact hpre

theorem survives_turn (h : Recoverable (viewOf s).p (viewOf s).d (viewOf s).op) (hq : QuietPin s)
    (hpin : s.pin = some t) (ht : Torn s.svc.disk (turnOps cfg env s.svc t) d') :
    Survives s.svc.pins.pins t.op.rootKey d' := by
  have hrec : Recoverable s.svc.pins s.svc.disk (some t.op) := by
    rw [viewOf_pinning hpin] at h
    exact h
  rw [turnOps] at ht
  cases hw : t.op.wanted with
  | none =>
    rw [hw] at ht
    exact survives_move hrec (pinStep_move cfg env s.svc.pins t.op none) ht
  | some w =>
    rw [hw] at ht
    cases hret : t.lookup.returned with
    | some got =>
      rw [hret] at ht
      exact survives_move hrec (pinStep_move cfg env s.svc.pins t.op got) ht
    | none =>
      rw [hret] at ht
      have hnil : lookupOps env w.1 w.2 s.svc t.lookup = [] := by
        have hne := quiet_ne_quarantine (hq t hpin w hw)
        cases hl : t.lookup with
        | quarantine => exact absurd hl hne
        | _ => rfl
      dsimp only at ht
      rw [hnil] at ht
      rw [torn_nil ht]
      refine hrec.survives fun o ho => ?_
      injection ho with ho
      rw [← ho]

/-! ### In an unpin -/

variable {rec : PinRecord}

theorem notMem_garbage {r o : String} (hr : r ≠ root) (hrec : p.pins.lookup r = some rec)
    (ho : o ∈ rec.objects) :
    o ∉ (PinStore.garbage { p with pins := p.pins.erase root }).keys.val := by
  intro hm
  refine (mem_garbage.mp (Finmap.mem_keys.mp hm)).2 (live_iff.mpr (.inl ?_))
  exact named_iff.mpr ⟨r, rec, lookup_erase_eq_some.mpr ⟨hr, hrec⟩, ho⟩

theorem survives_unpin (cfg : Config) {kind : Kind} {addr : Addr} {owner : String}
    (h : Recoverable p d none) (ht : Torn d (unpin p kind addr owner indexOk).2.1 d') :
    Survives p.pins (storeKeyStr kind.string addr.string) d' := by
  have hpre : Survives p.pins (storeKeyStr kind.string addr.string) d :=
    h.survives (by simp)
  have hst : ViewStep cfg none ⟨p, d, none⟩ _ := .unpin kind addr owner indexOk rfl
  have haf : Survives _ (storeKeyStr kind.string addr.string) _ :=
    (recoverable_step h hst).survives (by simp)
  rcases unpin_cases p kind addr owner indexOk with ⟨_, hops, _⟩ | ⟨rec, _, _, heq⟩
  · rw [hops] at ht
    rw [torn_nil ht]
    exact hpre
  rw [heq] at ht haf
  have hrm : ∀ ps, ps ≤ pathsOf (PinStore.garbage
        { p with pins := p.pins.erase (storeKeyStr kind.string addr.string) }).keys.val →
      Survives p.pins (storeKeyStr kind.string addr.string)
        ((DiskOp.removeObjects ps).apply d) :=
    fun ps hps => hpre.removeObjects hps fun r rec hr hrec o ho => notMem_garbage hr hrec ho
  -- the files go first, in any order, and the index is replaced last
  cases ht with
  | here => exact hpre
  | partWay hle => exact hrm _ hle
  | later ht =>
    cases indexOk with
    | false =>
      rw [torn_nil ht]
      exact hrm _ (le_refl _)
    | true =>
      rcases torn_atomic (fun _ => by simp) ht with rfl | rfl
      · exact hrm _ (le_refl _)
      · refine haf.congr fun r hr => ?_
        exact (Finmap.lookup_erase_ne hr).symm

/-! ### In a whole call -/

theorem viewStep_others (hq : q = none) (hop : v.op = some op) (hs : ViewStep cfg q v v') :
    (∀ r, r ≠ op.rootKey → v'.p.pins.lookup r = v.p.pins.lookup r)
      ∧ ∀ o, v'.op = some o → o.rootKey = op.rootKey := by
  have hsl : ∀ o, v.op = some o → o.rootKey = op.rootKey := by
    intro o ho
    rw [hop] at ho
    injection ho with ho
    rw [ho]
  cases hs with
  | idle | mark key | tamper _ => exact ⟨fun _ _ => rfl, hsl⟩
  | quarantine badKey indexOk => simp at hq
  | start kind addr owner hno | unpin kind addr owner indexOk hno =>
    exact absurd (hop.symm.trans hno) (by simp)
  -- a move touches the record of its own root only
  | @move _ op' p' ops next hop' hmv =>
    have hsm : op = op' := some.inj (hop.symm.trans hop')
    subst hsm
    refine ⟨fun r hr => pinMove_pins hmv hr, fun o ho => ?_⟩
    cases next with
    | inl op' =>
      cases ho
      exact pinMove_rootKey hmv
    | inr result => simp at ho

/-- What holds throughout one call of `pin` on `root`, begun when the records were `pins`. -/
structure DuringPin (pins : FinMap String PinRecord) (root : String) (s : Sys) : Prop where
  recoverable : Recoverable (viewOf s).p (viewOf s).d (viewOf s).op
  quiet : QuietPin s
  target : ∀ t, s.pin = some t → t.op.rootKey = root
  others : ∀ r, r ≠ root → s.svc.pins.pins.lookup r = pins.lookup r

theorem duringPin_turn (h : DuringPin pins root s) (hs : Sys.step cfg s (.pinTurn env) = some s') :
    DuringPin pins root s' := by
  obtain ⟨hrec, hqt⟩ := recoverable_call (a := .pinTurn env) rfl ⟨h.recoverable, h.quiet⟩ hs
  have hvw := step_view hs
  cases step_taken hs with
  | @turn _ t hpin =>
    have hop : (viewOf s).op = some t.op := by rw [viewOf_pinning hpin]
    obtain ⟨hoth, hrt⟩ := viewStep_others (quarantineKey_call rfl h.quiet) hop hvw
    have hkey := h.target t hpin
    refine ⟨hrec, hqt, ?_, ?_⟩
    · intro t' ht'
      exact (hrt t'.op (by rw [viewOf_pinning ht'])).trans hkey
    · intro r hr
      exact (hoth r (hkey ▸ hr)).trans (h.others r hr)

theorem duringPin_turns :
    ∀ (envs : List Env) {s s' : Sys}, DuringPin pins root s →
      Sys.steps cfg s (envs.map .pinTurn) = some s' → DuringPin pins root s' := by
  intro envs
  induction envs with
  | nil =>
    intro s s' h hs
    injection hs with hs
    exact hs ▸ h
  | cons env envs ih =>
    intro s s' h hs
    obtain ⟨s₁, hs₁, hrs⟩ := bind_eq_some_iff.mp hs
    exact ih (duringPin_turn h hs₁) hrs

theorem crash_survives (h : Recoverable (viewOf s₀).p (viewOf s₀).d (viewOf s₀).op ∧ QuietPin s₀)
    (hid : s₀.pin = none) (hcr : Crash cfg s₀ root d) : Survives s₀.svc.pins.pins root d := by
  cases hcr with
  | unpin kind addr owner env ht =>
    have hrec := h.1
    rw [viewOf_idle hid] at hrec
    rw [Sys.ops, hid] at ht
    exact survives_unpin cfg hrec ht
  | @pin s _ kind addr owner envs env hs ht =>
    obtain ⟨s₁, hs₁, hrs⟩ := bind_eq_some_iff.mp hs
    have hst : DuringPin s₀.svc.pins.pins (storeKeyStr kind.string addr.string) s₁ := by
      obtain ⟨hrec, hqt⟩ := recoverable_call (a := .pin kind addr owner) rfl h hs₁
      cases step_taken hs₁ with
      | pin _ _ =>
        refine ⟨hrec, hqt, fun t ht => ?_, fun _ _ => rfl⟩
        cases ht
        rfl
    have hdr := duringPin_turns envs hst hrs
    rw [Sys.ops] at ht
    cases hpin : s.pin with
    | none =>
      rw [hpin] at ht
      rw [torn_nil ht]
      refine (hdr.recoverable.survives fun o ho => ?_).congr
        fun r hr => (hdr.others r hr).symm
      rw [viewOf_idle hpin] at ho
      simp at ho
    | some t =>
      rw [hpin] at ht
      have hsr := survives_turn hdr.recoverable hdr.quiet hpin ht
      rw [hdr.target t hpin] at hsr
      exact hsr.congr fun r hr => (hdr.others r hr).symm

/-! ## Opening what is left -/

def filesSize (d : Disk) : Nat := FinMap.weigh List.length d.files

section

variable (h : newPinStore d mkdirOk indexOk = .ok (p, d'))

include h

theorem newPinStore_file (hbd : d'.files.lookup path = some body) :
    p.objects.lookup (storeKeyStr path.kind path.addr) = some body.length
      ∧ ∃ kind addr, path = objectPath kind addr := by
  rw [(newPinStore_ok h).2.1] at hbd
  obtain ⟨hold, hkey⟩ := lookup_filter_eq_some.mp hbd
  obtain ⟨n, hn⟩ := mem_iff_lookup.mp (of_decide_eq_true hkey)
  have hst := (newPinStore_loaded h).sized _ n hn
  obtain ⟨kind, addr, hsp, _⟩ := statObject_key hst
  have hpt := path_of_key hsp
  obtain ⟨path', body', hspl, hbd', hlen⟩ := statObject_eq_some hst
  -- the key splits into this very path, so the size is that of this file
  rw [hsp, splitStoreKey_key, ← hpt] at hspl
  cases hspl
  rw [hold] at hbd'
  injection hbd' with hbd'
  rw [hn, ← hlen, hbd']
  exact ⟨rfl, kind, addr, hpt⟩

/-- **The counter of an opened store is the size of the files that were kept.** -/
theorem newPinStore_bytes : p.bytes = filesSize d' := by
  have hld := newPinStore_loaded h
  have hsz : filesSize d' = total p.objects := by
    refine weigh_eq_total (fun path => storeKeyStr path.kind path.addr) ?_ ?_ ?_
    · intro path body hbd
      exact (newPinStore_file h hbd).1
    · intro i hi j hj heq
      obtain ⟨body, hbd⟩ := mem_iff_lookup.mp hj
      obtain ⟨_, kind, addr, rfl⟩ := newPinStore_file h hbd
      exact path_of_key heq
    · intro k hk
      obtain ⟨n, hn⟩ := mem_iff_lookup.mp hk
      obtain ⟨path, body, hsp, hbd, _⟩ := statObject_eq_some (hld.sized k n hn)
      refine ⟨path, mem_of_lookup (v := body) ?_, splitStoreKey_eq_some hsp⟩
      rw [(newPinStore_ok h).2.1, sweep_files hsp hk, hbd]
  rw [hld.bytes, hsz]

theorem newPinStore_tmps : d'.tmps = ∅ := by
  rw [(newPinStore_ok h).2.2]
  refine Finset.filter_eq_empty_iff.mpr ?_
  intro path _ hmem
  obtain ⟨n, hn⟩ := mem_iff_lookup.mp hmem
  obtain ⟨kind, addr, hsp, _⟩ := statObject_key ((newPinStore_loaded h).sized _ n hn)
  have hpt := @path_of_key ⟨path.kind, path.addr ++ pinTmpSuffix⟩ kind addr hsp
  have had : path.addr ++ pinTmpSuffix = addr.string := congrArg ObjPath.addr hpt
  have hdot : '.' ∈ addr.string.toList := by
    rw [← had, String.toList_append]
    exact List.mem_append_right _ (by decide)
  exact absurd (Addr.mem_string hdot) (by decide)

end

/-- What opening a directory has recovered of the records `pins`, but for one root. -/
structure Recovered (pins : FinMap String PinRecord) (root : String) (p : PinStore) (d : Disk) :
    Prop where
  /-- Every other root has the record that it had. -/
  others : ∀ r, r ≠ root → p.pins.lookup r = pins.lookup r
  /-- Every object of a record is on disk. -/
  onDisk : ∀ r rec, p.pins.lookup r = some rec → ∀ o ∈ rec.objects, OnDisk d o
  /-- The counter is the size of the files. -/
  bytes : p.bytes = filesSize d
  /-- No file is left that no record names, -/
  swept : ∀ path ∈ d.files, ∃ r rec o, p.pins.lookup r = some rec ∧ o ∈ rec.objects
    ∧ splitStoreKey o = some path
  /-- and no temporary file. -/
  tmps : d.tmps = ∅

theorem statObject_of_onDisk (hd : OnDisk d o) (hv : ValidKey o) :
    (statObject d o).isSome = true := by
  obtain ⟨kind, addr, rfl, hpr⟩ := hv
  obtain ⟨path, body, hsp, hbd⟩ := hd
  have hpt := (splitStoreKey_key kind addr).symm.trans hsp
  injection hpt with hpt
  have hkn : parseObjectKind (objectPath kind addr).kind = some kind := by
    cases kind <;> rfl
  have had : parseAddr (objectPath kind addr).addr = .ok addr := parseAddr_string hpr
  rw [statObject, splitStoreKey_key]
  dsimp only
  rw [hkn, had, hpt, hbd]
  rfl

theorem Survives.complete {r : String} (h : Survives pins root d) (hr : r ≠ root)
    (hrec : pins.lookup r = some rec) : complete d rec = true := by
  obtain ⟨_, hmem⟩ := h.listed r rec hr hrec
  rw [Proof.complete, (h.dir.shape rec hmem).not_skip, Bool.not_false, Bool.true_and,
    List.all_eq_true]
  intro o ho
  obtain ⟨hd, hv⟩ := h.kept r rec hr hrec o ho
  exact statObject_of_onDisk hd hv

theorem onDisk_of_complete (hc : complete d rec = true) {o : String} (ho : o ∈ rec.objects) :
    OnDisk d o := by
  obtain ⟨n, hn⟩ := complete_stat hc ho
  obtain ⟨path, body, hsp, hbd, _⟩ := statObject_eq_some hn
  exact ⟨path, body, hsp, hbd⟩

theorem DirSound.opens (h : DirSound d) : ∃ p d', newPinStore d true true = .ok (p, d') := by
  rcases h.readable with hix | ⟨recs, hix⟩
  · exact ⟨_, _, by rw [newPinStore, if_pos rfl, hix]⟩
  let p := recs.foldl (loadRecord d) .empty
  refine ⟨p, (sweepOrphans p d).run (writeIndexLocked p true), ?_⟩
  rw [newPinStore, if_pos rfl, hix]
  dsimp only
  rw [if_neg (not_not_intro rfl), if_pos rfl]

theorem Survives.recovered (h : Survives pins root d) :
    ∃ p d', newPinStore d true true = .ok (p, d') ∧ Recovered pins root p d' := by
  obtain ⟨p, d', hop⟩ := h.dir.opens
  have hld := newPinStore_loaded hop
  have hrec := recoverable_opened h.dir hop
  refine ⟨p, d', hop, ?_, ?_, newPinStore_bytes hop, ?_, newPinStore_tmps hop⟩
  · intro r hr
    refine ext fun rec => ?_
    rw [hld.pins_iff h.dir.roots]
    constructor
    · intro hgv
      obtain ⟨hmem, hc, rfl⟩ := hgv
      -- a complete record of another root has its root on disk, so it was pinned
      exact (h.only rec hmem (onDisk_of_complete hc (h.dir.shape rec hmem).self)).resolve_left hr
    · intro hrec'
      obtain ⟨hrt, hmem⟩ := h.listed r rec hr hrec'
      exact ⟨hmem, h.complete hr hrec', hrt⟩
  · intro r rec hr o ho
    exact hrec.durable.stored o (hrec.durable.records r rec hr o ho)
  intro path hpt
  rcases hrec.files path hpt with ⟨o, ho, hsp⟩ | ⟨o, ho, _⟩
  · obtain ⟨r, rec, hr, hin⟩ :=
      named_iff.mp (hrec.covered.named (hrec.claims.idle rfl) ho)
    exact ⟨r, rec, o, hr, hin, hsp⟩
  · simp at ho

theorem dirSound_fresh : DirSound freshDir :=
  ⟨.inl rfl, nofun, nofun⟩

theorem leftBy_sound : ∀ (n : Nat) {d : Disk}, LeftBy cfg n d → DirSound d := by
  intro n
  induction n with
  | zero =>
    intro d h
    rw [show d = freshDir from h]
    exact dirSound_fresh
  | succ n ih =>
    intro d hgv
    obtain ⟨s₀, root, hrch, hid, hcr⟩ := hgv
    have hrec := recoverable_reachable (fun d p hd => ih hd) hrch
    exact (crash_survives hrec hid hcr).dir

/--
**Crash safety.** Take a directory that has never been used, or has been left by
any number of earlier crashes, any completed pins and unpins, and a crash in one
more. Opening what is left yields the records of the completed calls, but for the
root of the interrupted one; they have their files, the counter is the size of
the files that are kept, and nothing else is left.
-/
theorem crash_recovery (cfg : Config) (n : Nat) (s₀ : Sys)
    (hreach : (system cfg fun d _ => LeftBy cfg n d).Reachable (fun _ a => a.isCall = true) s₀)
    (hidle : s₀.pin = none) (root : String) (d : Disk) (hcrash : Crash cfg s₀ root d) :
    ∃ p d', newPinStore d true true = .ok (p, d') ∧ Recovered s₀.svc.pins.pins root p d' := by
  have hrec := recoverable_reachable (fun d p hd => leftBy_sound n hd) hreach
  exact (crash_survives hrec hidle hcrash).recovered

def manifestWritten : List Env :=
  List.replicate 9 { upstream := some (manifestBody manifestAddrA 1 [addrA]) }

theorem crash_recovery_announce :
    ∃ s₀ d p d', (system sampleConfig fun d _ => LeftBy sampleConfig 0 d).Reachable
        (fun _ a => a.isCall = true) s₀
      ∧ Crash sampleConfig s₀ manifestKeyA d ∧ objectPath .manifest manifestAddrA ∈ d.files
      ∧ newPinStore d true true = .ok (p, d')
      ∧ announceKeyA ∈ s₀.svc.pins.pins ∧ Recovered s₀.svc.pins.pins manifestKeyA p d' := by
  have hfr : (system sampleConfig fun d _ => LeftBy sampleConfig 0 d).Reachable
      (fun _ a => a.isCall = true) freshSys := .init (freshSys_init rfl)
  obtain ⟨s₀, hrch, hend⟩ := System.Reachable.exists_of_run (fun _ a => a.isCall)
    (.pin .announce addrA "owner" :: turns 13 [0x61])
    (fun s : Sys => s.pin.isNone && decide (announceKeyA ∈ s.svc.pins.pins)
      && (Sys.steps sampleConfig s
        (.pin .manifest manifestAddrA "owner" :: manifestWritten.map .pinTurn)).any fun s' : Sys =>
          decide (objectPath .manifest manifestAddrA ∈ s'.svc.disk.files))
    (fun _ _ h => h) hfr (by decide)
  rw [Bool.and_eq_true, Bool.and_eq_true, isNone_iff_eq_none, decide_eq_true_eq] at hend
  obtain ⟨⟨hid, hpin⟩, hst⟩ := hend
  cases hs : Sys.steps sampleConfig s₀
      (.pin .manifest manifestAddrA "owner" :: manifestWritten.map .pinTurn) with
  | none => rw [hs] at hst; simp at hst
  | some s =>
    rw [hs] at hst
    have hcr : Crash sampleConfig s₀ manifestKeyA s.svc.disk :=
      .pin .manifest manifestAddrA "owner" manifestWritten {} hs .here
    obtain ⟨p, d', hop, hrec⟩ :=
      crash_recovery sampleConfig 0 s₀ hrch hid manifestKeyA s.svc.disk hcr
    exact ⟨s₀, s.svc.disk, p, d', hrch, hcr, of_decide_eq_true hst, hop, hpin, hrec⟩

end VulosRelay.Proof
