import VulosRelay.Proof.PinDurability
import VulosRelay.Proof.PinFiles

/-!
# A call that fails

What is left behind by a `pin` or an `unpin` that returns an error, with nothing
else running. `Undoable` says, at every stage of a pin, how the store differs
from the one the call started with: by the objects the pin wrote and by nothing
else. Rolling back takes these away again, wherever the failure was.

Two calls do leave something behind. A pin reads its root through the ordinary
lookup, and if the root is held without a record and its file cannot be read, the
lookup quarantines it. An unpin deletes the record and the files before it writes
the index, and does not put them back when the index cannot be written.
-/

namespace VulosRelay.Proof

open VulosRelay.Pubcache Finmap FinMap PinOp

variable {cfg : Config} {env : Env} {envs : List Env} {sv₀ sv : Service} {p : PinStore} {d : Disk}
  {kind : Kind} {addr : Addr} {pc : LookupPc} {owner : String} {op op' : PinOp} {e : GoError}

/-- The maps and the object files are what they were. Temporary files are not object files. -/
structure Unchanged (sv sv' : Service) : Prop where
  /-- The records, the objects with their sizes and the counter, -/
  pins : sv'.pins.pins = sv.pins.pins
  objects : sv'.pins.objects = sv.pins.objects
  bytes : sv'.pins.bytes = sv.pins.bytes
  /-- the objects reserved, -/
  pending : sv'.pins.pending = sv.pins.pending
  /-- and the object files. -/
  files : sv'.disk.files = sv.disk.files

/-! ## What a pin has done so far -/

def recorded : PinPc → Bool
  | .undo _ | .release _ => true
  | _ => false

structure Undoable (sv₀ : Service) (p : PinStore) (d : Disk) (op : PinOp) : Prop where
  objects : ∀ k, k ∉ op.wrote → p.objects.lookup k = sv₀.pins.objects.lookup k
  wrote : ∀ k ∈ op.wrote, k ∉ sv₀.pins.objects
  balance : p.bytes + FinMap.total sv₀.pins.objects = sv₀.pins.bytes + FinMap.total p.objects
  files : ∀ path, path ∉ pathsOf op.wrote → writtenPath op.pc ≠ some path →
    d.files.lookup path = sv₀.disk.files.lookup path
  pins : recorded op.pc = false → p.pins = sv₀.pins.pins
  undo : ∀ e, op.pc = .undo e → p.pins.erase op.rootKey = sv₀.pins.pins
  rolledBack : ∀ e, op.pc = .release (.error e) →
    p.pins = sv₀.pins.pins ∧ p.objects = sv₀.pins.objects ∧ d.files = sv₀.disk.files

theorem undoable_stage (h : Undoable sv₀ p d op) (hwr : op'.wrote = op.wrote)
    (hfs : d'.files = d.files) (hpc : recorded op.pc = false) (hpc' : recorded op'.pc = false)
    (hw : writtenPath op.pc = none) : Undoable sv₀ p d' op' where
  objects := by
    rw [hwr]
    exact h.objects
  wrote := by
    rw [hwr]
    exact h.wrote
  balance := h.balance
  files := by
    intro path hpt _
    rw [hwr] at hpt
    rw [hfs]
    exact h.files path hpt (by rw [hw]; simp)
  pins := fun _ => h.pins hpc
  undo := by
    intro e he
    rw [he] at hpc'
    exact absurd hpc' (by simp [recorded])
  rolledBack := by
    intro e he
    rw [he] at hpc'
    exact absurd hpc' (by simp [recorded])

theorem Undoable.absent (h : Undoable sv₀ p d op) (hk : k ∉ p.objects) : k ∉ sv₀.pins.objects := by
  by_cases hw : k ∈ op.wrote
  · exact h.wrote k hw
  intro hmem
  obtain ⟨n, hn⟩ := mem_iff_lookup.mp hmem
  rw [← h.objects k hw] at hn
  exact hk (mem_of_lookup hn)

theorem Settled.notMem (h : Settled p d) (hk : k ∉ p.objects) (hsp : splitStoreKey k = some path)
    : path ∉ d.files := by
  intro hfl
  obtain ⟨o, ho, hsp'⟩ := h.files path hfl
  exact hk (splitStoreKey_inj hsp hsp' ▸ ho)

theorem undoable_written (h : Undoable sv₀ p d op) (hpc : op.pc = .write w body)
    (hfs : d'.files = d.files.insert (objectPath w.kind w.addr) body) :
    Undoable sv₀ p d' { op with pc := .register w body.length } where
  objects := h.objects
  wrote := h.wrote
  balance := h.balance
  files := by
    intro path hpt hw
    have hne : path ≠ objectPath w.kind w.addr := by
      intro heq
      subst heq
      exact hw rfl
    rw [hfs, lookup_insert_of_ne _ hne]
    exact h.files path hpt (by rw [hpc]; simp [writtenPath])
  pins := fun _ => h.pins (by rw [hpc]; rfl)
  undo := by simp
  rolledBack := by simp

theorem undoable_register (hcl : OpClaims p op) (h : Undoable sv₀ p d op)
    (hpc : op.pc = .register w n) :
    Undoable sv₀ (registerObject p w.key n) d { op with
      pc := .next, objects := op.objects ++ [w.key], wrote := op.wrote ++ [w.key],
      pinBytes := op.pinBytes + n } := by
  have habs := hcl.absent w (by rw [hpc]; rfl)
  refine ⟨?_, ?_, ?_, ?_, fun _ => h.pins (by rw [hpc]; rfl), by simp, by simp⟩
  · intro k hk
    rw [List.mem_append, not_or] at hk
    have hne : k ≠ w.key := fun he => hk.2 (List.mem_singleton.mpr he)
    exact (lookup_insert_of_ne _ hne).trans (h.objects k hk.1)
  · intro k hk
    rcases List.mem_append.mp hk with hk | hk
    · exact h.wrote k hk
    · rw [List.mem_singleton.mp hk]
      exact h.absent habs
  · have hbal := h.balance
    show p.bytes + n + _ = _ + (total (p.objects.insert w.key n) : Int)
    rw [total_insert n habs]
    omega
  · intro path hpt _
    -- the file that was written is now among those of the written keys
    have hold : path ∉ pathsOf op.wrote := by
      intro hm
      obtain ⟨k, hk, hsp⟩ := mem_pathsOf.mp hm
      exact hpt (mem_pathsOf.mpr ⟨k, List.mem_append_left _ hk, hsp⟩)
    refine h.files path hold ?_
    rw [hpc]
    intro he
    injection he with he
    refine hpt (mem_pathsOf.mpr ⟨w.key, ?_, ?_⟩)
    · exact List.mem_append_right _ (List.mem_singleton.mpr rfl)
    · rw [← he]
      exact splitStoreKey_key w.kind w.addr

theorem undoable_rollback (hset : Settled sv₀.pins sv₀.disk) (h : Undoable sv₀ p d op)
    (hpc : op.pc = .rollback e) :
    Undoable sv₀ (rollback p op.wrote).1 (d.run (rollback p op.wrote).2)
      { op with pc := .release (.error e) } := by
  -- what the pin wrote was not there before, and the rest it left alone
  have hob : (rollback p op.wrote).1.objects = sv₀.pins.objects := by
    refine ext_lookup fun k => ?_
    by_cases hk : k ∈ op.wrote
    · have hgn : k ∉ (rollback p op.wrote).1.objects := fun hm =>
        ((mem_foldl_dropObject op.wrote p).mp hm).2 hk
      rw [lookup_eq_none.mpr hgn, lookup_eq_none.mpr (h.wrote k hk)]
    · exact (lookup_foldl_dropObject op.wrote p hk).trans (h.objects k hk)
  have hfs : (d.run (rollback p op.wrote).2).files = sv₀.disk.files := by
    refine ext_lookup fun path => ?_
    show ((DiskOp.removeObjects (pathsOf op.wrote)).apply d).files.lookup path = _
    rw [lookup_removeObjects]
    split
    · rename_i hm
      obtain ⟨k, hk, hsp⟩ := mem_pathsOf.mp hm
      exact (lookup_eq_none.mpr (hset.notMem (h.wrote k hk) hsp)).symm
    · rename_i hm
      exact h.files path hm (by rw [hpc]; simp [writtenPath])
  have hpn : (rollback p op.wrote).1.pins = sv₀.pins.pins :=
    (foldl_dropObject_pins op.wrote p).trans (h.pins (by rw [hpc]; rfl))
  refine ⟨fun k _ => by rw [hob], h.wrote, ?_, fun path _ _ => by rw [hfs],
    fun _ => hpn, by simp, fun _ _ => ⟨hpn, hob, hfs⟩⟩
  -- the rollback takes off the counter what the registrations put on it
  have hbal := h.balance
  have hdr := (shrinks_foldl_dropObject op.wrote p).balance
  show (op.wrote.foldl dropObject p).bytes + _
    = _ + (total (op.wrote.foldl dropObject p).objects : Int)
  omega

theorem undoable_commit {d' : Disk} {rec : PinRecord} {indexOk : Bool} (hcl : OpClaims p op)
    (h : Undoable sv₀ p d op) (hpc : op.pc = .commit) (hwr : op'.wrote = op.wrote)
    (hrt : op'.rootKey = op.rootKey) (hfs : d'.files = d.files)
    (hpc' : (∃ e, op'.pc = .undo e) ∨ ∃ r, op'.pc = .release (.ok r)) :
    Undoable sv₀ (commitRecord p op.rootKey rec indexOk).1 d' op' := by
  have hun := hcl.unpinned (by rw [hpc]; rfl)
  refine ⟨by rw [hwr]; exact h.objects, by rw [hwr]; exact h.wrote, h.balance, ?_, ?_, ?_, ?_⟩
  · intro path hpt _
    rw [hwr] at hpt
    rw [hfs]
    exact h.files path hpt (by rw [hpc]; simp [writtenPath])
  · intro hr
    rcases hpc' with ⟨e, he⟩ | ⟨r, he⟩
    all_goals
      rw [he] at hr
      exact absurd hr (by simp [recorded])
  · intro e _
    rw [hrt]
    -- there was no record for the root, so taking the new one back restores the map
    exact (erase_insert hun).trans (h.pins (by rw [hpc]; rfl))
  · intro e he
    rcases hpc' with ⟨e', he'⟩ | ⟨r, he'⟩
    all_goals
      rw [he'] at he
      simp at he

theorem undoable_move {p' : PinStore} {ops : List DiskOp} (hset : Settled sv₀.pins sv₀.disk)
    (hcl : OpClaims p op) (h : Undoable sv₀ p d op) (hm : PinMove cfg p op p' ops (.inl op')) :
    Undoable sv₀ p' (d.run ops) op' := by
  have hst : ∀ {op' : PinOp}, op'.wrote = op.wrote → recorded op.pc = false →
      recorded op'.pc = false → writtenPath op.pc = none → Undoable sv₀ p d op' :=
    fun hwr hpc hpc' hw => undoable_stage h hwr rfl hpc hpc' hw
  cases hm with
  | accept hpc _ _ | resolve hpc _ | full hpc _ | share hpc _ _ | fetched hpc | pass hpc _ _ =>
    exact hst rfl (by rw [hpc]; rfl) rfl (by rw [hpc]; rfl)
  | acquire hpc _ _ hpc' =>
    rcases hpc' with rfl | ⟨body, rfl⟩ <;> exact hst rfl (by rw [hpc]; rfl) rfl (by rw [hpc]; rfl)
  | @written w body hpc =>
    have hfs := run_writeObject d w.kind w.addr body .ok
    rw [if_pos rfl] at hfs
    exact undoable_written h hpc hfs
  | @fail w ops e hpc hops =>
    have hpl : recorded op.pc = false ∧ writtenPath op.pc = none := by
      rcases hpc with hpc | ⟨body, hpc | hpc⟩ <;> rw [hpc] <;> exact ⟨rfl, rfl⟩
    exact undoable_stage h rfl (run_failedWrite hops).1 hpl.1 rfl hpl.2
  | register hpc => exact undoable_register hcl h hpc
  | commit hpc =>
    exact undoable_commit hcl h hpc rfl rfl (run_commitRecord_files ..) (.inr ⟨_, rfl⟩)
  | commitFail hpc => exact undoable_commit hcl h hpc rfl rfl rfl (.inl ⟨_, rfl⟩)
  | undo hpc =>
    exact ⟨h.objects, h.wrote, h.balance,
      fun path hpt _ => h.files path hpt (by rw [hpc]; simp [writtenPath]),
      fun _ => h.undo _ hpc, by simp, by simp⟩
  | rollback hpc => exact undoable_rollback hset h hpc

theorem unchanged_of_error (hset : Settled sv₀.pins sv₀.disk) (hcl : OpClaims p op)
    (h : Undoable sv₀ p d op) (hm : PinMove cfg p op p' ops (.inr (.error e))) :
    Unchanged sv₀ ⟨p', d.run ops, store⟩ := by
  have hby : p.objects = sv₀.pins.objects → p.bytes = sv₀.pins.bytes := by
    intro heq
    have hbal := h.balance
    rw [heq] at hbal
    omega
  cases hm with
  -- refused before anything was written
  | turnedAway hpc =>
    have hpl : recorded op.pc = false ∧ writtenPath op.pc = none := by
      rcases hpc with hpc | hpc <;> rw [hpc] <;> exact ⟨rfl, rfl⟩
    have hwr := (hcl.fresh hpc).1
    have hob : p.objects = sv₀.pins.objects :=
      ext_lookup fun k => h.objects k (by rw [hwr]; simp)
    refine ⟨h.pins hpl.1, hob, hby hob, ?_, ?_⟩
    · rw [hcl.pending_empty hpc, hset.pending]
    refine ext_lookup fun path => h.files path ?_ (by rw [hpl.2]; simp)
    rw [hwr]
    exact fun hm => absurd (mem_pathsOf.mp hm) (by simp)
  -- the deferred release comes last, after the rollback
  | release hpc =>
    obtain ⟨hpn, hob, hfs⟩ := h.rolledBack e hpc
    refine ⟨hpn, hob, hby hob, ?_, hfs⟩
    rw [hset.pending]
    exact foldl_releaseKey op.wrote p.pending hcl.claimed

/-! ## Whole calls -/

/-- The lookup of a pin will not read a file: it asks for what is not held, or it is past that. -/
def Quiet (p : PinStore) (kind : Kind) (addr : Addr) : LookupPc → Prop
  | .check => storeKeyStr kind.string addr.string ∉ p.objects
  | .read _ | .quarantine => False
  | _ => True

structure Solo (sv₀ sv : Service) (t : PinThread) : Prop where
  started : t.op.pc ≠ .start
  claims : OpClaims sv.pins t.op
  undoable : Undoable sv₀ sv.pins sv.disk t.op
  quiet : ∀ w, t.op.wanted = some w → Quiet sv.pins w.1 w.2 t.lookup

theorem lookupStep_quiet (h : Quiet sv.pins kind addr pc) :
    Quiet (lookupStep cfg env kind addr sv pc).1.pins kind addr
      (lookupStep cfg env kind addr sv pc).2 := by
  cases pc with
  | check =>
    rw [lookupStep, if_neg h]
    trivial
  | read already | quarantine => exact absurd h (by simp [Quiet])
  | mark body | put body | done result => trivial
  | cache =>
    rw [lookupStep]
    split <;> trivial
  | upstream =>
    rw [lookupStep]
    split
    · trivial
    split <;> trivial

theorem quiet_ne_quarantine (h : Quiet p kind addr pc) : pc ≠ .quarantine := by
  intro heq
  subst heq
  exact h

theorem pinMove_later (hst : op.pc ≠ .start) (hm : PinMove cfg p op p' ops (.inl op')) :
    op'.pc ≠ .start ∧ op'.pc ≠ .root := by
  cases hm with
  | accept hpc _ _ => exact absurd hpc hst
  | acquire _ _ _ hpc' =>
    rcases hpc' with rfl | ⟨body, rfl⟩ <;> simp
  | _ => simp

theorem quiet_check (hcl : OpClaims p op) (hrt : op.pc ≠ .root) (hw : op.wanted = some w) :
    Quiet p w.1 w.2 .check := by
  unfold wanted at hw
  split at hw
  · rename_i hpc
    exact absurd hpc hrt
  · rename_i w' hpc
    cases hw
    exact hcl.absent w' (by rw [hpc]; rfl)
  · simp at hw

/-- What a turn of a pin leaves: the pin still under way, or an error and nothing else. -/
def SoloTurn (sv₀ : Service) (turn : PinTurn) : Prop :=
  match turn.next with
  | .inl t => Solo sv₀ turn.svc t
  | .inr (.error _) => Unchanged sv₀ turn.svc
  | .inr (.ok _) => True

theorem solo_own (hset : Settled sv₀.pins sv₀.disk) (hst : op.pc ≠ .start)
    (hcl : OpClaims sv.pins op) (h : Undoable sv₀ sv.pins sv.disk op) :
    SoloTurn sv₀ (pinOwn cfg env sv op got log) := by
  have hmv := pinStep_move cfg env sv.pins op got
  have hinv := claimInv_move (claimInv_inFlight hcl) hmv
  rw [SoloTurn, pinOwn]
  cases hnx : (pinStep cfg env sv.pins op got).next with
  | inl op' =>
    rw [hnx] at hmv hinv
    obtain ⟨hs, hr⟩ := pinMove_later hst hmv
    have hcl' := hinv.inFlight op' rfl
    exact ⟨hs, hcl', undoable_move hset hcl h hmv, fun w hw => quiet_check hcl' hr hw⟩
  | inr result =>
    rw [hnx] at hmv
    cases result with
    | ok rec => trivial
    | error e => exact unchanged_of_error hset hcl h hmv

theorem solo_turn (hset : Settled sv₀.pins sv₀.disk) (h : Solo sv₀ sv t) :
    SoloTurn sv₀ (pinTurn cfg env sv t) := by
  rw [pinTurn]
  cases hw : t.op.wanted with
  | none => exact solo_own hset h.started h.claims h.undoable
  | some w =>
    cases hret : t.lookup.returned with
    | some got =>
      cases got with
      | none | some body => exact solo_own hset h.started h.claims h.undoable
    | none =>
      have hqt := h.quiet w hw
      -- the lookup touches no map but the verified flags, and no file
      rcases lookupStep_store cfg env w.1 w.2 sv t.lookup with ⟨hq, _⟩ | ⟨_, hd, hp⟩
      · exact absurd hq (quiet_ne_quarantine hqt)
      have hqt' := @lookupStep_quiet cfg env _ _ _ _ hqt
      refine ⟨h.started, ?_, ?_, ?_⟩
      · rcases hp with hp | hp
        · rw [hp]
          exact h.claims
        · rw [hp]
          exact ⟨h.claims.claimed, h.claims.fresh, h.claims.absent, h.claims.unpinned⟩
      · rw [hd]
        rcases hp with hp | hp
        · rw [hp]
          exact h.undoable
        rw [hp]
        have hu := h.undoable
        exact ⟨hu.objects, hu.wrote, hu.balance, hu.files, hu.pins, hu.undo, hu.rolledBack⟩
      · intro w' hw'
        rw [hw] at hw'
        injection hw' with hw'
        exact hw' ▸ hqt'

theorem solo_turns (hset : Settled sv₀.pins sv₀.disk) :
    ∀ (envs : List Env) {sv sv' : Service} {t : PinThread} {e : GoError}, Solo sv₀ sv t →
      pinTurns cfg envs sv t = some (sv', .error e) → Unchanged sv₀ sv' := by
  intro envs
  induction envs with
  | nil => intro sv sv' t e _ hrun; exact absurd hrun (by simp [pinTurns])
  | cons env envs ih =>
    intro sv sv' t e h hrun
    have htr := @solo_turn cfg env _ _ _ hset h
    rw [pinTurns] at hrun
    rw [SoloTurn] at htr
    cases hnx : (pinTurn cfg env sv t).next with
    | inl t' =>
      rw [hnx] at hrun htr
      exact ih htr hrun
    | inr result =>
      rw [hnx] at hrun htr
      injection hrun with hrun
      injection hrun with hsv hres
      subst hres
      rw [← hsv]
      exact htr

/-! ## The first turns -/

def atRoot (kind : Kind) (addr : Addr) (owner : String) : PinOp :=
  { PinOp.begin kind addr owner with pc := .root }

theorem solo_atRoot (hset : Settled sv.pins sv.disk)
    (hrt : storeKeyStr kind.string addr.string ∉ sv.pins.pins)
    (hqt : Quiet sv.pins kind addr pc) : Solo sv sv ⟨atRoot kind addr owner, pc⟩ where
  started := by simp [atRoot]
  claims := by
    refine ⟨fun k => ?_, fun _ => ⟨rfl, rfl⟩, nofun, fun _ => hrt⟩
    rw [hset.pending, lookup_empty]
    rfl
  undoable :=
    ⟨fun _ _ => rfl, nofun, rfl,
      fun _ _ _ => rfl, fun _ => rfl, nofun,
      by simp⟩
  quiet := by
    intro w hw
    cases hw
    exact hqt

theorem pinTurn_begin :
    pinTurn cfg env sv ⟨begin kind addr owner, .check⟩
      = pinOwn cfg env sv (begin kind addr owner) none [] := rfl

theorem pinTurn_start (hrt : storeKeyStr kind.string addr.string ∉ sv.pins.pins) :
    (pinTurn cfg env sv ⟨begin kind addr owner, .check⟩).svc = sv
      ∧ ((cfg.pin.maxPins > 0 ∧ (size sv.pins.pins : Int) ≥ cfg.pin.maxPins
          ∧ ∃ e, (pinTurn cfg env sv ⟨begin kind addr owner, .check⟩).next = .inr (.error e))
        ∨ ((cfg.pin.maxPins > 0 → (size sv.pins.pins : Int) < cfg.pin.maxPins)
          ∧ (pinTurn cfg env sv ⟨begin kind addr owner, .check⟩).next
            = .inl ⟨atRoot kind addr owner, .check⟩)) := by
  have hno : sv.pins.pins.lookup (begin kind addr owner).rootKey = none :=
    lookup_eq_none.mpr hrt
  have hpc : (begin kind addr owner).pc = .start := rfl
  rw [pinTurn_begin, pinOwn, pinStep, hpc]
  rw [hno]
  by_cases hcap : cfg.pin.maxPins > 0 ∧ (size sv.pins.pins : Int) ≥ cfg.pin.maxPins
  · rw [if_pos hcap]
    exact ⟨rfl, .inl ⟨hcap.1, hcap.2, _, rfl⟩⟩
  rw [if_neg hcap]
  refine ⟨rfl, .inr ⟨fun hpos => ?_, rfl⟩⟩
  rw [not_and] at hcap
  exact Int.not_le.mp (hcap hpos)

theorem pinTurn_already {rec : PinRecord}
    (hrec : sv.pins.pins.lookup (storeKeyStr kind.string addr.string) = some rec) :
    (pinTurn cfg env sv ⟨begin kind addr owner, .check⟩).next = .inr (.ok rec) := by
  have hsm : sv.pins.pins.lookup (begin kind addr owner).rootKey = some rec := hrec
  have hpc : (begin kind addr owner).pc = .start := rfl
  rw [pinTurn_begin, pinOwn, pinStep, hpc]
  rw [hsm]
  rfl

theorem pinTurns_lookup (hret : pc.returned = none) :
    pinTurns cfg (env :: envs) sv ⟨atRoot kind addr owner, pc⟩
      = pinTurns cfg envs (lookupStep cfg env kind addr sv pc).1
          ⟨atRoot kind addr owner, (lookupStep cfg env kind addr sv pc).2⟩ := by
  have hwn : (atRoot kind addr owner).wanted = some (kind, addr) := rfl
  rw [pinTurns, pinTurn, hwn]
  rw [hret]

/--
The root is held without a record, the pin is admitted, and the read of the root
in its third turn ends in the quarantine of the root.
-/
structure RootLost (cfg : Config) (envs : List Env) (sv : Service) (kind : Kind) (addr : Addr) :
    Prop where
  /-- The root has no record. -/
  unpinned : storeKeyStr kind.string addr.string ∉ sv.pins.pins
  /-- There is room for another pin. -/
  slot : cfg.pin.maxPins > 0 → (FinMap.size sv.pins.pins : Int) < cfg.pin.maxPins
  /-- The root is among the objects held. -/
  held : storeKeyStr kind.string addr.string ∈ sv.pins.objects
  /-- In the third turn it is read back, found bad and quarantined. -/
  bad : ∃ env, envs[2]? = some env ∧ (lookupStep cfg env kind addr sv
    (.read (decide (storeKeyStr kind.string addr.string ∈ sv.pins.verified)))).2 = .quarantine

theorem lookupStep_read {already : Bool} :
    (lookupStep cfg env kind addr sv (.read already)).1 = sv
      ∧ ((lookupStep cfg env kind addr sv (.read already)).2 = .quarantine
        ∨ Quiet sv.pins kind addr (lookupStep cfg env kind addr sv (.read already)).2) := by
  rw [lookupStep]
  split
  · exact ⟨rfl, .inl rfl⟩
  split
  · exact ⟨rfl, .inr trivial⟩
  split
  · exact ⟨rfl, .inl rfl⟩
  · exact ⟨rfl, .inr trivial⟩

theorem settled_quarantine (h : Settled p d) {indexOk : Bool} :
    Settled (quarantine p badKey indexOk).1 (d.run (quarantine p badKey indexOk).2) := by
  refine ⟨(shrinks_quarantine p badKey indexOk).pending.trans h.pending, fun path hpt => ?_⟩
  have hcnt : FilesCounted p d none := fun path hpt => .inl (h.files path hpt)
  rcases filesCounted_quarantine hcnt badKey indexOk path hpt with hc | ⟨o, ho, _⟩
  · exact hc
  · simp at ho

section

variable (hset : Settled sv.pins sv.disk)

include hset

theorem changed_of_rootLost (hrt : storeKeyStr kind.string addr.string ∉ sv.pins.pins)
    (hhl : storeKeyStr kind.string addr.string ∈ sv.pins.objects)
    (hrun : pinTurns cfg envs sv ⟨atRoot kind addr owner, .quarantine⟩ = some (sv', .error e)) :
    ¬ Unchanged sv sv' := by
  intro hsm
  cases envs with
  | nil => exact absurd hrun (by simp [pinTurns])
  | cons env envs =>
    rw [pinTurns_lookup rfl] at hrun
    have hsh := shrinks_quarantine sv.pins (storeKeyStr kind.string addr.string) env.indexOk
    have hset' : Settled (lookupStep cfg env kind addr sv .quarantine).1.pins
        (lookupStep cfg env kind addr sv .quarantine).1.disk :=
      settled_quarantine hset
    have hsl : Solo _ _ ⟨atRoot kind addr owner, .cache⟩ :=
      solo_atRoot hset' (fun hm => hrt (hsh.mem_pins hm)) trivial
    have hbc := solo_turns hset' envs hsl hrun
    -- the call ends with the objects the quarantine left, and the root is not among them
    have hgn : storeKeyStr kind.string addr.string
        ∈ (quarantine sv.pins (storeKeyStr kind.string addr.string) env.indexOk).1.objects := by
      rw [← hsm.objects, hbc.objects] at hhl
      exact hhl
    exact (quarantine_objects.mp hgn).1.2 rfl

theorem atRoot_unchanged_iff (hrt : storeKeyStr kind.string addr.string ∉ sv.pins.pins)
    (hsl : cfg.pin.maxPins > 0 → (size sv.pins.pins : Int) < cfg.pin.maxPins)
    (h : pinTurns cfg envs sv ⟨atRoot kind addr owner, .check⟩ = some (sv', .error e)) :
    Unchanged sv sv' ↔ ¬ RootLost cfg (env :: envs) sv kind addr := by
  by_cases hhl : storeKeyStr kind.string addr.string ∈ sv.pins.objects
  -- the root is held: the next two turns check it and read its file
  · cases envs with
    | nil => exact absurd h (by simp [pinTurns])
    | cons env₂ envs =>
      rw [pinTurns_lookup rfl, lookupStep, if_pos hhl] at h
      cases envs with
      | nil => exact absurd h (by simp [pinTurns])
      | cons env₃ envs =>
        rw [pinTurns_lookup rfl] at h
        obtain ⟨hsv, hcs⟩ := lookupStep_read
        rw [hsv] at h
        rcases hcs with hq | hqt
        · rw [hq] at h
          exact iff_of_false (changed_of_rootLost hset hrt hhl h)
            (not_not_intro ⟨hrt, hsl, hhl, env₃, rfl, hq⟩)
        refine iff_of_true (solo_turns hset envs (solo_atRoot hset hrt hqt) h) ?_
        intro hgv
        obtain ⟨_, _, _, env', henv, hq⟩ := hgv
        cases henv
        rw [hq] at hqt
        exact hqt
  -- the root is not held: no lookup of this pin can quarantine
  · have hqt : Quiet sv.pins kind addr .check := hhl
    exact iff_of_true (solo_turns hset envs (solo_atRoot hset hrt hqt) h)
      (fun hl => hhl hl.held)

theorem pinAlone_unchanged_iff (h : pinAlone cfg envs sv kind addr owner = some (sv', .error e)) :
    Unchanged sv sv' ↔ ¬ RootLost cfg envs sv kind addr := by
  cases envs with
  | nil => exact absurd h (by simp [pinAlone, pinTurns])
  | cons env envs =>
    rw [pinAlone, pinTurns] at h
    by_cases hrt : storeKeyStr kind.string addr.string ∈ sv.pins.pins
    · obtain ⟨rec, hrec⟩ := mem_iff_lookup.mp hrt
      -- a root that is already pinned is no error
      rw [pinTurn_already hrec] at h
      simp at h
    · obtain ⟨hsv, hcs⟩ := @pinTurn_start cfg env sv kind addr owner hrt
      rcases hcs with ⟨hpos, hfl, e', hnx⟩ | ⟨hsl, hnx⟩
      · rw [hnx, hsv] at h
        injection h with h
        cases h
        have hls : ¬ RootLost cfg (env :: envs) sv kind addr := by
          intro hl
          have hlt := hl.slot hpos
          omega
        exact iff_of_true ⟨rfl, rfl, rfl, rfl, rfl⟩ hls
      · rw [hnx, hsv] at h
        exact atRoot_unchanged_iff hset hrt hsl h

end

theorem unpin_unchanged_iff :
    Unchanged sv (sv.enter ((unpin sv.pins kind addr owner indexOk).1,
        (unpin sv.pins kind addr owner indexOk).2.1))
      ↔ ¬ ∃ rec, sv.pins.pins.lookup (storeKeyStr kind.string addr.string) = some rec
          ∧ (rec.owner = "" ∨ rec.owner = owner) := by
  rcases unpin_cases sv.pins kind addr owner indexOk with ⟨hp, hops, hno⟩ | ⟨rec, hrec, hown, heq⟩
  · rw [hp, hops]
    exact iff_of_true ⟨rfl, rfl, rfl, rfl, rfl⟩ hno
  refine iff_of_false (fun hsm => ?_) (not_not_intro ⟨rec, hrec, hown⟩)
  have hpn := hsm.pins
  rw [heq] at hpn
  -- the record is gone from the map
  have hgn : sv.pins.pins.lookup (storeKeyStr kind.string addr.string) = none := by
    rw [← hpn]
    exact lookup_erase _ _
  rw [hgn] at hrec
  simp at hrec

/--
**Failed calls.** With nothing else running, a pin that returns an error has left
everything as it was unless the root was lost on the way, and an unpin that
returns an error has unless there was a record the caller could delete, in which
case what failed is the write of the index.
-/
theorem failed_call_unchanged_iff (cfg : Config) (sv : Service) (h : Settled sv.pins sv.disk)
    (kind : Kind) (addr : Addr) (owner : String) :
    (∀ envs sv' e, pinAlone cfg envs sv kind addr owner = some (sv', .error e) →
      (Unchanged sv sv' ↔ ¬ RootLost cfg envs sv kind addr))
    ∧ (∀ indexOk e, (unpin sv.pins kind addr owner indexOk).2.2 = .error e →
      (Unchanged sv (sv.enter ((unpin sv.pins kind addr owner indexOk).1,
          (unpin sv.pins kind addr owner indexOk).2.1))
        ↔ ¬ ∃ rec, sv.pins.pins.lookup (storeKeyStr kind.string addr.string) = some rec
            ∧ (rec.owner = "" ∨ rec.owner = owner))) := by
  constructor
  · intro envs sv' e hrun
    exact pinAlone_unchanged_iff h hrun
  · intro indexOk e _
    exact unpin_unchanged_iff

def chunkMissing : List Env :=
  List.replicate 10 { upstream := some (manifestBody manifestAddrA 1 [addrA]) }
    ++ List.replicate 7 { upstream := none }

theorem settled_fresh : Settled freshSys.svc.pins freshSys.svc.disk :=
  settled_reachable (@freshSys_reachable_any fun _ _ => True) rfl

theorem exists_error {α β : Type} {o : Option (α × Except GoError β)}
    (h : (o.any fun r => !r.2.isOk) = true) : ∃ a e, o = some (a, .error e) := by
  cases o with
  | none => simp at h
  | some r =>
    obtain ⟨a, result⟩ := r
    cases result with
    | error e => exact ⟨a, e, rfl⟩
    | ok b => exact absurd h (by simp [Except.isOk, Except.toBool])

theorem failed_call_unchanged_iff_chunk :
    ∃ sv' e, pinAlone sampleConfig chunkMissing freshSys.svc .manifest manifestAddrA "owner"
        = some (sv', .error e)
      ∧ Unchanged freshSys.svc sv' := by
  obtain ⟨sv', e, hrun⟩ := exists_error (o := pinAlone sampleConfig chunkMissing freshSys.svc
    .manifest manifestAddrA "owner") (by decide)
  refine ⟨sv', e, hrun, ((failed_call_unchanged_iff sampleConfig freshSys.svc settled_fresh
    .manifest manifestAddrA "owner").1 chunkMissing sv' e hrun).mpr ?_⟩
  exact fun hls => absurd hls.held notMem_empty

/--
An unpin whose index write fails returns an error, and the record and the file
that were there before the call are gone.
-/
theorem unpin_error_deletes :
    ∃ s, (system sampleConfig fun _ _ => True).Reachable (fun _ _ => True) s ∧ s.pin = none
      ∧ (unpin s.svc.pins .announce addrA "owner" false).2.2.isOk = false
      ∧ announceKeyA ∈ s.svc.pins.pins
      ∧ announceKeyA ∉ (unpin s.svc.pins .announce addrA "owner" false).1.pins
      ∧ objectPath .announce addrA ∈ s.svc.disk.files
      ∧ objectPath .announce addrA
          ∉ (s.svc.disk.run (unpin s.svc.pins .announce addrA "owner" false).2.1).files := by
  obtain ⟨s, hrch, hid, hend⟩ := freshSys_reachable_any.exists_after
    (.pin .announce addrA "owner" :: turns 13 [0x61])
    (fun s => s.pin.isNone = true
      ∧ (unpin s.svc.pins .announce addrA "owner" false).2.2.isOk = false
      ∧ announceKeyA ∈ s.svc.pins.pins
      ∧ announceKeyA ∉ (unpin s.svc.pins .announce addrA "owner" false).1.pins
      ∧ objectPath .announce addrA ∈ s.svc.disk.files
      ∧ objectPath .announce addrA
          ∉ (s.svc.disk.run (unpin s.svc.pins .announce addrA "owner" false).2.1).files)
    (by decide)
  exact ⟨s, hrch, Option.isNone_iff_eq_none.mp hid, hend⟩

/-- **Between pins the directory is what the store counts**: nothing is reserved, and the object
files are those of the counted objects. -/
theorem files_are_counted (cfg : Config) (dirOk : Disk → PinStore → Prop) (s : Sys)
    (h : (system cfg dirOk).Reachable RespectsPin s) (hpin : s.pin = none) :
    s.svc.pins.pending = ∅ ∧ ∀ path, path ∈ s.svc.disk.files ↔ Counts s.svc.pins path := by
  have hdur := durable_reachable h
  rw [viewOf_idle hpin] at hdur
  obtain ⟨hpend, hfiles⟩ := settled_reachable h hpin
  refine ⟨hpend, fun path => ⟨hfiles path, ?_⟩⟩
  rintro ⟨o, ho, hsp⟩
  obtain ⟨path', body, hsp', hlk⟩ := hdur.stored o ho
  rw [← Option.some.inj (hsp'.symm.trans hsp)]
  exact mem_of_lookup hlk

/-- After a pin of an announce its file is there and counted. -/
theorem pinned_announce_counted :
    ∃ s, (system sampleConfig fun _ _ => True).Reachable RespectsPin s ∧ s.pin = none ∧
      announceKeyA ∈ s.svc.pins.pins ∧ objectPath .announce addrA ∈ s.svc.disk.files ∧
      s.svc.pins.pending = ∅ ∧ Counts s.svc.pins (objectPath .announce addrA) := by
  obtain ⟨s, hrch, hend⟩ := System.Reachable.exists_of_run
    (fun s a => (quarantineKey s a).isNone) (.pin .announce addrA "owner" :: turns 13 [0x61])
    (fun s : Sys => s.pin.isNone && decide (announceKeyA ∈ s.svc.pins.pins) &&
      decide (objectPath .announce addrA ∈ s.svc.disk.files))
    respectsPin_of_isNone freshSys_reachable_any (by decide)
  simp only [Bool.and_eq_true, decide_eq_true_eq, Option.isNone_iff_eq_none] at hend
  obtain ⟨⟨hpin, hrec⟩, hfile⟩ := hend
  obtain ⟨hpend, hcnt⟩ := files_are_counted sampleConfig (fun _ _ => True) s hrch hpin
  exact ⟨s, hrch, hpin, hrec, hfile, hpend, (hcnt _).mp hfile⟩

end VulosRelay.Proof
