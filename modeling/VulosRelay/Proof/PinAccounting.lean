import VulosRelay.Proof.PinClaims
import VulosRelay.Proof.PinLoad

/-!
# The books of the pin store

Every section that changes the object map changes the byte counter by the same
amount, so the counter is the sum of the sizes in every state. The budgets hold
because a pin checks them before it adds and everything else only takes away:
between a check and the section it guards the counter can only fall.
-/

namespace VulosRelay.Proof

open VulosRelay.Pubcache

variable {cfg : Config} {p : PinStore}

def adding : PinPc → Option Nat
  | .write _ body => some body.length
  | .register _ n => some n
  | _ => none

structure OpRoom (cfg : Config) (p : PinStore) (op : PinOp) : Prop where
  slot : beforeCommit op.pc = true → cfg.pin.maxPins > 0 →
    (FinMap.size p.pins : Int) < cfg.pin.maxPins
  /-- There is room for the bytes that have passed the gate. -/
  room : ∀ n, adding op.pc = some n → cfg.pin.maxBytes > 0 →
    p.bytes + n ≤ cfg.pin.maxBytes

structure PinInv (cfg : Config) (p : PinStore) (op : Option PinOp) : Prop where
  bytes : p.bytes = FinMap.total p.objects
  budget : cfg.pin.maxBytes > 0 → p.bytes ≤ cfg.pin.maxBytes
  count : cfg.pin.maxPins > 0 → (FinMap.size p.pins : Int) ≤ cfg.pin.maxPins
  inFlight : ∀ o, op = some o → OpRoom cfg p o

theorem pinInv_shrinks (h : PinInv cfg p op) (hs : Shrinks p p') : PinInv cfg p' op := by
  have hby := hs.bytes_le h.bytes
  have hsz := hs.size_le
  refine ⟨hs.bytes h.bytes, ?_, ?_, ?_⟩
  · intro hpos
    have hold := h.budget hpos
    omega
  · intro hpos
    have hold := h.count hpos
    omega
  intro o ho
  refine ⟨?_, ?_⟩
  · intro hpc hpos
    have hold := (h.inFlight o ho).slot hpc hpos
    omega
  intro n hn hpos
  have hold := (h.inFlight o ho).room n hn hpos
  omega

theorem pinInv_stage (h : PinInv cfg p op) (hrm : OpRoom cfg p op') : PinInv cfg p (some op') := by
  refine ⟨h.bytes, h.budget, h.count, fun o ho => ?_⟩
  injection ho with ho
  exact ho ▸ hrm

theorem pinInv_idle (h : PinInv cfg p op) : PinInv cfg p none :=
  ⟨h.bytes, h.budget, h.count, by simp⟩

theorem opRoom_done (hb : beforeCommit op.pc = false) (ha : adding op.pc = none) :
    OpRoom cfg p op where
  slot := fun h => absurd (hb ▸ h) (by simp)
  room := fun n hn => absurd (ha ▸ hn) (by simp)

theorem opRoom_keep (h : OpRoom cfg p op) (hb : beforeCommit op.pc = true)
    (ha : adding op'.pc = none) : OpRoom cfg p op' where
  slot := fun _ => h.slot hb
  room := fun n hn => absurd (ha ▸ hn) (by simp)

theorem pinInv_record (h : PinInv cfg p (some op)) (hpre : beforeCommit op.pc = true)
    (hb : beforeCommit op'.pc = false) (ha : adding op'.pc = none) :
    PinInv cfg (commitRecord p op.rootKey rec indexOk).1 (some op') := by
  have hcnt : PinInv cfg (commitRecord p op.rootKey rec indexOk).1 none := by
    refine ⟨h.bytes, h.budget, ?_, by simp⟩
    intro hpos
    have hsl := (h.inFlight op rfl).slot hpre hpos
    have hsz := FinMap.size_insert_le p.pins op.rootKey rec
    show (FinMap.size (p.pins.insert op.rootKey rec) : Int) ≤ _
    omega
  exact pinInv_stage hcnt (opRoom_done hb ha)

theorem pinInv_move (hcl : ClaimInv p (some op)) (h : PinInv cfg p (some op))
    (hm : PinMove cfg p op p' ops next) :
    PinInv cfg p' next.getLeft? := by
  have hi := h.inFlight op rfl
  have hpre : ∀ {pc : PinPc}, op.pc = pc → beforeCommit pc = true →
      beforeCommit op.pc = true := fun hpc hb => hpc ▸ hb
  cases hm with
  | already _ _ | turnedAway _ => exact pinInv_idle h
  | accept _ _ hcap =>
    exact pinInv_stage h ⟨fun _ => hcap, nofun⟩
  | resolve hpc _ | full hpc _ | share hpc _ _ | fetched hpc =>
    exact pinInv_stage h (opRoom_keep hi (hpre hpc rfl) rfl)
  | acquire hpc _ _ hpc' =>
    rcases hpc' with rfl | ⟨body, rfl⟩ <;> exact pinInv_stage h (opRoom_keep hi (hpre hpc rfl) rfl)
  | pass hpc _ hrm =>
    refine pinInv_stage h ⟨fun _ => hi.slot (hpre hpc rfl), ?_⟩
    intro n hn
    injection hn with hn
    exact hn ▸ hrm
  | written hpc =>
    exact pinInv_stage h ⟨fun _ => hi.slot (hpre hpc rfl),
      fun n hn => hi.room n (by rw [hpc]; exact hn)⟩
  | fail _ _ => exact pinInv_stage h (opRoom_done rfl rfl)
  | @register w n hpc =>
    have habs := (hcl.inFlight op rfl).absent w (by rw [hpc]; rfl)
    have hrm := hi.room n (by rw [hpc]; rfl)
    -- the counter grows by the size that is entered
    have hby : p.bytes + n = FinMap.total (p.objects.insert w.key n) := by
      rw [FinMap.total_insert n habs, h.bytes]
      omega
    refine ⟨hby, hrm, h.count, fun o ho => ?_⟩
    cases ho
    exact ⟨fun _ => hi.slot (hpre hpc rfl), nofun⟩
  | commit hpc | commitFail hpc => exact pinInv_record h (hpre hpc rfl) rfl rfl
  | undo _ => exact pinInv_stage (pinInv_shrinks h (shrinks_erase p _)) (opRoom_done rfl rfl)
  | rollback _ =>
    exact pinInv_stage (pinInv_shrinks h (shrinks_foldl_dropObject op.wrote p))
      (opRoom_done rfl rfl)
  | release _ => exact ⟨h.bytes, h.budget, h.count, by simp⟩

theorem pinInv_step (hcl : ClaimInv v.p v.op) (h : PinInv cfg v.p v.op)
    (hs : ViewStep cfg q v v') : PinInv cfg v'.p v'.op := by
  cases hs with
  | idle => exact h
  | quarantine badKey indexOk => exact pinInv_shrinks h (shrinks_quarantine v.p badKey indexOk)
  | mark key => exact ⟨h.bytes, h.budget, h.count, fun o ho =>
    ⟨(h.inFlight o ho).slot, (h.inFlight o ho).room⟩⟩
  | tamper _ => exact h
  | start kind addr owner _ => exact pinInv_stage h (opRoom_done rfl rfl)
  | move hop hmv =>
    rw [hop] at h hcl
    exact pinInv_move hcl h hmv
  | unpin kind addr owner indexOk hop =>
    rw [hop] at h
    exact pinInv_shrinks h (shrinks_unpin v.p kind addr owner indexOk)

/-- The store was opened within its budgets. -/
structure WithinBudget (cfg : PinConfig) (p : PinStore) : Prop where
  /-- The counted bytes are within the byte budget, if there is one, -/
  bytes : cfg.maxBytes > 0 → p.bytes ≤ cfg.maxBytes
  /-- and the pins within theirs. -/
  count : cfg.maxPins > 0 → (FinMap.size p.pins : Int) ≤ cfg.maxPins

theorem claimInv_opened (h : newPinStore d mkdirOk indexOk = .ok (p, d')) : ClaimInv p none :=
  claimInv_idle (newPinStore_loaded h).pending

theorem pinInv_opened (h : newPinStore d mkdirOk indexOk = .ok (p, d'))
    (hb : WithinBudget cfg.pin p) :
    PinInv cfg p none where
  bytes := (newPinStore_loaded h).bytes
  budget := hb.bytes
  count := hb.count
  inFlight := by simp

theorem claimInv_reachable (h : (system cfg dirOk).Reachable ok s) :
    ClaimInv (viewOf s).p (viewOf s).op := by
  refine h.invariant (P := fun s => ClaimInv (viewOf s).p (viewOf s).op) ?_ ?_
  · intro s hgv
    obtain ⟨d, mkdirOk, indexOk, p, d', hop, _, rfl⟩ := hgv
    exact claimInv_opened hop
  · intro s a s' hinv _ hst
    exact claimInv_step hinv (step_view hst)

/-- **The books are in order in every state a run from a store within budget reaches.** -/
theorem pinInv_reachable (hdir : ∀ d p, dirOk d p → WithinBudget cfg.pin p)
    (h : (system cfg dirOk).Reachable ok s) : PinInv cfg (viewOf s).p (viewOf s).op := by
  induction h with
  | init h0 =>
    obtain ⟨d, mkdirOk, indexOk, p, d', hop, hok, rfl⟩ := h0
    exact pinInv_opened hop (hdir d p hok)
  | tail hrch _ hst ih => exact pinInv_step (claimInv_reachable hrch) ih (step_view hst)

end VulosRelay.Proof
