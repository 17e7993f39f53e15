import VulosRelay.Proof.PinSteps

/-!
# Claims of a pin in flight

The facts about a pin in flight that no other goroutine can disturb, in whatever
order the steps come. The pending map holds the claims of the one pin there can
be. An object that was missing when the loop reached it stays missing, because
only this pin could bring it in, and the root stays without a record, because
only this pin could enter one.
-/

namespace VulosRelay.Proof

open VulosRelay.Pubcache

def acquiring : PinPc → Option Want
  | .fetch w | .gate w _ | .write w _ | .register w _ => some w
  | _ => none

def beforeCommit : PinPc → Bool
  | .root | .next | .fetch _ | .gate _ _ | .write _ _ | .register _ _ | .commit => true
  | _ => false

def unrecorded : PinPc → Bool
  | .rollback _ | .release (.error _) => true
  | pc => beforeCommit pc

structure OpClaims (p : PinStore) (op : PinOp) : Prop where
  claimed : ∀ k, p.pending.lookup k = claims op.wrote k
  fresh : op.pc = .start ∨ op.pc = .root → op.wrote = [] ∧ op.objects = []
  absent : ∀ w, acquiring op.pc = some w → w.key ∉ p.objects
  unpinned : unrecorded op.pc = true → op.rootKey ∉ p.pins

structure ClaimInv (p : PinStore) (op : Option PinOp) : Prop where
  idle : op = none → p.pending = ∅
  inFlight : ∀ o, op = some o → OpClaims p o

variable {p : PinStore}

theorem claimInv_inFlight (h : OpClaims p op) : ClaimInv p (some op) := by
  refine ⟨by simp, fun o ho => ?_⟩
  injection ho with ho
  exact ho ▸ h

theorem claimInv_idle (h : p.pending = ∅) : ClaimInv p none :=
  ⟨fun _ => h, by simp⟩

theorem claimInv_shrinks (h : ClaimInv p op) (hs : Shrinks p p') : ClaimInv p' op where
  idle := fun hop => by rw [hs.pending]; exact h.idle hop
  inFlight := fun o ho =>
    let hi := h.inFlight o ho
    { claimed := by rw [hs.pending]; exact hi.claimed
      fresh := hi.fresh
      absent := fun w hw hm => hi.absent w hw (hs.mem_objects hm)
      unpinned := fun hpc hm => hi.unpinned hpc (hs.mem_pins hm) }

theorem OpClaims.pending_empty (h : OpClaims p op) (hpc : op.pc = .start ∨ op.pc = .root) :
    p.pending = ∅ := by
  refine Finmap.ext_lookup fun k => ?_
  rw [h.claimed k, (h.fresh hpc).1, Finmap.lookup_empty]
  rfl

theorem OpClaims.mem_pending (h : OpClaims p op) :
    k ∈ p.pending ↔ k ∈ op.wrote := mem_pending_iff h.claimed

theorem opClaims_stage (h : OpClaims p op) (hwr : op'.wrote = op.wrote)
    (hpc : ¬ (op'.pc = .start ∨ op'.pc = .root))
    (habs : ∀ w, acquiring op'.pc = some w → w.key ∉ p.objects)
    (hun : unrecorded op'.pc = true → op'.rootKey ∉ p.pins) : OpClaims p op' where
  claimed := by
    rw [hwr]
    exact h.claimed
  fresh := fun hs => absurd hs hpc
  absent := habs
  unpinned := hun

theorem claimInv_move (h : ClaimInv p (some op)) (hm : PinMove cfg p op p' ops next) :
    ClaimInv p' next.getLeft? := by
  have hi := h.inFlight op rfl
  -- most moves leave the maps alone, and the new stage keeps or drops a fact of the old one
  have hrt : ∀ {pc : PinPc}, op.pc = pc → unrecorded pc = true → op.rootKey ∉ p.pins :=
    fun hpc hu => hi.unpinned (hpc ▸ hu)
  cases hm with
  | already hpc _ => exact claimInv_idle (hi.pending_empty (.inl hpc))
  | turnedAway hpc => exact claimInv_idle (hi.pending_empty hpc)
  | accept hpc hno _ =>
    exact claimInv_inFlight ⟨hi.claimed, fun _ => hi.fresh (.inl hpc), nofun, fun _ => hno⟩
  | resolve hpc _ | full hpc _ | share hpc _ _ =>
    exact claimInv_inFlight (opClaims_stage hi rfl (by simp) nofun (fun _ => hrt hpc rfl))
  | acquire hpc _ habs hpc' =>
    rcases hpc' with rfl | ⟨body, rfl⟩
    all_goals
      refine claimInv_inFlight (opClaims_stage hi rfl (by simp) ?_ (fun _ => hrt hpc rfl))
      intro w' hw'
      injection hw' with hw'
      exact hw' ▸ habs
  | fetched hpc | pass hpc _ _ | written hpc =>
    exact claimInv_inFlight (opClaims_stage hi rfl (by simp)
      (fun w hw => hi.absent w (by rw [hpc]; exact hw)) (fun _ => hrt hpc rfl))
  | fail hpc _ =>
    have hun : unrecorded op.pc = true := by
      rcases hpc with hpc | ⟨body, hpc | hpc⟩ <;> rw [hpc] <;> rfl
    exact claimInv_inFlight (opClaims_stage hi rfl (by simp) nofun (fun _ => hi.unpinned hun))
  | register hpc =>
    exact claimInv_inFlight ⟨claims_register hi.claimed, nofun, nofun, fun _ => hrt hpc rfl⟩
  | commit _ | commitFail _ =>
    exact claimInv_inFlight ⟨hi.claimed, nofun, nofun, nofun⟩
  | undo _ =>
    exact claimInv_inFlight ⟨hi.claimed, nofun, nofun, fun _ => Finmap.notMem_erase_self⟩
  | rollback hpc =>
    have hs := claimInv_shrinks h (shrinks_foldl_dropObject op.wrote p)
    refine claimInv_inFlight (opClaims_stage (hs.inFlight op rfl) rfl (by simp) nofun (fun _ => ?_))
    exact (hs.inFlight op rfl).unpinned (by rw [hpc]; rfl)
  | release _ => exact claimInv_idle (foldl_releaseKey op.wrote p.pending hi.claimed)

theorem claimInv_begin (h : ClaimInv p none) (kind : Kind) (addr : Addr)
    (owner : String) : ClaimInv p (some (PinOp.begin kind addr owner)) := by
  refine claimInv_inFlight ⟨fun k => ?_, fun _ => ⟨rfl, rfl⟩, nofun, nofun⟩
  rw [h.idle rfl, Finmap.lookup_empty]
  rfl

theorem shrinks_unpin (p : PinStore) (kind : Kind) (addr : Addr) (owner : String)
    (indexOk : Bool) : Shrinks p (unpin p kind addr owner indexOk).1 := by
  rcases unpin_cases p kind addr owner indexOk with ⟨hp, _⟩ | ⟨rec, _, _, heq⟩
  · rw [hp]
    exact .refl p
  · rw [heq]
    exact shrinks_afterUnpin p _

theorem claimInv_step (h : ClaimInv v.p v.op) (hs : ViewStep cfg q v v') : ClaimInv v'.p v'.op := by
  cases hs with
  | idle => exact h
  | quarantine badKey indexOk => exact claimInv_shrinks h (shrinks_quarantine v.p badKey indexOk)
  | mark key => exact ⟨h.idle, fun o ho =>
    let hi := h.inFlight o ho
    ⟨hi.claimed, hi.fresh, hi.absent, hi.unpinned⟩⟩
  | tamper _ => exact h
  | start kind addr owner hop =>
    rw [hop] at h
    exact claimInv_begin h kind addr owner
  | move hop hmv =>
    rw [hop] at h
    exact claimInv_move h hmv
  | unpin kind addr owner indexOk hop =>
    rw [hop] at h
    exact claimInv_shrinks h (shrinks_unpin v.p kind addr owner indexOk)

end VulosRelay.Proof
