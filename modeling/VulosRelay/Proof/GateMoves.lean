import VulosRelay.Server.Gate

/-!
# The steps of the gate

`GateMove` lists what a step of the gate can be, so that an invariant is checked move by
move. What a section does to the cache is one of three things: it stores the answer of a
read (`stored`), records a revoke (`revoke`) or marks the account (`mark`).
-/

namespace VulosRelay.Server

open GateState

inductive GateMove (cfg : GateConfig) (s : GateState) : GateAct → GateState → Prop where
  | ungated {call : GateCall} {account : String} : cfg.enabled = false ∨ account = "" →
      GateMove cfg s (.call call account)
        { s with
          history := .returned call account (decide (GateEvent.recorded account ∈ s.history))
            call.ungated :: s.history }
  | begin {call : GateCall} {account : String} {pc : GatePc} : cfg.enabled = true →
      account ≠ "" → (call ≠ .allowConnect → pc = .stale) → (call = .allowConnect → pc = .lookup) →
      GateMove cfg s (.call call account)
        { s with
          threads := s.threads.insert s.calls
            ⟨call, account, decide (GateEvent.recorded account ∈ s.history), pc⟩
          calls := s.calls + 1 }
  | revokedSeen {n : Nat} {t : GateThread} {now : Int} : s.threads.lookup n = some t →
      t.pc = .stale → (s.decision t.account).revoked = true →
      GateMove cfg s (.run n now) (s.finish n t t.call.onRevoke)
  | passStale {n : Nat} {t : GateThread} {now : Int} : s.threads.lookup n = some t →
      t.pc = .stale → (s.decision t.account).revoked = false →
      GateMove cfg s (.run n now) (s.setPc n t .lookup)
  | hit {n : Nat} {t : GateThread} {now : Int} {d : GateDecision} :
      s.threads.lookup n = some t → t.pc = .lookup → s.cache.lookup t.account = some d →
      GateMove cfg s (.run n now) (s.finish n t (t.call.ofDecision d))
  | miss {n : Nat} {t : GateThread} {now : Int} : s.threads.lookup n = some t →
      t.pc = .lookup → s.lookup t.account now = none →
      GateMove cfg s (.run n now) (s.setPc n t .read)
  | ask {n : Nat} {t : GateThread} {now : Int} : s.threads.lookup n = some t → t.pc = .read →
      GateMove cfg s (.run n now) (s.setPc n t (.waiting (marks t.account s.history)))
  | answer {n m : Nat} {t : GateThread} {resp : CPResponse} : s.threads.lookup n = some t →
      t.pc = .waiting m →
      GateMove cfg s (.answer n resp)
        { s.setPc n t (.got m resp) with history := .answered t.account m resp :: s.history }
  | stored {n m : Nat} {t : GateThread} {resp : CPResponse} {ent : Entitlement} {now : Int} :
      s.threads.lookup n = some t → t.pc = .got m resp →
      entitlementForAccount cfg.sharedSecret resp = .ok ent →
      GateMove cfg s (.run n now)
        ((s.setDecision t.account (s.freshDecision cfg t.account ent now)).finish n t
          (t.call.ofDecision (s.freshDecision cfg t.account ent now)))
  | revoke {n m : Nat} {t : GateThread} {resp : CPResponse} {now : Int} :
      s.threads.lookup n = some t → t.pc = .got m resp →
      entitlementForAccount cfg.sharedSecret resp = .error .credentialRevoked →
      GateMove cfg s (.run n now)
        ({ s.setDecision t.account (s.revokedDecision cfg t.account now) with
            history := .recorded t.account :: s.history }.finish n t t.call.onRevoke)
  | refuse {n m : Nat} {t : GateThread} {resp : CPResponse} {now : Int} :
      s.threads.lookup n = some t → t.pc = .got m resp → t.call ≠ .allowContinue →
      entitlementForAccount cfg.sharedSecret resp = .error .other →
      GateMove cfg s (.run n now) (s.finish n t false)
  | blip {n m : Nat} {t : GateThread} {resp : CPResponse} {now : Int} :
      s.threads.lookup n = some t → t.pc = .got m resp → t.call = .allowContinue →
      entitlementForAccount cfg.sharedSecret resp = .error .other →
      GateMove cfg s (.run n now) (s.setPc n t .blip)
  | keep {n : Nat} {t : GateThread} {now : Int} {d : GateDecision} :
      s.threads.lookup n = some t → t.pc = .blip → s.cache.lookup t.account = some d →
      GateMove cfg s (.run n now) (s.finish n t d.verdict)
  | keepUnknown {n : Nat} {t : GateThread} {now : Int} : s.threads.lookup n = some t →
      t.pc = .blip → s.cache.lookup t.account = none →
      GateMove cfg s (.run n now) (s.finish n t true)
  | unmarked {account : String} {now now' : Int} : cfg.enabled = false ∨ account = "" →
      GateMove cfg s (.mark account now now') s
  | mark {account : String} {now now' : Int} : cfg.enabled = true → account ≠ "" →
      GateMove cfg s (.mark account now now')
        { s.setDecision account (s.markedDecision cfg account now now') with
          history := .marked account :: s.history }

variable {cfg : GateConfig} {s s' : GateState}

theorem move_store (ht : s.threads.lookup n = some t) (hpc : t.pc = .got m resp) (now : Int) :
    GateMove cfg s (.run n now) (s.store cfg n t resp now) := by
  unfold store
  split
  · next ent hrd => exact .stored ht hpc hrd
  · next hrd => exact .revoke ht hpc hrd
  rename_i hrd
  split
  · next hcl => exact .blip ht hpc hcl hrd
  · next hcl => exact .refuse ht hpc hcl hrd

theorem move_advance (ht : s.threads.lookup n = some t) (h : s.advance cfg n t now = some s') :
    GateMove cfg s (.run n now) s' := by
  unfold advance at h
  split at h
  · rename_i hpc
    split at h
    · rename_i hrev
      cases h
      exact .revokedSeen ht hpc hrev
    rename_i hrev
    cases h
    exact .passStale ht hpc (Bool.eq_false_iff.mpr hrev)
  · rename_i hpc
    split at h
    · rename_i d hd
      cases h
      exact .hit ht hpc (Option.filter_eq_some_iff.mp hd).1
    rename_i hd
    cases h
    exact .miss ht hpc hd
  · rename_i hpc
    cases h
    exact .ask ht hpc
  · simp at h
  · rename_i hpc
    cases h
    exact move_store ht hpc now
  rename_i hpc
  split at h
  · rename_i d hd
    cases h
    exact .keep ht hpc hd
  rename_i hd
  cases h
  exact .keepUnknown ht hpc hd

theorem gate_move (h : (gate cfg).step s action = some s') : GateMove cfg s action s' := by
  cases action with
  | call call account =>
    rw [← Option.some.inj h, begin]
    split
    · next hoff => exact .ungated hoff
    rename_i hon
    obtain ⟨hena, hac⟩ := not_or.mp hon
    refine .begin (Bool.not_eq_false _ ▸ hena) hac (fun hcl => ?_) fun hcl => ?_
    · rw [if_neg hcl]
    · rw [if_pos hcl]
  | run n now =>
    obtain ⟨t, ht, had⟩ := Option.bind_eq_some_iff.mp h
    exact move_advance ht had
  | answer n resp =>
    have hst : s.step cfg (.answer n resp) = some s' := h
    rw [step] at hst
    split at hst
    · rename_i t ht
      split at hst
      · rename_i m hpc
        cases hst
        exact .answer ht hpc
      · simp at hst
    · simp at hst
  | mark account now now' =>
    have hst : s.step cfg (.mark account now now') = some s' := h
    rw [step] at hst
    split at hst
    · rename_i hoff
      cases hst
      exact .unmarked hoff
    rename_i hon
    obtain ⟨hena, hac⟩ := not_or.mp hon
    cases hst
    exact .mark (Bool.not_eq_false _ ▸ hena) hac

end VulosRelay.Server
