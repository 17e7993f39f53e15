/-!
# Entitlement reads of the control plane

The model of `doEntitlement` (`tunnel/server/cpclient.go`) and of the two reads built on
it. What comes back from the network is a parameter: nothing, or a status and a body that
is an entitlement if it can be decoded.
-/

namespace VulosRelay.Server

structure Entitlement where
  accountId : String
  relayAllowed : Bool
  overQuota : Bool
  revoked : Bool
  authorizedRelayNames : List String
  deriving DecidableEq, Repr

inductive CPResponse where
  | unreachable
  | answer (status : Nat) (body : Option Entitlement)
  deriving DecidableEq, Repr

inductive CPError where
  | credentialRevoked
  | other
  deriving DecidableEq, Repr

def decodeEntitlement : Option Entitlement → Except CPError Entitlement
  | none => .error .other
  | some ent => if ent.revoked then .error .credentialRevoked else .ok ent

def doEntitlement : CPResponse → Except CPError Entitlement
  | .unreachable => .error .other
  | .answer status body =>
    if status = 404 then .error .credentialRevoked
    else if status ≠ 200 then .error .other
    else decodeEntitlement body

def entitlementForAccount (sharedSecret : String) (resp : CPResponse) :
    Except CPError Entitlement :=
  if sharedSecret = "" then .error .other else doEntitlement resp

def entitlementForCredential (resp : CPResponse) : Except CPError Entitlement := doEntitlement resp

namespace CPResponse

/-- A 404, or an entitlement that says it is revoked. -/
def IsRevoke : CPResponse → Prop
  | .unreachable => False
  | .answer status body => status = 404 ∨ status = 200 ∧ ∃ ent, body = some ent ∧ ent.revoked = true

/-- A revoke, or an entitlement that does not allow the account or says it is over quota. -/
def IsDeny (resp : CPResponse) : Prop :=
  resp.IsRevoke ∨ ∃ ent, resp = .answer 200 (some ent)
    ∧ (ent.relayAllowed = false ∨ ent.overQuota = true)

end CPResponse

theorem doEntitlement_spec (resp : CPResponse) :
    (∀ ent, doEntitlement resp = .ok ent → resp = .answer 200 (some ent) ∧ ent.revoked = false) ∧
      (doEntitlement resp = .error .credentialRevoked → resp.IsRevoke) := by
  cases resp with
  | unreachable => exact ⟨nofun, nofun⟩
  | answer status body =>
    rw [doEntitlement]
    split
    · next hst => exact ⟨nofun, fun _ => .inl hst⟩
    split
    · exact ⟨nofun, nofun⟩
    rename_i hst
    cases body with
    | none => exact ⟨nofun, nofun⟩
    | some read =>
      rw [Decidable.not_not.mp hst, decodeEntitlement]
      split
      · next hrev => exact ⟨nofun, fun _ => .inr ⟨rfl, read, rfl, hrev⟩⟩
      · rename_i hrev
        refine ⟨fun ent h => ?_, nofun⟩
        rw [← Except.ok.inj h]
        exact ⟨rfl, Bool.eq_false_iff.mpr hrev⟩

theorem entitlementForAccount_eq_ok (h : entitlementForAccount secret resp = .ok ent) :
    resp = .answer 200 (some ent) ∧ ent.revoked = false := by
  rw [entitlementForAccount] at h
  split at h
  · simp at h
  · exact (doEntitlement_spec resp).1 ent h

theorem entitlementForAccount_eq_revoked
    (h : entitlementForAccount secret resp = .error .credentialRevoked) : resp.IsRevoke := by
  rw [entitlementForAccount] at h
  split at h
  · simp at h
  · exact (doEntitlement_spec resp).2 h

end VulosRelay.Server
