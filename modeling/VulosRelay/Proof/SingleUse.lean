import VulosRelay.Gateway.Authz

/-!
# A challenge admits once

A nonce is in the table from its issue to the one admission that takes it out. The time that
`admit` checks is the recorded one, or the one that the sender presents if there is no record
yet; since a nonce is issued once, and is consumed only if the presented time is the recorded
one, both are the time of its issue.
-/

namespace VulosRelay.Gateway.Authz

open List Finmap Option

variable {reg : IdentityRegistry} {core : Core}

theorem signingBody_injective {c d : Challenge} (h : c.signingBody = d.signingBody) : c = d := by
  have hlen : c.nonce.toList.length = d.nonce.toList.length := by simp
  obtain ⟨hnc, htm⟩ := append_inj h hlen
  have hvl := congrArg Wire.beUint htm
  rw [Wire.beUint_beBytes, Wire.beUint_beBytes,
    Nat.mod_eq_of_lt (show _ < 256 ^ 8 from c.issuedAt.toNat_lt),
    Nat.mod_eq_of_lt (show _ < 256 ^ 8 from d.issuedAt.toNat_lt)] at hvl
  cases c
  cases d
  simp only [Challenge.mk.injEq]
  exact ⟨Vector.toList_inj.mp hnc, UInt64.toNat_inj.mp hvl⟩

theorem isFresh_iff : isFresh reg t now = true ↔
    t ≤ now ∧ now.toNat - t.toNat ≤ reg.challengeTtlMs.toNat := by
  simp only [isFresh, Bool.not_eq_true', Bool.or_eq_false_iff, decide_eq_false_iff_not,
    UInt64.not_lt, gt_iff_lt, UInt64.le_iff_toNat_le, Amount.toNat_satSub]

/-- A key that the mode of the registry lets in. -/
def MayEnter (reg : IdentityRegistry) (key : List UInt8) : Prop :=
  reg.mode = .keyRegistered → ∃ id ∈ reg.entries, id.publicKey = key

theorem identityForKey_isSome_iff :
    (identityForKey reg key).isSome ↔ ∃ id ∈ reg.entries, id.publicKey = key := by
  simp [identityForKey]

theorem checkAdmission_ok_iff : (∃ a, checkAdmission reg core issued c key sig now = .ok a) ↔
      isFresh reg ((issued.lookup c.nonce).getD c.issuedAt) now = true ∧
        core.verify key c.signingBody sig = true ∧ MayEnter reg key := by
  rw [MayEnter, ← identityForKey_isSome_iff, checkAdmission]
  cases isFresh reg ((issued.lookup c.nonce).getD c.issuedAt) now with
  | false => simp
  | true =>
    cases core.verify key c.signingBody sig with
    | false => simp
    | true => cases hm : reg.mode <;> cases identityForKey reg key <;> simp

/-- Nonces are fresh: one that is issued was not issued before. -/
def FreshNonces (s : State) : Action → Prop
  | .issue nonce _ => s.recorded nonce = none
  | _ => True

/-- What an admission rests on. -/
structure Rightful (reg : IdentityRegistry) (signed : List UInt8 → Challenge → Prop)
    (recorded : Nonce → Option UInt64) (call : Call) : Prop where
  /-- The nonce is on record with the time at which it was issued. -/
  recorded : recorded call.challenge.nonce = some call.challenge.issuedAt
  /-- The holder of the key has signed the challenge. -/
  signed : signed call.key call.challenge
  /-- The challenge is not from the future, and not over. -/
  inTime : call.challenge.issuedAt ≤ call.now ∧
    call.now.toNat - call.challenge.issuedAt.toNat ≤ reg.challengeTtlMs.toNat
  /-- The registry lets the key in. -/
  mayEnter : MayEnter reg call.key

structure Inv (reg : IdentityRegistry) (signed : List UInt8 → Challenge → Prop) (s : State) :
    Prop where
  once : (s.admitted.map (·.challenge.nonce)).Nodup
  /-- A nonce in the table was issued then, and has admitted nobody. -/
  live : ∀ nonce t, s.issued.lookup nonce = some t →
    s.recorded nonce = some t ∧ ∀ call ∈ s.admitted, call.challenge.nonce ≠ nonce
  admitted : ∀ call ∈ s.admitted, Rightful reg signed s.recorded call
  /-- The time that a running call was checked for is the presented or the recorded one. -/
  running : ∀ call ∈ s.running, signed call.key call.challenge ∧ MayEnter reg call.key ∧
    ∃ t, isFresh reg t call.now = true ∧
      (t = call.challenge.issuedAt ∨ s.recorded call.challenge.nonce = some t)

variable {signed : List UInt8 → Challenge → Prop} {s s' : State}

theorem inv_issue (h : Inv reg signed s) (hfr : s.recorded nonce = none) :
    Inv reg signed { s with
      issued := issueChallenge reg s.issued nonce t
      recorded := Function.update s.recorded nonce (some t) } := by
  -- what was recorded stays so
  have hkp : ∀ {n u}, s.recorded n = some u →
      Function.update s.recorded nonce (some t) n = some u := by
    intro n u hu
    rw [Function.update_of_ne, hu]
    rintro rfl
    rw [hfr] at hu
    cases hu
  refine ⟨h.once, fun n u hu => ?_, fun call hcl => ?_, fun call hcl => ?_⟩
  · by_cases hn : n = nonce
    · subst hn
      rw [issueChallenge, lookup_insert] at hu
      refine ⟨(Function.update_self ..).trans hu, fun call hcl heq => ?_⟩
      have hrec := (h.admitted call hcl).recorded
      rw [heq, hfr] at hrec
      cases hrec
    · rw [issueChallenge, lookup_insert_of_ne _ hn, FinMap.lookup_filter_eq_some] at hu
      exact ⟨hkp (h.live n u hu.1).1, (h.live n u hu.1).2⟩
  · obtain ⟨hrec, hsgn, htm, hen⟩ := h.admitted call hcl
    exact ⟨hkp hrec, hsgn, htm, hen⟩
  · obtain ⟨hsgn, hen, u, hu, hor⟩ := h.running call hcl
    exact ⟨hsgn, hen, u, hu, hor.imp_right hkp⟩

theorem inv_consume (h : Inv reg signed s) (hcl : call ∈ s.running)
    (hlk : s.issued.lookup call.challenge.nonce = some call.challenge.issuedAt)
    (hrun : running ⊆ s.running) :
    Inv reg signed { s with
      issued := s.issued.erase call.challenge.nonce
      running := running, admitted := call :: s.admitted } := by
  obtain ⟨hrec, hno⟩ := h.live _ _ hlk
  obtain ⟨hsgn, hen, t, hfr, hor⟩ := h.running call hcl
  have ht : t = call.challenge.issuedAt := by
    rcases hor with rfl | ht
    · rfl
    · exact some.inj (ht.symm.trans hrec)
  refine ⟨?_, fun n u hu => ?_, forall_mem_cons.mpr ⟨?_, h.admitted⟩,
    fun c hc => h.running c (hrun hc)⟩
  · refine nodup_cons.mpr ⟨fun hmem => ?_, h.once⟩
    obtain ⟨c, hc, heq⟩ := mem_map.mp hmem
    exact hno c hc heq
  · have hn : n ≠ call.challenge.nonce := by
      rintro rfl
      rw [lookup_erase] at hu
      cases hu
    rw [lookup_erase_ne hn] at hu
    exact ⟨(h.live n u hu).1, forall_mem_cons.mpr ⟨hn.symm, (h.live n u hu).2⟩⟩
  · exact ⟨hrec, hsgn, isFresh_iff.mp (ht ▸ hfr), hen⟩

theorem inv_step
    (hunf : ∀ key body sig, core.verify key body sig = true →
      ∃ c, signed key c ∧ c.signingBody = body)
    {a : Action} (h : Inv reg signed s) (hfr : FreshNonces s a)
    (hst : step reg core s a = some s') : Inv reg signed s' := by
  cases a with
  | issue nonce t =>
    cases hst
    exact inv_issue h hfr
  | check c key sig now =>
    rw [step] at hst
    split at hst
    · cases hst
      exact h
    rename_i admission hok
    cases hst
    obtain ⟨htm, hver, hen⟩ := checkAdmission_ok_iff.mp ⟨admission, hok⟩
    obtain ⟨d, hsgn, hbd⟩ := hunf key _ sig hver
    obtain rfl := signingBody_injective hbd
    refine ⟨h.once, h.live, h.admitted, forall_mem_cons.mpr ⟨?_, h.running⟩⟩
    refine ⟨hsgn, hen, _, htm, ?_⟩
    cases hlk : s.issued.lookup d.nonce with
    | none => exact .inl rfl
    | some t => exact .inr (h.live _ t hlk).1
  | consume n =>
    obtain ⟨call, hcl, hs'⟩ := map_eq_some_iff.mp hst
    have hsub : s.running.eraseIdx n ⊆ s.running := eraseIdx_subset
    rw [consumeNonce] at hs'
    split_ifs at hs' with hlk
    · obtain rfl := hs'
      exact inv_consume h (mem_of_getElem? hcl) hlk hsub
    · obtain rfl := hs'
      exact ⟨h.once, h.live, h.admitted, fun c hc => h.running c (hsub hc)⟩

/-- A step that leaves the challenge open: it neither prunes it nor admits somebody for it. -/
def Spares (reg : IdentityRegistry) (c : Challenge) (s : State) : Action → Prop
  | .issue nonce t => nonce ≠ c.nonce ∧ Amount.satSub t reg.challengeTtlMs ≤ c.issuedAt
  | .check .. => True
  | .consume n => ∀ call, s.running[n]? = some call → call.challenge ≠ c

theorem lookup_step (h : s.issued.lookup c.nonce = some c.issuedAt) (hsp : Spares reg c s a)
    (hst : step reg core s a = some s') : s'.issued.lookup c.nonce = some c.issuedAt := by
  cases a with
  | issue nonce t =>
    cases hst
    rw [issueChallenge, lookup_insert_of_ne _ hsp.1.symm, FinMap.lookup_filter_eq_some]
    exact ⟨h, decide_eq_true hsp.2⟩
  | check d key sig now =>
    rw [step] at hst
    split at hst <;> (obtain rfl := some.inj hst; exact h)
  | consume n =>
    obtain ⟨call, hcl, hs'⟩ := map_eq_some_iff.mp hst
    rw [consumeNonce] at hs'
    split_ifs at hs' with hlk
    · obtain rfl := hs'
      -- a call for the same nonce would have presented the recorded time
      have hne : c.nonce ≠ call.challenge.nonce := by
        intro hnc
        rw [← hnc, h] at hlk
        refine hsp call hcl ?_
        cases c
        exact congr (congrArg Challenge.mk hnc.symm) (some.inj hlk).symm
      rwa [lookup_erase_ne hne]
    · obtain rfl := hs'
      exact h

/-- **A challenge admits once, and rightfully; and whatever fails, the honest answer to an open
challenge is accepted.** -/
theorem admission_single_use (reg : IdentityRegistry) (core : Core)
    (signed : List UInt8 → Challenge → Prop)
    (hunforgeable : ∀ key body sig, core.verify key body sig = true →
      ∃ c, signed key c ∧ c.signingBody = body)
    (s : State) (hs : (registry reg core).Reachable FreshNonces s) :
    (s.admitted.map (·.challenge.nonce)).Nodup ∧
      (∀ call ∈ s.admitted, Rightful reg signed s.recorded call) ∧
      ∀ c : Challenge, s.issued.lookup c.nonce = some c.issuedAt →
        ∀ s', System.Reachable ⟨(· = s), step reg core⟩ (Spares reg c) s' →
          (∀ key sig now, core.verify key c.signingBody sig = true → MayEnter reg key →
            isFresh reg c.issuedAt now = true →
            ∃ a, checkAdmission reg core s'.issued c key sig now = .ok a) ∧
          ∃ issued, consumeNonce s'.issued c.nonce c.issuedAt = .ok issued := by
  have hinv : Inv reg signed s := by
    refine hs.invariant ?_ fun _ _ _ => inv_step hunforgeable
    rintro _ rfl
    exact ⟨nodup_nil, fun _ _ h => by simp at h, nofun, nofun⟩
  refine ⟨hinv.once, hinv.admitted, fun c hc s' hs' => ?_⟩
  have hlv : s'.issued.lookup c.nonce = some c.issuedAt := by
    refine hs'.invariant ?_ fun _ _ _ => lookup_step
    rintro _ rfl
    exact hc
  refine ⟨fun key sig now hver hen hfr => checkAdmission_ok_iff.mpr ?_, _, if_pos hlv⟩
  rw [hlv]
  exact ⟨hfr, hver, hen⟩

def sampleChallenge : Challenge := ⟨Vector.replicate 32 7, 1000⟩

def sampleCore : Core := ⟨fun _ body _ => body == sampleChallenge.signingBody, id⟩

def sampleRegistry : IdentityRegistry := ⟨.keyRegistered, 300000, [⟨[1], "a".toList, "d".toList⟩]⟩

theorem sample_admitted_once : ∃ s, (registry sampleRegistry sampleCore).Reachable FreshNonces s ∧
    s.admitted.length = 1 ∧ ∀ call ∈ s.admitted,
      Rightful sampleRegistry (fun _ c => c = sampleChallenge) s.recorded call := by
  let check (s : State) : Action → Bool
    | .issue nonce _ => (s.recorded nonce).isNone
    | _ => true
  have hin : (registry sampleRegistry sampleCore).Reachable FreshNonces
      ⟨∅, fun _ => none, [], []⟩ := .init rfl
  obtain ⟨s, hs, had⟩ := System.Reachable.exists_of_run check
    [.issue sampleChallenge.nonce 1000, .check sampleChallenge [1] [] 2000, .consume 0]
    (·.admitted.length == 1) (fun s a h => by
      cases a with
      | issue nonce t => exact isNone_iff_eq_none.mp h
      | check | consume => trivial)
    hin (by decide)
  refine ⟨s, hs, beq_iff_eq.mp had, ?_⟩
  exact (admission_single_use _ _ (fun _ c => c = sampleChallenge)
    (fun _ _ _ h => ⟨_, rfl, (beq_iff_eq.mp h).symm⟩) s hs).2.1

end VulosRelay.Gateway.Authz
