import VulosRelay.Proof.SignalMoves

/-!
# Prekeys have passed a check with the key in force

The history tells which identity key was in force for a peer at any moment: the last one
that was stored before it. The registry holds that key (`Registered.keys`), so a check that
begins is made with the key in force at that moment, and a prekey in the registry has passed
such a check. Keys can still change between the beginning of a check and its end.
-/

namespace VulosRelay.Client.Signaling

open JsText Json List

variable {N Key : Type}

def keyInForce (peer : Text) : List (Event N Key) → Option Key
  | [] => none
  | .stored other key :: past => if other = peer then some key else keyInForce peer past
  | _ :: past => keyInForce peer past

/-- A check for a peer began with the key that was in force for it. -/
def Began (history : List (Event N Key)) (peer : Text) (key : Key) : Prop :=
  ∃ newer past, history = newer ++ .checked peer key :: past ∧ keyInForce peer past = some key

/-- A prekey has passed the check of its signature with the key in force. -/
def PassedCheck (env : Env N Key) (history : List (Event N Key)) (peer : Text)
    (spk : SignedPreKey N) : Prop :=
  ∃ key bytes, Began history peer key ∧ env.atob spk.pub = some bytes
    ∧ env.verify key bytes (.str spk.sig) = true

/-- A prekey is being checked with the key that was in force when the check began. -/
def UnderCheck (env : Env N Key) (history : List (Event N Key)) (peer : Text)
    (check : PreKeyCheck N Key) : Prop :=
  Began history peer check.key ∧ env.atob check.preKey.pub = some check.bytes

/-- The registries are what the history says. -/
structure Registered (env : Env N Key) (s : State N Key) : Prop where
  /-- The key of a peer is the one stored last, -/
  keys : ∀ peer, s.peerKeys.lookup peer = keyInForce peer s.history
  /-- and its prekey has passed the check against the key then in force. -/
  preKeys : ∀ peer spk, s.peerSignedPreKeys.lookup peer = some spk →
    PassedCheck env s.history peer spk

def ChecksBegan (env : Env N Key) (s : State N Key) : Prop :=
  ∀ n t, s.threads.lookup n = some t → ∀ check, t.pc = .preKeyVerify check →
    UnderCheck env s.history t.sender check

/-- What a section of a call keeps, and what is known of the check it waits for. -/
structure Kept (env : Env N Key) (s : State N Key) (sender : Text) (s' : State N Key)
    (pc : Option (Pc N Key)) : Prop where
  registered : Registered env s'
  grows : s.history <:+ s'.history
  threads : s'.threads = s.threads
  began : ∀ check, pc = some (.preKeyVerify check) → UnderCheck env s'.history sender check

variable {env : Env N Key} {s s' s'' : State N Key} {sender : Text} {p : Value N} {now : Int}

variable {history : List (Event N Key)}

theorem Began.mono (hgr : history <:+ history') (h : Began history peer key) :
    Began history' peer key := by
  obtain ⟨newest, rfl⟩ := hgr
  obtain ⟨newer, past, rfl, hkey⟩ := h
  exact ⟨newest ++ newer, past, (append_assoc ..).symm, hkey⟩

theorem PassedCheck.mono (hgr : history <:+ history') (h : PassedCheck env history peer spk) :
    PassedCheck env history' peer spk := by
  obtain ⟨key, bytes, hbg, hrs⟩ := h
  exact ⟨key, bytes, hbg.mono hgr, hrs⟩

theorem UnderCheck.mono (hgr : history <:+ history') (h : UnderCheck env history peer check) :
    UnderCheck env history' peer check :=
  ⟨h.1.mono hgr, h.2⟩

theorem UnderCheck.passed (h : UnderCheck env history peer check)
    (hvr : env.verify check.key check.bytes (.str check.preKey.sig) = true) :
    PassedCheck env history peer check.preKey :=
  ⟨check.key, check.bytes, h.1, h.2, hvr⟩

theorem Registered.keep (hs : Registered env s) (hky : s'.peerKeys = s.peerKeys)
    (hpks : s'.peerSignedPreKeys = s.peerSignedPreKeys)
    (hfr : ∀ peer, keyInForce peer s'.history = keyInForce peer s.history)
    (hgr : s.history <:+ s'.history) : Registered env s' := by
  refine ⟨fun peer => ?_, fun peer spk hspk => ?_⟩
  · rw [hky, hfr]
    exact hs.keys peer
  · rw [hpks] at hspk
    exact (hs.preKeys peer spk hspk).mono hgr

theorem Kept.trans (h : Kept env s sender s' pc) (h' : Kept env s' sender s'' pc') :
    Kept env s sender s'' pc' :=
  ⟨h'.registered, h.grows.trans h'.grows, h'.threads.trans h.threads, h'.began⟩

theorem kept_refl (hs : Registered env s) : Kept env s sender s none :=
  ⟨hs, suffix_rfl, rfl, nofun⟩

theorem keyInForce_quiet (hnw : ∀ event ∈ newer, event.IsQuiet s) :
    keyInForce peer (newer ++ past) = keyInForce peer past := by
  induction newer with
  | nil => rfl
  | cons event newer ih =>
    obtain ⟨hev, hrs⟩ := forall_mem_cons.mp hnw
    cases event with
    | stored other key => cases hev
    | checked _ _ | accepted _ _ _ | pinned _ _ | dispatched _ _ _ => exact ih hrs

theorem Quiet.kept (h : Quiet s s') (hs : Registered env s) (sender : Text) :
    Kept env s sender s' none := by
  obtain ⟨newer, hhs, hqt⟩ := h.events
  refine ⟨hs.keep h.keys h.preKeys (fun peer => ?_) h.grows.history, h.grows.history, h.threads,
    nofun⟩
  rw [hhs]
  exact keyInForce_quiet hqt

section

variable (hs : Registered env s)

include hs

theorem kept_storeKey (sender peer : Text) (key : Key) :
    Kept env s sender (s.storeKey peer key) none := by
  refine ⟨⟨fun other => ?_, fun other spk hspk => ?_⟩, suffix_cons _ _, rfl, nofun⟩
  · rw [State.storeKey, keyInForce]
    by_cases hoth : peer = other
    · rw [if_pos hoth, ← hoth]
      exact Finmap.lookup_insert _
    · rw [if_neg hoth]
      exact (Finmap.lookup_insert_of_ne _ (Ne.symm hoth)).trans (hs.keys other)
  · exact (hs.preKeys other spk hspk).mono (suffix_cons _ _)

theorem kept_storePreKey (hchk : UnderCheck env s.history sender check)
    (hvr : env.verify check.key check.bytes (.str check.preKey.sig) = true) :
    Kept env s sender (storePreKey s sender check) none := by
  have hgr : s.history <:+ (storePreKey s sender check).history :=
    (grows_storePreKey s sender check).history
  refine ⟨⟨hs.keys, fun peer spk hspk => ?_⟩, hgr, rfl, nofun⟩
  by_cases hpr : peer = sender
  · have hsto : some check.preKey = some spk := by
      rw [← hspk, hpr]
      exact (Finmap.lookup_insert s.peerSignedPreKeys).symm
    rw [hpr, ← Option.some.inj hsto]
    exact (hchk.passed hvr).mono hgr
  · have hold : s.peerSignedPreKeys.lookup peer = some spk :=
      (Finmap.lookup_insert_of_ne s.peerSignedPreKeys hpr).symm.trans hspk
    exact (hs.preKeys peer spk hold).mono hgr

theorem kept_ran (h : Ran env s sender p now s' pc) : Kept env s sender s' pc := by
  have hkp := (quiet_ran h).kept hs sender
  refine ⟨hkp.registered, hkp.grows, hkp.threads, fun check hpc => ?_⟩
  cases h with
  | dropped | dispatched _ | importing _ _ => cases hpc
  | @checking key pc hkey hch =>
    cases hch with
    | @preKey _ check' _ _ _ hby heq =>
      injection hpc with hpc
      cases hpc
      refine ⟨⟨[], s.history, by rw [heq]; rfl, ?_⟩, hby⟩
      rw [heq, ← hs.keys sender, hkey]
    | join => cases hpc
    | frame _ _ => cases hpc

variable {now : Int}

theorem kept_boxSection :
    Kept env s sender (boxSection env s sender p now).1 (boxSection env s sender p now).2 := by
  have hbox : Kept env s sender (keepBoxKey env s sender p) none := by
    obtain ⟨boxKeys, heq⟩ := keepBoxKey_eq env s sender p
    rw [heq]
    exact ⟨hs.keep rfl rfl (fun _ => rfl) suffix_rfl, suffix_rfl, rfl, nofun⟩
  exact hbox.trans (kept_ran hbox.registered ran_preKeySection)

theorem kept_start :
    Kept env s sender (start env s sender p now).1 (start env s sender p now).2 := by
  rw [start]
  split
  · split
    · exact ⟨hs, suffix_rfl, rfl, by simp⟩
    · exact kept_boxSection hs
  · exact kept_refl hs

theorem kept_checkFrame (hkey : ∀ k, key = some k → s.peerKeys.lookup sender = some k) :
    Kept env s sender (checkFrame env s sender p now key).1
      (checkFrame env s sender p now key).2 := by
  have hkp := (@quiet_checkFrame N Key env s sender p now key hkey).kept hs sender
  refine ⟨hkp.registered, hkp.grows, hkp.threads, fun check hpc => ?_⟩
  cases key with
  | some key | none =>
    rw [checkFrame] at hpc
    split at hpc <;> cases hpc

theorem kept_resume
    (hpc : ∀ check, pc = .preKeyVerify check → UnderCheck env s.history sender check) :
    Kept env s sender (resume env s sender p now pc).1 (resume env s sender p now pc).2 := by
  cases pc with
  | joinImport =>
    rw [resume]
    split
    · rename_i key _
      have hsto := kept_storeKey hs sender sender key
      exact hsto.trans (kept_boxSection hsto.registered)
    · exact kept_boxSection hs
  | preKeyVerify check =>
    rw [resume]
    split
    · rename_i hvr
      have hsto := kept_storePreKey hs (hpc check rfl) hvr
      exact hsto.trans (kept_ran hsto.registered ran_joinSection)
    · exact kept_ran hs ran_joinSection
  | joinVerify key =>
    have hset : Kept env s sender (settleJoin env s sender p now key) none :=
      (quiet_settleJoin key).kept hs sender
    exact hset.trans (kept_ran hset.registered ran_frameSection)
  | frameImport =>
    rw [resume]
    split
    · rename_i key _
      have hsto := kept_storeKey hs sender sender key
      exact hsto.trans (kept_checkFrame hsto.registered (lookup_storeKey s sender key))
    · exact kept_checkFrame hs (by simp)
  | frameVerify key => exact (quiet_settleFrame key).kept hs sender
  | claimVerify check => exact (quiet_settleClaim check).kept hs sender

theorem kept_startClaim (peer : Text) (spk : Value N) :
    Kept env s peer (startClaim env s peer spk).1 (startClaim env s peer spk).2
    ∧ ∀ check, (startClaim env s peer spk).2 = some (.claimVerify check) →
      UnderCheck env (startClaim env s peer spk).1.history peer check := by
  rw [startClaim]
  split
  · rename_i check hch
    obtain ⟨hkey, -, hby⟩ := preKeyOf_eq_some hch
    split
    · have hqt : Quiet s (s.record (.checked peer check.key)) := (Quiet.refl s).record hkey
      have hchk := hqt.kept hs peer
      refine ⟨⟨hchk.registered, hchk.grows, rfl, by simp⟩, ?_⟩
      intro check' heq
      injection heq with heq
      cases heq
      exact ⟨⟨[], s.history, rfl, by rw [← hs.keys peer, hkey]⟩, hby⟩
    · exact ⟨kept_refl hs, by simp⟩
  · exact ⟨kept_refl hs, by simp⟩

end

theorem checksBegan_park (hs : ChecksBegan env s) (hkp : Kept env s sender s' pc) :
    Registered env (s'.park n sender p pc) ∧ ChecksBegan env (s'.park n sender p pc) := by
  obtain ⟨threads, heq⟩ := park_eq s' n sender p pc
  refine ⟨?_, fun m t ht check hpc => ?_⟩
  · rw [heq]
    exact hkp.registered.keep rfl rfl (fun _ => rfl) suffix_rfl
  have hhs : (s'.park n sender p pc).history = s'.history := by rw [heq]
  rw [hhs]
  rcases lookup_park ht with ⟨-, hpr, hsnd, -⟩ | ⟨-, hold⟩
  · rw [hsnd]
    exact hkp.began check (by rw [hpr, hpc])
  · rw [hkp.threads] at hold
    exact (hs m t hold check hpc).mono hkp.grows

theorem registered_step (hs : Registered env s) (hch : ChecksBegan env s)
    (h : step env s action = some s') : Registered env s' ∧ ChecksBegan env s' := by
  have hnum : Registered env { s with next := s.next + 1 } :=
    hs.keep rfl rfl (fun _ => rfl) suffix_rfl
  have hch' : ChecksBegan env { s with next := s.next + 1 } := hch
  cases action with
  | deliver sender p now =>
    cases h
    exact checksBegan_park hch' (kept_start hnum)
  | resume n now =>
    obtain ⟨t, ht, hs'⟩ := Option.map_eq_some_iff.mp h
    rw [← hs']
    exact checksBegan_park hch
      (kept_resume hs fun check hpc => hch n t ht check hpc)
  | claim peer spk =>
    cases h
    exact checksBegan_park hch' (kept_startClaim hnum peer spk).1
  | deposit peer nonce blob epk sig =>
    cases h
    have hkp := (@quiet_verifyDeposit N Key env s peer nonce blob epk sig).kept hs peer
    refine ⟨hkp.registered, fun m t ht check hpc => ?_⟩
    rw [hkp.threads] at ht
    exact (hch m t ht check hpc).mono hkp.grows

theorem registered_new : Registered env (.new : State N Key) ∧ ChecksBegan env .new :=
  ⟨⟨fun _ => rfl, nofun⟩, nofun⟩

end VulosRelay.Client.Signaling
