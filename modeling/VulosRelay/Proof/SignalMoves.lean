import VulosRelay.Client.Signaling

/-!
# What the sections of a call do

From any point on, a call of `_processSignal` either ends, dispatches the frame, waits for
the import of a key, or begins the check of a signature with the key that is stored for
the sender. `Ran` lists these outcomes, and `Quiet` says what most sections leave alone, so that
an invariant is checked for the few writes that matter to it and not section by section.
-/

namespace VulosRelay.Client.Signaling

open JsText Json Finmap

variable {N Key : Type} {env : Env N Key}

inductive Checks (env : Env N Key) (p : Value N) (key : Key) : Pc N Key → Prop where
  | preKey {spk : Value N} {check : PreKeyCheck N Key} : isType p "join" = true →
      field p "signedPreKey" = some spk → field spk "pub" = some (.str check.preKey.pub) →
      env.atob check.preKey.pub = some check.bytes → check.key = key →
      Checks env p key (.preKeyVerify check)
  | join : Checks env p key (.joinVerify key)
  | frame : isFrame p = true → (field p "nonce").isSome = true →
      Checks env p key (.frameVerify key)

inductive Ran (env : Env N Key) (s : State N Key) (sender : Text) (p : Value N) (now : Int) :
    State N Key → Option (Pc N Key) → Prop where
  | dropped : Ran env s sender p now s none
  | dispatched : (isFrame p = true → env.requirePeerAuth = false) →
      Ran env s sender p now (s.record (.dispatched sender p now)) none
  | importing : isFrame p = true → s.peerKeys.lookup sender = none →
      Ran env s sender p now s (some .frameImport)
  | checking {key : Key} {pc : Pc N Key} : s.peerKeys.lookup sender = some key →
      Checks env p key pc → Ran env s sender p now (s.record (.checked sender key)) (some pc)

variable {s : State N Key} {sender : Text} {p : Value N} {now : Int}

theorem isSome_of_truthy (h : truthy env v = true) : v.isSome = true := by
  cases v with
  | none => cases h
  | some v => rfl

theorem ran_checkFrame (hfr : isFrame p = true)
    (hkey : ∀ k, key = some k → s.peerKeys.lookup sender = some k) :
    Ran env s sender p now (checkFrame env s sender p now key).1
      (checkFrame env s sender p now key).2 := by
  cases key with
  | some key =>
    rw [checkFrame]
    split
    · rename_i hsgn
      rw [Bool.and_eq_true, Bool.and_eq_true] at hsgn
      exact .checking (hkey key rfl) (.frame hfr (isSome_of_truthy hsgn.1.2))
    · exact .dropped
  | none =>
    rw [checkFrame]
    split
    · exact .dropped
    · next hat => exact .dispatched fun _ => Bool.eq_false_iff.mpr hat

theorem ran_frameSection : Ran env s sender p now (frameSection env s sender p now).1
    (frameSection env s sender p now).2 := by
  rw [frameSection]
  split
  · rename_i hfr
    split
    · next key hkey => exact ran_checkFrame hfr fun k hk => Option.some.inj hk ▸ hkey
    rename_i hno
    split
    · exact .importing hfr hno
    · exact ran_checkFrame hfr nofun
  · next hfr => exact .dispatched fun h => absurd h hfr

theorem ran_joinSection : Ran env s sender p now (joinSection env s sender p now).1
    (joinSection env s sender p now).2 := by
  rw [joinSection]
  split
  · rename_i key hkey
    rw [joinKey] at hkey
    split at hkey
    · exact .checking hkey .join
    · cases hkey
  · exact ran_frameSection

theorem preKeyOf_eq_some (h : preKeyOf env s peer spk = some check) :
    s.peerKeys.lookup peer = some check.key ∧ field spk "pub" = some (.str check.preKey.pub)
    ∧ env.atob check.preKey.pub = some check.bytes := by
  rw [preKeyOf] at h
  split at h
  · rename_i key pub sig hkey hpub hsig
    obtain ⟨bytes, hby, hchk⟩ := Option.map_eq_some_iff.mp h
    rw [← hchk]
    exact ⟨hkey, hpub, hby⟩
  · cases h

theorem ran_preKeySection : Ran env s sender p now (preKeySection env s sender p now).1
    (preKeySection env s sender p now).2 := by
  rw [preKeySection]
  split
  · rename_i check hchk
    rw [preKeyCheck] at hchk
    split at hchk
    · rename_i has
      obtain ⟨spk, hspk, hof⟩ := Option.bind_eq_some_iff.mp hchk
      obtain ⟨hkey, hpub, hby⟩ := preKeyOf_eq_some hof
      rw [Bool.and_eq_true, Bool.and_eq_true] at has
      exact .checking hkey (.preKey has.1.1 hspk hpub hby rfl)
    · cases hchk
  · exact ran_joinSection

theorem keepBoxKey_eq (env : Env N Key) (s : State N Key) (sender : Text) (p : Value N) :
    ∃ boxKeys, keepBoxKey env s sender p = { s with peerBoxKeys := boxKeys } := by
  rw [keepBoxKey]
  split
  · split
    · next box _ => exact ⟨_, rfl⟩
    · exact ⟨s.peerBoxKeys, rfl⟩
  · exact ⟨s.peerBoxKeys, rfl⟩

theorem park_eq (s : State N Key) (n : Nat) (sender : Text) (p : Value N) (pc : Option (Pc N Key)) :
    ∃ threads, s.park n sender p pc = { s with threads := threads } := by
  cases pc with
  | some pc => exact ⟨_, rfl⟩
  | none => exact ⟨_, rfl⟩

theorem lookup_park (h : (s.park n sender p pc).threads.lookup m = some t) :
    m = n ∧ pc = some t.pc ∧ t.sender = sender ∧ t.p = p ∨
      m ≠ n ∧ s.threads.lookup m = some t := by
  cases pc with
  | some pc =>
    rw [State.park] at h
    by_cases hm : m = n
    · rw [hm, lookup_insert] at h
      cases h
      exact .inl ⟨hm, rfl, rfl, rfl⟩
    · rw [lookup_insert_of_ne _ hm] at h
      exact .inr ⟨hm, h⟩
  | none =>
    rw [State.park] at h
    by_cases hm : m = n
    · rw [hm, lookup_erase] at h
      cases h
    · rw [lookup_erase_ne hm] at h
      exact .inr ⟨hm, h⟩

def Event.keyless : Event N Key → Bool
  | .stored _ _ => false
  | .checked _ _ => false
  | _ => true

def Event.IsQuiet (s : State N Key) : Event N Key → Prop
  | .checked peer key => s.peerKeys.lookup peer = some key
  | event => event.keyless = true

/-- The keys and the calls stay, only quiet events are recorded, and no pin is taken back. -/
structure Quiet (s s' : State N Key) : Prop where
  keys : s'.peerKeys = s.peerKeys
  preKeys : s'.peerSignedPreKeys = s.peerSignedPreKeys
  boxKeys : s'.peerBoxKeys = s.peerBoxKeys
  threads : s'.threads = s.threads
  pins : ∀ peer, s.peerV2Capable.lookup peer = some () → s'.peerV2Capable.lookup peer = some ()
  events : ∃ newer, s'.history = newer ++ s.history ∧ ∀ event ∈ newer, event.IsQuiet s

variable {s' s'' : State N Key} {peer : Text} {key : Key} {check : PreKeyCheck N Key}

theorem Quiet.refl (s : State N Key) : Quiet s s :=
  ⟨rfl, rfl, rfl, rfl, fun _ h => h, [], rfl, nofun⟩

theorem Quiet.record (h : Quiet s s') (hev : event.IsQuiet s) : Quiet s (s'.record event) := by
  obtain ⟨newer, hhs, hqt⟩ := h.events
  refine ⟨h.keys, h.preKeys, h.boxKeys, h.threads, h.pins, event :: newer, ?_, ?_⟩
  · rw [State.record, hhs, List.cons_append]
  · exact List.forall_mem_cons.mpr ⟨hev, hqt⟩

theorem Quiet.remember (h : Quiet s s') (nonce : Text) : Quiet s (s'.remember nonce) :=
  ⟨h.keys, h.preKeys, h.boxKeys, h.threads, h.pins, h.events⟩

theorem Quiet.pin (h : Quiet s s') (peer : Text) : Quiet s (s'.pin peer) := by
  refine ⟨h.keys, h.preKeys, h.boxKeys, h.threads, fun other hoth => ?_, h.events⟩
  rw [State.pin]
  by_cases heq : other = peer
  · rw [heq]
    exact lookup_insert _
  · exact (lookup_insert_of_ne _ heq).trans (h.pins other hoth)

theorem quiet_ran (h : Ran env s sender p now s' pc) : Quiet s s' := by
  cases h with
  | dropped | importing _ _ => exact .refl s
  | dispatched _ => exact (Quiet.refl s).record rfl
  | checking hkey _ => exact (Quiet.refl s).record hkey

theorem quiet_checkFrame {key : Option Key}
    (hkey : ∀ k, key = some k → s.peerKeys.lookup sender = some k) :
    Quiet s (checkFrame env s sender p now key).1 := by
  cases key with
  | some key =>
    rw [checkFrame]
    split
    · exact (Quiet.refl s).record (hkey key rfl)
    · exact .refl s
  | none =>
    rw [checkFrame]
    split
    · exact .refl s
    · exact (Quiet.refl s).record rfl

theorem quiet_settleJoin (key : Key) : Quiet s (settleJoin env s sender p now key) := by
  rw [settleJoin]
  split
  · split
    · exact (((Quiet.refl s).record (by rfl)).remember _).pin sender
    · exact (Quiet.refl s).record rfl
  · exact .refl s

theorem quiet_settleFrame (key : Key) : Quiet s (settleFrame env s sender p now key) := by
  rw [settleFrame]
  split
  · split
    · exact (((Quiet.refl s).record (by rfl)).remember _).record rfl
    · exact (Quiet.refl s).record rfl
  · exact .refl s

theorem quiet_settleClaim (check : PreKeyCheck N Key) : Quiet s (settleClaim env s peer check) := by
  rw [settleClaim]
  split
  · exact (((Quiet.refl s).pin peer).record (by rfl)).record rfl
  · exact .refl s

theorem quiet_storePreKey (check : PreKeyCheck N Key) :
    Quiet { s with peerSignedPreKeys := s.peerSignedPreKeys.insert peer check.preKey }
      (storePreKey s peer check) :=
  (((Quiet.refl _).pin peer).record (by rfl)).record rfl

theorem quiet_startClaim (spk : Value N) : Quiet s (startClaim env s peer spk).1 := by
  rw [startClaim]
  split
  · rename_i check hchk
    split
    · exact (Quiet.refl s).record (preKeyOf_eq_some hchk).1
    · exact .refl s
  · exact .refl s

theorem quiet_verifyDeposit (nonce blob epk sig : Value N) :
    Quiet s (verifyDeposit env s peer nonce blob epk sig) := by
  rw [verifyDeposit]
  split
  · exact .refl s
  rename_i key hkey
  split
  · exact ((Quiet.refl s).record (by exact hkey)).record rfl
  · exact (Quiet.refl s).record hkey

structure Grows (s s' : State N Key) : Prop where
  history : s.history <:+ s'.history
  pins : ∀ peer, s.peerV2Capable.lookup peer = some () → s'.peerV2Capable.lookup peer = some ()

theorem Grows.trans (h : Grows s s') (h' : Grows s' s'') : Grows s s'' :=
  ⟨h.history.trans h'.history, fun peer hpin => h'.pins peer (h.pins peer hpin)⟩

theorem Quiet.grows (h : Quiet s s') : Grows s s' := by
  obtain ⟨newer, hhs, -⟩ := h.events
  exact ⟨⟨newer, hhs.symm⟩, h.pins⟩

theorem lookup_storeKey (s : State N Key) (peer : Text) (key : Key) :
    ∀ k, some key = some k → (s.storeKey peer key).peerKeys.lookup peer = some k := by
  intro k hk
  cases hk
  exact lookup_insert _

theorem grows_storeKey :
    Grows s (s.storeKey peer key) :=
  ⟨List.suffix_cons _ s.history, fun _ h => h⟩

theorem grows_storePreKey (s : State N Key) (peer : Text) (check : PreKeyCheck N Key) :
    Grows s (storePreKey s peer check) := by
  have hgr := (@quiet_storePreKey N Key s peer check).grows
  exact ⟨hgr.history, hgr.pins⟩

variable {now : Int}

theorem grows_boxSection : Grows s (boxSection env s sender p now).1 := by
  have hkp : Grows s (keepBoxKey env s sender p) := by
    obtain ⟨boxKeys, heq⟩ := keepBoxKey_eq env s sender p
    rw [heq]
    exact ⟨List.suffix_rfl, fun _ h => h⟩
  exact hkp.trans (quiet_ran ran_preKeySection).grows

theorem grows_start : Grows s (start env s sender p now).1 := by
  rw [start]
  split
  · split
    · exact (Quiet.refl s).grows
    · exact grows_boxSection
  · exact (Quiet.refl s).grows

theorem grows_resume {env : Env N Key} {s : State N Key} {sender : Text} {p : Value N}
    {pc : Pc N Key} : Grows s (resume env s sender p now pc).1 := by
  cases pc with
  | joinImport =>
    rw [resume]
    split
    · exact grows_storeKey.trans grows_boxSection
    · exact grows_boxSection
  | preKeyVerify check =>
    rw [resume]
    split
    · exact (grows_storePreKey s sender check).trans (quiet_ran ran_joinSection).grows
    · exact (quiet_ran ran_joinSection).grows
  | joinVerify key => exact (quiet_settleJoin key).grows.trans (quiet_ran ran_frameSection).grows
  | frameImport =>
    rw [resume]
    split
    · exact grows_storeKey.trans (quiet_checkFrame (lookup_storeKey _ sender _)).grows
    · exact (quiet_checkFrame nofun).grows
  | frameVerify key => exact (quiet_settleFrame key).grows
  | claimVerify check => exact (quiet_settleClaim check).grows

theorem grows_park (s : State N Key) (n : Nat) (sender : Text) (p : Value N)
    (pc : Option (Pc N Key)) : Grows s (s.park n sender p pc) := by
  obtain ⟨threads, heq⟩ := park_eq s n sender p pc
  rw [heq]
  exact ⟨List.suffix_rfl, fun _ h => h⟩

theorem grows_step (h : step env s action = some s') : Grows s s' := by
  have hnum : Grows s { s with next := s.next + 1 } := ⟨List.suffix_rfl, fun _ h => h⟩
  cases action with
  | deliver sender p now =>
    cases h
    exact (hnum.trans grows_start).trans (grows_park _ _ sender p _)
  | resume n now =>
    obtain ⟨t, ht, hs'⟩ := Option.map_eq_some_iff.mp h
    rw [← hs']
    exact grows_resume.trans (grows_park _ n t.sender t.p _)
  | claim peer spk =>
    cases h
    exact (hnum.trans (quiet_startClaim spk).grows).trans (grows_park _ _ peer .null _)
  | deposit peer nonce blob epk sig =>
    cases h
    exact (quiet_verifyDeposit nonce blob epk sig).grows

end VulosRelay.Client.Signaling
