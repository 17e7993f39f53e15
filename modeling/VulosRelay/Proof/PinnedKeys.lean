import VulosRelay.Proof.SignalMoves

/-!
# One identity key for each peer

A call looks for a stored key, waits for the import of another and then stores it, without
looking again. `OneKey` says that every key stored for a peer and every key a signature was
checked with is the one stored now. As long as no two imports for a sender are in flight at one
time (`OneImport`), a sender whose key is being imported has none stored (`PinInv`), so storing it
replaces nothing; every other step keeps the keys anyway, since checks begin with the stored key.
-/

namespace VulosRelay.Client.Signaling

open JsText Json

variable {N Key : Type} {env : Env N Key} {s s' : State N Key}

variable {peer sender : Text} {p : Value N} {now : Int}

def Uses (history : List (Event N Key)) (peer : Text) (key : Key) : Prop :=
  .stored peer key ∈ history ∨ .checked peer key ∈ history

def OneKey (s : State N Key) : Prop :=
  ∀ peer key, Uses s.history peer key → s.peerKeys.lookup peer = some key

/-- A call waits for the import of a key. -/
def Pc.importing : Pc N Key → Bool
  | .joinImport | .frameImport => true
  | _ => false

/-- The sender for whom a step begins the import of a key. -/
def importFor (env : Env N Key) (s : State N Key) : Action N → Option Text
  | .deliver sender p now =>
    if (start env { s with next := s.next + 1 } sender p now).2.any Pc.importing then some sender
    else none
  | .resume n now => (s.threads.lookup n).bind fun t =>
    if (resume env s t.sender t.p now t.pc).2.any Pc.importing then some t.sender else none
  | _ => none

/-- No import for a sender begins while another one for that sender is in flight. -/
def OneImport (env : Env N Key) (s : State N Key) (action : Action N) : Prop :=
  ∀ sender, importFor env s action = some sender →
    ∀ n t, s.threads.lookup n = some t → t.sender = sender → t.pc.importing = false

theorem uses_cons (h : Uses (event :: history) peer key) :
    (event = .stored peer key ∨ event = .checked peer key) ∨ Uses history peer key := by
  rcases h with h | h
  · rcases List.mem_cons.mp h with heq | hold
    · exact .inl (.inl heq.symm)
    · exact .inr (.inl hold)
  rcases List.mem_cons.mp h with heq | hold
  · exact .inl (.inr heq.symm)
  · exact .inr (.inr hold)

theorem Quiet.oneKey (h : Quiet s s') (hs : OneKey s) : OneKey s' := by
  obtain ⟨newer, hhs, hqt⟩ := h.events
  intro peer key hus
  rw [Uses, hhs, List.mem_append, List.mem_append] at hus
  rw [h.keys]
  rcases hus with (hnew | hold) | (hnew | hold)
  · nomatch hqt _ hnew
  · exact hs peer key (.inl hold)
  · exact hqt _ hnew
  · exact hs peer key (.inr hold)

theorem oneKey_storeKey (hs : OneKey s) (hno : s.peerKeys.lookup peer = none) :
    OneKey (s.storeKey peer key) := by
  intro other used hus
  rw [State.storeKey] at hus ⊢
  by_cases hoth : other = peer
  · rw [hoth, Finmap.lookup_insert]
    rw [hoth] at hus
    rcases uses_cons hus with (heq | heq) | hold
    · cases heq
      rfl
    · cases heq
    · rw [hs peer used hold] at hno
      cases hno
  · rw [Finmap.lookup_insert_of_ne _ hoth]
    rcases uses_cons hus with (heq | heq) | hold
    · cases heq
      exact absurd rfl hoth
    · cases heq
    · exact hs other used hold

theorem oneKey_boxSection (hs : OneKey s) : OneKey (boxSection env s sender p now).1 := by
  refine (quiet_ran ran_preKeySection).oneKey ?_
  obtain ⟨boxKeys, heq⟩ := keepBoxKey_eq env s sender p
  rw [heq]
  exact hs

theorem oneKey_start (hs : OneKey s) : OneKey (start env s sender p now).1 := by
  rw [start]
  split
  · split
    · exact hs
    · exact oneKey_boxSection hs
  · exact hs

theorem oneKey_resume {t : Thread N Key} (hs : OneKey s)
    (hno : t.pc.importing = true → s.peerKeys.lookup t.sender = none) :
    OneKey (resume env s t.sender t.p now t.pc).1 := by
  cases hpc : t.pc with
  | joinImport =>
    rw [hpc] at hno
    rw [resume]
    split
    · exact oneKey_boxSection (oneKey_storeKey hs (hno rfl))
    · exact oneKey_boxSection hs
  | preKeyVerify check =>
    rw [resume]
    split
    · exact (quiet_ran ran_joinSection).oneKey ((quiet_storePreKey check).oneKey hs)
    · exact (quiet_ran ran_joinSection).oneKey hs
  | joinVerify key => exact (quiet_ran ran_frameSection).oneKey ((quiet_settleJoin key).oneKey hs)
  | frameImport =>
    rw [hpc] at hno
    rw [resume]
    split
    · rename_i key hkey
      exact (quiet_checkFrame (lookup_storeKey s t.sender key)).oneKey
        (oneKey_storeKey hs (hno rfl))
    · exact (quiet_checkFrame (by simp)).oneKey hs
  | frameVerify key => exact (quiet_settleFrame key).oneKey hs
  | claimVerify check => exact (quiet_settleClaim check).oneKey hs

theorem oneKey_park (hs : OneKey s) : OneKey (s.park n sender p pc) := by
  obtain ⟨threads, heq⟩ := park_eq s n sender p pc
  rw [heq]
  exact hs

/-! ## Imports in flight -/

/-- What a section of a call leaves: the other calls and the keys of other senders, the keys of its
own sender unless it ends an import, and a new import only where no key is stored. -/
structure Leaves (s : State N Key) (sender : Text) (imported : Bool) (s' : State N Key)
    (pc : Option (Pc N Key)) : Prop where
  threads : s'.threads = s.threads
  keys : imported = false → s'.peerKeys = s.peerKeys
  others : ∀ other, other ≠ sender → s'.peerKeys.lookup other = s.peerKeys.lookup other
  begun : pc.any Pc.importing = true → s'.peerKeys.lookup sender = none

variable {pc : Option (Pc N Key)} {imported : Bool}

theorem Quiet.leaves (h : Quiet s s')
    (hbg : pc.any Pc.importing = true → s.peerKeys.lookup sender = none) :
    Leaves s sender imported s' pc :=
  ⟨h.threads, fun _ => h.keys, fun _ _ => by rw [h.keys], fun him => by rw [h.keys, hbg him]⟩

theorem Ran.leaves (h : Ran env s sender p now s' pc) : Leaves s sender imported s' pc := by
  refine (quiet_ran h).leaves fun him => ?_
  cases h with
  | dropped | dispatched _ => cases him
  | importing _ hno => exact hno
  | checking hkey hck => cases hck <;> cases him

theorem Leaves.of_eq {s₁ : State N Key} (h : Leaves s₁ sender imported s' pc)
    (hth : s₁.threads = s.threads) (hky : s₁.peerKeys = s.peerKeys) :
    Leaves s sender imported s' pc := by
  refine ⟨h.threads.trans hth, fun him => (h.keys him).trans hky, fun other hne => ?_, h.begun⟩
  rw [h.others other hne, hky]

theorem leaves_boxSection : Leaves s sender imported (boxSection env s sender p now).1
    (boxSection env s sender p now).2 := by
  obtain ⟨boxKeys, heq⟩ := keepBoxKey_eq env s sender p
  rw [boxSection, heq]
  exact ran_preKeySection.leaves.of_eq rfl rfl

theorem leaves_start :
    Leaves s sender imported (start env s sender p now).1 (start env s sender p now).2 := by
  rw [start]
  split
  · split
    · rename_i hjn
      rw [Bool.and_eq_true, Option.isNone_iff_eq_none] at hjn
      exact (Quiet.refl s).leaves fun _ => hjn.2
    · exact leaves_boxSection
  · exact (Quiet.refl s).leaves (by simp)

theorem leaves_storeKey (h : Leaves (s.storeKey sender key) sender true s' pc) :
    Leaves s sender true s' pc := by
  refine ⟨h.threads, nofun, fun other hne => ?_, h.begun⟩
  rw [h.others other hne, State.storeKey, Finmap.lookup_insert_of_ne _ hne]

theorem leaves_checkFrame {key : Option Key}
    (hkey : ∀ k, key = some k → s.peerKeys.lookup sender = some k) :
    Leaves s sender imported (checkFrame env s sender p now key).1
      (checkFrame env s sender p now key).2 := by
  refine (quiet_checkFrame hkey).leaves fun him => absurd him ?_
  cases key <;> rw [checkFrame] <;> split <;> simp [Pc.importing]

theorem leaves_resume (env : Env N Key) (s : State N Key) (sender : Text) (p : Value N) (now : Int)
    (pc : Pc N Key) :
    Leaves s sender pc.importing (resume env s sender p now pc).1
      (resume env s sender p now pc).2 := by
  cases pc with
  | joinImport =>
    rw [resume]
    split
    · exact leaves_storeKey leaves_boxSection
    · exact leaves_boxSection
  | preKeyVerify check =>
    rw [resume]
    split
    · exact ran_joinSection.leaves.of_eq rfl rfl
    · exact ran_joinSection.leaves
  | joinVerify key =>
    have hq : Quiet s (settleJoin env s sender p now key) := quiet_settleJoin key
    exact ran_frameSection.leaves.of_eq hq.threads hq.keys
  | frameImport =>
    rw [resume]
    split
    · exact leaves_storeKey (leaves_checkFrame (lookup_storeKey s sender _))
    · exact leaves_checkFrame (by simp)
  | frameVerify key => exact (quiet_settleFrame key).leaves (by simp [resume])
  | claimVerify check => exact (quiet_settleClaim check).leaves (by simp [resume])

/-- **One key for each peer, and one import at a time.** -/
structure PinInv (s : State N Key) : Prop where
  /-- What was stored and what was used is what is stored now. -/
  oneKey : OneKey s
  /-- A sender whose key is being imported has none yet. -/
  unpinned : ∀ n t, s.threads.lookup n = some t → t.pc.importing = true →
    s.peerKeys.lookup t.sender = none
  /-- No two calls import a key for one sender. -/
  alone : ∀ n m t u, s.threads.lookup n = some t → s.threads.lookup m = some u →
    t.pc.importing = true → u.pc.importing = true → t.sender = u.sender → n = m

theorem PinInv.park {n : Nat} (hs : PinInv s) (hkey : OneKey s')
    (hlv : Leaves s sender imported s' pc)
    (him : imported = true → ∃ t, s.threads.lookup n = some t ∧ t.sender = sender ∧
      t.pc.importing = true)
    (hfree : pc.any Pc.importing = true → ∀ m u, s.threads.lookup m = some u →
      u.sender = sender → u.pc.importing = false) : PinInv (s'.park n sender p pc) := by
  have hky : (s'.park n sender p pc).peerKeys = s'.peerKeys := by
    obtain ⟨threads, heq⟩ := park_eq s' n sender p pc
    rw [heq]
  have hold : ∀ m u, s'.threads.lookup m = some u → s.threads.lookup m = some u :=
    fun m u hu => hlv.threads ▸ hu
  refine ⟨oneKey_park hkey, fun m u hu hpc => ?_, fun m k u v hu hv hpu hpv hsnd => ?_⟩
  · rw [hky]
    rcases lookup_park hu with ⟨-, heq, hse, -⟩ | ⟨hm, hth⟩
    · rw [hse]
      exact hlv.begun (by rw [heq]; exact hpc)
    have hno := hs.unpinned m u (hold m u hth) hpc
    by_cases hse : u.sender = sender
    · -- A call that has just ended an import was the only one for its sender.
      cases hb : imported with
      | false => rw [hlv.keys hb, hno]
      | true =>
        obtain ⟨t, ht, hts, htp⟩ := him hb
        exact absurd (hs.alone m n u t (hold m u hth) ht hpc htp (hse.trans hts.symm)) hm
    · rw [hlv.others _ hse, hno]
  · -- An import begun now is not beside another one.
    have hnew : ∀ {u : Thread N Key} {m : Nat} {v : Thread N Key}, pc = some u.pc →
        u.sender = sender → s'.threads.lookup m = some v → u.pc.importing = true →
        v.pc.importing = true → u.sender ≠ v.sender := by
      intro u m v heq hse hv hpu hpv hsnd
      have hno := hfree (by rw [heq]; exact hpu) m v (hold m v hv) (hsnd.symm.trans hse)
      rw [hpv] at hno
      cases hno
    rcases lookup_park hu with ⟨hm, heq, hse, -⟩ | ⟨-, hth⟩ <;>
      rcases lookup_park hv with ⟨hk, heq', hse', -⟩ | ⟨-, hth'⟩
    · rw [hm, hk]
    · exact absurd hsnd (hnew heq hse hth' hpu hpv)
    · exact absurd hsnd.symm (hnew heq' hse' hth hpv hpu)
    · exact hs.alone m k u v (hold m u hth) (hold k v hth') hpu hpv hsnd

theorem any_startClaim (spk : Value N) :
    (startClaim env s peer spk).2.any Pc.importing = false := by
  rw [startClaim]
  split
  · split <;> rfl
  · rfl

theorem pinInv_step (hs : PinInv s) (hok : OneImport env s action)
    (h : step env s action = some s') : PinInv s' := by
  cases action with
  | deliver sender p now =>
    cases h
    have hlv : Leaves s sender false (start env { s with next := s.next + 1 } sender p now).1
        (start env { s with next := s.next + 1 } sender p now).2 := leaves_start.of_eq rfl rfl
    refine hs.park (oneKey_start hs.oneKey) hlv nofun fun him => ?_
    exact hok sender (if_pos him)
  | resume n now =>
    obtain ⟨t, ht, hs'⟩ := Option.map_eq_some_iff.mp h
    rw [← hs']
    refine hs.park (oneKey_resume hs.oneKey (hs.unpinned n t ht))
      (leaves_resume env s t.sender t.p now t.pc) (fun him => ⟨t, ht, rfl, him⟩) fun him => ?_
    refine hok t.sender ?_
    rw [importFor, ht]
    exact if_pos him
  | claim peer spk =>
    cases h
    have hq : Quiet { s with next := s.next + 1 } (startClaim env _ peer spk).1 :=
      quiet_startClaim spk
    have hno : (startClaim env { s with next := s.next + 1 } peer spk).2.any Pc.importing ≠ true :=
      Bool.eq_false_iff.mp (any_startClaim spk)
    have hlv : Leaves s peer false _ _ := (hq.leaves fun him => absurd him hno).of_eq rfl rfl
    exact hs.park (hq.oneKey hs.oneKey) hlv nofun fun him => absurd him hno
  | deposit peer nonce blob epk sig =>
    cases h
    have hq : Quiet s (verifyDeposit env s peer nonce blob epk sig) :=
      quiet_verifyDeposit nonce blob epk sig
    refine ⟨hq.oneKey hs.oneKey, ?_, ?_⟩
    · rw [hq.threads, hq.keys]
      exact hs.unpinned
    · rw [hq.threads]
      exact hs.alone

/--
**A pinned key stays, if no two imports overlap.** In every run in which no import of a key for a
sender begins while another one for that sender is in flight, every key that was ever stored for
a peer and every key that a signature of the peer was ever checked with is the one stored now.
-/
theorem pinned_key_never_changes (env : Env N Key) (s : State N Key)
    (h : (client env).Reachable (OneImport env) s) :
    ∀ peer key, Event.stored peer key ∈ s.history ∨ Event.checked peer key ∈ s.history →
      s.peerKeys.lookup peer = some key := by
  refine (h.invariant (P := PinInv) (fun s hin => ?_) fun s action s' hs hok hst =>
    pinInv_step hs hok hst).oneKey
  rw [hin]
  refine ⟨fun peer key hus => ?_, fun n t ht => ?_, fun n m t u ht => ?_⟩
  · rcases hus with h | h <;> cases h
  · cases ht
  · cases ht

def sampleEnv : Env Int Text where
  session := literal "doc"
  peerId := literal "me"
  requirePeerAuth := true
  numbers := ⟨fun n => literal n.repr, fun n => n⟩
  importKey := fun v => match v with
    | .str s => some s
    | _ => none
  verify := fun _ _ _ => false
  atob := fun s => some (s.map fun c => UInt8.ofNat c.toNat)
  display := fun v => match v with
    | .str s => s
    | _ => []

def sampleJoin (key : String) : Value Int :=
  .obj (.cons (literal "type") (.str (literal "join"))
    (.cons (literal "depositPubKey") (.str (literal key)) .nil))

theorem client_reachable_new (env : Env N Key) : (client env).Reachable ok .new := .init rfl

def oneImportCheck (s : State Int Text) (action : Action Int) : Bool :=
  (importFor sampleEnv s action).all fun sender => decide <| ∀ n ∈ s.threads.keys,
    ((s.threads.lookup n).any fun t => t.sender = sender ∧ t.pc.importing) = false

theorem oneImport_of_check {s : State Int Text} {action : Action Int}
    (h : oneImportCheck s action = true) : OneImport sampleEnv s action := by
  intro sender hfor n t ht hse
  rw [oneImportCheck, hfor, Option.all_some, decide_eq_true_eq] at h
  have hno := h n (Finmap.mem_keys.mpr (FinMap.mem_of_lookup ht))
  rw [ht] at hno
  simpa [hse] using hno

theorem second_join_ignored :
    ∃ s, (client sampleEnv).Reachable (OneImport sampleEnv) s
      ∧ Event.stored (literal "x") (literal "k1") ∈ s.history
      ∧ s.peerKeys.lookup (literal "x") = some (literal "k1") := by
  obtain ⟨s, hrch, hend⟩ := System.Reachable.exists_of_run oneImportCheck
    [.deliver (literal "x") (sampleJoin "k1") 0, .deliver (literal "y") (sampleJoin "k3") 0,
      .resume 0 0, .deliver (literal "x") (sampleJoin "k2") 0, .resume 1 0]
    (fun s : State Int Text => decide (Event.stored (literal "x") (literal "k1") ∈ s.history))
    (fun _ _ => oneImport_of_check) (client_reachable_new sampleEnv) (by decide)
  have hsto := of_decide_eq_true hend
  exact ⟨s, hrch, hsto, pinned_key_never_changes sampleEnv s hrch _ _ (.inl hsto)⟩

/--
**A second join replaces the pinned key.** Two joins of one peer wait for their imports at
the same time: each has found no key stored, and each stores its own.
-/
theorem second_join_replaces_key :
    ∃ s, (client sampleEnv).Reachable (fun _ _ => True) s
      ∧ Event.stored (literal "x") (literal "k1") ∈ s.history
      ∧ s.peerKeys.lookup (literal "x") = some (literal "k2") := by
  exact (client_reachable_new sampleEnv).exists_after
    [.deliver (literal "x") (sampleJoin "k1") 0, .deliver (literal "x") (sampleJoin "k2") 0,
      .resume 0 0, .resume 1 0]
    (fun s => .stored (literal "x") (literal "k1") ∈ s.history
      ∧ s.peerKeys.lookup (literal "x") = some (literal "k2")) (by decide)

end VulosRelay.Client.Signaling
