import VulosRelay.Lib.History
import VulosRelay.Proof.SignalMoves

/-!
# Where accepted signatures and dispatched frames come from

Every key that a check is made with was stored for the peer before; every signature that
was accepted has verified over the bytes that its kind of check rebuilds; and with
`requirePeerAuth` every offer, answer or ice frame that was dispatched has passed the
filters, the signature check and the freshness check. `EventOk` says so of one event and its
past, `Waits` says what a call knows while it waits, and `Traced` says both of a state,
for payloads that all meet a condition `good`.
-/

namespace VulosRelay.Client.Signaling

open JsText Json

variable {N Key : Type}

section Statements

variable (env : Env N Key) (good : Value N → Prop)

/-- Every payload that is delivered meets the condition. -/
def Delivers (_ : State N Key) : Action N → Prop
  | .deliver _ p _ => good p
  | _ => True

/-- The bytes that a check of each kind is made over. -/
def CheckedAs (peer : Text) (bytes : List UInt8) : Kind → Prop
  | .frame => ∃ p, isFrame p = true ∧ (field p "nonce").isSome = true
      ∧ bytes = bytesOf env (frameMessage peer p)
  | .join => ∃ p, bytes = bytesOf env (joinMessage peer p)
  | .deposit => ∃ nonce blob epk, bytes = bytesOf env (canonicalDeposit (some (.str env.peerId))
      (some (.str peer)) (some nonce) (some blob) (some epk))
  | .preKey => bytes.length = 32 ∨ ∃ p spk pub, good p ∧ isType p "join" = true
      ∧ field p "signedPreKey" = some spk ∧ field spk "pub" = some (.str pub)
      ∧ env.atob pub = some bytes

/-- A frame has passed everything that `_processSignal` asks of it. -/
def Vetted (sender : Text) (p : Value N) (now : Int) (past : List (Event N Key)) : Prop :=
  good p ∧ passes env p = true ∧ (field p "nonce").isSome = true
  ∧ fresh env (field p "ts") now = true
  ∧ ∃ key, .stored sender key ∈ past ∧ verifySig env key (frameMessage sender p) p = true

/-- What an event says of its past. -/
def EventOk : Event N Key → List (Event N Key) → Prop
  | .accepted peer kind bytes, past =>
    ∃ key sig, .stored peer key ∈ past ∧ env.verify key bytes sig = true
      ∧ CheckedAs env good peer bytes kind
  | .pinned peer pub, past =>
    ∃ bytes, env.atob pub = some bytes ∧ .accepted peer .preKey bytes ∈ past
  | .dispatched sender p now, past =>
    isFrame p = true → env.requirePeerAuth = true → Vetted env good sender p now past
  | _, _ => True

/-- What a call knows while it waits. -/
def Waits (history : List (Event N Key)) (sender : Text) (p : Value N) : Pc N Key → Prop
  | .joinImport => good p ∧ passes env p = true
  | .preKeyVerify check => (good p ∧ passes env p = true) ∧ .stored sender check.key ∈ history
      ∧ env.atob check.preKey.pub = some check.bytes ∧ isType p "join" = true
      ∧ ∃ spk, field p "signedPreKey" = some spk
        ∧ field spk "pub" = some (.str check.preKey.pub)
  | .joinVerify key => (good p ∧ passes env p = true) ∧ .stored sender key ∈ history
  | .frameImport => (good p ∧ passes env p = true) ∧ isFrame p = true
  | .frameVerify key => (good p ∧ passes env p = true) ∧ isFrame p = true
      ∧ (field p "nonce").isSome = true ∧ .stored sender key ∈ history
  | .claimVerify check => .stored sender check.key ∈ history
      ∧ env.atob check.preKey.pub = some check.bytes ∧ check.bytes.length = 32

/-- What holds of the registries and the history. -/
structure Traced (s : State N Key) : Prop where
  keys : ∀ peer key, s.peerKeys.lookup peer = some key → .stored peer key ∈ s.history
  preKeys : ∀ peer spk, s.peerSignedPreKeys.lookup peer = some spk →
    ∃ bytes, env.atob spk.pub = some bytes ∧ .accepted peer .preKey bytes ∈ s.history
  events : History.Each (EventOk env good) s.history

/-- The outcome of a section: everything is traced, and the call knows what it waits for. -/
structure Outcome (s : State N Key) (sender : Text) (p : Value N) (s' : State N Key)
    (pc : Option (Pc N Key)) : Prop where
  traced : Traced env good s'
  grows : ∀ event ∈ s.history, event ∈ s'.history
  others : s'.threads = s.threads
  waits : ∀ next, pc = some next → Waits env good s'.history sender p next

end Statements

variable {env : Env N Key} {good : Value N → Prop} {s s' s'' : State N Key} {sender : Text}
  {p : Value N} {now : Int}

theorem Waits.mono (hgr : ∀ event ∈ history, event ∈ history')
    (h : Waits env good history sender p pc) :
    Waits env good history' sender p pc := by
  cases pc with
  | joinImport => exact h
  | preKeyVerify check => exact ⟨h.1, hgr _ h.2.1, h.2.2⟩
  | joinVerify key => exact ⟨h.1, hgr _ h.2⟩
  | frameImport => exact h
  | frameVerify key => exact ⟨h.1, h.2.1, h.2.2.1, hgr _ h.2.2.2⟩
  | claimVerify check => exact ⟨hgr _ h.1, h.2⟩

section

variable (hs : Traced env good s)

include hs

theorem traced_record (event : Event N Key) (hev : EventOk env good event s.history) :
    Traced env good (s.record event) where
  keys := fun peer key hkey => .tail _ (hs.keys peer key hkey)
  preKeys := by
    intro peer spk hspk
    obtain ⟨bytes, hby, hacc⟩ := hs.preKeys peer spk hspk
    exact ⟨bytes, hby, .tail _ hacc⟩
  events := ⟨hev, hs.events⟩

theorem traced_storeKey (peer : Text) (key : Key) :
    Traced env good (s.storeKey peer key) where
  keys := by
    intro other key' hkey
    by_cases hoth : other = peer
    · rw [hoth] at hkey ⊢
      rw [State.storeKey, Finmap.lookup_insert] at hkey
      cases hkey
      exact .head _
    · rw [State.storeKey, Finmap.lookup_insert_of_ne _ hoth] at hkey
      exact .tail _ (hs.keys other key' hkey)
  preKeys := by
    intro other spk hspk
    obtain ⟨bytes, hby, hacc⟩ := hs.preKeys other spk hspk
    exact ⟨bytes, hby, .tail _ hacc⟩
  events := ⟨trivial, hs.events⟩

theorem traced_storePreKey (hwt : Waits env good s.history sender p (.preKeyVerify check))
    (hvr : env.verify check.key check.bytes (.str check.preKey.sig) = true) :
    Traced env good (storePreKey s sender check) := by
  obtain ⟨⟨hgd, -⟩, hsto, hby, hjn, spk, hspk, hpub⟩ := hwt
  have hacc : EventOk env good (.accepted sender .preKey check.bytes) s.history :=
    ⟨check.key, .str check.preKey.sig, hsto, hvr,
      .inr ⟨p, spk, check.preKey.pub, hgd, hjn, hspk, hpub, hby⟩⟩
  exact {
    keys := fun peer key hkey =>
      .tail _ (.tail _ (hs.keys peer key hkey))
    preKeys := by
      intro other spk' hspk'
      have hins : (s.peerSignedPreKeys.insert sender check.preKey).lookup other = some spk' :=
        hspk'
      by_cases hoth : other = sender
      · rw [hoth] at hins ⊢
        rw [Finmap.lookup_insert] at hins
        cases hins
        exact ⟨check.bytes, hby, .tail _ (.head _)⟩
      · rw [Finmap.lookup_insert_of_ne _ hoth] at hins
        obtain ⟨bytes, hat, hold⟩ := hs.preKeys other spk' hins
        exact ⟨bytes, hat, .tail _ (.tail _ hold)⟩
    events := ⟨⟨check.bytes, hby, .head _⟩, hacc, hs.events⟩ }

theorem outcome_record (hev : EventOk env good event s.history)
    (hwt : ∀ next, pc = some next → Waits env good (event :: s.history) sender p next) :
    Outcome env good s sender p (s.record event) pc where
  traced := traced_record hs event hev
  grows := fun _ hmem => .tail _ hmem
  others := rfl
  waits := hwt

end

theorem Outcome.after (h : Outcome env good s' sender p s'' pc)
    (hgr : ∀ event ∈ s.history, event ∈ s'.history) (hoth : s'.threads = s.threads) :
    Outcome env good s sender p s'' pc where
  traced := h.traced
  grows := fun event hmem => h.grows event (hgr event hmem)
  others := h.others.trans hoth
  waits := h.waits

theorem outcome_ran (hs : Traced env good s) (hgd : good p) (hps : passes env p = true)
    (h : Ran env s sender p now s' pc) :
    Outcome env good s sender p s' pc := by
  cases h with
  | dropped => exact ⟨hs, fun _ hmem => hmem, rfl, nofun⟩
  | dispatched hat =>
    refine outcome_record hs (fun hfr hreq => ?_) nofun
    rw [hat hfr] at hreq
    cases hreq
  | importing hfr _ =>
    refine ⟨hs, fun _ hmem => hmem, rfl, fun next h => ?_⟩
    cases h
    exact ⟨⟨hgd, hps⟩, hfr⟩
  | @checking key pc hkey hch =>
    have hsto : Event.stored sender key ∈ Event.checked sender key :: s.history :=
      .tail _ (hs.keys sender key hkey)
    refine outcome_record hs trivial fun next h => ?_
    cases h
    cases hch with
    | preKey hjn hspk hpub hby hsm =>
      exact ⟨⟨hgd, hps⟩, hsm ▸ hsto, hby, hjn, _, hspk, hpub⟩
    | join => exact ⟨⟨hgd, hps⟩, hsto⟩
    | frame hfr hnc => exact ⟨⟨hgd, hps⟩, hfr, hnc, hsto⟩

theorem outcome_boxSection (hs : Traced env good s) (sender : Text) (now : Int) (hgd : good p)
    (hps : passes env p = true) :
    Outcome env good s sender p (boxSection env s sender p now).1
      (boxSection env s sender p now).2 := by
  obtain ⟨boxKeys, heq⟩ := keepBoxKey_eq env s sender p
  have hkp : Traced env good (keepBoxKey env s sender p) := by
    rw [heq]
    exact ⟨hs.keys, hs.preKeys, hs.events⟩
  refine (outcome_ran hkp hgd hps ran_preKeySection).after ?_ ?_
  · rw [heq]
    exact fun _ hmem => hmem
  · rw [heq]

theorem outcome_start (hs : Traced env good s) (sender : Text) (now : Int) (hgd : good p) :
    Outcome env good s sender p (start env s sender p now).1 (start env s sender p now).2 := by
  rw [start]
  split
  · rename_i hps
    split
    · refine ⟨hs, fun _ hmem => hmem, rfl, fun next h => ?_⟩
      cases h
      exact ⟨hgd, hps⟩
    · exact outcome_boxSection hs sender now hgd hps
  · exact ⟨hs, fun _ hmem => hmem, rfl, by simp⟩

theorem verify_of_verifySig (h : verifySig env key message p = true) :
    ∃ sig, env.verify key (bytesOf env message) sig = true := by
  rw [verifySig, Option.any_eq_true_iff_get] at h
  obtain ⟨hsm, hver⟩ := h
  exact ⟨_, hver⟩

section

variable (hs : Traced env good s)

include hs

theorem traced_settleJoin (p : Value N) (now : Int) (hsto : Event.stored sender key ∈ s.history) :
    Traced env good (settleJoin env s sender p now key) := by
  rw [settleJoin]
  split
  · rename_i hval
    obtain ⟨sig, hver⟩ := verify_of_verifySig hval
    have hacc := traced_record hs (.accepted sender .join
      (bytesOf env (joinMessage sender p))) ⟨key, sig, hsto, hver, p, rfl⟩
    split
    · exact ⟨hacc.keys, hacc.preKeys, hacc.events⟩
    · exact hacc
  · exact hs

theorem outcome_settleFrame (hwt : Waits env good s.history sender p (.frameVerify key)) :
    Outcome env good s sender p (settleFrame env s sender p now key) none := by
  obtain ⟨⟨hgd, hps⟩, hfr, hnc, hsto⟩ := hwt
  rw [settleFrame]
  split
  · rename_i hval
    obtain ⟨sig, hver⟩ := verify_of_verifySig hval
    have hacc := traced_record hs (.accepted sender .frame (bytesOf env (frameMessage sender p)))
      ⟨key, sig, hsto, hver, p, hfr, hnc, rfl⟩
    split
    · rename_i hfrs
      rw [Bool.and_eq_true] at hfrs
      have hrm : Traced env good ((s.record (.accepted sender .frame
          (bytesOf env (frameMessage sender p)))).remember (nonceKeyOf env sender p)) :=
        ⟨hacc.keys, hacc.preKeys, hacc.events⟩
      have hvt : Vetted env good sender p now (.accepted sender .frame
          (bytesOf env (frameMessage sender p)) :: s.history) :=
        ⟨hgd, hps, hnc, hfrs.1, key, .tail _ hsto, hval⟩
      have hds := traced_record hrm (.dispatched sender p now)
        fun _ _ => hvt
      refine ⟨hds, fun _ hmem => ?_, rfl, by simp⟩
      exact .tail _ (.tail _ hmem)
    · refine ⟨hacc, fun _ hmem => ?_, rfl, by simp⟩
      exact .tail _ hmem
  · exact ⟨hs, fun _ hmem => hmem, rfl, by simp⟩

theorem outcome_settleClaim (hwt : Waits env good s.history sender p (.claimVerify check)) :
    Outcome env good s sender p (settleClaim env s sender check) none := by
  obtain ⟨hsto, hby, hsz⟩ := hwt
  rw [settleClaim]
  split
  · rename_i hvr
    have hpin : Traced env good (s.pin sender) := ⟨hs.keys, hs.preKeys, hs.events⟩
    have hacc := traced_record hpin (.accepted sender .preKey check.bytes)
      ⟨check.key, _, hsto, hvr, .inl hsz⟩
    have hrec := traced_record hacc (.pinned sender check.preKey.pub)
      ⟨check.bytes, hby, .head _⟩
    refine ⟨hrec, fun _ hmem => ?_, rfl, by simp⟩
    exact .tail _ (.tail _ hmem)
  · exact ⟨hs, fun _ hmem => hmem, rfl, by simp⟩

theorem outcome_resume (hwt : Waits env good s.history sender p pc) :
    Outcome env good s sender p (resume env s sender p now pc).1
      (resume env s sender p now pc).2 := by
  cases pc with
  | joinImport =>
    rw [resume]
    split
    · rename_i key hkey
      have hsto := traced_storeKey hs sender key
      have hout := outcome_boxSection hsto sender now hwt.1 hwt.2
      exact hout.after (fun _ hmem => .tail _ hmem) rfl
    · exact outcome_boxSection hs sender now hwt.1 hwt.2
  | preKeyVerify check =>
    rw [resume]
    split
    · rename_i hvr
      have hsto := traced_storePreKey hs hwt hvr
      refine (outcome_ran hsto hwt.1.1 hwt.1.2 ran_joinSection).after
        (fun _ hmem => ?_) rfl
      exact .tail _ (.tail _ hmem)
    · exact outcome_ran hs hwt.1.1 hwt.1.2 ran_joinSection
  | joinVerify key =>
    have hqt : Quiet s (settleJoin env s sender p now key) := quiet_settleJoin key
    have hset := traced_settleJoin hs p now hwt.2
    exact (outcome_ran hset hwt.1.1 hwt.1.2 ran_frameSection).after
      (fun _ hmem => hqt.grows.history.mem hmem) hqt.threads
  | frameImport =>
    rw [resume]
    split
    · rename_i key hkey
      have hsto := traced_storeKey hs sender key
      exact (outcome_ran hsto hwt.1.1 hwt.1.2
        (ran_checkFrame hwt.2 (lookup_storeKey s sender key))).after
        (fun _ hmem => .tail _ hmem) rfl
    · exact outcome_ran hs hwt.1.1 hwt.1.2
        (ran_checkFrame hwt.2 (by simp))
  | frameVerify key => exact outcome_settleFrame hs hwt
  | claimVerify check => exact outcome_settleClaim hs hwt

theorem outcome_startClaim (peer : Text) (spk : Value N) :
    Outcome env good s peer .null (startClaim env s peer spk).1 (startClaim env s peer spk).2 := by
  rw [startClaim]
  split
  · rename_i check hchk
    obtain ⟨hkey, -, hby⟩ := preKeyOf_eq_some hchk
    split
    · rename_i hsz
      refine outcome_record hs trivial fun next h => ?_
      cases h
      exact ⟨.tail _ (hs.keys peer check.key hkey), hby, hsz⟩
    · exact ⟨hs, fun _ hmem => hmem, rfl, by simp⟩
  · exact ⟨hs, fun _ hmem => hmem, rfl, by simp⟩

theorem outcome_verifyDeposit (peer : Text) (nonce blob epk sig : Value N) :
    Outcome env good s peer .null (verifyDeposit env s peer nonce blob epk sig) none := by
  rw [verifyDeposit]
  split
  · exact ⟨hs, fun _ hmem => hmem, rfl, by simp⟩
  rename_i key hkey
  have hchk := traced_record hs (.checked peer key) trivial
  split
  · rename_i hvr
    have hsto := List.mem_cons_of_mem (Event.checked peer key)
      (hs.keys peer key hkey)
    have hacc := traced_record hchk (.accepted peer .deposit _)
      ⟨key, sig, hsto, hvr, nonce, blob, epk, rfl⟩
    refine ⟨hacc, fun _ hmem => ?_, rfl, by simp⟩
    exact .tail _ (.tail _ hmem)
  · refine ⟨hchk, fun _ hmem => ?_, rfl, by simp⟩
    exact .tail _ hmem

end

/-- The invariant: everything is traced, and every call knows what it waits for. -/
structure Tracked (env : Env N Key) (good : Value N → Prop) (s : State N Key) : Prop where
  traced : Traced env good s
  waiting : ∀ n t, s.threads.lookup n = some t → Waits env good s.history t.sender t.p t.pc

theorem tracked_park (hwt : ∀ n t, s.threads.lookup n = some t →
      Waits env good s.history t.sender t.p t.pc) (h : Outcome env good s sender p s' pc) :
    Tracked env good (s'.park n sender p pc) := by
  obtain ⟨threads, heq⟩ := park_eq s' n sender p pc
  have hhs : (s'.park n sender p pc).history = s'.history := by rw [heq]
  refine ⟨?_, fun m t ht => ?_⟩
  · rw [heq]
    exact ⟨h.traced.keys, h.traced.preKeys, h.traced.events⟩
  rw [hhs]
  rcases lookup_park ht with ⟨-, hpc, hsnd, hp⟩ | ⟨-, hoth⟩
  · rw [hsnd, hp]
    exact h.waits t.pc hpc
  · rw [h.others] at hoth
    exact (hwt m t hoth).mono h.grows

theorem tracked_step (hs : Tracked env good s) (hok : Delivers good s action)
    (h : step env s action = some s') :
    Tracked env good s' := by
  have hnum : Traced env good { s with next := s.next + 1 } :=
    ⟨hs.traced.keys, hs.traced.preKeys, hs.traced.events⟩
  cases action with
  | deliver sender p now =>
    cases h
    have hout := outcome_start hnum sender now hok
    exact tracked_park hs.waiting (hout.after (fun _ hmem => hmem) rfl)
  | resume n now =>
    obtain ⟨t, ht, hs'⟩ := Option.map_eq_some_iff.mp h
    rw [← hs']
    exact tracked_park hs.waiting (outcome_resume hs.traced (hs.waiting n t ht))
  | claim peer spk =>
    cases h
    have hout := outcome_startClaim hnum peer spk
    exact tracked_park hs.waiting (hout.after (fun _ hmem => hmem) rfl)
  | deposit peer nonce blob epk sig =>
    cases h
    have hout := outcome_verifyDeposit hs.traced peer nonce blob epk sig
    refine ⟨hout.traced, fun m t ht => ?_⟩
    rw [hout.others] at ht
    exact (hs.waiting m t ht).mono hout.grows

/-- **Everything is traced in every run** that delivers only payloads that meet the condition. -/
theorem traced_reachable (h : (client env).Reachable (Delivers good) s) : Traced env good s := by
  refine (h.invariant (P := Tracked env good) (fun s hin => ?_)
    fun s action s' hs hok hst => tracked_step hs hok hst).traced
  rw [hin]
  have hemp : ∀ n t, (State.new : State N Key).threads.lookup n = some t →
      Waits env good (State.new : State N Key).history t.sender t.p t.pc := by
    intro n t ht
    cases ht
  refine ⟨⟨fun peer key hkey => ?_, fun peer spk hspk => ?_, trivial⟩, hemp⟩
  · cases hkey
  · cases hspk

end VulosRelay.Client.Signaling
