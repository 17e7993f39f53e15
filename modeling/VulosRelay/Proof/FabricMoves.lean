import VulosRelay.Client.Fabric

/-!
# What the calls of the fabric client do

`Progress` lists what a call of `_relayDeposit` does from one `await` to the next, and
`AtSeal` how it comes to the seal: with which signed prekey, and in which state of the
signaling client. Whatever a step of the client does, the signaling client inside it stands
still or takes one step of its own (`signals_step`), so what is known of the signaling client
on its own holds of it here.
-/

namespace VulosRelay.Client.Fabric

open JsText Json Signaling RelayBox X3dh Option State

variable {N Key : Type} {env : Env N Key}

/-- The claim has no signed prekey to verify. -/
def noPreKey (env : Env N Key) (claim : Js N) : Prop :=
  truthy env (claim.bind (field · "signed_prekey")) = false

/-- A call comes to the seal: the signaling client, the job, the signed prekey and the claim. -/
inductive AtSeal (env : Env N Key) (s : Signaling.State N Key) (answer : Answer N) :
    SendPc N Key → Signaling.State N Key → Job N → Option (SignedPreKey N) → Js N → Prop where
  | stored {job : Job N} {k : SignedPreKey N} :
      AtSeal env s answer (.claiming job (some k)) s job (some k) answer.claim
  | bare {job : Job N} : noPreKey env answer.claim →
      AtSeal env s answer (.claiming job none) s job none answer.claim
  | refused {job : Job N} {claim : Js N} :
      AtSeal env s answer (.verifying job claim none) s job none claim
  | checked {job : Job N} {claim : Js N} {n : Nat} {check : PreKeyCheck N Key}
      {s' : Signaling.State N Key} : Signaling.step env.signaling s (.resume n 0) = some s' →
      AtSeal env s answer (.verifying job claim (some (n, check))) s' job
        (if env.verify check.key check.bytes (.str check.preKey.sig) then some check.preKey
          else none) claim

inductive Progress (env : Env N Key) (s : Signaling.State N Key) (call : Nat) (recipient : Text)
    (answer : Answer N) : SendPc N Key → Moved N Key → Prop where
  | begins {data : Datum N} {job : Option (Job N)} :
      Progress env s call recipient answer (.keys data) ⟨s, [], job.map .preKeys⟩
  | reads {job : Job N} : Progress env s call recipient answer (.preKeys job)
      ⟨s, [], some (.claiming job (s.peerSignedPreKeys.lookup recipient))⟩
  | checks {job : Job N} {spk : Value N} {check : PreKeyCheck N Key}
      {s' : Signaling.State N Key} :
      startClaim env.signaling { s with next := s.next + 1 } recipient spk
        = (s', some (.claimVerify check)) →
      Progress env s call recipient answer (.claiming job none)
        ⟨s'.park s.next recipient .null (some (.claimVerify check)), [],
          some (.verifying job answer.claim (some (s.next, check)))⟩
  | refuses {job : Job N} {spk : Value N} {s' : Signaling.State N Key} :
      startClaim env.signaling { s with next := s.next + 1 } recipient spk = (s', none) →
      Progress env s call recipient answer (.claiming job none)
        ⟨s'.park s.next recipient .null none, [], some (.verifying job answer.claim none)⟩
  | seals {pc : SendPc N Key} {s' : Signaling.State N Key} {job : Job N}
      {spk : Option (SignedPreKey N)} {claim : Js N} : AtSeal env s answer pc s' job spk claim →
      Progress env s call recipient answer pc
        (sealSection env s' call recipient job spk claim answer.draws)
  | skips {blob : Text} : Progress env s call recipient answer (.signing blob) ⟨s, [], none⟩
  | deposits {blob : Text} : Progress env s call recipient answer (.signing blob)
      ⟨s, [.deposited call (envelopeOf env recipient blob answer.nonce answer.sig)], none⟩

variable {s : Signaling.State N Key} {call : Nat} {recipient : Text} {answer : Answer N}

theorem resumeSend_atSeal (h : AtSeal env s answer pc s' job spk claim) :
    resumeSend env s call recipient answer pc
      = some (sealSection env s' call recipient job spk claim answer.draws) := by
  cases h with
  | stored => rfl
  | bare hno =>
    rw [resumeSend, claimSection.eq_def]
    cases hspk : answer.claim.bind (field · "signed_prekey") with
    | none => rfl
    | some spk =>
      rw [noPreKey, hspk] at hno
      dsimp only
      rw [if_neg (Bool.eq_false_iff.mp hno)]
  | refused => rfl
  | checked hst => exact map_eq_some_iff.mpr ⟨_, hst, rfl⟩

theorem startClaim_cases {env : Signaling.Env N Key} {s : Signaling.State N Key} {peer : Text}
    {spk : Value N} : (∃ s' check, startClaim env s peer spk = (s', some (.claimVerify check)))
      ∨ ∃ s', startClaim env s peer spk = (s', none) := by
  rw [startClaim]
  split
  · split
    · exact .inl ⟨_, _, rfl⟩
    · exact .inr ⟨s, rfl⟩
  · exact .inr ⟨s, rfl⟩

theorem progress_claim :
    Progress env s call recipient answer (.claiming job spk)
      (claimSection env s call recipient job spk answer) := by
  cases spk with
  | some k => exact .seals .stored
  | none =>
    rw [claimSection.eq_def]
    cases hspk : answer.claim.bind (field · "signed_prekey") with
    | none =>
      have hno : noPreKey env answer.claim := by rw [noPreKey, hspk]; rfl
      exact .seals (.bare hno)
    | some spk =>
      dsimp only
      by_cases htr : truthy env (some spk) = true
      · rw [if_pos htr]
        rcases startClaim_cases with
          ⟨s', check, hst⟩ | ⟨s', hst⟩
        · rw [hst]
          exact .checks hst
        · rw [hst]
          exact .refuses hst
      · rw [if_neg htr]
        have hno : noPreKey env answer.claim := by
          rw [noPreKey, hspk]
          exact Bool.eq_false_iff.mpr htr
        exact .seals (.bare hno)

theorem progress_resumeSend (h : resumeSend env s call recipient answer pc = some moved) :
    Progress env s call recipient answer pc moved := by
  cases pc with
  | keys data =>
    cases h
    exact .begins
  | preKeys job =>
    cases h
    exact .reads
  | claiming job spk =>
    cases h
    exact progress_claim
  | verifying job claim check =>
    cases check with
    | none =>
      cases h
      exact .seals .refused
    | some check =>
      obtain ⟨s', hst, hmv⟩ := map_eq_some_iff.mp h
      rw [← hmv]
      exact .seals (.checked hst)
  | signing blob =>
    rw [resumeSend] at h
    split at h
    · cases h
      exact .skips
    · cases h
      exact .deposits

theorem sealSection_signaling (env : Env N Key) (s : Signaling.State N Key) (call : Nat)
    (recipient : Text) (job : Job N) (spk : Option (SignedPreKey N)) (claim : Js N)
    (draws : Draws) : (sealSection env s call recipient job spk claim draws).signaling = s := by
  rw [sealSection]
  split <;> rfl

inductive Signals (env : Env N Key) (s : Signaling.State N Key) : Signaling.State N Key → Prop where
  | still : Signals env s s
  | step {action : Signaling.Action N} {s' : Signaling.State N Key} :
      Signaling.step env.signaling s action = some s' → Signals env s s'

theorem signals_claim
    (h : startClaim env.signaling { s with next := s.next + 1 } recipient spk = (s', pc)) :
    Signals env s (s'.park s.next recipient .null pc) := by
  have hst : Signaling.step env.signaling s (.claim recipient spk)
      = some (s'.park s.next recipient .null pc) := by
    rw [Signaling.step, h]
  exact .step hst

theorem signals_progress (h : Progress env s call recipient answer pc moved) :
    Signals env s moved.signaling := by
  cases h with
  | begins | reads | skips | deposits => exact .still
  | checks hst | refuses hst => exact signals_claim hst
  | seals hsl =>
    rw [sealSection_signaling]
    cases hsl with
    | stored | bare _ | refused => exact .still
    | checked hstp => exact .step hstp

theorem signals_verifyPeerSig :
    Signals env s (verifyPeerSig env s blob).1 := by
  rw [verifyPeerSig]
  split
  · rename_i sender nonce b64 epk sig _ _ _ _ _
    have hst : Signaling.step env.signaling s (.deposit sender nonce b64 epk sig)
        = some (verifyDeposit env.signaling s sender nonce b64 epk sig) := rfl
    exact .step hst
  · exact .still

theorem signals_startBlob (env : Env N Key) (s : Signaling.State N Key) (blob : Value N) :
    Signals env s (startBlob env s blob).1 := by
  rw [startBlob]
  split
  · exact .still
  split
  · exact signals_verifyPeerSig
  split <;> exact .still

/-- An event that is not about a key. -/
def Minor : Event N → Prop
  | .message .. | .channelSent .. | .acked .. => True
  | _ => False

def AddsMinor (history history' : List (Event N)) : Prop :=
  ∃ added, history' = added ++ history ∧ ∀ event ∈ added, Minor event

theorem AddsMinor.refl (history : List (Event N)) : AddsMinor history history :=
  ⟨[], rfl, fun _ hmem => absurd hmem List.not_mem_nil⟩

theorem AddsMinor.cons (event : Event N) (hmn : Minor event) (history : List (Event N)) :
    AddsMinor history (event :: history) :=
  ⟨[event], rfl, fun _ hmem => List.mem_singleton.mp hmem ▸ hmn⟩

/-- What a step does to the signaling client, the prekeys, the sends and the history. -/
inductive Stepped (env : Env N Key) (s s' : State N Key) : Prop where
  | signals : Signals env s.signaling s'.signaling → s'.preKeys = s.preKeys →
      s'.sends = s.sends → AddsMinor s.history s'.history → Stepped env s s'
  | sends {peer : Text} {data : Datum N} : s'.signaling = s.signaling →
      s'.preKeys = s.preKeys → s'.sends = s.sends.insert s.nextCall ⟨peer, .keys data⟩ →
      s'.history = s.history → Stepped env s s'
  | moves {n : Nat} {recipient : Text} {answer : Answer N} {pc : SendPc N Key}
      {moved : Moved N Key} : s.sends.lookup n = some ⟨recipient, pc⟩ →
      Progress env s.signaling n recipient answer pc moved →
      s' = s.moveSend n recipient moved → Stepped env s s'
  | opens {blob : Value N} {plaintext : Bytes} {opkId : Js N} :
      openBlob env s.preKeys blob = .ok (some (plaintext, opkId)) →
      s'.signaling = s.signaling → s'.preKeys = s.preKeys.consumeOneTimePreKey opkId →
      s'.sends = s.sends → AddsMinor (.opened opkId :: s.history) s'.history → Stepped env s s'

variable {t t' : State N Key}

theorem adopt_eq (t : State N Key) (sender : Js N) :
    ∃ peers, t.adopt sender = { t with peers := peers } := by
  rw [adopt.eq_def]
  split
  · split
    · exact ⟨_, rfl⟩
    · exact ⟨_, rfl⟩
    · exact ⟨t.peers, rfl⟩
  · exact ⟨t.peers, rfl⟩

theorem stepped_finishBlob : Stepped env t (t.finishBlob env n blob rest ackIds) := by
  rw [finishBlob.eq_def]
  split
  · rename_i plaintext opkId hop
    rw [deliver.eq_def]
    split
    · exact .opens hop rfl rfl rfl (.refl _)
    obtain ⟨peers, had⟩ := adopt_eq (record
      { t with preKeys := t.preKeys.consumeOneTimePreKey opkId } (.opened opkId))
      (field blob "from")
    dsimp only
    rw [had]
    exact .opens hop rfl rfl rfl (.cons (.message _ _) trivial _)
  · exact .signals .still rfl rfl (.refl _)

theorem stepped_resumePoll :
    Stepped env t (t.resumePoll env n poll) := by
  rw [resumePoll.eq_def]
  split
  · rw [endPoll]
    split
    · exact .signals .still rfl rfl (.refl _)
    · exact .signals .still rfl rfl (.cons (.acked _) trivial _)
  · rename_i blob rest ackIds
    have hsg := signals_startBlob env t.signaling blob
    rw [beginBlob.eq_def]
    split
    · rename_i signaling pc hst
      rw [hst] at hsg
      exact .signals hsg rfl rfl (.refl _)
    rename_i signaling hst
    rw [hst] at hsg
    exact .signals hsg rfl rfl (.refl _)
  · split <;> exact .signals .still rfl rfl (.refl _)
  · exact stepped_finishBlob

theorem stepped_sendToPeer {channelOpen : Bool} :
    Stepped env t (t.sendToPeer peer data channelOpen) := by
  rw [sendToPeer.eq_def]
  split
  · split
    · exact .signals .still rfl rfl (.cons (.channelSent _ _) trivial _)
    · exact .signals .still rfl rfl (.refl _)
  · exact .sends rfl rfl rfl rfl
  · exact .signals .still rfl rfl (.refl _)

theorem stepped_step (h : step env t action = some t') : Stepped env t t' := by
  cases action with
  | deliver sender p now =>
    rw [step] at h
    obtain ⟨signaling, hst, ht'⟩ := map_eq_some_iff.mp h
    rw [← ht']
    exact .signals (.step hst) rfl rfl (.refl _)
  | resumeSignal n now =>
    rw [step] at h
    split at h
    · cases h
    obtain ⟨signaling, hst, ht'⟩ := map_eq_some_iff.mp h
    rw [← ht']
    exact .signals (.step hst) rfl rfl (.refl _)
  | setPeer peer phase =>
    cases phase with
    | some phase | none =>
      cases h
      exact .signals .still rfl rfl (.refl _)
  | sendTo peer data channelOpen =>
    cases h
    exact stepped_sendToPeer
  | resumeSend n answer =>
    obtain ⟨send, hsn, hmv⟩ := bind_eq_some_iff.mp h
    obtain ⟨moved, hrsm, ht'⟩ := bind_eq_some_iff.mp hmv
    exact .moves hsn (progress_resumeSend hrsm) (some.inj ht').symm
  | poll blobs =>
    cases h
    exact .signals .still rfl rfl (.refl _)
  | resumePoll n =>
    obtain ⟨poll, hpl, ht'⟩ := map_eq_some_iff.mp h
    rw [← ht']
    exact stepped_resumePoll
  | receive peer data =>
    rw [step] at h
    split at h
    · cases h
      exact .signals .still rfl rfl (.refl _)
    · cases h
      exact .signals .still rfl rfl (.cons (.message _ _) trivial _)

end VulosRelay.Client.Fabric
