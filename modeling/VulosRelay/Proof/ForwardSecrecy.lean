import VulosRelay.Lib.Outcome
import VulosRelay.Proof.CheckedKeys
import VulosRelay.Proof.FabricMoves
import VulosRelay.Proof.RelayRoundTrip

/-!
# Forward secrecy is not lost silently

A pin is never taken back, and from the last `await` of `_sealForPeer` to the seal nothing
else runs. So a call that comes to the seal of a pinned peer without a signed prekey finds
the pin and fails; one that comes with a prekey has it from the registry or from a claim,
and either way the prekey has passed a check with the identity key in force. A deposit is
made by the call that sealed its blob.
-/

namespace VulosRelay.Client.Fabric

open JsText Json Signaling RelayBox X3dh List Finmap Option

variable {N Key : Type}

/-- A blob of the second format whose key comes from a handshake with the signed prekey. -/
def SealedWith (env : Env N Key) (recipient : Text) (k : SignedPreKey N) (blob : Text) : Prop :=
  relayBlobVersion blob = .ok 2
  ∧ ∃ identityPub spkPub opkPub ek ekPub sk plaintext opkId nonce,
    b64ToBytes k.pub = .ok spkPub
    ∧ x3dhInitiate env.platform env.boxPriv identityPub spkPub opkPub (text env.peerId)
        (text recipient) ek = .ok (ekPub, sk)
    ∧ sealRelayBlobV2 env.platform plaintext sk ekPub k.id opkId (text env.peerId)
        (text recipient) (text env.session) nonce = .ok blob

/-- What is asked of an event about a pinned peer, in the state before the event. -/
def Secure (env : Env N Key) (s : State N Key) (peer : Text) : Event N → Prop
  | .sealed _ recipient spk blob => recipient = peer →
      ∃ k, spk = some k ∧ PassedCheck env.signaling s.signaling.history peer k
        ∧ SealedWith env peer k blob
  | .deposited call envelope => envelope.recipient = peer →
      ∃ spk, .sealed call peer spk envelope.blobB64 ∈ s.history
  | _ => True

def SendKnows (env : Env N Key) (checks : List (Signaling.Event N Key)) (history : List (Event N))
    (n : Nat) (recipient : Text) : SendPc N Key → Prop
  | .claiming _ (some k) => PassedCheck env.signaling checks recipient k
  | .verifying _ _ (some (_, check)) => UnderCheck env.signaling checks recipient check
  | .signing blob => ∃ spk, .sealed n recipient spk blob ∈ history
  | _ => True

structure Sound (env : Env N Key) (s : State N Key) : Prop where
  registered : Registered env.signaling s.signaling
  checks : ChecksBegan env.signaling s.signaling
  sends : ∀ n send, s.sends.lookup n = some send →
    SendKnows env s.signaling.history s.history n send.recipient send.pc

variable {env : Env N Key} {s s' : State N Key} {signaling signaling' : Signaling.State N Key}
  {call : Nat} {recipient : Text} {answer : Answer N} {pc : SendPc N Key}

theorem Signals.grows (h : Signals env signaling signaling') : Grows signaling signaling' := by
  cases h with
  | still => exact (Quiet.refl _).grows
  | step hst => exact grows_step hst

theorem Signals.registered (h : Signals env signaling signaling')
    (hreg : Registered env.signaling signaling)
    (hch : ChecksBegan env.signaling signaling) :
    Registered env.signaling signaling' ∧ ChecksBegan env.signaling signaling' := by
  cases h with
  | still => exact ⟨hreg, hch⟩
  | step hst => exact registered_step hreg hch hst

variable {peer : Text}

theorem pinned_grows (h : Grows signaling signaling')
    (hpin : isPeerV2Capable signaling peer = true) :
    isPeerV2Capable signaling' peer = true := by
  obtain ⟨⟨⟩, hlk⟩ := isSome_iff_exists.mp hpin
  exact isSome_iff_exists.mpr ⟨(), h.pins peer hlk⟩

theorem sealedWith_sealV2 (h : sealV2 env recipient job k opk draws = .ok blob) :
    SealedWith env recipient k blob := by
  obtain ⟨identityPub, -, h⟩ := Except.bind_eq_ok.mp h
  obtain ⟨spkPub, hspk, h⟩ := Except.bind_eq_ok.mp h
  obtain ⟨opkPub, -, h⟩ := Except.bind_eq_ok.mp h
  obtain ⟨⟨ekPub, sk⟩, hin, hsl⟩ := Except.bind_eq_ok.mp h
  refine ⟨?_, identityPub, spkPub, opkPub, _, ekPub, sk, _, _, _, hspk, hin, hsl⟩
  have hby := hsl
  dsimp only at hby
  rw [sealRelayBlobV2] at hby
  split at hby
  · cases hby
  cases hby
  exact relayBlobVersion_v2Bytes _ _ _

theorem atSeal_passed (hkn : SendKnows env signaling.history history call recipient pc)
    (h : AtSeal env signaling answer pc signaling' job (some k) claim) :
    PassedCheck env.signaling signaling.history recipient k := by
  generalize hspk : some k = spk at h
  cases h with
  | stored =>
    injection hspk with hspk
    rw [hspk]
    exact hkn
  | bare _ => cases hspk
  | refused => cases hspk
  | checked hst =>
    split at hspk
    · rename_i hvr
      injection hspk with hspk
      rw [hspk]
      exact UnderCheck.passed hkn hvr
    · cases hspk

theorem atSeal_grows (h : AtSeal env signaling answer pc signaling' job spk claim) :
    Grows signaling signaling' := by
  have hpr : Progress env signaling 0 [] answer pc
      (sealSection env signaling' 0 [] job spk claim answer.draws) := .seals h
  have hgr := (signals_progress hpr).grows
  rw [sealSection_signaling] at hgr
  exact hgr

theorem sealForPeer_pinned (hpin : isPeerV2Capable signaling recipient = true)
    (h : sealForPeer env signaling recipient job spk opk draws = .ok blob) :
    ∃ k, spk = some k ∧ SealedWith env recipient k blob := by
  cases spk with
  | some k => exact ⟨k, rfl, sealedWith_sealV2 h⟩
  | none =>
    rw [sealForPeer, if_pos hpin] at h
    cases h

theorem SendKnows.mono (hch : checks <:+ checks') (hhs : history ⊆ history')
    (h : SendKnows env checks history call recipient pc) :
    SendKnows env checks' history' call recipient pc := by
  cases pc with
  | keys data => trivial
  | preKeys job => trivial
  | claiming job spk =>
    cases spk with
    | none => trivial
    | some k => exact PassedCheck.mono hch h
  | verifying job claim check =>
    cases check with
    | none => trivial
    | some check => exact UnderCheck.mono hch h
  | signing blob =>
    obtain ⟨spk, hsl⟩ := h
    exact ⟨spk, hhs hsl⟩

theorem knows_progress {history : List (Event N)} {moved : Moved N Key}
    (hreg : Registered env.signaling signaling)
    (h : Progress env signaling call recipient answer pc moved) {next : SendPc N Key}
    (hnx : moved.pc = some next) :
    SendKnows env moved.signaling.history (moved.events ++ history) call recipient next := by
  cases h with
  | begins =>
    obtain ⟨job, -, hjob⟩ := map_eq_some_iff.mp hnx
    rw [← hjob]
    trivial
  | @reads job =>
    cases hnx
    cases hlk : signaling.peerSignedPreKeys.lookup recipient with
    | none => trivial
    | some k => exact hreg.preKeys recipient k hlk
  | @checks job spk check s' hst =>
    cases hnx
    have hnum : Registered env.signaling { signaling with next := signaling.next + 1 } :=
      hreg.keep rfl rfl (fun _ => rfl) suffix_rfl
    have hchk := (kept_startClaim hnum recipient spk).2
    rw [hst] at hchk
    exact hchk check rfl
  | refuses _ =>
    cases hnx
    trivial
  | @seals _ s' job spk claim hsl =>
    rw [sealSection] at hnx ⊢
    split at hnx
    · rename_i blob hok
      cases hnx
      exact ⟨spk, .head _⟩
    · cases hnx
  | skips => cases hnx
  | deposits => cases hnx

theorem secure_progress (hpin : isPeerV2Capable s.signaling peer = true)
    (hkn : SendKnows env s.signaling.history s.history call recipient pc)
    (h : Progress env s.signaling call recipient answer pc moved) :
    ∀ event ∈ moved.events, Secure env s peer event := by
  intro event hev
  cases h with
  | begins | reads | checks _ | refuses _ | skips => cases hev
  | @seals _ s' job spk claim hsl =>
    rw [sealSection] at hev
    split at hev
    · rename_i blob hok
      rw [mem_singleton.mp hev]
      intro hpr
      rw [← hpr] at hpin ⊢
      obtain ⟨k, rfl, hsld⟩ :=
        sealForPeer_pinned (pinned_grows (atSeal_grows hsl) hpin) hok
      exact ⟨k, rfl, atSeal_passed hkn hsl, hsld⟩
    · cases hev
  | @deposits blob =>
    rw [mem_singleton.mp hev]
    intro hpr
    rw [← hpr]
    exact hkn

theorem sound_step {action : Action N} (hs : Sound env s) (h : step env s action = some s') :
    Sound env s' := by
  cases stepped_step h with
  | signals hsg _ hsn hhs =>
    obtain ⟨hreg, hch⟩ := hsg.registered hs.registered hs.checks
    obtain ⟨added, hadd, -⟩ := hhs
    refine ⟨hreg, hch, fun n send hsnd => ?_⟩
    rw [hsn] at hsnd
    refine (hs.sends n send hsnd).mono hsg.grows.history ?_
    rw [hadd]
    exact subset_append_right added s.history
  | sends hsig _ hsn hhs =>
    refine ⟨hsig ▸ hs.registered, hsig ▸ hs.checks, fun n send hsnd => ?_⟩
    rw [hsn] at hsnd
    rw [hsig, hhs]
    by_cases hn : n = s.nextCall
    · rw [hn, lookup_insert] at hsnd
      cases hsnd
      trivial
    · rw [lookup_insert_of_ne _ hn] at hsnd
      exact hs.sends n send hsnd
  | @moves m recipient answer pc moved hsnd hpr hs' =>
    have hsg := signals_progress hpr
    obtain ⟨hreg, hch⟩ := hsg.registered hs.registered hs.checks
    rw [hs']
    refine ⟨hreg, hch, fun n send hlk => ?_⟩
    have hold : ∀ n send, s.sends.lookup n = some send → SendKnows env moved.signaling.history
        (moved.events ++ s.history) n send.recipient send.pc := fun n send h =>
      (hs.sends n send h).mono hsg.grows.history
        (subset_append_right moved.events s.history)
    rw [State.moveSend] at hlk
    by_cases hn : n = m
    · rw [hn] at hlk ⊢
      split at hlk
      · rename_i next hnx
        rw [lookup_insert] at hlk
        cases hlk
        exact knows_progress hs.registered hpr hnx
      · rw [lookup_erase] at hlk
        cases hlk
    · split at hlk
      · rw [lookup_insert_of_ne _ hn] at hlk
        exact hold n send hlk
      · rw [lookup_erase_ne hn] at hlk
        exact hold n send hlk
  | opens _ hsig _ hsn hhs =>
    obtain ⟨added, hadd, -⟩ := hhs
    refine ⟨hsig ▸ hs.registered, hsig ▸ hs.checks, fun n send hsnd => ?_⟩
    rw [hsn] at hsnd
    rw [hsig, hadd]
    refine (hs.sends n send hsnd).mono suffix_rfl fun event hmem => ?_
    exact mem_append_right _ (.tail _ hmem)

theorem sound_reachable (hrch : (fabric env).Reachable (fun _ _ => True) s) : Sound env s := by
  refine hrch.invariant (fun s hs => ?_) fun s a s' hs _ hst => ?_
  · obtain ⟨_, _, _, _, preKeys, -, rfl⟩ := hs
    exact ⟨registered_new.1, registered_new.2, nofun⟩
  · have hst' : step env s a = some s' := hst
    exact sound_step hs hst'

theorem pinned_step (hpin : isPeerV2Capable s.signaling peer = true)
    (h : step env s action = some s') :
    isPeerV2Capable s'.signaling peer = true := by
  cases stepped_step h with
  | signals hsg _ _ _ => exact pinned_grows hsg.grows hpin
  | sends hsig _ _ _ | opens _ hsig _ _ _ => exact hsig ▸ hpin
  | moves _ hpr hs' =>
    rw [hs']
    exact pinned_grows (signals_progress hpr).grows hpin

theorem secure_step (hs : Sound env s) (hpin : isPeerV2Capable s.signaling peer = true)
    (h : step env s action = some s') :
    ∃ added, s'.history = added ++ s.history ∧ ∀ event ∈ added, Secure env s peer event := by
  have hmn : ∀ event : Event N, Minor event → Secure env s peer event := by
    intro event hev
    cases event with
    | sealed _ _ _ _ | deposited _ _ => cases hev
    | opened _ | message _ _ | channelSent _ _ | acked _ => trivial
  cases stepped_step h with
  | signals _ _ _ hhs =>
    obtain ⟨added, hadd, hall⟩ := hhs
    exact ⟨added, hadd, fun event hev => hmn event (hall event hev)⟩
  | sends _ _ _ hhs => exact ⟨[], hhs, nofun⟩
  | @moves m recipient answer pc moved hsn hpr hs' =>
    refine ⟨moved.events, by rw [hs']; rfl, ?_⟩
    exact secure_progress hpin (hs.sends m _ hsn) hpr
  | @opens blob plaintext opkId _ _ _ _ hhs =>
    obtain ⟨added, hadd, hall⟩ := hhs
    refine ⟨added ++ [.opened opkId], by rw [hadd, append_assoc]; rfl, ?_⟩
    intro event hev
    rcases mem_append.mp hev with hev | hev
    · exact hmn event (hall event hev)
    · rw [mem_singleton.mp hev]
      trivial

theorem pinned_run : ∀ {actions : List (Action N)} {s s' : State N Key},
    isPeerV2Capable s.signaling peer = true →
    (fabric env).run (fun _ _ => true) s actions = some s' →
    isPeerV2Capable s'.signaling peer = true
  | [], s, s', hpin, hrun => by
    cases hrun
    exact hpin
  | action :: actions, s, s', hpin, hrun => by
    rw [System.run, if_pos rfl] at hrun
    obtain ⟨t, hst, hrs⟩ := bind_eq_some_iff.mp hrun
    have hst' : step env s action = some t := hst
    exact pinned_run (pinned_step hpin hst') hrs

/-- **Without a signed prekey** the call of a pinned peer ends and nothing is recorded. -/
theorem downgrade_refused (hpin : isPeerV2Capable s.signaling peer = true)
    (hsn : s.sends.lookup n = some ⟨peer, pc⟩)
    (hsl : AtSeal env s.signaling answer pc signaling' job none claim)
    (h : step env s (.resumeSend n answer) = some s') :
    s'.history = s.history ∧ s'.sends.lookup n = none := by
  have hpin' := pinned_grows (atSeal_grows hsl) hpin
  have href : sealForPeer env signaling' peer job none (oneTimePreKeyOf none claim)
      answer.draws = .error (downgraded peer) := by
    rw [sealForPeer, if_pos hpin']
    rfl
  have hmv : sealSection env signaling' n peer job none claim answer.draws
      = ⟨signaling', [], none⟩ := by
    rw [sealSection, href]
  rw [step, hsn] at h
  obtain ⟨send, hsn', hmvs⟩ := bind_eq_some_iff.mp h
  rw [← some.inj hsn'] at hmvs
  obtain ⟨moved, hrsm, hs'⟩ := bind_eq_some_iff.mp hmvs
  rw [resumeSend_atSeal hsl, hmv] at hrsm
  rw [← some.inj hs', ← some.inj hrsm]
  exact ⟨rfl, lookup_erase _ _⟩

/--
**Forward secrecy is not lost silently.** Once a peer is pinned it stays pinned in every run.
From then on every blob that a step seals for it is of the second format, with a key derived
with a signed prekey that has passed a check of its signature with the identity key in force
for the peer at that time; every deposit for it is of a blob that the same call has sealed;
and a call that comes to the seal with no signed prekey ends without sealing or depositing.
-/
theorem no_silent_downgrade (env : Env N Key) (s : State N Key)
    (hreach : (fabric env).Reachable (fun _ _ => True) s) (peer : Text)
    (hpinned : isPeerV2Capable s.signaling peer = true) (actions : List (Action N))
    (s' : State N Key) (hrun : (fabric env).run (fun _ _ => true) s actions = some s') :
    isPeerV2Capable s'.signaling peer = true
    ∧ (∀ action s'', step env s' action = some s'' →
      ∃ added, s''.history = added ++ s'.history ∧ ∀ event ∈ added, Secure env s' peer event)
    ∧ ∀ n pc answer signaling job claim s'', s'.sends.lookup n = some ⟨peer, pc⟩ →
      AtSeal env s'.signaling answer pc signaling job none claim →
      step env s' (.resumeSend n answer) = some s'' →
        s''.history = s'.history ∧ s''.sends.lookup n = none := by
  have hpinned' := pinned_run hpinned hrun
  have hreach' : (fabric env).Reachable (fun _ _ => True) s' :=
    hreach.run (fun _ _ _ => trivial) hrun
  refine ⟨hpinned', fun action s'' hst => ?_, ?_⟩
  · exact secure_step (sound_reachable hreach') hpinned' hst
  · intro n pc answer signaling job claim s'' hsn hsl hst
    exact downgrade_refused hpinned' hsn hsl hst

def trustingFabric : Env Int Text :=
  { toyFabric (tablePlatform []) "y" 4 with
    importKey := fun _ => some (literal "k")
    verify := fun _ _ _ => true }

def pinningJoin : Value Int :=
  .obj (object [("type", text (literal "join")), ("depositPubKey", text (literal "k")),
    ("boxPubKey", text (bytesToB64 (List.replicate 32 3))),
    ("signedPreKey", some (.obj (object [("id", text (literal "spk")),
      ("pub", text (bytesToB64 (List.replicate 32 1))), ("sig", text (literal "sig"))])))])

def noClaim : Answer Int := ⟨none, ⟨sampleBytes 32 5, sampleBytes 24 6⟩, [], [], none⟩

def sendHi : List (Action Int) :=
  [.setPeer (literal "x") (some .relay), .sendTo (literal "x") (.json (text (literal "hi"))) false,
    .resumeSend 0 noClaim, .resumeSend 0 noClaim, .resumeSend 0 noClaim, .resumeSend 0 noClaim]

def sealedForX : Event Int → Bool
  | .sealed _ recipient _ _ => recipient = literal "x"
  | _ => false

theorem pinned_peer_sealed :
    ∃ s s', (fabric trustingFabric).Reachable (fun _ _ => True) s
      ∧ isPeerV2Capable s.signaling (literal "x") = true
      ∧ (fabric trustingFabric).run (fun _ _ => true) s sendHi = some s'
      ∧ s'.history.any sealedForX = true
      ∧ isPeerV2Capable s'.signaling (literal "x") = true := by
  obtain ⟨s, hrch, hpin, hsn⟩ := (joined_reachable trustingFabric).exists_after
    [.deliver (literal "x") pinningJoin 0, .resumeSignal 0 0, .resumeSignal 0 0]
    (fun s => isPeerV2Capable s.signaling (literal "x") = true
      ∧ (((fabric trustingFabric).run (fun _ _ => true) s sendHi).any fun s' =>
        s'.history.any sealedForX) = true) (by decide +kernel)
  cases hrun : (fabric trustingFabric).run (fun _ _ => true) s sendHi with
  | none =>
    rw [hrun] at hsn
    cases hsn
  | some s' =>
    rw [hrun] at hsn
    exact ⟨s, s', hrch, hpin, hrun, hsn,
      (no_silent_downgrade trustingFabric s hrch (literal "x") hpin sendHi s' hrun).1⟩

end VulosRelay.Client.Fabric
