import VulosRelay.Proof.AuthenticFrames

/-!
# Only prekeys are accepted as prekeys

The texts that an identity key signs are longer than a prekey and begin differently, so a
check over 32 bytes or over one of the texts can only succeed with a signature for that kind
of message (`kind_of_checked`). `verifyPeerSignedPreKey` checks 32 bytes. The import of a
prekey from a join checks as many as it carries: a server can put in a text that the peer
has signed with its signature, and the text is stored as the peer's prekey. In runs in which
every join carries 32 bytes, what is stored or pins a peer is a prekey that the peer signed.
-/

namespace VulosRelay.Client.Signaling

open JsText Json

variable {N Key : Type}

/-- The prekey of a join, if it has one that can be decoded, is 32 bytes long. -/
def SizedPreKey (env : Env N Key) (p : Value N) : Prop :=
  isType p "join" = true → ∀ spk pub bytes, field p "signedPreKey" = some spk →
    field spk "pub" = some (.str pub) → env.atob pub = some bytes → bytes.length = 32

/-- A public key, in base64, that was signed as a prekey. -/
def SignedPub (env : Env N Key) (signed : SignedMessage N → Prop) (pub : Text) : Prop :=
  ∃ bytes size, env.atob pub = some bytes ∧ signed (.preKey bytes size)

/-- The signature that was accepted is one for a kind of message and for no other kind. -/
def SignedOnlyAs (env : Env N Key) (signed : SignedMessage N → Prop) (kind : Kind)
    (bytes : List UInt8) : Prop :=
  (∃ m, signed m ∧ m.bytes env = bytes) ∧ ∀ m : SignedMessage N, m.bytes env = bytes → m.kind = kind

variable {env : Env N Key} {signed : SignedMessage N → Prop} {peer : Text} {s : State N Key}

theorem kind_of_checked (hnum : env.numbers.Lawful) {bytes : List UInt8} {kind : Kind}
    {m : SignedMessage N} (hchk : CheckedAs env (SizedPreKey env) peer bytes kind)
    (h : m.bytes env = bytes) : m.kind = kind := by
  cases kind with
  | frame =>
    obtain ⟨p, hfr, hnc, hby⟩ := hchk
    obtain ⟨f, hf, -⟩ := frame_of_bytes hnum hfr hnc (h.trans hby)
    rw [hf]
    rfl
  | join =>
    obtain ⟨p, hby⟩ := hchk
    obtain ⟨j, hj, -⟩ := join_of_bytes hnum (h.trans hby)
    rw [hj]
    rfl
  | deposit =>
    obtain ⟨nonce, blob, epk, hby⟩ := hchk
    obtain ⟨d, hd⟩ := deposit_of_bytes hnum (h.trans hby)
    rw [hd]
    rfl
  | preKey =>
    have hsz : bytes.length = 32 := by
      rcases hchk with hsz | ⟨p, spk, pub, hszd, hjn, hspk, hpub, hby⟩
      · exact hsz
      · exact hszd hjn spk pub bytes hspk hpub hby
    refine preKey_of_bytes hnum ?_
    rw [h]
    exact hsz

theorem accepted_signed (hnum : env.numbers.Lawful) (htr : Traced env (SizedPreKey env) s)
    (hky : ∀ key, .stored peer key ∈ s.history → Unforgeable env key signed)
    (hacc : .accepted peer kind bytes ∈ s.history) :
    SignedOnlyAs env signed kind bytes := by
  obtain ⟨past, hps, hev⟩ := htr.events.of_mem hacc
  obtain ⟨key, sig, hsto, hver, hchk⟩ := hev
  exact ⟨hky key (hps hsto) bytes sig hver, fun m hm => kind_of_checked hnum hchk hm⟩

theorem signedPub_of_accepted (hby : env.atob pub = some bytes)
    (h : SignedOnlyAs env signed .preKey bytes) :
    SignedPub env signed pub := by
  obtain ⟨⟨m, hsgn, hm⟩, hkn⟩ := h
  have hpr := hkn m hm
  cases m with
  | frame f | join j | deposit d => cases hpr
  | preKey pub' size =>
    rw [← hm] at hby
    exact ⟨pub', size, hby, hsgn⟩

/--
**Only prekeys are accepted as prekeys.** In every run in which the joins carry prekeys of
32 bytes, the prekey that is stored for a peer and every prekey that has pinned it are ones
that the peer signed as prekeys, and no signature that was accepted as one kind of message
was made for another.
-/
theorem only_prekeys_accepted (env : Env N Key) (hnum : env.numbers.Lawful) (s : State N Key)
    (hreach : (client env).Reachable (Delivers (SizedPreKey env)) s) (peer : Text)
    (signed : SignedMessage N → Prop)
    (hkeys : ∀ key, .stored peer key ∈ s.history → Unforgeable env key signed) :
    (∀ spk, s.peerSignedPreKeys.lookup peer = some spk → SignedPub env signed spk.pub)
    ∧ (∀ pub, .pinned peer pub ∈ s.history → SignedPub env signed pub)
    ∧ ∀ kind bytes, .accepted peer kind bytes ∈ s.history →
      SignedOnlyAs env signed kind bytes := by
  have htr := traced_reachable hreach
  refine ⟨fun spk hspk => ?_, fun pub hpin => ?_, fun kind bytes hacc => ?_⟩
  · obtain ⟨bytes, hby, hacc⟩ := htr.preKeys peer spk hspk
    exact signedPub_of_accepted hby (accepted_signed hnum htr hkeys hacc)
  · obtain ⟨past, hps, bytes, hby, hacc⟩ := htr.events.of_mem hpin
    exact signedPub_of_accepted hby (accepted_signed hnum htr hkeys (hps hacc))
  · exact accepted_signed hnum htr hkeys hacc

def sampleBtoa (bytes : List UInt8) : Text :=
  (Base64.sextets bytes).flatMap fun n => units (base64.getD n 'A')

def preKeyJoin (pub : List UInt8) : Value Int :=
  .obj (object [("type", some (.str (literal "join"))),
    ("depositPubKey", some (.str (literal "k"))),
    ("signedPreKey", some (.obj (object [("id", some (.num 1)),
      ("pub", some (.str (sampleBtoa pub))), ("sig", some (.str (literal "sig")))])))])

def preKeyDelivery (pub : List UInt8) : List (Action Int) :=
  [.deliver (literal "x") (preKeyJoin pub) 0, .resume 0 0, .resume 0 0]

def storedPreKey (pub : List UInt8) : SignedPreKey Int :=
  ⟨some (.num 1), sampleBtoa pub, literal "sig"⟩

def preKeyStoredCheck (pub : List UInt8) (s : State Int Text) : Bool :=
  decide (s.peerSignedPreKeys.lookup (literal "x") = some (storedPreKey pub))
  && occurredCheck (.pinned (literal "x") (sampleBtoa pub)) s

def samplePub : List UInt8 := List.replicate 32 7

theorem sized_preKeyJoin {env : Env Int Text} {pub : List UInt8}
    (hat : env.atob (sampleBtoa pub) = some pub) (hsz : pub.length = 32) :
    SizedPreKey env (preKeyJoin pub) := by
  intro _ spk text bytes hspk htx hby
  have hspk' : spk = .obj (object [("id", some (.num 1)), ("pub", some (.str (sampleBtoa pub))),
      ("sig", some (.str (literal "sig")))]) := (Option.some.inj hspk).symm
  rw [hspk'] at htx
  injection htx with htx
  injection htx with htx
  rw [← htx, hat] at hby
  cases hby
  exact hsz

theorem signed_prekey_stored :
    ∃ s, (client (signedEnv (.preKey samplePub rfl))).Reachable (fun _ _ => True) s
      ∧ s.peerSignedPreKeys.lookup (literal "x") = some (storedPreKey samplePub)
      ∧ SignedPub (signedEnv (.preKey samplePub rfl)) (· = .preKey samplePub rfl)
        (sampleBtoa samplePub) := by
  have hjn : SizedPreKey (signedEnv (.preKey samplePub rfl)) (sampleJoin "k") := by
    intro _ spk text bytes hspk
    cases hspk
  have hsz : SizedPreKey (signedEnv (.preKey samplePub rfl)) (preKeyJoin samplePub) :=
    sized_preKeyJoin (by decide) rfl
  obtain ⟨s, hrch, hend⟩ := System.Reachable.exists_of_run
    (onlyDelivers (preKeyJoin samplePub))
    (preKeyDelivery samplePub) (preKeyStoredCheck samplePub)
    (fun _ _ => delivers_of_only hjn hsz)
    (client_reachable_new (signedEnv (.preKey samplePub rfl))) (by decide)
  obtain ⟨hfn, hoc⟩ := Bool.and_eq_true_iff.mp hend
  have hsto := of_decide_eq_true hfn
  have hown := (Bool.and_eq_true_iff.mp hoc).2
  obtain ⟨hpks, -, -⟩ := only_prekeys_accepted _ integers_lawful s hrch _ _
    (unforgeable_of_check hown)
  exact ⟨s, hrch.mono fun _ _ _ => trivial, hsto, hpks _ hsto⟩

/--
The peer `x` has signed one message, and a public key that it has not signed as a prekey is
stored as its prekey and pins it.
-/
def StoredUnsigned (m : SignedMessage Int) (pub : Text) : Prop :=
  (signedEnv m).numbers.Lawful ∧ ∃ s, (client (signedEnv m)).Reachable (fun _ _ => True) s
    ∧ (∀ key, .stored (literal "x") key ∈ s.history → Unforgeable (signedEnv m) key (· = m))
    ∧ (∃ spk, s.peerSignedPreKeys.lookup (literal "x") = some spk ∧ spk.pub = pub)
    ∧ .pinned (literal "x") pub ∈ s.history ∧ ¬ SignedPub (signedEnv m) (· = m) pub

theorem storedUnsigned_of_run
    (hrun : ((client (signedEnv m)).run (fun _ _ => true) .new (preKeyDelivery pub)).any
      (preKeyStoredCheck pub) = true) (hoth : m.kind ≠ .preKey) :
    StoredUnsigned m (sampleBtoa pub) := by
  obtain ⟨s, hrch, hend⟩ := System.Reachable.exists_of_run (fun _ _ => true)
    (preKeyDelivery pub) (preKeyStoredCheck pub) (fun _ _ _ => trivial)
    (client_reachable_new (signedEnv m)) hrun
  obtain ⟨hsto, hoc⟩ := Bool.and_eq_true_iff.mp hend
  obtain ⟨hpin, hown⟩ := Bool.and_eq_true_iff.mp hoc
  refine ⟨integers_lawful, s, hrch, unforgeable_of_check hown,
    ⟨storedPreKey pub, of_decide_eq_true hsto, rfl⟩, of_decide_eq_true hpin, ?_⟩
  rintro ⟨bytes, size, -, hsgn⟩
  rw [← hsgn] at hoth
  exact hoth rfl

/--
**A signed frame is stored as a prekey.** The peer has signed one ice frame and no prekey.
The server delivers a join with the text of the frame in the place of the public key and
the signature of the frame: the text is stored as the peer's prekey, and pins the peer.
-/
theorem signed_frame_stored_as_prekey :
    StoredUnsigned (.frame (sampleFrame "doc" "me"))
      (sampleBtoa (bytesOf sampleEnv (sampleFrame "doc" "me").message)) :=
  storedUnsigned_of_run (by decide +kernel) (nofun)

end VulosRelay.Client.Signaling
