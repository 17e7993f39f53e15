import VulosRelay.Lib.Base64
import VulosRelay.Lib.Decimal
import VulosRelay.Proof.PinnedKeys
import VulosRelay.Proof.SignalTrace
import VulosRelay.Proof.SignedKinds

/-!
# Handshake frames are authentic

A receiver rebuilds the text that a peer has signed from a payload that the server may have
composed. The text determines the properties of the payload as they are sent
(`fields_of_message`), so a frame that was dispatched carries what one signed frame carries,
with three exceptions. An infinite number, which `JSON.parse` makes of `1e999`, has the text
of `null`: a server can put one in the place of a `null` that was signed. And an empty
session or addressee is falsy, so that the filters let it pass: a frame signed in the
session `''` is taken in every session, and one for the peer `''` by every peer. `Plain`
rules these out, and then every frame that is dispatched is authentic.
-/

namespace VulosRelay.Client.Signaling

open JsText Json Value

variable {N Key : Type}

/--
An offer, answer or ice frame that names no empty session and no empty addressee of others,
and that carries no infinite number.
-/
def Plain (env : Env N Key) (p : Value N) : Prop :=
  isFrame p = true →
    (field p "session" = some (.str []) → env.session = [])
    ∧ (field p "to" = some (.str []) → env.peerId = [])
    ∧ Sent (field p "sdp") ∧ Sent (field p "candidate") ∧ Sent (field p "pubKey")

theorem eq_str_of_norm {v : Value N} {t : Text} (h : v.norm = .str t) : v = .str t := by
  cases v with
  | str s => exact h
  | null | bool b | num n | infinite negative | arr items | obj members => cases h

theorem eq_num_of_norm {v : Value N} {n : N} (h : v.norm = .num n) : v = .num n := by
  cases v with
  | num m => exact h
  | null | bool b | str s | infinite negative | arr items | obj members => cases h

theorem frame_names : (["type", "session", "to", "from", "nonce", "ts", "sdp", "candidate",
    "pubKey"].map literal).Nodup := by decide

theorem fields_of_message {f : SignedFrame N} {sender : Text} {p : Value N}
    (h : f.message.norm = (frameMessage sender p).norm) :
    (field p "type").map norm = some (.str f.type.text)
    ∧ (field p "session").map norm = some (.str f.session)
    ∧ (orNull (field p "to")).map norm
      = (orNull (f.addressee.map str)).map norm
    ∧ sender = f.sender
    ∧ (field p "ts").map norm = some (.num f.ts)
    ∧ (field p "sdp").map norm = f.sdp.map norm
    ∧ (field p "candidate").map norm = f.candidate.map norm
    ∧ (field p "pubKey").map norm = f.pubKey.map norm := by
  injection h with h
  rw [norm_object, norm_object] at h
  have hfl := object_inj (by rfl) (by exact frame_names) h
  simp only [sentFields, List.map_cons, List.map_nil, List.cons.injEq, Prod.mk.injEq, true_and]
    at hfl
  obtain ⟨hty, hse, hto, hfr, -, hts, hsdp, hcn, hpb, -⟩ := hfl
  injection hfr with hfr
  injection hfr with hfr
  exact ⟨hty.symm, hse.symm, hto.symm, hfr.symm, hts.symm, hsdp.symm, hcn.symm, hpb.symm⟩

theorem text_of_filter {env : Env N Key} {v : Option (Value N)} {t want : Text}
    (hv : v = some (.str t)) (hemp : v = some (.str []) → want = [])
    (hfl : (truthy env v && !isText want v) = false) : t = want := by
  subst hv
  cases t with
  | nil => exact (hemp rfl).symm
  | cons c t =>
    have htx : isText want (some (str (N := N) (c :: t))) = true := by
      rw [← Bool.not_eq_false']
      exact hfl
    exact of_decide_eq_true htx

theorem addressee_of_norm {addressee : Option Text} {v : Option (Value N)}
    (h : (orNull v).map norm = (orNull (addressee.map str)).map norm) :
    ∀ t, addressee = some t → v = some (.str t) := by
  intro t ht
  rw [ht] at h
  cases v with
  | none =>
    injection h with h
    cases h
  | some v =>
    injection h with h
    exact congrArg some (eq_str_of_norm h)

theorem eq_of_sent (hv : Sent v) (hw : Sent w) (h : v.map norm = w.map norm) :
    v = w := by
  rw [← hv, h, hw]

theorem bounds_of_fresh (hts : ts = some (.num n)) (h : fresh env ts now = true) :
    now - env.numbers.value n ≤ 30000 ∧ env.numbers.value n ≤ (now + 5000 : Int) := by
  rw [hts, fresh, Bool.not_eq_true', Bool.or_eq_false_iff] at h
  have hah := of_decide_eq_false h.1
  have hbh := of_decide_eq_false h.2
  exact ⟨Rat.not_lt.mp hbh, Rat.not_lt.mp hah⟩

/-- A signed frame that a dispatched frame is: it carries the same and is meant for here. -/
structure SignedAs (env : Env N Key) (f : SignedFrame N) (sender : Text) (p : Value N)
    (now : Int) : Prop where
  /-- It is of the same kind and carries the same fields. -/
  type : field p "type" = some (.str f.type.text)
  sdp : field p "sdp" = f.sdp
  candidate : field p "candidate" = f.candidate
  pubKey : field p "pubKey" = f.pubKey
  /-- It comes from its signer, in this session. -/
  sender : f.sender = sender
  session : f.session = env.session
  /-- It is for everybody or for this peer. -/
  addressee : f.addressee = none ∨ f.addressee = some env.peerId
  /-- It is at most 30 s old, and at most 5 s ahead. -/
  behind : now - env.numbers.value f.ts ≤ 30000
  ahead : env.numbers.value f.ts ≤ (now + 5000 : Int)

theorem signedAs_of_vetted {env : Env N Key} {f : SignedFrame N} {sender : Text} {p : Value N}
    {now : Int} {past : List (Event N Key)} (hfr : isFrame p = true)
    (hvt : Vetted env (Plain env) sender p now past)
    (hmsg : f.message.norm = (frameMessage sender p).norm) :
    SignedAs env f sender p now := by
  obtain ⟨hpl, hps, -, hfrs, -⟩ := hvt
  obtain ⟨hns, hnt, hsdp, hcn, hpb⟩ := hpl hfr
  obtain ⟨hty, hse, hto, hsnd, hts, hsdp', hcn', hpb'⟩ :=
    fields_of_message hmsg
  have hstr : ∀ {v : Option (Value N)} {t : Text}, v.map norm = some (.str t) →
      v = some (.str t) := by
    intro v t h
    obtain ⟨w, hw, hnr⟩ := Option.map_eq_some_iff.mp h
    rw [hw, eq_str_of_norm hnr]
  obtain ⟨n, hn, hnr⟩ := Option.map_eq_some_iff.mp hts
  rw [eq_num_of_norm hnr] at hn
  obtain ⟨hbh, hah⟩ := bounds_of_fresh hn hfrs
  simp only [passes, Bool.and_eq_true, Bool.not_eq_true'] at hps
  exact {
    type := hstr hty
    sdp := eq_of_sent hsdp f.sdp_sent hsdp'
    candidate := eq_of_sent hcn f.candidate_sent hcn'
    pubKey := eq_of_sent hpb f.pubKey_sent hpb'
    sender := hsnd.symm
    session := text_of_filter (hstr hse) hns hps.1.2
    addressee := by
      cases had : f.addressee with
      | none => exact .inl rfl
      | some t =>
        have hfl := addressee_of_norm hto t had
        rw [text_of_filter hfl hnt hps.2]
        exact .inr rfl
    behind := hbh
    ahead := hah }

/--
**Handshake frames are authentic.** In every run in which the server delivers only plain
frames, an offer, answer or ice frame that is dispatched as coming from a peer whose stored
keys are its own is one that the peer has signed for this session and this receiver or
everybody, not long ago.
-/
theorem handshake_frames_authentic (env : Env N Key) (hnum : env.numbers.Lawful)
    (hauth : env.requirePeerAuth = true) (s : State N Key)
    (hreach : (client env).Reachable (Delivers (Plain env)) s) (peer : Text)
    (signed : SignedMessage N → Prop)
    (hkeys : ∀ key, .stored peer key ∈ s.history → Unforgeable env key signed)
    (p : Value N) (now : Int) (hdispatched : .dispatched peer p now ∈ s.history)
    (hframe : isFrame p = true) :
    ∃ f, signed (.frame f) ∧ SignedAs env f peer p now := by
  obtain ⟨past, hps, hev⟩ := (traced_reachable hreach).events.of_mem hdispatched
  have hvt : Vetted env (Plain env) peer p now past := hev hframe hauth
  obtain ⟨-, -, hnc, -, key, hsto, hval⟩ := id hvt
  obtain ⟨sig, hver⟩ := verify_of_verifySig hval
  obtain ⟨m, hsgn, hby⟩ := hkeys key (hps hsto) _ sig hver
  obtain ⟨f, hf, hmsg⟩ := frame_of_bytes hnum hframe hnc hby
  rw [hf] at hsgn
  exact ⟨f, hsgn, signedAs_of_vetted hframe hvt hmsg⟩

def sampleCandidate (sdpMid : Value Int) : Value Int :=
  .obj (object [("candidate", some (.str (literal "c"))), ("sdpMid", some sdpMid)])

def sampleFrame (session addressee : String) : SignedFrame Int where
  type := .ice
  session := literal session
  addressee := some (literal addressee)
  sender := literal "x"
  nonce := literal "n"
  ts := 0
  sdp := none
  candidate := some (sampleCandidate .null)
  pubKey := none
  sdp_sent := rfl
  candidate_sent := rfl
  pubKey_sent := rfl

def samplePayload (session addressee : String) (sdpMid : Value Int) : Value Int :=
  .obj (object [("type", some (.str (literal "ice"))), ("session", some (.str (literal session))),
    ("to", some (.str (literal addressee))), ("nonce", some (.str (literal "n"))),
    ("ts", some (.num 0)), ("candidate", some (sampleCandidate sdpMid)),
    ("sig", some (.str (literal "sig")))])

def base64 : List Char :=
  "ABCDEFGHIJKLMNOPQRSTUVWXYZabcdefghijklmnopqrstuvwxyz0123456789+/".toList

def sampleAtob (text : Text) : Option (List UInt8) :=
  ((chars text).mapM fun c => base64.findIdx? (· == c)).bind Base64.decodeValues

def signedEnv (m : SignedMessage Int) : Env Int Text :=
  { sampleEnv with
    verify := fun key bytes sig => decide (key = literal "k")
      && decide (bytes = m.bytes sampleEnv) && isText (literal "sig") (some sig)
    atob := sampleAtob }

theorem unforgeable_signedEnv (m : SignedMessage Int) :
    Unforgeable (signedEnv m) (literal "k") (· = m) := by
  intro bytes sig hver
  have hby : bytes = m.bytes sampleEnv := by
    have hbt := (Bool.and_eq_true_iff.mp hver).1
    exact of_decide_eq_true (Bool.and_eq_true_iff.mp hbt).2
  refine ⟨m, rfl, ?_⟩
  rw [hby]
  cases m with
  | frame f | join j | deposit d | preKey pub size => rfl

def sampleDelivery (p : Value Int) : List (Action Int) :=
  [.deliver (literal "x") (sampleJoin "k") 0, .resume 0 0, .deliver (literal "x") p 0, .resume 1 0]

def ownKeyCheck (s : State Int Text) : Bool :=
  s.history.all fun event => match event with
    | .stored _ key => decide (key = literal "k")
    | _ => true

theorem unforgeable_of_check (h : ownKeyCheck s = true) :
    ∀ key, Event.stored (literal "x") key ∈ s.history →
      Unforgeable (signedEnv m) key (· = m) := by
  intro key hmem
  have hkey : key = literal "k" := of_decide_eq_true (List.all_eq_true.mp h _ hmem)
  rw [hkey]
  exact unforgeable_signedEnv m

def occurredCheck (event : Event Int Text) (s : State Int Text) : Bool :=
  decide (event ∈ s.history) && ownKeyCheck s

def onlyDelivers (p : Value Int) (_ : State Int Text) : Action Int → Bool
  | .deliver _ q _ => decide (q = sampleJoin "k") || decide (q = p)
  | _ => true

theorem delivers_of_only (hjn : good (sampleJoin "k")) (hp : good p)
    (h : onlyDelivers p s action = true) : Delivers good s action := by
  cases action with
  | deliver sender q now =>
    rw [onlyDelivers, Bool.or_eq_true, decide_eq_true_eq, decide_eq_true_eq] at h
    rcases h with rfl | rfl
    · exact hjn
    · exact hp
  | resume n now | claim peer spk | deposit peer nonce blob epk sig => trivial

theorem signed_candidate_authentic :
    ∃ f, f = sampleFrame "doc" "me" ∧ SignedAs (signedEnv (.frame (sampleFrame "doc" "me"))) f
      (literal "x") (samplePayload "doc" "me" .null) 0 := by
  have hjn : Plain (signedEnv (.frame (sampleFrame "doc" "me"))) (sampleJoin "k") := by
    intro hfr
    cases hfr
  have hpl : Plain (signedEnv (.frame (sampleFrame "doc" "me")))
      (samplePayload "doc" "me" .null) := by
    intro _
    refine ⟨fun h => ?_, fun h => ?_, rfl, rfl, rfl⟩ <;> cases h
  obtain ⟨s, hrch, hend⟩ := System.Reachable.exists_of_run
    (onlyDelivers (samplePayload "doc" "me" .null))
    (sampleDelivery (samplePayload "doc" "me" .null))
    (occurredCheck (.dispatched (literal "x") (samplePayload "doc" "me" .null) 0))
    (fun _ _ => delivers_of_only hjn hpl)
    (client_reachable_new (signedEnv (.frame (sampleFrame "doc" "me")))) (by decide +kernel)
  obtain ⟨hds, hown⟩ := Bool.and_eq_true_iff.mp hend
  obtain ⟨f, hsgn, hsm⟩ := handshake_frames_authentic _ integers_lawful rfl s hrch _ _
    (unforgeable_of_check hown) _ _ (of_decide_eq_true hds) rfl
  injection hsgn with hf
  exact ⟨f, hf, hsm⟩

/--
The peer `x` has signed one frame, and with `requirePeerAuth` a payload is dispatched as
coming from `x` that is not that frame or that was not meant for here.
-/
def Misattributed (f : SignedFrame Int) (p : Value Int) : Prop :=
  (signedEnv (.frame f)).numbers.Lawful ∧ (signedEnv (.frame f)).requirePeerAuth = true
  ∧ ∃ s, (client (signedEnv (.frame f))).Reachable (fun _ _ => True) s
    ∧ (∀ key, .stored (literal "x") key ∈ s.history →
      Unforgeable (signedEnv (.frame f)) key (· = .frame f))
    ∧ .dispatched (literal "x") p 0 ∈ s.history ∧ isFrame p = true
    ∧ ¬ ∃ g, SignedMessage.frame g = .frame f ∧ SignedAs (signedEnv (.frame f)) g (literal "x") p 0

theorem misattributed_of_run (hfr : isFrame p = true)
    (hrun : ((client (signedEnv (.frame f))).run (fun _ _ => true) .new (sampleDelivery p)).any
      (occurredCheck (.dispatched (literal "x") p 0)) = true)
    (hoth : ¬ SignedAs (signedEnv (.frame f)) f (literal "x") p 0) : Misattributed f p := by
  obtain ⟨s, hrch, hend⟩ := System.Reachable.exists_of_run (fun _ _ => true) (sampleDelivery p)
    (occurredCheck (.dispatched (literal "x") p 0)) (fun _ _ _ => trivial)
    (client_reachable_new (signedEnv (.frame f))) hrun
  obtain ⟨hds, hown⟩ := Bool.and_eq_true_iff.mp hend
  refine ⟨integers_lawful, rfl, s, hrch, unforgeable_of_check hown, of_decide_eq_true hds, hfr, ?_⟩
  rintro ⟨g, hg, hsm⟩
  injection hg with hg
  rw [hg] at hsm
  exact hoth hsm

/--
**Altered and redirected frames are dispatched.** The server puts `1e999` in the place of
the `null` that the peer has signed, and an infinite `sdpMid` is dispatched; it delivers a
frame that was signed for the peer `''` to another peer; and it delivers a frame that was
signed in the session `''` in another session.
-/
theorem altered_or_redirected_frame_dispatched :
    Misattributed (sampleFrame "doc" "me") (samplePayload "doc" "me" (.infinite false))
    ∧ Misattributed (sampleFrame "doc" "") (samplePayload "doc" "" .null)
    ∧ Misattributed (sampleFrame "" "me") (samplePayload "" "me" .null) := by
  refine ⟨misattributed_of_run rfl (by decide +kernel) fun h => ?_,
    misattributed_of_run rfl (by decide +kernel) fun h => ?_,
    misattributed_of_run rfl (by decide +kernel) fun h => ?_⟩
  · have hcn := h.candidate
    cases hcn
  · rcases h.addressee with had | had <;> cases had
  · have hse := h.session
    cases hse

end VulosRelay.Client.Signaling
