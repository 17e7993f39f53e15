import VulosRelay.Proof.FabricMoves
import VulosRelay.Proof.RelayRoundTrip

/-!
# What the relay carries

A datum is sent to a peer in `relay` state by an honest relay, and each client finishes its
call before anything else happens. The sender's call is followed to its deposit and the
recipient's poll to its end; both are repetitions of one action (`System.exhaust`).

The datum travels as JSON, so a binary one never arrives as an `ArrayBuffer`: no poll
dispatches one (`exhaust_poll_json`). A string arrives as it was given if the payload that
JSON and the blob make of it passes the two limits of the recipient; the data channel gives
the string without its lone surrogates.
-/

namespace VulosRelay.Client.Fabric

open JsText Json Signaling RelayBox X3dh List Finmap Option

variable {N Key : Type}

/-! ## The size of a payload -/

theorem stringify_payload :
    stringify numbers (payload session (text s))
      = ([0x7B] ++ quote (literal "session") ++ [0x3A])
        ++ (quote session
          ++ (([0x2C] ++ quote (literal "data") ++ [0x3A]) ++ (quote s ++ [0x7D]))) := rfl

theorem length_payload :
    (stringify numbers (payload session (text s))).length
      = 20 + (quote session).length + (quote s).length := by
  have hse : (quote (literal "session")).length = 9 := by decide
  have hdt : (quote (literal "data")).length = 6 := by decide
  simp only [stringify_payload, length_append, length_singleton, hse, hdt]
  omega

theorem length_encode_payload :
    (encode (stringify numbers (payload session (text s)))).length
      = 20 + (encode (quote session)).length + (encode (quote s)).length := by
  have hop : Paired ([0x7B] ++ quote (literal "session") ++ [0x3A])
      ∧ (encode ([0x7B] ++ quote (literal "session") ++ [0x3A])).length = 11 :=
    ⟨.of_all (by decide), by decide⟩
  have hnx : Paired ([0x2C] ++ quote (literal "data") ++ [0x3A])
      ∧ (encode ([0x2C] ++ quote (literal "data") ++ [0x3A])).length = 8 :=
    ⟨.of_all (by decide), by decide⟩
  have hend : (encode [0x7D]).length = 1 := by decide
  rw [stringify_payload, encode_append hop.1, encode_append (paired_quote session),
    encode_append hnx.1, encode_append (paired_quote s), length_append, length_append,
    length_append, length_append, hop.2, hnx.2, hend]
  omega

/-- **A payload is read back** by a client of the session, if it is not too long. -/
theorem readPayload_payload {env : Env N Key} (hp : env.platform.Lawful) (s : Text) :
    readPayload env (encode (stringify env.platform.numbers (payload env.session (text s))))
      = if 20 + (quote env.session).length + (quote s).length > maxPayloadBytes then none
        else some (text s) := by
  have hor : (payload env.session (text s) : Value N).Ordered := by
    have hky : [literal "session", literal "data"].Nodup
        ∧ [literal "session", literal "data"].all (!beginsWithDigit ·) = true := by decide
    exact ⟨hky.1, hky.2, trivial, trivial, trivial⟩
  have hpr := hp.parse _ hor
  have hnr : (payload env.session (text s) : Value N).norm = payload env.session (text s) := rfl
  have hse : isText env.session (field (payload env.session (text s) : Value N) "session")
      = true := decide_eq_true rfl
  rw [readPayload, payload, decode_object hp, ← payload, length_payload, hpr, hnr]
  split
  · rfl
  dsimp only
  rw [if_pos hse]
  rfl

/-! ## What the blob adds -/

def blobOverhead (signedPreKey : Option (SignedPreKey N)) (opk : Option OneTimePreKey) : Nat :=
  if signedPreKey.isSome then 1 + 2 + headerLength (opkIdOf opk) + 24 + 16 else 1 + 24 + 16

structure Opens (sender recipient : Env N Key) (store : PreKeyStore) (plaintext : Bytes)
    (overhead : Nat) (blob : Text) : Prop where
  length : blob.length = (overhead + plaintext.length + 2) / 3 * 4
  decrypts : ∃ opkId, decryptBlob recipient store (text sender.peerId) sender.boxPubKeyB64 blob
    = .ok (some (plaintext, opkId))

theorem deriveKey_agreed (hp : p.Lawful) :
    ∃ key, deriveKey p a (p.getPublicKey b) = .ok key
      ∧ deriveKey p b (p.getPublicKey a) = .ok key := by
  obtain ⟨shared, hab, hba⟩ := hp.commutes a b
  refine ⟨p.hkdf shared none RelayBox.hkdfInfo, ?_, ?_⟩
  · rw [deriveKey, hab]
    rfl
  · rw [deriveKey, hba]
    rfl

section Sealed

variable {sender recipient : Env N Key} (hsame : SameSession sender recipient)
  (hp : sender.platform.Lawful) (store : PreKeyStore) (plaintext : Bytes) (draws : Draws)

include hsame hp

theorem exists_sealV1 : ∃ blob,
    sealV1 sender recipient.peerId ⟨.str recipient.boxPubKeyB64, plaintext⟩ draws = .ok blob
      ∧ Opens sender recipient store plaintext (1 + 24 + 16) blob := by
  obtain ⟨key, hsl, hop⟩ := deriveKey_agreed hp
  let sealed := sender.platform.encrypt key draws.nonce (aad sender.platform (text sender.peerId)
    (text recipient.peerId) (text sender.session)) plaintext
  have htag : sealed.length = plaintext.length + 16 := hp.tagSize _ _ _ _
  let bytes := boxVersion :: (draws.nonce.val ++ sealed)
  have hlen : bytes.length = 1 + 24 + 16 + plaintext.length := by
    rw [length_cons, length_append, draws.nonce.property, htag]
    omega
  refine ⟨bytesToB64 bytes, ?_, ?_, none, ?_⟩
  · rw [sealV1, hp.display, sealRelayBlob, Env.boxPubKeyB64, hsame.platform, b64ToBytes_bytesToB64]
    dsimp only [bind, Except.bind]
    rw [hsl]
    rfl
  · rw [bytesToB64, WebBase64.length_btoa, hlen]
  have hvr : relayBlobVersion (bytesToB64 bytes) = .ok 1 := by
    rw [relayBlobVersion, b64ToBytes_bytesToB64]
    rfl
  have hln : ¬ bytes.length < 1 + nonceLen + 16 := by
    rw [hlen, nonceLen]
    omega
  have hnc : (bytes.drop 1).take nonceLen = draws.nonce.val := by
    rw [drop_one, tail_cons, nonceLen, take_left' draws.nonce.property]
  have hsld : bytes.drop (1 + nonceLen) = sealed := by
    rw [← drop_drop, drop_one, tail_cons, nonceLen, drop_left' draws.nonce.property]
  have hhd : ¬ bytes.headD 0 ≠ boxVersion := not_not_intro rfl
  have hopn : openRelayBlob recipient.platform (bytesToB64 bytes) recipient.boxPriv
      sender.boxPubKeyB64 (text sender.peerId) (text recipient.peerId) (text recipient.session)
        = .ok plaintext := by
    rw [openRelayBlob, Env.boxPubKeyB64, b64ToBytes_bytesToB64, hsame.platform, hsame.session]
    dsimp only [bind, Except.bind]
    rw [if_neg hln, if_neg hhd, hnc, hsld, b64ToBytes_bytesToB64]
    dsimp only
    rw [hop]
    dsimp only
    rw [hp.opens]
    rfl
  have hone : ¬ (1 : UInt8) = 2 := by decide
  rw [decryptBlob, hvr]
  dsimp only [bind, Except.bind]
  rw [if_neg hone, hopn]
  rfl

theorem exists_sealV2
    (hopk : ∀ k ∈ opk, k ∈ (store.publicBundle sender.platform recipient.peerId).oneTimePreKeys) :
    ∃ blob, sealV2 sender recipient.peerId ⟨.str recipient.boxPubKeyB64, plaintext⟩
        (store.publicBundle sender.platform recipient.peerId).signedPreKey opk draws = .ok blob
      ∧ Opens sender recipient store plaintext (1 + 2 + headerLength (opkIdOf opk) + 24 + 16)
        blob := by
  obtain ⟨opkPriv, hoff⟩ := exists_offered hopk
  obtain ⟨sk, hin, hrs⟩ := x3dh_agreed hp sender.boxPriv recipient.boxPriv
    store.signed.priv draws.ephemeral opkPriv (text sender.peerId) (text recipient.peerId)
  refine ⟨_, sealV2_eq hsame hp plaintext draws hoff hin, ?_, _,
    decryptBlob_eq hsame hp plaintext draws hrs hoff⟩
  rw [v2Blob, bytesToB64, WebBase64.length_btoa, v2Bytes, length_cons, length_cons,
    length_cons, length_append, length_append, draws.nonce.property, ciphertext,
    hp.tagSize, length_v2HeaderBytes hp (hp.publicKeySize _) (writtenId_signed store)
      hoff.writtenId]
  have hsum : headerLength (opkIdOf opk) + (24 + (plaintext.length + 16)) + 1 + 1 + 1
      = 1 + 2 + headerLength (opkIdOf opk) + 24 + 16 + plaintext.length := by omega
  rw [hsum]

end Sealed

/-! ## The sender's call -/

def recorded (older newer : State N Key) : List (Event N) :=
  newer.history.take (newer.history.length - older.history.length)

theorem recorded_of_append (h : newer.history = added ++ older.history) :
    recorded older newer = added := by
  rw [recorded, h, length_append, Nat.add_sub_cancel, take_left]

/-- A call since state `s`: what has been recorded, and where the call waits if it is not over. -/
structure Underway (s : State N Key) (call : Nat) (recipient : Text)
    (signaling : Signaling.State N Key) (events : List (Event N)) (pc : Option (SendPc N Key))
    (t : State N Key) : Prop where
  signaling : t.signaling = signaling
  history : t.history = events ++ s.history
  waits : t.sends.lookup call = pc.map (⟨recipient, ·⟩)

section Calls

variable {env : Env N Key} {s t : State N Key} {call : Nat} {recipient : Text}
  {signaling : Signaling.State N Key} {events : List (Event N)} {answer : Answer N}

theorem Underway.resume (h : Underway s call recipient signaling events (some pc) t)
    (hmv : resumeSend env signaling call recipient answer pc = some moved) (k : Nat) :
    ∃ t', (fabric env).exhaust (.resumeSend call answer) (k + 1) t
        = (fabric env).exhaust (.resumeSend call answer) k t'
      ∧ Underway s call recipient moved.signaling (moved.events ++ events) moved.pc t' := by
  have hst : step env t (.resumeSend call answer) = some (t.moveSend call recipient moved) := by
    rw [step, h.waits, h.signaling]
    dsimp only [Option.map_some, bind, Option.bind]
    rw [hmv]
    rfl
  refine ⟨_, System.exhaust_of_step hst k, rfl, ?_, ?_⟩
  · rw [State.moveSend, h.history, append_assoc]
  rw [State.moveSend]
  cases moved.pc with
  | none => exact lookup_erase _ _
  | some pc' => exact lookup_insert _

theorem Underway.over (h : Underway s call recipient signaling events none t) (k : Nat) :
    (fabric env).exhaust (.resumeSend call answer) k t = t := by
  have hst : step env t (.resumeSend call answer) = none := by
    rw [step, h.waits]
    rfl
  exact System.exhaust_of_stuck hst k

end Calls

def sent (env : Env N Key) (s : State N Key) (peer : Text) (data : Datum N) (channelOpen : Bool)
    (answer : Answer N) : State N Key :=
  (fabric env).exhaust (.resumeSend s.nextCall answer) 5
    ((step env s (.sendTo peer data channelOpen)).getD s)

def Event.envelope : Event N → Option Envelope
  | .deposited _ envelope => some envelope
  | _ => none

theorem sent_deposits (hrl : s.peers.lookup peer = some .relay)
    (hjob : startJob env s.signaling peer data = some job) (hsl : AtSeal env s.signaling answer
      (.claiming job (s.signaling.peerSignedPreKeys.lookup peer)) s.signaling job spk answer.claim)
    (hbl : sealForPeer env s.signaling peer job spk (oneTimePreKeyOf spk answer.claim)
      answer.draws = .ok blob) (had : env.rendezvous = true → answer.rdvKey.isSome = true) :
    (recorded s (sent env s peer data channelOpen answer)).findSome? Event.envelope
      = some (envelopeOf env peer blob answer.nonce answer.sig) := by
  have hbg : Underway s s.nextCall peer s.signaling [] (some (.keys data))
      ((step env s (.sendTo peer data channelOpen)).getD s) := by
    rw [step, State.sendToPeer, hrl]
    exact ⟨rfl, rfl, lookup_insert _⟩
  have hky : resumeSend env s.signaling s.nextCall peer answer (.keys data)
      = some ⟨s.signaling, [], some (.preKeys job)⟩ := by
    rw [resumeSend, hjob]
    rfl
  obtain ⟨t₁, hrun₁, h₁⟩ := hbg.resume hky 4
  have hpks : resumeSend env s.signaling s.nextCall peer answer (.preKeys job)
      = some ⟨s.signaling, [],
          some (.claiming job (s.signaling.peerSignedPreKeys.lookup peer))⟩ := rfl
  obtain ⟨t₂, hrun₂, h₂⟩ := h₁.resume hpks 3
  obtain ⟨t₃, hrun₃, h₃⟩ := h₂.resume (resumeSend_atSeal hsl) 2
  rw [sealSection, hbl] at h₃
  have hsgn : resumeSend env s.signaling s.nextCall peer answer (.signing blob)
      = some ⟨s.signaling, [.deposited s.nextCall
          (envelopeOf env peer blob answer.nonce answer.sig)], none⟩ := by
    have hkn : ¬ (env.rendezvous && answer.rdvKey.isNone) = true := by
      rw [Bool.and_eq_true]
      rintro ⟨hrn, hno⟩
      have hsm := had hrn
      rw [isNone_iff_eq_none.mp hno] at hsm
      cases hsm
    exact if_neg hkn
  obtain ⟨t₄, hrun₄, h₄⟩ := h₃.resume hsgn 1
  have hend : sent env s peer data channelOpen answer = t₄ := by
    rw [sent, hrun₁, hrun₂, hrun₃, hrun₄, h₄.over]
  rw [hend, recorded_of_append h₄.history]
  rfl

/-! ## The recipient's poll -/

def polled (env : Env N Key) (r : State N Key) (blob : Value N) : State N Key :=
  (fabric env).exhaust (.resumePoll r.nextCall) 4 ((step env r (.poll [blob])).getD r)

section Polls

variable {env : Env N Key} {r t : State N Key} {blob : Value N} {n : Nat}

theorem exhaust_poll (h : t.polls.lookup n = some poll) :
    (fabric env).exhaust (.resumePoll n) (k + 1) t
      = (fabric env).exhaust (.resumePoll n) k (t.resumePoll env n poll) := by
  have hst : step env t (.resumePoll n) = some (t.resumePoll env n poll) := by
    rw [step, h]
    rfl
  exact System.exhaust_of_step hst k

theorem exhaust_endPoll (h : t.polls.lookup n = some ⟨[], ackIds, .next⟩) :
    (fabric env).exhaust (.resumePoll n) (k + 1) t = t.endPoll n ackIds := by
  have hov : step env (t.endPoll n ackIds) (.resumePoll n) = none := by
    have hno : (t.endPoll n ackIds).polls.lookup n = none := by
      rw [State.endPoll]
      split <;> exact lookup_erase _ _
    rw [step, hno]
    rfl
  rw [exhaust_poll h]
  exact System.exhaust_of_stuck hov k

theorem history_endPoll :
    ∃ acks : List (Event N), (t.endPoll n ackIds).history = acks ++ t.history
      ∧ ∀ e ∈ acks, e = .acked ackIds := by
  rw [State.endPoll]
  split
  · exact ⟨[], rfl, by simp⟩
  · exact ⟨[.acked ackIds], rfl, fun e he => mem_singleton.mp he⟩

theorem polled_dropped (hst : startBlob env r.signaling blob = (signaling, none)) :
    (polled env r blob).history = r.history := by
  have hbg : State.resumePoll env { r with polls := r.polls.insert r.nextCall ⟨[blob], [], .next⟩
                                           nextCall := r.nextCall + 1 } r.nextCall
        ⟨[blob], [], .next⟩
      = { r with signaling := signaling
                 polls := (r.polls.insert r.nextCall ⟨[blob], [], .next⟩).insert r.nextCall
                   ⟨[], [], .next⟩
                 nextCall := r.nextCall + 1 } := by
    rw [State.resumePoll, State.beginBlob, hst]
  rw [polled, step, getD_some, exhaust_poll (lookup_insert _), hbg,
    exhaust_endPoll (lookup_insert _)]
  rfl

def messageOf (env : Env N Key) (sender : Js N) (plaintext : Bytes) : List (Event N) :=
  ((readPayload env plaintext).map fun data => .message sender (.json data)).toList

theorem history_adopt : (t.adopt sender).history = t.history := by
  obtain ⟨peers, had⟩ := adopt_eq t sender
  rw [had]

theorem history_deliver : (t.deliver env sender plaintext opkId).history
      = messageOf env sender plaintext ++ .opened opkId :: t.history := by
  rw [State.deliver, messageOf]
  cases readPayload env plaintext with
  | none => rfl
  | some data =>
    dsimp only
    rw [State.record, history_adopt]
    rfl

theorem finishBlob_opened (hop : openBlob env t.preKeys blob = .ok (some (plaintext, opkId)))
    (n : Nat) (rest ackIds : List (Value N)) :
    (t.finishBlob env n blob rest ackIds).history
        = messageOf env (field blob "from") plaintext ++ .opened opkId :: t.history
      ∧ ∃ ackIds', (t.finishBlob env n blob rest ackIds).polls.lookup n
        = some ⟨rest, ackIds', .next⟩ := by
  rw [State.finishBlob, hop]
  exact ⟨history_deliver, _, lookup_insert _⟩

/-- **A blob whose signature verifies** is opened, and what is read of it is dispatched. -/
theorem polled_opened
    (hst : startBlob env r.signaling blob = (signaling, some (.verifying (some true))))
    (hop : openBlob env r.preKeys blob = .ok (some (plaintext, opkId))) :
    ∃ acks : List (Event N), (∀ e ∈ acks, ∃ ids, e = .acked ids)
      ∧ recorded r (polled env r blob)
        = acks ++ messageOf env (field blob "from") plaintext ++ [.opened opkId] := by
  let polls := r.polls.insert r.nextCall ⟨[blob], [], .next⟩
  let began : State N Key :=
    { r with signaling := signaling
             polls := polls.insert r.nextCall ⟨[blob], [], .verifying (some true)⟩
             nextCall := r.nextCall + 1 }
  let waiting : State N Key :=
    { began with polls := began.polls.insert r.nextCall ⟨[blob], [], .opening⟩ }
  have hbg : State.resumePoll env { r with polls := polls, nextCall := r.nextCall + 1 }
      r.nextCall ⟨[blob], [], .next⟩ = began := by
    rw [State.resumePoll, State.beginBlob, hst]
  have hvr : began.resumePoll env r.nextCall ⟨[blob], [], .verifying (some true)⟩
      = waiting := rfl
  have hop' : openBlob env waiting.preKeys blob = .ok (some (plaintext, opkId)) := hop
  obtain ⟨hhs, ackIds, hnx⟩ := finishBlob_opened hop' r.nextCall [] []
  have hfn : waiting.resumePoll env r.nextCall ⟨[blob], [], .opening⟩
      = waiting.finishBlob env r.nextCall blob [] [] := rfl
  have hrun : polled env r blob
      = (waiting.finishBlob env r.nextCall blob [] []).endPoll r.nextCall ackIds := by
    rw [polled, step, getD_some, exhaust_poll (lookup_insert _), hbg,
      exhaust_poll (lookup_insert _), hvr, exhaust_poll (lookup_insert _),
      hfn, exhaust_endPoll hnx]
  obtain ⟨acks, hen, hac⟩ := history_endPoll
  refine ⟨acks, fun e he => ⟨ackIds, hac e he⟩, recorded_of_append ?_⟩
  rw [hrun, hen, hhs, append_assoc, append_assoc]
  rfl

/-! ## No poll dispatches an `ArrayBuffer` -/

def JsonOnly (events : List (Event N)) : Prop :=
  ∀ sender bytes, .message sender (.buffer bytes) ∉ events

def JsonSince (r t : State N Key) : Prop := ∃ added, t.history = added ++ r.history ∧ JsonOnly added

theorem JsonSince.refl (r : State N Key) : JsonSince r r :=
  ⟨[], rfl, nofun⟩

theorem JsonSince.append (h : JsonSince r t) (hadd : t'.history = added ++ t.history)
    (hjs : JsonOnly added) : JsonSince r t' := by
  obtain ⟨earlier, her, hjs'⟩ := h
  refine ⟨added ++ earlier, ?_, fun sender bytes hmem => ?_⟩
  · rw [hadd, her, append_assoc]
  rcases mem_append.mp hmem with hmem | hmem
  · exact hjs sender bytes hmem
  · exact hjs' sender bytes hmem

theorem JsonSince.same (h : JsonSince r t) (hsame : t'.history = t.history) : JsonSince r t' := by
  have hno : t'.history = [] ++ t.history := hsame
  exact h.append hno nofun

theorem jsonOnly_delivered :
    JsonOnly (messageOf env sender plaintext ++ [.opened opkId]) := by
  intro peer bytes hmem
  rw [messageOf] at hmem
  cases hrd : readPayload env plaintext with
  | none =>
    rw [hrd] at hmem
    cases mem_singleton.mp hmem
  | some data =>
    rw [hrd] at hmem
    rcases mem_cons.mp hmem with h | h
    · cases h
    · cases mem_singleton.mp h

theorem jsonSince_resumePoll (h : JsonSince r t) :
    JsonSince r (t.resumePoll env n poll) := by
  obtain ⟨blobs, ackIds, pc⟩ := poll
  cases blobs with
  | nil =>
    obtain ⟨acks, hen, hac⟩ := history_endPoll
    refine h.append hen fun sender bytes hmem => ?_
    cases hac _ hmem
  | cons blob rest =>
    cases pc with
    | next =>
      refine h.same ?_
      rw [State.resumePoll, State.beginBlob]
      split
      all_goals rfl
    | verifying verdict =>
      refine h.same ?_
      rw [State.resumePoll]
      split
      all_goals rfl
    | opening =>
      rw [State.resumePoll]
      match hop : openBlob env t.preKeys blob with
      | .error _ | .ok none =>
        refine h.same ?_
        rw [State.finishBlob, hop]
      | .ok (some opened) =>
        have hhs := (finishBlob_opened hop n rest ackIds).1
        exact h.append (hhs.trans (append_cons _ _ _)) jsonOnly_delivered

theorem jsonSince_polled :
    JsonSince r (polled env r blob) := by
  have hst : ∀ t t', JsonSince r t → (fabric env).step t (.resumePoll r.nextCall) = some t' →
      JsonSince r t' := by
    intro t t' ht h
    obtain ⟨poll, -, rfl⟩ := map_eq_some_iff.mp h
    exact jsonSince_resumePoll ht
  exact System.exhaust_invariant hst 4 ((JsonSince.refl r).same rfl)

end Polls

/-! ## An honest relay -/

/-- A blob of a poll has what was deposited. -/
structure Relayed (e : Envelope) (blob : Value N) : Prop where
  /-- The sender, the sealed text, the nonce, the signature and the key are those deposited. -/
  sender : field blob "from" = text e.sender
  blobB64 : field blob "blob_b64" = text e.blobB64
  nonce : field blob "nonce" = text e.nonce
  sig : field blob "sig" = text e.sig
  epk : field blob "epk" = text e.epk

theorem relayed_mailbox (hpl : recipient.platform = sender.platform)
    (hp : sender.platform.Lawful) {e : Envelope} {id : Value N} :
    ∃ blob, relayFetch recipient [(id, wrapRelayEnvelope sender e)] = [blob]
      ∧ Relayed e blob := by
  have hor : (e.toJson : Value N).Ordered := by
    have hky : [literal "to", literal "from", literal "blob_b64", literal "nonce", literal "sig",
          literal "epk"].Nodup
        ∧ [literal "to", literal "from", literal "blob_b64", literal "nonce", literal "sig",
          literal "epk"].all (!beginsWithDigit ·) = true := by decide
    exact ⟨hky.1, hky.2, trivial, trivial, trivial, trivial, trivial, trivial, trivial⟩
  have hnr : (e.toJson : Value N).norm = e.toJson := rfl
  have hun : unwrapRelayEnvelope recipient (wrapRelayEnvelope sender e) = some e.toJson := by
    rw [unwrapRelayEnvelope, wrapRelayEnvelope, hpl, Envelope.toJson, decode_object hp,
      ← Envelope.toJson, hp.parse _ hor, hnr]
    rfl
  refine ⟨.obj (object [("id", some id), ("from", text e.sender), ("blob_b64", text e.blobB64),
    ("epk", text e.epk), ("sig", text e.sig), ("nonce", text e.nonce)]), ?_,
    rfl, rfl, rfl, rfl, rfl⟩
  rw [relayFetch, filterMap_cons]
  dsimp only
  rw [hun]
  rfl

/-- The recipient holds a key with which the signature of a deposit verifies. -/
structure Signed (env : Env N Key) (s : Signaling.State N Key) (e : Envelope) : Prop where
  nonce : e.nonce ≠ []
  sig : e.sig ≠ []
  epk : e.epk ≠ []
  verifies : ∃ key, s.peerKeys.lookup e.sender = some key
    ∧ env.verify key (bytesOf env.signaling (canonicalDeposit (text env.peerId) (text e.sender)
      (text e.nonce) (text e.blobB64) (text e.epk))) (.str e.sig) = true

section Honest

variable {env : Env N Key} {s : Signaling.State N Key} {e : Envelope} {blob : Value N}

theorem Relayed.blobText (h : Relayed e blob) :
    blobText blob = if e.blobB64.length > maxRelayBlobB64 then none else some e.blobB64 := by
  rw [Fabric.blobText, h.blobB64]
  rfl

theorem Relayed.startBlob_long (h : Relayed e blob) (hln : e.blobB64.length > maxRelayBlobB64) :
    startBlob env s blob = (s, none) := by
  rw [startBlob, h.blobText, if_pos hln]
  rfl

theorem Relayed.startBlob_signed (h : Relayed e blob)
    (hft : ¬ e.blobB64.length > maxRelayBlobB64) (hsgn : Signed env s e) :
    ∃ s', startBlob env s blob = (s', some (.verifying (some true))) := by
  obtain ⟨key, hkey, hvr⟩ := hsgn.verifies
  have htr : ∀ t : Text, t ≠ [] → truthy env (text t) = true := fun t ht => decide_eq_true ht
  have hver : ∃ s', verifyPeerSig env s blob = (s', some true) := by
    rw [verifyPeerSig, h.sender, h.nonce, h.blobB64, h.epk, h.sig]
    refine ⟨_, Prod.ext rfl ?_⟩
    have hvrd : (s.peerKeys.lookup e.sender).map (fun key =>
        env.verify key (bytesOf env.signaling (canonicalDeposit (text env.peerId) (text e.sender)
          (text e.nonce) (text e.blobB64) (text e.epk))) (.str e.sig)) = some true := by
      rw [hkey, map_some, hvr]
    exact hvrd
  obtain ⟨s', hver⟩ := hver
  refine ⟨s', ?_⟩
  rw [startBlob, h.blobText, if_neg hft, h.epk, h.sig, h.nonce, htr _ hsgn.epk,
    htr _ hsgn.sig, htr _ hsgn.nonce, hver]
  rfl

theorem Relayed.openBlob (hp : env.platform.Lawful) (h : Relayed e blob)
    (hft : ¬ e.blobB64.length > maxRelayBlobB64) (store : PreKeyStore) :
    openBlob env store blob = decryptBlob env store (text e.sender) e.epk e.blobB64 := by
  have hepk : template env.platform (text e.epk) = e.epk := hp.display e.epk
  rw [Fabric.openBlob, h.blobText, if_neg hft]
  rw [h.sender, h.epk, hepk]

end Honest

/-! ## From one client to the other -/

def channelled : Datum N → Datum N
  | .json (some (.str s)) => .json (text (wellFormed s))
  | .buffer bytes => .buffer bytes
  | .typed bytes _ => .buffer bytes
  | data => data

/-- What an open data channel accepts: a string, an `ArrayBuffer` or a typed array. -/
def Sendable : Datum N → Prop
  | .json (some (.str _)) => True
  | .buffer _ => True
  | .typed _ _ => True
  | _ => False

def transmitted (sender recipient : Env N Key) (relay : Envelope → Value N) (s r : State N Key)
    (data : Datum N) (channelOpen : Bool) (answer : Answer N) : State N Key :=
  match (recorded s (sent sender s recipient.peerId data channelOpen answer)).findSome?
      Event.envelope with
  | some e => polled recipient r (relay e)
  | none => r

/--
Two peers of a session that know each other's keys: the sender, in state `s`, seals with the
signed prekey `spk`, and the recipient is in state `r`. The answer is what the sender's call
for the datum gets.
-/
structure Acquainted (sender recipient : Env N Key) (s r : State N Key) (data : Datum N)
    (answer : Answer N) (spk : Option (SignedPreKey N)) : Prop where
  /-- They are in one session, on a platform that does what is documented. -/
  session : SameSession sender recipient
  platform : sender.platform.Lawful
  /-- The sender has the recipient as a relay peer, with its keys. -/
  relay : s.peers.lookup recipient.peerId = some .relay
  boxKey : s.signaling.peerBoxKeys.lookup recipient.peerId = some (.str recipient.boxPubKeyB64)
  preKey : s.signaling.peerSignedPreKeys.lookup recipient.peerId = spk
  /-- The signed prekey is the recipient's own, or there is none and none is claimed. -/
  own : spk = some (r.preKeys.publicBundle sender.platform recipient.peerId).signedPreKey
    ∨ spk = none ∧ isPeerV2Capable s.signaling recipient.peerId = false
      ∧ noPreKey sender answer.claim
  /-- The one-time prekey of the claim is still in the recipient's pool. -/
  oneTime : ∀ k ∈ oneTimePreKeyOf spk answer.claim,
    k ∈ (r.preKeys.publicBundle sender.platform recipient.peerId).oneTimePreKeys
  /-- A deposit over the rendezvous service has an address. -/
  address : sender.rendezvous = true → answer.rdvKey.isSome = true
  /-- The deposit has a nonce and a signature. -/
  nonce : answer.nonce ≠ []
  sig : answer.sig ≠ []
  /-- The signature over what the call seals verifies with the key that the recipient holds. -/
  identity : ∃ key, r.signaling.peerKeys.lookup sender.peerId = some key
    ∧ ∀ job blob, startJob sender s.signaling recipient.peerId data = some job →
      sealForPeer sender s.signaling recipient.peerId job spk (oneTimePreKeyOf spk answer.claim)
        answer.draws = .ok blob →
      recipient.verify key (bytesOf recipient.signaling (canonicalDeposit (text recipient.peerId)
        (text sender.peerId) (text answer.nonce) (text blob) (text sender.boxPubKeyB64)))
        (.str answer.sig) = true

section Between

variable {sender recipient : Env N Key} {s r : State N Key} {data : Datum N} {answer : Answer N}
  {spk : Option (SignedPreKey N)} {relay : Envelope → Value N}

section

variable (h : Acquainted sender recipient s r data answer spk)

include h

theorem Acquainted.seals (plaintext : Bytes) : ∃ blob,
    sealForPeer sender s.signaling recipient.peerId ⟨.str recipient.boxPubKeyB64, plaintext⟩ spk
        (oneTimePreKeyOf spk answer.claim) answer.draws = .ok blob
      ∧ Opens sender recipient r.preKeys plaintext
        (blobOverhead spk (oneTimePreKeyOf spk answer.claim)) blob := by
  have hopk := h.oneTime
  rcases h.own with rfl | ⟨rfl, hcp, -⟩
  · exact exists_sealV2 h.session h.platform r.preKeys plaintext answer.draws hopk
  · rw [sealForPeer, if_neg (Bool.eq_false_iff.mp hcp)]
    exact exists_sealV1 h.session h.platform r.preKeys plaintext answer.draws

theorem Acquainted.atSeal (job : Job N) :
    AtSeal sender s.signaling answer
      (.claiming job (s.signaling.peerSignedPreKeys.lookup recipient.peerId)) s.signaling job spk
      answer.claim := by
  rw [h.preKey]
  rcases h.own with rfl | ⟨rfl, -, hno⟩
  · exact .stored
  · exact .bare hno

theorem Acquainted.signed (hjob : startJob sender s.signaling recipient.peerId data = some job)
    (hbl : sealForPeer sender s.signaling recipient.peerId job spk
      (oneTimePreKeyOf spk answer.claim) answer.draws = .ok blob) :
    Signed recipient r.signaling
      (envelopeOf sender recipient.peerId blob answer.nonce answer.sig) := by
  obtain ⟨key, hkey, hver⟩ := h.identity
  refine ⟨h.nonce, h.sig, fun hnil => ?_, key, hkey, hver job blob hjob hbl⟩
  have hlen : sender.boxPubKeyB64.length = 44 := by
    rw [Env.boxPubKeyB64, bytesToB64, WebBase64.length_btoa, h.platform.publicKeySize]
  have hemp : sender.boxPubKeyB64 = [] := hnil
  rw [hemp] at hlen
  cases hlen

end

theorem Acquainted.transmitted_string
    (h : Acquainted sender recipient s r (.json (text t)) answer spk)
    (hrl : ∀ e, Relayed e (relay e)) (channelOpen : Bool) :
    ∃ acks : List (Event N), ∃ opkId, (∀ e ∈ acks, ∃ ids, e = .acked ids)
      ∧ recorded r (transmitted sender recipient relay s r (.json (text t)) channelOpen answer)
        = if (blobOverhead spk (oneTimePreKeyOf spk answer.claim) + (20
              + (encode (quote sender.session)).length + (encode (quote t)).length) + 2)
              / 3 * 4 > maxRelayBlobB64 then []
          else acks ++ messageOf recipient (text sender.peerId)
            (encode (stringify sender.platform.numbers (payload sender.session (text t))))
              ++ [.opened opkId] := by
  let plaintext := encode (stringify sender.platform.numbers (payload sender.session (text t)))
  have hjob : startJob sender s.signaling recipient.peerId (.json (text t))
      = some ⟨.str recipient.boxPubKeyB64, plaintext⟩ := by
    rw [startJob, h.boxKey]
    rfl
  obtain ⟨blob, hbl, hop⟩ := h.seals plaintext
  let e := envelopeOf sender recipient.peerId blob answer.nonce answer.sig
  have hsn : (recorded s (sent sender s recipient.peerId (.json (text t)) channelOpen
      answer)).findSome? Event.envelope = some e :=
    sent_deposits h.relay hjob (h.atSeal _) hbl h.address
  have hrun : transmitted sender recipient relay s r (.json (text t)) channelOpen answer
      = polled recipient r (relay e) := by
    rw [transmitted, hsn]
  have hrel := hrl e
  have hlen := hop.length
  rw [length_encode_payload] at hlen
  rw [hrun, ← hlen]
  by_cases hln : blob.length > maxRelayBlobB64
  · have hst : startBlob recipient r.signaling (relay e) = (r.signaling, none) :=
      hrel.startBlob_long hln
    refine ⟨[], none, forall_mem_nil _, ?_⟩
    rw [if_pos hln]
    exact recorded_of_append (polled_dropped hst)
  · obtain ⟨signaling, hst⟩ := hrel.startBlob_signed hln (h.signed hjob hbl)
    obtain ⟨opkId, hdc⟩ := hop.decrypts
    have hp : recipient.platform.Lawful := h.session.platform ▸ h.platform
    have hopn : openBlob recipient r.preKeys (relay e) = .ok (some (plaintext, opkId)) := by
      rw [hrel.openBlob hp hln]
      exact hdc
    obtain ⟨acks, hac, hrec⟩ := polled_opened hst hopn
    refine ⟨acks, opkId, hac, ?_⟩
    rw [if_neg hln, hrec, hrel.sender]
    rfl

theorem fits_iff : ¬ (n + 2) / 3 * 4 > maxRelayBlobB64 ↔ n ≤ maxRelayBlobB64 / 4 * 3 := by
  have hmax : maxRelayBlobB64 = 349584 := rfl
  rw [hmax]
  omega

/-- **A string is carried** exactly if both limits are kept and it has no lone surrogate. -/
theorem string_carried_iff (h : Acquainted sender recipient s r (.json (text t)) answer spk)
    (hrl : ∀ e, Relayed e (relay e)) (channelOpen : Bool) :
    .message (text sender.peerId) (.json (text (wellFormed t)))
        ∈ recorded r (transmitted sender recipient relay s r (.json (text t)) channelOpen answer)
      ↔ Paired t ∧ 20 + (quote sender.session).length + (quote t).length ≤ maxPayloadBytes
        ∧ blobOverhead spk (oneTimePreKeyOf spk answer.claim) + (20
            + (encode (quote sender.session)).length + (encode (quote t)).length)
          ≤ maxRelayBlobB64 / 4 * 3 := by
  obtain ⟨acks, opkId, hac, hrec⟩ := h.transmitted_string hrl channelOpen
  have hp : recipient.platform.Lawful := h.session.platform ▸ h.platform
  have hrd := readPayload_payload hp t
  rw [h.session.platform, h.session.session] at hrd
  rw [hrec, messageOf, hrd, ← fits_iff]
  split
  · rename_i hln
    exact ⟨fun hmem => absurd hmem not_mem_nil, fun hcar => absurd hln hcar.2.2⟩
  rename_i hft
  have hnv : .message (text sender.peerId) (.json (text (wellFormed t))) ∉ acks := by
    intro hmem
    obtain ⟨ids, hids⟩ := hac _ hmem
    cases hids
  -- neither the acks nor the event of the opening is a message
  simp only [mem_append, hnv, List.mem_singleton, reduceCtorEq, false_or, or_false,
    ← wellFormed_eq_iff]
  split
  · rename_i hln
    exact ⟨fun hmem => absurd hmem not_mem_nil, fun hcar => absurd hln (Nat.not_lt.mpr hcar.2.1)⟩
  · rename_i hsh
    simp [Nat.not_lt.mp hsh, hft, text]

theorem transmitted_json {sender recipient : Env N Key} {relay : Envelope → Value N}
    {s r : State N Key} {data : Datum N} {channelOpen : Bool} {answer : Answer N} :
    JsonOnly (recorded r (transmitted sender recipient relay s r data channelOpen answer)) := by
  have hsn : JsonSince r (transmitted sender recipient relay s r data channelOpen answer) := by
    rw [transmitted]
    split
    · exact jsonSince_polled
    · exact .refl r
  obtain ⟨added, hadd, hjs⟩ := hsn
  rw [recorded_of_append hadd]
  exact hjs

end Between

/--
What the relay carries: a string without lone surrogates whose payload has at most so many
units, and at most so many bytes together with what the blob adds.
-/
def Carried (session : Text) (overhead : Nat) : Datum N → Prop
  | .json (some (.str s)) => Paired s
      ∧ 20 + (quote session).length + (quote s).length ≤ maxPayloadBytes
      ∧ overhead + (20 + (encode (quote session)).length + (encode (quote s)).length)
        ≤ maxRelayBlobB64 / 4 * 3
  | _ => False

/--
**What the relay carries and what it does not.** The data channel makes the recipient
dispatch the datum; the relay makes it dispatch the same exactly if the datum is a string
without lone surrogates that is short enough.
-/
theorem relay_carries_iff (sender recipient : Env N Key) (s r : State N Key) (data : Datum N)
    (answer : Answer N) (spk : Option (SignedPreKey N))
    (h : Acquainted sender recipient s r data answer spk) (relay : Envelope → Value N)
    (hrelay : ∀ e, Relayed e (relay e)) (channelOpen : Bool) (hdata : Sendable data)
    (hsize : byteSize sender data ≤ maxPayloadBytes) :
    recorded r ((step recipient r (.receive sender.peerId (channelled data))).getD r)
        = [.message (text sender.peerId) (channelled data)]
      ∧ (.message (text sender.peerId) (channelled data)
          ∈ recorded r (transmitted sender recipient relay s r data channelOpen answer)
        ↔ Carried sender.session (blobOverhead spk (oneTimePreKeyOf spk answer.claim)) data) := by
  have hch : byteSize recipient (channelled data) ≤ maxPayloadBytes →
      recorded r ((step recipient r (.receive sender.peerId (channelled data))).getD r)
        = [.message (text sender.peerId) (channelled data)] := by
    intro hft
    rw [step, if_neg (Nat.not_lt.mpr hft)]
    exact recorded_of_append rfl
  cases data with
  | buffer bytes | typed bytes elements =>
    refine ⟨hch hsize, fun hmem => ?_, False.elim⟩
    exact transmitted_json _ _ hmem
  | json v =>
    obtain _ | v := v
    · exact hdata.elim
    cases v with
    | str t =>
      have hby : byteSize recipient (channelled (.json (some (.str t)) : Datum N))
          ≤ maxPayloadBytes := by
        have heq : byteSize recipient (channelled (.json (some (.str t)) : Datum N))
            = (encode (wellFormed t)).length := rfl
        rw [heq, encode_wellFormed]
        exact hsize
      refine ⟨hch hby, ?_⟩
      exact string_carried_iff h hrelay channelOpen
    | null | bool b | num n | infinite b | arr items | obj members => exact hdata.elim

/-! ## Two clients and a mailbox -/

noncomputable def sampleSender : Env Int Text :=
  { toyFabric samplePlatform "x" 3 with rendezvous := true }

noncomputable def sampleRecipient : Env Int Text :=
  { toyFabric samplePlatform "y" 4 with verify := fun _ _ _ => true }

noncomputable def sampleSending : State Int Text :=
  { State.joined sampleStore with
    signaling := { Signaling.State.new with
      peerBoxKeys := Finmap.singleton (literal "y") (.str sampleRecipient.boxPubKeyB64)
      peerSignedPreKeys := Finmap.singleton (literal "y")
        (sampleStore.publicBundle samplePlatform (literal "y")).signedPreKey }
    peers := Finmap.singleton (literal "y") .relay }

def samplePolling : State Int Text :=
  { State.joined sampleStore with
    signaling := { Signaling.State.new with
      peerKeys := Finmap.singleton (literal "x") (literal "k") } }

def sampleAnswer : Answer Int where
  claim := none
  draws := ⟨sampleBytes 32 5, sampleBytes 24 6⟩
  nonce := literal "n"
  sig := literal "s"
  rdvKey := some (literal "address")

theorem sample_acquainted (data : Datum Int) :
    Acquainted sampleSender sampleRecipient sampleSending samplePolling data sampleAnswer
      (some (sampleStore.publicBundle samplePlatform (literal "y")).signedPreKey) where
  session := ⟨rfl, rfl⟩
  platform := samplePlatform_lawful
  relay := lookup_singleton_eq
  boxKey := lookup_singleton_eq
  preKey := lookup_singleton_eq
  own := .inl rfl
  oneTime := nofun
  address := fun _ => rfl
  nonce := by decide
  sig := by decide
  identity := ⟨literal "k", lookup_singleton_eq, fun _ _ _ _ => rfl⟩

noncomputable def sampleMailbox (e : Envelope) : Value Int :=
  (relayFetch sampleRecipient [(.str (literal "1"), wrapRelayEnvelope sampleSender e)]).headD .null

theorem sample_relayed (e : Envelope) : Relayed e (sampleMailbox e) := by
  have hpl : sampleRecipient.platform = sampleSender.platform := rfl
  obtain ⟨blob, hft, hrel⟩ := relayed_mailbox hpl samplePlatform_lawful
  rw [sampleMailbox, hft]
  exact hrel

theorem short_string_carried :
    Event.message (text (literal "x")) (.json (text (literal "hi")))
      ∈ recorded samplePolling (transmitted sampleSender sampleRecipient sampleMailbox
        sampleSending samplePolling (.json (text (literal "hi"))) false sampleAnswer) := by
  have hiff := (relay_carries_iff sampleSender sampleRecipient sampleSending samplePolling
    (.json (text (literal "hi"))) sampleAnswer _ (sample_acquainted _) sampleMailbox sample_relayed
    false trivial (by decide)).2
  exact hiff.mpr ⟨.of_all (by decide), by decide, by decide⟩

def letters (n : Nat) : Text := List.replicate n 0x61

theorem letters_verbatim (n : Nat) : ∀ c ∈ letters n, isVerbatim c = true := by
  intro c hc
  rw [(mem_replicate.mp hc).2]
  decide

theorem length_quote_letters : (quote (letters n)).length = n + 2 := by
  rw [quote_verbatim (letters_verbatim n), length_cons, length_append, letters,
    length_replicate, length_singleton]

theorem wellFormed_letters : wellFormed (letters n) = letters n := by
  refine wellFormed_eq_iff.mpr (.of_units fun c hc => ?_)
  rw [(mem_replicate.mp hc).2]
  decide

theorem letters_dropped (hn : maxPayloadBytes < n + 22) :
    Event.message (text (literal "x")) (.json (text (letters n)))
      ∉ recorded samplePolling (transmitted sampleSender sampleRecipient sampleMailbox
        sampleSending samplePolling (.json (text (letters n))) false sampleAnswer) := by
  have hiff := string_carried_iff (sample_acquainted (.json (text (letters n)))) sample_relayed
    false
  rw [wellFormed_letters, length_quote_letters] at hiff
  intro hmem
  have hsh := (hiff.mp hmem).2.1
  omega

theorem payloads_not_carried :
    (∀ data, Acquainted sampleSender sampleRecipient sampleSending samplePolling data sampleAnswer
      (some (sampleStore.publicBundle samplePlatform (literal "y")).signedPreKey))
    ∧ (∀ e, Relayed e (sampleMailbox e))
    ∧ Event.message (text (literal "x")) (.buffer [1])
      ∉ recorded samplePolling (transmitted sampleSender sampleRecipient sampleMailbox
        sampleSending samplePolling (.buffer [1]) false sampleAnswer)
    ∧ byteSize sampleSender (.json (text (letters maxPayloadBytes))) = maxPayloadBytes
    ∧ Event.message (text (literal "x")) (.json (text (letters maxPayloadBytes)))
      ∉ recorded samplePolling (transmitted sampleSender sampleRecipient sampleMailbox
        sampleSending samplePolling (.json (text (letters maxPayloadBytes))) false
        sampleAnswer) := by
  refine ⟨sample_acquainted, sample_relayed, transmitted_json _ _, ?_,
    letters_dropped (Nat.lt_add_of_pos_right (by decide))⟩
  have hby : byteSize sampleSender (.json (text (letters maxPayloadBytes)))
      = (encode (letters maxPayloadBytes)).length := rfl
  rw [hby, length_encode_ascii fun c hc => isVerbatim_lt (letters_verbatim _ c hc), letters,
    length_replicate]

end VulosRelay.Client.Fabric
