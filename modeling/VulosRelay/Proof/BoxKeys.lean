import VulosRelay.Proof.AuthenticFrames

/-!
# The box key of a pinned peer

The first box key that a join brings for a peer is kept, before the signature of the join is
looked at and whether it has one or not. A signed join that verifies later pins the peer and
leaves the box key as it is: a server that puts in an unsigned join first has its own box
key under the peer's commitment to v2.

The joins that pinned a peer are collected beside the state (`watched`). A box key that is
held when the first of them is accepted is covered by it if the join carries that key, and no
later join changes the box key; so the key stays covered if none comes after the pin.
-/

namespace VulosRelay.Client.Signaling

open JsText Json List Option

variable {N Key : Type}

section Watched

variable (env : Env N Key)

def pinsWith (s : State N Key) (t : Thread N Key) (now : Int) : Bool :=
  match t.pc with
  | .joinVerify key =>
    verifySig env key (joinMessage t.sender t.p) t.p && fresh env (field t.p "ts") now
      && !s.seenNonces.contains (literal "join:" ++ nonceKeyOf env t.sender t.p)
  | _ => false

def pinsBy (s : State N Key) : Action N → Option (Text × Value N)
  | .resume n now =>
    ((s.threads.lookup n).filter fun t => pinsWith env s t now).map fun t => (t.sender, t.p)
  | _ => none

def watched : System (State N Key × List (Text × Value N)) (Action N) where
  init := fun w => w = (.new, [])
  step := fun w action =>
    (step env w.1 action).map fun s' => (s', (pinsBy env w.1 action).toList ++ w.2)

def bringsFirst (s : State N Key) (sender : Text) (p : Value N) : Option Text :=
  if isType p "join" && truthy env (field p "boxPubKey")
      && (s.peerBoxKeys.lookup sender).isNone then some sender
  else none

def bringsBox (s : State N Key) : Action N → Option Text
  | .deliver sender p _ =>
    if passes env p then
      if isType p "join" && truthy env (field p "depositPubKey")
          && (s.peerKeys.lookup sender).isNone then none
      else bringsFirst env s sender p
    else none
  | .resume n _ =>
    (s.threads.lookup n).bind fun t =>
      match t.pc with
      | .joinImport => bringsFirst env s t.sender t.p
      | _ => none
  | _ => none

/--
No first box key is stored for a peer that a signed join has pinned, and the first signed
join that pins a peer carries the box key that is held for it, if one is held.
-/
def PinnedWithBox (w : State N Key × List (Text × Value N)) (action : Action N) : Prop :=
  (∀ peer, bringsBox env w.1 action = some peer → ∀ q, (peer, q) ∉ w.2)
  ∧ ∀ peer p, pinsBy env w.1 action = some (peer, p) → (∀ q, (peer, q) ∉ w.2) →
    ∀ box, w.1.peerBoxKeys.lookup peer = some box → field p "boxPubKey" = some box

end Watched

variable {env : Env N Key} {s s' : State N Key} {sender peer : Text} {p box : Value N}
  {now : Int}

theorem lookup_boxSection
    (h : (boxSection env s sender p now).1.peerBoxKeys.lookup peer = some box) :
    s.peerBoxKeys.lookup peer = some box ∨ bringsFirst env s sender p = some peer := by
  rw [boxSection, (quiet_ran ran_preKeySection).boxKeys, keepBoxKey] at h
  rw [bringsFirst]
  split at h
  · rename_i hfst
    rw [if_pos hfst]
    split at h
    · rename_i first hbox
      by_cases hpr : peer = sender
      · exact .inr (congrArg some hpr.symm)
      · exact .inl ((Finmap.lookup_insert_of_ne _ hpr).symm.trans h)
    · exact .inl h
  · exact .inl h

theorem park_boxKeys (n : Nat) (pc : Option (Pc N Key)) :
    (s.park n sender p pc).peerBoxKeys = s.peerBoxKeys := by
  obtain ⟨threads, heq⟩ := park_eq s n sender p pc
  rw [heq]

theorem lookup_start (h : (start env s sender p now).1.peerBoxKeys.lookup peer = some box) :
    s.peerBoxKeys.lookup peer = some box
      ∨ bringsBox env s (.deliver sender p now) = some peer := by
  rw [start] at h
  rw [bringsBox]
  split at h
  · rename_i hps
    rw [if_pos hps]
    split at h
    · exact .inl h
    rename_i hkey
    rw [if_neg hkey]
    exact lookup_boxSection h
  · exact .inl h

theorem lookup_resume {t : Thread N Key}
    (h : (resume env s t.sender t.p now t.pc).1.peerBoxKeys.lookup peer = some box) :
    s.peerBoxKeys.lookup peer = some box
      ∨ t.pc = .joinImport ∧ bringsFirst env s t.sender t.p = some peer := by
  cases hpc : t.pc with
  | joinImport =>
    rw [hpc, resume] at h
    split at h <;> exact (lookup_boxSection h).imp_right fun hfst => ⟨rfl, hfst⟩
  | preKeyVerify check =>
    rw [hpc, resume] at h
    split at h
    all_goals
      rw [(quiet_ran ran_joinSection).boxKeys] at h
      exact .inl h
  | joinVerify key =>
    rw [hpc, resume, (quiet_ran ran_frameSection).boxKeys, (quiet_settleJoin key).boxKeys] at h
    exact .inl h
  | frameImport =>
    rw [hpc, resume] at h
    split at h
    · rw [(quiet_checkFrame (lookup_storeKey s t.sender _)).boxKeys] at h
      exact .inl h
    · rw [(quiet_checkFrame (by simp)).boxKeys] at h
      exact .inl h
  | frameVerify key =>
    rw [hpc, resume, (quiet_settleFrame key).boxKeys] at h
    exact .inl h
  | claimVerify check =>
    rw [hpc, resume, (quiet_settleClaim check).boxKeys] at h
    exact .inl h

theorem lookup_step {action : Action N} (hst : step env s action = some s')
    (h : s'.peerBoxKeys.lookup peer = some box) :
    s.peerBoxKeys.lookup peer = some box ∨ bringsBox env s action = some peer := by
  cases action with
  | deliver sender p now =>
    rw [← some.inj hst, park_boxKeys] at h
    exact lookup_start (s := { s with next := s.next + 1 }) h
  | resume n now =>
    obtain ⟨t, ht, hs'⟩ := map_eq_some_iff.mp hst
    rw [← hs', park_boxKeys] at h
    refine (lookup_resume h).imp_right fun hfst => ?_
    rw [bringsBox, ht, bind_some, hfst.1]
    exact hfst.2
  | claim peer' spk =>
    rw [← some.inj hst, park_boxKeys] at h
    have hcl : (startClaim env { s with next := s.next + 1 } peer' spk).1.peerBoxKeys.lookup
        peer = some box := h
    rw [(quiet_startClaim spk).boxKeys] at hcl
    exact .inl hcl
  | deposit peer' nonce blob epk sig =>
    rw [← some.inj hst, (quiet_verifyDeposit nonce blob epk sig).boxKeys] at h
    exact .inl h

theorem pinsBy_eq_some (h : pinsBy env s action = some (peer, p)) :
    ∃ n now t key, action = .resume n now ∧ s.threads.lookup n = some t ∧ t.sender = peer
      ∧ t.p = p ∧ t.pc = .joinVerify key
      ∧ verifySig env key (joinMessage peer p) p = true := by
  cases action with
  | deliver sender q now | claim peer' spk | deposit peer' nonce blob epk sig => cases h
  | resume n now =>
    obtain ⟨t, ht, heq⟩ := map_eq_some_iff.mp h
    obtain ⟨ht, hpn⟩ := filter_eq_some_iff.mp ht
    injection heq with hsnd hp
    rw [pinsWith] at hpn
    split at hpn
    · rename_i key hpc
      rw [Bool.and_eq_true, Bool.and_eq_true] at hpn
      rw [hsnd, hp] at hpn
      exact ⟨n, now, t, key, rfl, ht, hsnd, hp, hpc, hpn.1.1⟩
    · cases hpn

theorem pinsBy_of_bringsBox (h : bringsBox env s action = some peer) :
    pinsBy env s action = none := by
  cases hpn : pinsBy env s action with
  | none => rfl
  | some pin =>
    obtain ⟨sender, q⟩ := pin
    obtain ⟨n, now, t, key, rfl, ht, -, -, hpc, -⟩ := pinsBy_eq_some hpn
    rw [bringsBox, ht, bind_some, hpc] at h
    cases h

theorem accepted_of_pinsBy (hst : step env s action = some s')
    (h : pinsBy env s action = some (peer, p)) :
    .accepted peer .join (bytesOf env (joinMessage peer p)) ∈ s'.history := by
  obtain ⟨n, now, t, key, rfl, ht, hsnd, hp, hpc, hver⟩ := pinsBy_eq_some h
  obtain ⟨t', ht', hs'⟩ := map_eq_some_iff.mp hst
  obtain rfl := some.inj (ht.symm.trans ht')
  have hset : .accepted peer .join (bytesOf env (joinMessage peer p))
      ∈ (settleJoin env s peer p now key).history := by
    rw [settleJoin, if_pos hver]
    split <;> exact .head _
  rw [hsnd, hp, hpc] at hs'
  have hran : Grows (settleJoin env s peer p now key)
      (frameSection env (settleJoin env s peer p now key) peer p now).1 :=
    (quiet_ran ran_frameSection).grows
  rw [← hs']
  exact (hran.trans (grows_park _ n peer p _)).history.subset hset

/-- What is claimed: the box key that is held for a pinned peer is covered by the signature
of a join that pinned it, and by one that the peer has signed. -/
def Covered (env : Env N Key) (signed : SignedMessage N → Prop)
    (w : State N Key × List (Text × Value N)) (peer : Text) : Prop :=
  (∃ q, (peer, q) ∈ w.2) → ∀ box, w.1.peerBoxKeys.lookup peer = some box →
    ∃ p j, (peer, p) ∈ w.2 ∧ field p "boxPubKey" = some box
      ∧ .accepted peer .join (bytesOf env (joinMessage peer p)) ∈ w.1.history
      ∧ signed (.join j) ∧ j.message.norm = (joinMessage peer p).norm

structure Watching (env : Env N Key) (w : State N Key × List (Text × Value N)) : Prop where
  box : ∀ peer q, (peer, q) ∈ w.2 → ∀ box, w.1.peerBoxKeys.lookup peer = some box →
    ∃ p, (peer, p) ∈ w.2 ∧ field p "boxPubKey" = some box
  accepted : ∀ peer p, (peer, p) ∈ w.2 →
    .accepted peer .join (bytesOf env (joinMessage peer p)) ∈ w.1.history

theorem watching_step (hw : Watching env w) (hok : PinnedWithBox env w action)
    (hst : step env w.1 action = some s') :
    Watching env (s', (pinsBy env w.1 action).toList ++ w.2) := by
  obtain ⟨hfst, hcr⟩ := hok
  constructor
  · intro peer q hq box hbox
    have hmem : ∀ p, (peer, p) ∈ w.2 → (peer, p) ∈ (pinsBy env w.1 action).toList ++ w.2 :=
      fun p hp => mem_append_right _ hp
    by_cases hpin : ∃ q, (peer, q) ∈ w.2
    · obtain ⟨q', hq'⟩ := hpin
      rcases lookup_step hst hbox with hhl | hbr
      · obtain ⟨p, hp, hfl⟩ := hw.box peer q' hq' box hhl
        exact ⟨p, hmem p hp, hfl⟩
      · exact absurd hq' (hfst peer hbr q')
    · have hno : ∀ q, (peer, q) ∉ w.2 := fun q hq => hpin ⟨q, hq⟩
      rcases mem_append.mp hq with hnew | hold
      · have hpn : pinsBy env w.1 action = some (peer, q) := mem_toList.mp hnew
        rcases lookup_step hst hbox with hhl | hbr
        · exact ⟨q, hq, hcr peer q hpn hno box hhl⟩
        · rw [pinsBy_of_bringsBox hbr] at hpn
          cases hpn
      · exact absurd hold (hno q)
  · intro peer p hp
    rcases mem_append.mp hp with hnew | hold
    · exact accepted_of_pinsBy hst (mem_toList.mp hnew)
    · exact (grows_step hst).history.subset (hw.accepted peer p hold)

theorem watching_reachable (h : (watched env).Reachable (PinnedWithBox env) w) :
    Watching env w := by
  refine h.invariant (fun w hin => ?_) fun w action w' hw hok hst => ?_
  · rw [hin]
    exact ⟨fun _ _ hq => absurd hq not_mem_nil, fun _ _ hp => absurd hp not_mem_nil⟩
  · obtain ⟨s', hs', rfl⟩ := map_eq_some_iff.mp hst
    exact watching_step hw hok hs'

theorem client_of_watched (h : (watched env).Reachable ok w) :
    (client env).Reachable (Delivers fun _ => True) w.1 := by
  induction h with
  | init hin =>
    rw [hin]
    exact client_reachable_new env
  | @tail w w' action _ _ hst ih =>
    obtain ⟨s', hs', rfl⟩ := map_eq_some_iff.mp hst
    refine .tail (a := action) ih ?_ hs'
    cases action with
    | deliver sender p now | resume n now | claim peer spk | deposit peer nonce blob epk sig =>
      trivial

/--
**The box key of a pinned peer is vouched for**, in every run in which no first box key is
stored for a peer after a signed join has pinned it, and the first signed join that pins a
peer carries the box key that is held.
-/
theorem pinned_box_key_covered (env : Env N Key) (hnum : env.numbers.Lawful)
    (w : State N Key × List (Text × Value N))
    (hreach : (watched env).Reachable (PinnedWithBox env) w) (peer : Text)
    (signed : SignedMessage N → Prop)
    (hkeys : ∀ key, .stored peer key ∈ w.1.history → Unforgeable env key signed) :
    Covered env signed w peer := by
  rintro ⟨q, hq⟩ box hbox
  have hwt := watching_reachable hreach
  obtain ⟨p, hp, hfl⟩ := hwt.box peer q hq box hbox
  have hacc := hwt.accepted peer p hp
  -- the key of the check was stored for the peer, so the peer has signed these bytes
  obtain ⟨past, hps, key, sig, hsto, hver, -⟩ :=
    (traced_reachable (client_of_watched hreach)).events.of_mem hacc
  obtain ⟨m, hsgn, hby⟩ := hkeys key (hps hsto) _ sig hver
  obtain ⟨j, rfl, hmsg⟩ := join_of_bytes hnum hby
  exact ⟨p, j, hp, hfl, hacc, hsgn, hmsg⟩

def sampleSignedJoin : SignedJoin Int where
  session := literal "doc"
  sender := literal "x"
  depositPubKey := some (literal "k")
  boxPubKey := some (literal "box")
  supportsV2 := true
  nonce := literal "n"
  ts := 0

def honestJoin : Value Int :=
  .obj (object [("type", some (.str (literal "join"))), ("session", some (.str (literal "doc"))),
    ("depositPubKey", some (.str (literal "k"))), ("boxPubKey", some (.str (literal "box"))),
    ("supportsV2", some (.bool true)), ("nonce", some (.str (literal "n"))), ("ts", some (.num 0)),
    ("sig", some (.str (literal "sig")))])

def swappedJoin : Value Int :=
  .obj (object [("type", some (.str (literal "join"))),
    ("depositPubKey", some (.str (literal "k"))), ("boxPubKey", some (.str (literal "evil")))])

def joinEnv : Env Int Text := signedEnv (.join sampleSignedJoin)

def pinnedBoxCheck (box : String) (w : State Int Text × List (Text × Value Int)) : Bool :=
  decide (w.2 = [(literal "x", honestJoin)])
    && decide (w.1.peerBoxKeys.lookup (literal "x") = some (.str (literal box)))
    && decide (w.1.peerV2Capable.lookup (literal "x") = some ()) && ownKeyCheck w.1

theorem watched_reachable_new (env : Env N Key) : (watched env).Reachable ok (.new, []) := .init rfl

def pinnedWithBoxCheck (w : State Int Text × List (Text × Value Int)) (action : Action Int) :
    Bool :=
  ((bringsBox joinEnv w.1 action).isNone || w.2.isEmpty)
    && (pinsBy joinEnv w.1 action).all fun pin =>
      decide (w.1.peerBoxKeys.lookup pin.1 = field pin.2 "boxPubKey")

theorem pinnedWithBox_of_check (h : pinnedWithBoxCheck w action = true) :
    PinnedWithBox joinEnv w action := by
  rw [pinnedWithBoxCheck, Bool.and_eq_true] at h
  obtain ⟨hfst, hcr⟩ := h
  refine ⟨fun peer hbr q hq => ?_, fun peer p hpn _ box hbox => ?_⟩
  · rw [hbr, isNone_some, Bool.false_or, List.isEmpty_iff] at hfst
    rw [hfst] at hq
    cases hq
  · rw [hpn, all_some, decide_eq_true_eq] at hcr
    exact hcr.symm.trans hbox

theorem honest_box_key_covered :
    ∃ w, (watched joinEnv).Reachable (PinnedWithBox joinEnv) w
      ∧ w.1.peerBoxKeys.lookup (literal "x") = some (.str (literal "box"))
      ∧ w.2 = [(literal "x", honestJoin)]
      ∧ Covered joinEnv (· = .join sampleSignedJoin) w (literal "x") := by
  obtain ⟨w, hrch, hend⟩ := (watched_reachable_new joinEnv).exists_of_run pinnedWithBoxCheck
    [.deliver (literal "x") honestJoin 0, .resume 0 0, .resume 0 0] (pinnedBoxCheck "box")
    (fun _ _ => pinnedWithBox_of_check) (by decide +kernel)
  simp only [pinnedBoxCheck, Bool.and_eq_true, decide_eq_true_eq] at hend
  obtain ⟨⟨⟨hpn, hbox⟩, -⟩, hown⟩ := hend
  exact ⟨w, hrch, hbox, hpn,
    pinned_box_key_covered joinEnv integers_lawful w hrch _ _ (unforgeable_of_check hown)⟩

/--
**A server's box key under a peer's commitment.** An unsigned join with the peer's identity
key and the server's box key comes before the join that the peer has signed: the signed join
verifies and pins the peer, and the box key that is held is the server's.
-/
theorem swapped_box_key_held :
    joinEnv.numbers.Lawful ∧ ∃ w, (watched joinEnv).Reachable (fun _ _ => True) w
      ∧ (∀ key, .stored (literal "x") key ∈ w.1.history →
        Unforgeable joinEnv key (· = .join sampleSignedJoin))
      ∧ w.2 = [(literal "x", honestJoin)]
      ∧ w.1.peerV2Capable.lookup (literal "x") = some ()
      ∧ w.1.peerBoxKeys.lookup (literal "x") = some (.str (literal "evil"))
      ∧ ¬ Covered joinEnv (· = .join sampleSignedJoin) w (literal "x") := by
  obtain ⟨w, hrch, hend⟩ := (watched_reachable_new joinEnv).exists_of_run (fun _ _ => true)
    [.deliver (literal "x") swappedJoin 0, .resume 0 0, .deliver (literal "x") honestJoin 0,
      .resume 1 0]
    (pinnedBoxCheck "evil") (fun _ _ _ => trivial) (by decide +kernel)
  simp only [pinnedBoxCheck, Bool.and_eq_true, decide_eq_true_eq] at hend
  obtain ⟨⟨⟨hpn, hbox⟩, hpin⟩, hown⟩ := hend
  refine ⟨integers_lawful, w, hrch, unforgeable_of_check hown, hpn, hpin, hbox, fun hcv => ?_⟩
  obtain ⟨p, j, hp, hfl, -⟩ :=
    hcv ⟨honestJoin, by rw [hpn]; exact .head _⟩ _ hbox
  rw [hpn, mem_singleton] at hp
  injection hp with _ hp
  rw [hp] at hfl
  exact absurd hfl (by decide)

end VulosRelay.Client.Signaling
