import VulosRelay.Lib.Outcome
import VulosRelay.Proof.FabricMoves
import VulosRelay.Proof.RelayRoundTrip

/-!
# A one-time prekey opens one blob

Between the lookup of a one-time prekey and its deletion nothing else runs, and the store is
made once, before the first blob arrives. So the pool loses a prekey exactly when a blob has
been decrypted with it (`uses_step`), and a prekey that is not in the pool decrypts nothing.
The invariant counts: a prekey has opened no blob, or one blob and is gone.
-/

namespace VulosRelay.Client.Fabric

open JsText Json Signaling RelayBox X3dh List

variable {N Key : Type} {env : Env N Key} {s s' : State N Key}

def opensWith (id : Text) : Event N → Bool
  | .opened (some (.str used)) => used = id
  | _ => false

def uses (id : Text) (history : List (Event N)) : Nat := history.countP (opensWith id)

variable {id : Text}

theorem lookup_withoutOpk_self {store : PreKeyStore} :
    (store.withoutOpk id).opks.lookup id = none := by
  rw [lookup_eq_none_iff]
  intro opk hopk
  have hne : opk.1 ≠ id := of_decide_eq_true (mem_filter.mp hopk).2
  exact bne_iff_ne.mpr (Ne.symm hne)

theorem lookup_withoutOpk_of_none {store : PreKeyStore} {other : Text}
    (h : store.opks.lookup other = none) : (store.withoutOpk id).opks.lookup other = none := by
  rw [lookup_eq_none_iff] at h ⊢
  exact fun opk hopk => h opk (mem_of_mem_filter hopk)

theorem openV2_takes (h : openV2 env store sender epk b64 = .ok (some (plaintext, opkId))) :
    opkId = none ∨ ∃ id priv, opkId = text id ∧ store.opks.lookup id = some priv := by
  obtain ⟨parsed, -, h⟩ := Except.bind_eq_ok.mp h
  split at h
  · cases h
  split at h
  · split at h
    · cases h
    rename_i opkPriv hpr
    obtain ⟨bytes, -, h⟩ := Except.bind_eq_ok.mp h
    injection h with h
    injection h with h
    injection h with _ hid
    rw [← hid]
    -- only a string is the key of a one-time prekey
    rw [PreKeyStore.oneTimePreKeyPriv.eq_def] at hpr
    split at hpr
    · next id heq => exact .inr ⟨id, opkPriv, heq, hpr⟩
    · cases hpr
  · obtain ⟨bytes, -, h⟩ := Except.bind_eq_ok.mp h
    injection h with h
    injection h with h
    injection h with _ hid
    exact .inl hid.symm

theorem openBlob_takes (h : openBlob env store blob = .ok (some (plaintext, opkId))) :
    opkId = none ∨ ∃ id priv, opkId = text id ∧ store.opks.lookup id = some priv := by
  rw [openBlob] at h
  split at h
  · rename_i b64 _
    obtain ⟨version, -, h⟩ := Except.bind_eq_ok.mp h
    split at h
    · exact openV2_takes h
    obtain ⟨bytes, -, h⟩ := Except.bind_eq_ok.mp h
    injection h with h
    injection h with h
    injection h with _ hid
    exact .inl hid.symm
  · cases h

theorem uses_addsMinor (h : AddsMinor history history') (id : Text) :
    uses id history' = uses id history := by
  obtain ⟨added, rfl, hmn⟩ := h
  have hno : added.countP (opensWith id) = 0 := by
    rw [countP_eq_zero]
    intro event hev hop
    have := hmn event hev
    cases event with
    | opened opkId | sealed _ _ _ _ | deposited _ _ => exact this
    | message _ _ | channelSent _ _ | acked _ => cases hop
  rw [uses, countP_append, hno, Nat.zero_add, uses]

theorem uses_moved (h : Progress env signaling n recipient answer pc moved)
    {history : List (Event N)} : uses id (moved.events ++ history) = uses id history := by
  cases h with
  | begins | reads | checks _ | refuses _ | skips | deposits => rfl
  | seals _ =>
    rw [sealSection]
    split <;> rfl

/--
**The pool loses a one-time prekey only to a blob that was decrypted with it.** Every other
step leaves the pool and the counts as they are.
-/
theorem uses_step (h : step env s action = some s') :
    (s'.preKeys = s.preKeys ∧ ∀ id, uses id s'.history = uses id s.history)
    ∨ ∃ id priv, s.preKeys.opks.lookup id = some priv
      ∧ s'.preKeys = s.preKeys.withoutOpk id
      ∧ ∀ other, uses other s'.history = uses other s.history + if id = other then 1 else 0 := by
  cases stepped_step h with
  | signals _ hpks _ hhs => exact .inl ⟨hpks, uses_addsMinor hhs⟩
  | sends _ hpks _ hhs => exact .inl ⟨hpks, fun id => by rw [hhs]⟩
  | @moves n recipient answer pc moved _ hpr hs' =>
    rw [hs']
    exact .inl ⟨rfl, fun id => uses_moved hpr⟩
  | @opens blob plaintext opkId hop _ hpks _ hhs =>
    rcases openBlob_takes hop with rfl | ⟨id, priv, rfl, hlk⟩
    · refine .inl ⟨hpks, fun id => ?_⟩
      rw [uses_addsMinor hhs, uses, countP_cons_of_neg Bool.false_ne_true, uses]
    refine .inr ⟨id, priv, hlk, hpks, fun other => ?_⟩
    rw [uses_addsMinor hhs, uses, countP_cons, uses]
    simp only [opensWith, text, decide_eq_true_eq]

def UsedOnce (s : State N Key) : Prop :=
  ∀ id, uses id s.history = 0 ∨ uses id s.history = 1 ∧ s.preKeys.opks.lookup id = none

theorem usedOnce_step {action : Action N} (hs : UsedOnce s) (h : step env s action = some s') :
    UsedOnce s' := by
  intro other
  rcases uses_step h with ⟨hpks, hus⟩ | ⟨id, priv, hlk, hpks, hus⟩
  · rw [hpks, hus other]
    exact hs other
  rw [hpks, hus other]
  by_cases hoth : id = other
  · -- it was in the pool, so it had opened nothing
    rw [if_pos hoth, ← hoth]
    rcases hs id with hzr | ⟨-, hno⟩
    · exact .inr ⟨by rw [hzr], lookup_withoutOpk_self⟩
    · rw [hlk] at hno
      cases hno
  · rw [if_neg hoth]
    exact (hs other).imp_right fun h => ⟨h.1, lookup_withoutOpk_of_none h.2⟩

theorem usedOnce_reachable (hrch : (fabric env).Reachable (fun _ _ => True) s) : UsedOnce s := by
  refine hrch.invariant (fun s hs => ?_) fun s a s' hs _ hst => ?_
  · obtain ⟨_, _, _, _, preKeys, -, rfl⟩ := hs
    exact fun id => .inl rfl
  · have hst' : step env s a = some s' := hst
    exact usedOnce_step hs hst'

theorem uses_ne_zero {history : List (Event N)} (h : .opened (text id) ∈ history) :
    uses id history ≠ 0 := by
  intro hzr
  exact countP_eq_zero.mp hzr _ h (decide_eq_true rfl)

/--
**One-time prekeys are used once.** In every run after `join`, a one-time prekey has opened at
most one blob; one that has opened a blob is not in the pool; the pool changes in a step only
by losing a prekey that was in it and had opened nothing, and that has then opened a blob; and
a blob that is not decrypted changes nothing.
-/
theorem one_time_prekeys_used_once (env : Env N Key) (s : State N Key)
    (hreach : (fabric env).Reachable (fun _ _ => True) s) :
    (∀ id, uses id s.history ≤ 1)
    ∧ (∀ id, .opened (text id) ∈ s.history → s.preKeys.opks.lookup id = none)
    ∧ (∀ action s', step env s action = some s' → s'.preKeys = s.preKeys
      ∨ ∃ id priv, s.preKeys.opks.lookup id = some priv ∧ uses id s.history = 0
        ∧ s'.preKeys = s.preKeys.withoutOpk id ∧ uses id s'.history = 1)
    ∧ ∀ n blob rest ackIds, s.polls.lookup n = some ⟨blob :: rest, ackIds, .opening⟩ →
      (∀ opened, openBlob env s.preKeys blob ≠ .ok (some opened)) →
      ∀ s', step env s (.resumePoll n) = some s' →
        s'.preKeys = s.preKeys ∧ s'.history = s.history := by
  have hinv := usedOnce_reachable hreach
  refine ⟨fun id => ?_, fun id hop => ?_, fun action s' hst => ?_, ?_⟩
  · rcases hinv id with h | ⟨h, -⟩ <;> omega
  · rcases hinv id with h | ⟨-, hno⟩
    · exact absurd h (uses_ne_zero hop)
    · exact hno
  · rcases uses_step hst with ⟨hpks, -⟩ | ⟨id, priv, hlk, hpks, hus⟩
    · exact .inl hpks
    have hzr : uses id s.history = 0 := by
      rcases hinv id with h | ⟨-, hno⟩
      · exact h
      · rw [hlk] at hno
        cases hno
    refine .inr ⟨id, priv, hlk, hzr, hpks, ?_⟩
    rw [hus id, hzr, if_pos rfl]
  · intro n blob rest ackIds hpl hfl s' hst
    rw [step, hpl] at hst
    rw [← Option.some.inj hst, State.resumePoll, State.finishBlob.eq_def]
    split
    · next plaintext opkId hopn => exact absurd hopn (hfl _)
    · exact ⟨rfl, rfl⟩

def firstOpkId : Text := newKeyID (sampleBytes 12 1)

def blobValues : List (Value Int) :=
  [v2Header (tablePlatform []) (bytesToB64 (List.replicate 32 5))
      (text (newKeyID (sampleBytes 12 0))) (text firstOpkId),
    payload (literal "doc") (text (literal "hi"))]

def sampleBlob : Value Int :=
  .obj (object [("id", text (literal "1")), ("from", text (literal "x")),
    ("epk", text (bytesToB64 (List.replicate 32 3))),
    ("blob_b64", (sealV2 (toyFabric (tablePlatform blobValues) "x" 3) (literal "y")
      ⟨.str (bytesToB64 (List.replicate 32 4)),
        encode (stringify integers (payload (literal "doc") (text (literal "hi"))))⟩
      ⟨text (newKeyID (sampleBytes 12 0)), bytesToB64 (List.replicate 32 1), []⟩
      (some ⟨firstOpkId, bytesToB64 (List.replicate 32 2)⟩)
      ⟨sampleBytes 32 5, sampleBytes 24 6⟩).toOption.bind text)])

theorem copy_not_opened :
    ∃ s, (fabric (toyFabric (tablePlatform blobValues) "y" 4)).Reachable (fun _ _ => True) s
    ∧ uses firstOpkId s.history ≠ 0 ∧ ∀ id, uses id s.history ≤ 1 := by
  obtain ⟨s, hrch, hus⟩ :=
    (joined_reachable (toyFabric (tablePlatform blobValues) "y" 4)).exists_after
      [.poll [sampleBlob, sampleBlob], .resumePoll 0, .resumePoll 0, .resumePoll 0, .resumePoll 0,
        .resumePoll 0]
      (uses firstOpkId ·.history ≠ 0) (by decide +kernel)
  exact ⟨s, hrch, hus, (one_time_prekeys_used_once _ s hrch).1⟩

end VulosRelay.Client.Fabric
