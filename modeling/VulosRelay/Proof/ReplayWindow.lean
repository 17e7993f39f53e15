import VulosRelay.Proof.AuthenticFrames

/-!
# A signed frame is dispatched once while its nonce is remembered

The nonce of a frame or join that was accepted is remembered until 1000 others have been, and
a frame is fresh for 30 s after its timestamp. A copy is dispatched again if the nonce is
forgotten while the frame is fresh. Beside the client runs a clock that does not go back, and
a list that says for each nonce in the cache which timestamp it came with (`timed`). If
whatever a full cache forgets is no longer fresh, then what was dispatched is remembered or
old (`Remembered`), and a copy is refused either way.
-/

namespace VulosRelay.Client.Signaling

open JsText Json List State

variable {N Key : Type}

/-! ## What a step remembers -/

def Action.clock : Action N → Option Int
  | .deliver _ _ now => some now
  | .resume _ now => some now
  | _ => none

def Event.ofFrame : Event N Key → Bool
  | .dispatched _ p _ => isFrame p
  | _ => false

def frames (s : State N Key) : List (Event N Key) := s.history.filter Event.ofFrame

section Timed

variable (env : Env N Key)

def stampOf (s : State N Key) (key : Key) (message p : Value N) (nonceKey : Text) (now : Int) :
    Option (Text × Option (Value N)) :=
  if verifySig env key message p && (fresh env (field p "ts") now
      && !s.seenNonces.contains nonceKey) then some (nonceKey, field p "ts")
  else none

def remembersWith (s : State N Key) (t : Thread N Key) (now : Int) :
    Option (Text × Option (Value N)) :=
  match t.pc with
  | .joinVerify key =>
    stampOf env s key (joinMessage t.sender t.p) t.p
      (literal "join:" ++ nonceKeyOf env t.sender t.p) now
  | .frameVerify key =>
    stampOf env s key (frameMessage t.sender t.p) t.p (nonceKeyOf env t.sender t.p) now
  | _ => none

def remembers (s : State N Key) : Action N → Option (Text × Option (Value N))
  | .resume n now => (s.threads.lookup n).bind fun t => remembersWith env s t now
  | _ => none

end Timed

/-! ## What a step does to the cache and to the frames -/

/-- The cache, the frames and the calls are as they were. -/
structure Keeps (s s' : State N Key) : Prop where
  seen : s'.seenNonces = s.seenNonces
  frames : frames s' = frames s
  threads : s'.threads = s.threads

variable {env : Env N Key} {s s' s'' : State N Key} {sender : Text} {p : Value N} {now : Int}

theorem Keeps.refl (s : State N Key) : Keeps s s := ⟨rfl, rfl, rfl⟩

theorem Keeps.trans (h : Keeps s s') (h' : Keeps s' s'') : Keeps s s'' :=
  ⟨h'.seen.trans h.seen, h'.frames.trans h.frames, h'.threads.trans h.threads⟩

theorem frames_cons (h : event.ofFrame = false) : frames (s.record event) = frames s := by
  simp [frames, record, h]

theorem keeps_record (h : event.ofFrame = false) :
    Keeps s (s.record event) := ⟨rfl, frames_cons h, rfl⟩

theorem keeps_storeKey :
    Keeps s (s.storeKey peer key) := ⟨rfl, by simp [frames, storeKey, Event.ofFrame], rfl⟩

theorem keeps_storePreKey :
    Keeps s (storePreKey s peer check) :=
  ⟨rfl, by simp [frames, storePreKey, record, pin, Event.ofFrame], rfl⟩

variable {stamp : Text × Option (Value N)} {pc : Option (Pc N Key)} {ts : Option (Value N)}

theorem keeps_ran (hfr : isFrame p = false) (h : Ran env s sender p now s' pc) : Keeps s s' := by
  cases h with
  | dropped => exact .refl s
  | dispatched _ => exact keeps_record hfr
  | importing _ _ => exact .refl s
  | checking _ _ => exact keeps_record rfl

theorem keeps_checkFrame (hfr : isFrame p = false) :
    Keeps s (checkFrame env s sender p now key).1 := by
  cases key with
  | some key =>
    rw [checkFrame]
    split
    · exact keeps_record rfl
    · exact .refl s
  | none =>
    rw [checkFrame]
    split
    · exact .refl s
    · exact keeps_record hfr

theorem keeps_boxSection (hfr : isFrame p = false) : Keeps s (boxSection env s sender p now).1 := by
  have hkp : Keeps s (keepBoxKey env s sender p) := by
    obtain ⟨boxKeys, heq⟩ := keepBoxKey_eq env s sender p
    rw [heq]
    exact ⟨rfl, rfl, rfl⟩
  exact hkp.trans (keeps_ran hfr ran_preKeySection)

theorem keeps_start (env : Env N Key) {s : State N Key} (sender : Text) (now : Int)
    (hfr : isFrame p = false) : Keeps s (start env s sender p now).1 := by
  rw [start]
  split
  · split
    · exact .refl s
    · exact keeps_boxSection hfr
  · exact .refl s

theorem not_join_of_isFrame (hfr : isFrame p = true) : isType p "join" = false := by
  obtain ⟨type, hty⟩ := isFrame_type hfr
  rw [isType, hty]
  exact decide_eq_false (type_ne_join type)

section

variable (env : Env N Key)

theorem start_eq_checkFrame {now : Int} (hfr : isFrame p = true)
    (hkey : s.peerKeys.lookup sender = some key) :
    start env s sender p now
      = if passes env p then checkFrame env s sender p now (some key) else (s, none) := by
  have hjn := not_join_of_isFrame hfr
  have hbox : keepBoxKey env s sender p = s := by simp [keepBoxKey, hjn]
  have hpre : preKeyCheck env s sender p = none := by simp [preKeyCheck, hjn]
  have hno : joinKey env s sender p = none := by simp [joinKey, hjn]
  have hsc : boxSection env s sender p now = checkFrame env s sender p now (some key) := by
    rw [boxSection, hbox, preKeySection, hpre]
    rw [joinSection, hno]
    rw [frameSection, if_pos hfr, hkey]
  rw [start, hsc, hjn]
  rfl

/-- **A frame of a peer whose key is held** waits for its check or is dropped. -/
theorem start_frame {now : Int} (hfr : isFrame p = true)
    (hkey : s.peerKeys.lookup sender = some key) :
    Keeps s (start env s sender p now).1
      ∧ ∀ pc, (start env s sender p now).2 = some pc → pc = .frameVerify key := by
  rw [start_eq_checkFrame env hfr hkey]
  split
  · rw [checkFrame]
    split
    · exact ⟨keeps_record rfl, fun pc hpc => (Option.some.inj hpc).symm⟩
    · exact ⟨.refl s, by simp⟩
  · exact ⟨.refl s, by simp⟩

theorem keeps_startClaim {s : State N Key} (peer : Text) (spk : Value N) :
    Keeps s (startClaim env s peer spk).1 := by
  rw [startClaim]
  split
  · split
    · exact keeps_record rfl
    · exact .refl s
  · exact .refl s

theorem keeps_verifyDeposit (s : State N Key) (peer : Text) (nonce blob epk sig : Value N) :
    Keeps s (verifyDeposit env s peer nonce blob epk sig) := by
  rw [verifyDeposit]
  split
  · exact .refl s
  split
  · exact (keeps_record rfl).trans (keeps_record rfl)
  · exact keeps_record rfl

end

/-- A nonce with its timestamp is remembered, and perhaps the frame it came with dispatched. -/
structure Remembering (env : Env N Key) (s : State N Key) (stamp : Text × Option (Value N))
    (now : Int) (s' : State N Key) : Prop where
  fresh : fresh env stamp.2 now = true
  unseen : stamp.1 ∉ s.seenNonces
  seen : s'.seenNonces = (s.remember stamp.1).seenNonces
  frames : frames s' = frames s ∨ ∃ sender p, isFrame p = true
    ∧ stamp = (nonceKeyOf env sender p, field p "ts")
    ∧ frames s' = .dispatched sender p now :: frames s

theorem Remembering.keeps (h : Remembering env s stamp now s') (hkp : Keeps s' s'') :
    Remembering env s stamp now s'' :=
  ⟨h.fresh, h.unseen, hkp.seen.trans h.seen, by rw [hkp.frames]; exact h.frames⟩

inductive Effect (env : Env N Key) (s : State N Key) (now : Int) (s' : State N Key) :
    Option (Text × Option (Value N)) → Prop where
  | keeps : Keeps s s' → Effect env s now s' none
  | remembering {stamp : Text × Option (Value N)} : Remembering env s stamp now s' →
      s'.threads = s.threads → Effect env s now s' (some stamp)

theorem Effect.threads {stamp : Option (Text × Option (Value N))}
    (h : Effect env s now s' stamp) : s'.threads = s.threads := by
  cases h with
  | keeps hkp => exact hkp.threads
  | remembering _ hthr => exact hthr

/-- The shape of what follows a check: the signature is accepted, and the nonce remembered if
the message is fresh and new. -/
theorem effect_settle (hacc : Keeps s accepted)
    (hsn : done.seenNonces = (s.remember nonceKey).seenNonces)
    (hthr : done.threads = s.threads)
    (hfrs : frames done = frames s ∨ ∃ sender p', isFrame p' = true
      ∧ (nonceKey, field p "ts") = (nonceKeyOf env sender p', field p' "ts")
      ∧ frames done = .dispatched sender p' now :: frames s) :
    Effect env s now
      (if verifySig env key message p then
        if fresh env (field p "ts") now && !s.seenNonces.contains nonceKey then done
        else accepted
      else s)
      (stampOf env s key message p nonceKey now) := by
  rw [stampOf]
  by_cases hver : verifySig env key message p = true
  · rw [if_pos hver, hver, Bool.true_and]
    by_cases hnew : (fresh env (field p "ts") now && !s.seenNonces.contains nonceKey) = true
    · rw [if_pos hnew, if_pos hnew]
      rw [Bool.and_eq_true, Bool.not_eq_true'] at hnew
      refine .remembering ⟨hnew.1, fun hmem => ?_, hsn, hfrs⟩ hthr
      rw [contains_iff_mem.mpr hmem] at hnew
      cases hnew.2
    · rw [if_neg hnew, if_neg hnew]
      exact .keeps hacc
  · rw [if_neg hver, if_neg (by simp [hver])]
    exact .keeps (.refl s)

theorem effect_settleJoin :
    Effect env s now (settleJoin env s sender p now key)
      (stampOf env s key (joinMessage sender p) p
        (literal "join:" ++ nonceKeyOf env sender p) now) := by
  have hacc : Keeps s (s.record (.accepted sender .join
      (bytesOf env (joinMessage sender p)))) := keeps_record rfl
  exact effect_settle hacc rfl rfl (.inl hacc.frames)

theorem effect_settleFrame :
    Effect env s now (settleFrame env s sender p now key)
      (stampOf env s key (frameMessage sender p) p (nonceKeyOf env sender p) now) := by
  have hacc : Keeps s (s.record (.accepted sender .frame
      (bytesOf env (frameMessage sender p)))) := keeps_record rfl
  refine effect_settle hacc rfl rfl ?_
  by_cases hfr : isFrame p = true
  · refine .inr ⟨sender, p, hfr, rfl, ?_⟩
    simp [frames, record, remember, Event.ofFrame, hfr]
  · refine .inl ?_
    simp [frames, record, remember, Event.ofFrame, hfr]

theorem Effect.after {stamp : Option (Text × Option (Value N))}
    (h : Effect env s now s' stamp) (hkp : Keeps s' s'') : Effect env s now s'' stamp := by
  cases h with
  | keeps hkpt => exact .keeps (hkpt.trans hkp)
  | remembering hst hthr =>
    exact .remembering (hst.keeps hkp) (hkp.threads.trans hthr)

def FramesWait (s : State N Key) : Prop :=
  ∀ n t, s.threads.lookup n = some t → isFrame t.p = true → ∃ key, t.pc = .frameVerify key

theorem effect_resume (env : Env N Key) (s : State N Key) (now : Int) {t : Thread N Key}
    (hwt : isFrame t.p = true → ∃ key, t.pc = .frameVerify key) :
    Effect env s now (resume env s t.sender t.p now t.pc).1 (remembersWith env s t now) := by
  rw [remembersWith]
  have hfr : ∀ {pc : Pc N Key}, t.pc = pc → (∀ key, pc ≠ .frameVerify key) →
      isFrame t.p = false := by
    intro pc hpc hne
    refine Bool.eq_false_iff.mpr fun h => ?_
    obtain ⟨key, hkey⟩ := hwt h
    exact hne key (hpc.symm.trans hkey)
  cases hpc : t.pc with
  | joinImport =>
    have hnot := hfr hpc (by simp)
    rw [resume]
    split
    · exact .keeps (keeps_storeKey.trans (keeps_boxSection hnot))
    · exact .keeps (keeps_boxSection hnot)
  | preKeyVerify check =>
    have hnot := hfr hpc (by simp)
    rw [resume]
    split
    · exact .keeps (keeps_storePreKey.trans (keeps_ran hnot ran_joinSection))
    · exact .keeps (keeps_ran hnot ran_joinSection)
  | joinVerify key =>
    have hnot := hfr hpc (by simp)
    exact effect_settleJoin.after (keeps_ran hnot ran_frameSection)
  | frameImport =>
    have hnot := hfr hpc (by simp)
    rw [resume]
    split
    · exact .keeps (keeps_storeKey.trans (keeps_checkFrame hnot))
    · exact .keeps (keeps_checkFrame hnot)
  | frameVerify key => exact effect_settleFrame
  | claimVerify check =>
    rw [resume, settleClaim]
    split
    · refine .keeps ⟨rfl, ?_, rfl⟩
      simp [frames, record, pin, Event.ofFrame]
    · exact .keeps (.refl s)

/-- The key of a peer is held when a frame of the peer arrives. -/
def KeyHeld (s : State N Key) : Action N → Prop
  | .deliver sender p _ => isFrame p = true → ∃ key, s.peerKeys.lookup sender = some key
  | _ => True

theorem park_keeps :
    (s.park n sender p pc).seenNonces = s.seenNonces
      ∧ frames (s.park n sender p pc) = frames s := by
  obtain ⟨threads, heq⟩ := park_eq s n sender p pc
  rw [heq]
  exact ⟨rfl, rfl⟩

theorem framesWait_park (hs : FramesWait s) (hthr : s'.threads = s.threads)
    (hpc : ∀ next, pc = some next → isFrame p = true → ∃ key, next = .frameVerify key) :
    FramesWait (s'.park n sender p pc) := by
  intro m t ht hfr
  rcases lookup_park ht with ⟨-, heq, -, hp⟩ | ⟨-, hoth⟩
  · exact hpc t.pc heq (hp ▸ hfr)
  · rw [hthr] at hoth
    exact hs m t hoth hfr

inductive StepEffect (env : Env N Key) (s : State N Key) (action : Action N)
    (s' : State N Key) : Prop where
  | keeps : remembers env s action = none → s'.seenNonces = s.seenNonces →
      frames s' = frames s → StepEffect env s action s'
  | remembering {stamp : Text × Option (Value N)} {now : Int} :
      remembers env s action = some stamp → action.clock = some now →
      Remembering env s stamp now s' → StepEffect env s action s'

theorem stepEffect_parked (hno : remembers env s action = none) (h : Keeps s s') :
    StepEffect env s action (s'.park n sender p pc) := by
  obtain ⟨hsn, hfrs⟩ := park_keeps
  exact .keeps hno (hsn.trans h.seen) (hfrs.trans h.frames)

theorem stepEffect_resume (ht : s.threads.lookup n = some t)
    (h : Effect env s now s' (remembersWith env s t now)) :
    StepEffect env s (.resume n now) (s'.park n t.sender t.p pc) := by
  have hrm : remembers env s (.resume n now) = remembersWith env s t now := by
    rw [remembers, ht, Option.bind_some]
  cases hst : remembersWith env s t now with
  | none =>
    rw [hst] at h hrm
    cases h with
    | keeps hkp => exact stepEffect_parked hrm hkp
  | some stamp =>
    rw [hst] at h hrm
    obtain ⟨hsn, hfrs⟩ := park_keeps
    cases h with
    | remembering hrem _ =>
      refine .remembering hrm rfl ?_
      exact ⟨hrem.fresh, hrem.unseen, hsn.trans hrem.seen, by rw [hfrs]; exact hrem.frames⟩

/-- **What a step does to the cache and the frames**, and that frames wait on. -/
theorem stepEffect_step {action : Action N} (hs : FramesWait s) (hok : KeyHeld s action)
    (h : step env s action = some s') : StepEffect env s action s' ∧ FramesWait s' := by
  have hnum : Keeps s { s with next := s.next + 1 } := ⟨rfl, rfl, rfl⟩
  cases action with
  | deliver sender p now =>
    cases h
    by_cases hfr : isFrame p = true
    · obtain ⟨key, hkey⟩ := hok hfr
      obtain ⟨hkp, hpc⟩ :=
        start_frame (s := { s with next := s.next + 1 }) env hfr hkey
      have hall := hnum.trans hkp
      refine ⟨stepEffect_parked rfl hall, framesWait_park hs hall.threads ?_⟩
      exact fun next hnx _ => ⟨key, hpc next hnx⟩
    · have hall := hnum.trans
        (keeps_start env sender now (Bool.eq_false_iff.mpr hfr))
      refine ⟨stepEffect_parked rfl hall, framesWait_park hs hall.threads ?_⟩
      exact fun next _ hp => absurd hp hfr
  | resume n now =>
    obtain ⟨t, ht, hs'⟩ := Option.map_eq_some_iff.mp h
    rw [← hs']
    have hef := effect_resume env s now (hs n t ht)
    refine ⟨stepEffect_resume ht hef, framesWait_park hs hef.threads ?_⟩
    -- a frame that goes on has been checked, and its call ends
    intro next hnx hfr
    obtain ⟨key, hkey⟩ := hs n t ht hfr
    rw [hkey] at hnx
    cases hnx
  | claim peer spk =>
    cases h
    have hall := hnum.trans (keeps_startClaim env peer spk)
    refine ⟨stepEffect_parked rfl hall, framesWait_park hs hall.threads ?_⟩
    exact nofun
  | deposit peer nonce blob epk sig =>
    cases h
    have hkp := keeps_verifyDeposit env s peer nonce blob epk sig
    refine ⟨.keeps rfl hkp.seen hkp.frames, fun n t ht => ?_⟩
    rw [hkp.threads] at ht
    exact hs n t ht

/-! ## The client with a clock -/

structure Timed (N Key : Type) where
  client : State N Key
  clock : Int
  /-- The nonces in the cache with the timestamps they came with, oldest first. -/
  stamps : List (Text × Option (Value N))

def keepStamp (stamps : List (Text × Option (Value N))) (stamp : Text × Option (Value N)) :
    List (Text × Option (Value N)) :=
  (if stamps.length ≥ nonceCacheMax then stamps.tail else stamps) ++ [stamp]

def timed (env : Env N Key) : System (Timed N Key) (Action N) where
  init := fun w => ∃ clock, w = ⟨.new, clock, []⟩
  step := fun w action => (step env w.client action).map fun s' =>
    ⟨s', action.clock.getD w.clock,
      ((remembers env w.client action).map (keepStamp w.stamps)).getD w.stamps⟩

/-- Frames come from peers whose keys are held, and the clock does not go back. -/
def Orderly (w : Timed N Key) (action : Action N) : Prop :=
  KeyHeld w.client action ∧ ∀ now, action.clock = some now → w.clock ≤ now

/-- When a nonce is remembered in a full cache, what the oldest one came with is no longer
fresh. -/
def Paced (env : Env N Key) (w : Timed N Key) (action : Action N) : Prop :=
  ∀ stamp now, remembers env w.client action = some stamp → action.clock = some now →
    nonceCacheMax ≤ w.stamps.length → ∀ oldest, w.stamps.head? = some oldest →
      fresh env oldest.2 now = false

/-- Two dispatches of one signed frame: of the same payload, or of payloads with the bytes of
a frame that a peer signs. -/
inductive Copies (env : Env N Key) : Event N Key → Event N Key → Prop where
  | exact {sender : Text} {p : Value N} {now now' : Int} : isFrame p = true →
      Copies env (.dispatched sender p now) (.dispatched sender p now')
  | signed {f : SignedFrame N} {sender sender' : Text} {p p' : Value N} {now now' : Int} :
      isFrame p = true → isFrame p' = true →
      bytesOf env (frameMessage sender p) = bytesOf env f.message →
      bytesOf env (frameMessage sender' p') = bytesOf env f.message →
      Copies env (.dispatched sender p now) (.dispatched sender' p' now')

/-! ## What was dispatched is remembered or old -/

def Old (env : Env N Key) (ts : Option (Value N)) (now : Int) : Prop :=
  ∃ n, ts = some (.num n) ∧ (30000 : Rat) < now - env.numbers.value n

theorem num_of_fresh (h : fresh env ts now = true) :
    ∃ n, ts = some (.num n) := by
  rw [fresh.eq_def] at h
  split at h
  · next n => exact ⟨n, rfl⟩
  · cases h

theorem Old.mono (h : Old env ts now) (hle : now ≤ later) : Old env ts later := by
  obtain ⟨n, hts, hold⟩ := h
  have hcs : (now : Rat) ≤ later := Rat.intCast_le_intCast.mpr hle
  exact ⟨n, hts, lt_of_lt_of_le hold (sub_le_sub_right hcs _)⟩

theorem Old.not_fresh (h : Old env ts now) : fresh env ts now = false := by
  obtain ⟨n, hts, hold⟩ := h
  refine Bool.eq_false_iff.mpr fun hfr => ?_
  exact absurd (bounds_of_fresh hts hfr).1 (not_le_of_gt hold)

theorem old_of_not_fresh (hts : ts = some (.num n))
    (hah : env.numbers.value n ≤ (now + 5000 : Int)) (h : fresh env ts now = false) :
    Old env ts now := by
  refine ⟨n, hts, ?_⟩
  rw [hts, fresh, Bool.not_eq_false', Bool.or_eq_true] at h
  rcases h with h | h
  · exact absurd (of_decide_eq_true h) (not_lt_of_ge hah)
  · exact of_decide_eq_true h

inductive Alike (env : Env N Key) : Event N Key → Event N Key → Prop where
  | intro {sender sender' : Text} {p p' : Value N} {now now' : Int} :
      nonceKeyOf env sender p = nonceKeyOf env sender' p' → field p "ts" = field p' "ts" →
      Alike env (.dispatched sender p now) (.dispatched sender' p' now')

/-- The invariant: what could come again is remembered. -/
structure Remembered (env : Env N Key) (w : Timed N Key) : Prop where
  /-- The cache is the nonces of the stamps. -/
  stamps : w.stamps.map Prod.fst = w.client.seenNonces
  /-- No stamp is more than 5 s ahead of the clock. -/
  ahead : ∀ stamp ∈ w.stamps, ∃ n, stamp.2 = some (.num n)
    ∧ env.numbers.value n ≤ (w.clock + 5000 : Int)
  /-- A frame under way waits for the check of its signature. -/
  waits : FramesWait w.client
  /-- A dispatched frame is too old to come again, or its nonce is still remembered. -/
  kept : ∀ sender p now, .dispatched sender p now ∈ frames w.client →
    Old env (field p "ts") w.clock ∨ (nonceKeyOf env sender p, field p "ts") ∈ w.stamps
  /-- No two dispatched frames are copies of each other. -/
  once : (frames w.client).Pairwise fun e e' => ¬ Alike env e e'

theorem map_keepStamp (h : stamps.map Prod.fst = s.seenNonces) :
    (keepStamp stamps stamp).map Prod.fst = (s.remember stamp.1).seenNonces := by
  have hlen : stamps.length = s.seenNonces.length := by rw [← h, length_map]
  rw [keepStamp, remember, map_append, hlen]
  split
  · rw [map_tail, h]
    rfl
  · rw [h]
    rfl

theorem mem_keepStamp (h : other ∈ stamps) :
    other ∈ keepStamp stamps stamp ∨ nonceCacheMax ≤ stamps.length ∧ stamps.head? = some other := by
  rw [keepStamp]
  split
  · rename_i hfl
    cases stamps with
    | nil => cases h
    | cons oldest stamps =>
      rcases mem_cons.mp h with rfl | htl
      · exact .inr ⟨hfl, rfl⟩
      · exact .inl (mem_append_left _ htl)
  · exact .inl (mem_append_left _ h)

theorem mem_of_mem_keepStamp (h : other ∈ keepStamp stamps stamp) :
    other ∈ stamps ∨ other = stamp := by
  rw [keepStamp] at h
  rcases mem_append.mp h with h | h
  · split at h
    · exact .inl (mem_of_mem_tail h)
    · exact .inl h
  · exact .inr (mem_singleton.mp h)

variable {w : Timed N Key} {action : Action N}

theorem ahead_mono (hle : now ≤ later) (h : env.numbers.value n ≤ (now + 5000 : Int)) :
    env.numbers.value n ≤ (later + 5000 : Int) :=
  le_trans h (Rat.intCast_le_intCast.mpr (Int.add_le_add_right hle 5000))

theorem remembered_keeps (hw : Remembered env w) (hle : w.clock ≤ later) (hwt : FramesWait s')
    (hsn : s'.seenNonces = w.client.seenNonces) (hfrs : frames s' = frames w.client) :
    Remembered env ⟨s', later, w.stamps⟩ where
  stamps := hw.stamps.trans hsn.symm
  ahead := by
    intro stamp hst
    obtain ⟨n, hts, hah⟩ := hw.ahead stamp hst
    exact ⟨n, hts, ahead_mono hle hah⟩
  waits := hwt
  kept := by
    intro sender p now hmem
    have hold : .dispatched sender p now ∈ frames w.client := hfrs ▸ hmem
    exact (hw.kept sender p now hold).imp_left fun h => h.mono hle
  once := by
    rw [hfrs]
    exact hw.once

theorem remembered_remembering (hw : Remembered env w) (hle : w.clock ≤ now) (hwt : FramesWait s')
    (hpc : nonceCacheMax ≤ w.stamps.length → ∀ oldest, w.stamps.head? = some oldest →
      fresh env oldest.2 now = false)
    (h : Remembering env w.client stamp now s') :
    Remembered env ⟨s', now, keepStamp w.stamps stamp⟩ := by
  -- what was dispatched before is remembered or old after the step
  have hpre : ∀ sender p time, .dispatched sender p time ∈ frames w.client →
      Old env (field p "ts") now
        ∨ (nonceKeyOf env sender p, field p "ts") ∈ keepStamp w.stamps stamp := by
    intro sender p time hmem
    rcases hw.kept sender p time hmem with hold | hst
    · exact .inl (hold.mono hle)
    rcases mem_keepStamp hst with hkp | ⟨hfl, hhd⟩
    · exact .inr hkp
    · obtain ⟨n, hts, hah⟩ := hw.ahead _ hst
      exact .inl (old_of_not_fresh hts (ahead_mono hle hah) (hpc hfl _ hhd))
  have hah : ∀ other ∈ keepStamp w.stamps stamp, ∃ n, other.2 = some (.num n)
      ∧ env.numbers.value n ≤ (now + 5000 : Int) := by
    intro other hoth
    rcases mem_of_mem_keepStamp hoth with hmem | rfl
    · obtain ⟨n, hts, hbn⟩ := hw.ahead other hmem
      exact ⟨n, hts, ahead_mono hle hbn⟩
    · obtain ⟨n, hts⟩ := num_of_fresh h.fresh
      exact ⟨n, hts, (bounds_of_fresh hts h.fresh).2⟩
  have hstm := (map_keepStamp hw.stamps).trans h.seen.symm
  rcases h.frames with hfrs | ⟨sender, p, hfr, hst, hfrs⟩
  · refine ⟨hstm, hah, hwt, fun sender p time hmem => ?_, ?_⟩
    · exact hpre sender p time (hfrs ▸ hmem)
    · rw [hfrs]
      exact hw.once
  · have hfresh := h.fresh
    have huns := h.unseen
    rw [hst] at hfresh huns
    refine ⟨hstm, hah, hwt, fun sender' p' time hmem => ?_, ?_⟩
    · rw [hfrs] at hmem
      rcases mem_cons.mp hmem with heq | hold
      · cases heq
        exact .inr (hst ▸ mem_append_right _ mem_cons_self)
      · exact hpre sender' p' time hold
    · rw [hfrs]
      refine pairwise_cons.mpr ⟨fun e he hal => ?_, hw.once⟩
      cases hal with
      | @intro _ sender' _ p' _ time hkey hts =>
        rcases hw.kept sender' p' time he with hold | hmem
        · rw [hts, (hold.mono hle).not_fresh] at hfresh
          cases hfresh
        have hsn : nonceKeyOf env sender' p' ∈ w.client.seenNonces := by
          rw [← hw.stamps]
          exact mem_map_of_mem hmem
        rw [← hkey] at hsn
        exact huns hsn

theorem remembered_step (hw : Remembered env w) (hord : Orderly w action)
    (hpc : Paced env w action) (h : (timed env).step w action = some w') :
    Remembered env w' := by
  obtain ⟨s', hs', rfl⟩ := Option.map_eq_some_iff.mp h
  obtain ⟨hef, hwt⟩ := stepEffect_step hw.waits hord.1 hs'
  cases hef with
  | keeps hno hsn hfrs =>
    rw [hno]
    refine remembered_keeps hw ?_ hwt hsn hfrs
    cases hclk : action.clock with
    | none => exact Int.le_refl _
    | some now => exact hord.2 now hclk
  | remembering hst hclk hrem =>
    rw [hst, hclk]
    exact remembered_remembering hw (hord.2 _ hclk) hwt (hpc _ _ hst hclk)
      hrem

theorem remembered_reachable
    (h : (timed env).Reachable (fun w action => Orderly w action ∧ Paced env w action) w) :
    Remembered env w := by
  refine h.invariant (fun w hin => ?_) fun w action w' hw hok hst =>
    remembered_step hw hok.1 hok.2 hst
  obtain ⟨clock, rfl⟩ := hin
  refine ⟨rfl, fun _ hstm => ?_, fun n t ht => ?_, fun _ _ _ hmem => ?_, List.Pairwise.nil⟩
  · cases hstm
  · cases ht
  · cases hmem

/-! ## Every run -/

theorem stamp_of_message {f : SignedFrame N} {sender : Text} {p : Value N}
    (h : f.message.norm = (frameMessage sender p).norm) :
    sender = f.sender ∧ field p "nonce" = some (.str f.nonce)
    ∧ field p "ts" = some (.num f.ts) := by
  obtain ⟨-, -, -, hsnd, hts, -⟩ := fields_of_message h
  injection h with h
  rw [norm_object, norm_object] at h
  have hfl := object_inj (by rfl) (by exact frame_names) h
  simp only [sentFields, map_cons, map_nil, cons.injEq, Prod.mk.injEq, true_and]
    at hfl
  obtain ⟨-, -, -, -, hnc, -⟩ := hfl
  obtain ⟨v, hv, hnr⟩ := Option.map_eq_some_iff.mp hnc.symm
  obtain ⟨n, hn, hnr'⟩ := Option.map_eq_some_iff.mp hts
  rw [eq_str_of_norm hnr] at hv
  rw [eq_num_of_norm hnr'] at hn
  exact ⟨hsnd, hv, hn⟩

theorem alike_of_copies (hnum : env.numbers.Lawful) (h : Copies env e e') :
    e.ofFrame = true ∧ e'.ofFrame = true ∧ Alike env e e' := by
  cases h with
  | exact hfr => exact ⟨hfr, hfr, .intro rfl rfl⟩
  | signed hfr hfr' hby hby' =>
    obtain ⟨hsnd, hnc, hts⟩ := stamp_of_message (encode_stringify_inj hnum hby.symm)
    obtain ⟨hsnd', hnc', hts'⟩ :=
      stamp_of_message (encode_stringify_inj hnum hby'.symm)
    refine ⟨hfr, hfr', .intro ?_ (hts.trans hts'.symm)⟩
    rw [nonceKeyOf, nonceKeyOf, hsnd, hsnd', hnc, hnc']

/--
**A signed frame is dispatched once.** In every run in which frames come from peers whose
keys are held, the clock does not go back and what a full cache forgets is no longer fresh,
no two `signal` events are of one signed frame.
-/
theorem signed_frame_dispatched_once (env : Env N Key) (hnum : env.numbers.Lawful)
    (w : Timed N Key)
    (h : (timed env).Reachable (fun w action => Orderly w action ∧ Paced env w action) w) :
    w.client.history.Pairwise fun e e' => ¬ Copies env e e' := by
  have hon := pairwise_filter.mp (remembered_reachable h).once
  refine hon.imp fun hnot hcp => ?_
  obtain ⟨hfr, hfr', hal⟩ := alike_of_copies hnum hcp
  exact hnot hfr hfr' hal

/-! ## A peer that sends many frames -/

def chatNonce (i : Nat) : Text := List.replicate (i + 1) 0x6E

def chatFrame (i : Nat) : SignedFrame Int := { sampleFrame "doc" "me" with nonce := chatNonce i }

def chatPayload (i : Nat) : Value Int :=
  .obj (object [("type", some (.str (literal "ice"))), ("session", some (.str (literal "doc"))),
    ("to", some (.str (literal "me"))), ("nonce", some (.str (chatNonce i))),
    ("ts", some (.num 0)), ("candidate", some (sampleCandidate .null)),
    ("sig", some (.str (literal "sig")))])

def chatBytes (bytes : List UInt8) : Bool :=
  (List.range 1001).any fun i => decide (bytes = bytesOf sampleEnv (chatFrame i).message)

def chatEnv : Env Int Text :=
  { sampleEnv with
    verify := fun key bytes sig =>
      decide (key = literal "k") && chatBytes bytes && isText (literal "sig") (some sig) }

theorem verify_chatEnv :
    chatEnv.verify key bytes sig
      = (decide (key = literal "k") && chatBytes bytes && isText (literal "sig") (some sig)) :=
  rfl

def chatKey (i : Nat) : Text := literal "x" ++ literal ":" ++ chatNonce i

theorem chatKey_inj (h : chatKey i = chatKey j) : i = j := by
  have hlen := congrArg length (append_cancel_left h)
  simp only [chatNonce, length_replicate] at hlen
  omega

theorem verifySig_chat (hi : i ≤ 1000) :
    verifySig chatEnv (literal "k") (frameMessage (literal "x") (chatPayload i)) (chatPayload i)
      = true := by
  have hmsg : frameMessage (literal "x") (chatPayload i) = (chatFrame i).message := rfl
  have hby : chatBytes (bytesOf chatEnv (chatFrame i).message) = true := by
    rw [chatBytes, any_eq_true]
    exact ⟨i, mem_range.mpr (by omega), decide_eq_true rfl⟩
  have hsig : field (chatPayload i) "sig" = some (.str (literal "sig")) := rfl
  rw [verifySig, hmsg, hsig, Option.any_some, verify_chatEnv, hby]
  rfl

variable {s : State Int Text} {i : Nat}

theorem start_chat (hkey : s.peerKeys.lookup (literal "x") = some (literal "k")) :
    start chatEnv s (literal "x") (chatPayload i) 0
      = (s.record (.checked (literal "x") (literal "k")), some (.frameVerify (literal "k"))) := by
  have hps : passes chatEnv (chatPayload i) = true := rfl
  rw [start_eq_checkFrame chatEnv rfl hkey, if_pos hps, checkFrame]
  exact if_pos rfl

theorem settleFrame_chat (hi : i ≤ 1000) (huns : chatKey i ∉ s.seenNonces) :
    settleFrame chatEnv s (literal "x") (chatPayload i) 0 (literal "k")
      = ((s.record (.accepted (literal "x") .frame
          (bytesOf chatEnv (frameMessage (literal "x") (chatPayload i))))).remember
            (chatKey i)).record (.dispatched (literal "x") (chatPayload i) 0) := by
  have hfr : fresh chatEnv (some (.num 0)) 0 = true := by decide +kernel
  have hts : field (chatPayload i) "ts" = some (.num 0) := rfl
  have hnc : nonceKeyOf chatEnv (literal "x") (chatPayload i) = chatKey i := rfl
  rw [settleFrame, verifySig_chat hi, hnc, hts, hfr]
  simp [huns]

theorem steps_chat (hi : i ≤ 1000) (hkey : s.peerKeys.lookup (literal "x") = some (literal "k"))
    (huns : chatKey i ∉ s.seenNonces) :
    ∃ s₁ s₂ older, step chatEnv s (.deliver (literal "x") (chatPayload i) 0) = some s₁
      ∧ step chatEnv s₁ (.resume s.next 0) = some s₂
      ∧ s₂.peerKeys.lookup (literal "x") = some (literal "k")
      ∧ s₂.seenNonces = (s.remember (chatKey i)).seenNonces
      ∧ s₂.history = .dispatched (literal "x") (chatPayload i) 0 :: older
      ∧ s.history ⊆ older := by
  have hst := start_chat (s := { s with next := s.next + 1 }) (i := i) hkey
  obtain ⟨s₁, hs₁⟩ : ∃ s₁, s₁ = ({ s with next := s.next + 1 }.record
      (.checked (literal "x") (literal "k"))).park s.next (literal "x") (chatPayload i)
      (some (.frameVerify (literal "k"))) := ⟨_, rfl⟩
  have hstp : step chatEnv s (.deliver (literal "x") (chatPayload i) 0) = some s₁ := by
    rw [step, hst, hs₁]
  have hthr : s₁.threads.lookup s.next
      = some ⟨literal "x", chatPayload i, .frameVerify (literal "k")⟩ := by
    rw [hs₁]
    exact Finmap.lookup_insert _
  have hsn : s₁.seenNonces = s.seenNonces := by
    rw [hs₁]
    rfl
  have hset := settleFrame_chat (s := s₁) hi (hsn ▸ huns)
  have hrsm : step chatEnv s₁ (.resume s.next 0)
      = some ((settleFrame chatEnv s₁ (literal "x") (chatPayload i) 0 (literal "k")).park s.next
        (literal "x") (chatPayload i) none) := by
    rw [step, hthr]
    rfl
  rw [hset] at hrsm
  refine ⟨s₁, _, _, hstp, hrsm, ?_, ?_, rfl, ?_⟩
  · rw [hs₁]
    exact hkey
  · rw [hs₁]
    rfl
  · rw [hs₁]
    exact fun e he => .tail _ (.tail _ he)

theorem timed_tail (h : (timed env).Reachable ok w) (hok : ok w action)
    (hst : step env w.client action = some s') :
    ∃ stamps, (timed env).Reachable ok ⟨s', action.clock.getD w.clock, stamps⟩ :=
  ⟨_, .tail h hok (Option.map_eq_some_iff.mpr ⟨s', hst, rfl⟩)⟩

structure Chatted (nonces : List Text) (w : Timed Int Text) : Prop where
  reachable : (timed chatEnv).Reachable Orderly w
  clock : w.clock = 0
  key : w.client.peerKeys.lookup (literal "x") = some (literal "k")
  seen : w.client.seenNonces = nonces

theorem chatted_next {nonces : List Text} {w : Timed Int Text} (hw : Chatted nonces w)
    (hi : i ≤ 1000) (huns : chatKey i ∉ nonces) :
    ∃ w' older, Chatted ((if nonces.length ≥ nonceCacheMax then nonces.tail else nonces)
        ++ [chatKey i]) w'
      ∧ w'.client.history = .dispatched (literal "x") (chatPayload i) 0 :: older
      ∧ w.client.history ⊆ older := by
  obtain ⟨hrch, hclk, hkey, hsn⟩ := hw
  obtain ⟨s₁, s₂, older, hst₁, hst₂, hkey₂, hsn₂, hhs, holder⟩ :=
    steps_chat hi hkey (hsn ▸ huns)
  have hord : Orderly w (.deliver (literal "x") (chatPayload i) 0) := by
    refine ⟨fun _ => ⟨_, hkey⟩, fun now hnow => ?_⟩
    rw [hclk, ← Option.some.inj hnow]
  obtain ⟨stamps₁, hrch₁⟩ := timed_tail hrch hord hst₁
  have hord₁ : Orderly (⟨s₁, 0, stamps₁⟩ : Timed Int Text) (.resume w.client.next 0) := by
    refine ⟨trivial, fun now hnow => ?_⟩
    rw [← Option.some.inj hnow]
  obtain ⟨stamps₂, hrch₂⟩ := timed_tail hrch₁ hord₁ hst₂
  refine ⟨_, older, ⟨hrch₂, rfl, hkey₂, ?_⟩, hhs, holder⟩
  rw [hsn₂, remember, hsn]

def orderlyCheck (w : Timed Int Text) : Action Int → Bool
  | .deliver sender p now =>
    decide (now = w.clock) && (!isFrame p || (w.client.peerKeys.lookup sender).isSome)
  | .resume _ now => decide (now = w.clock)
  | _ => true

theorem orderly_of_check {w : Timed Int Text} {action : Action Int}
    (h : orderlyCheck w action = true) : Orderly w action := by
  cases action with
  | deliver sender p now =>
    obtain ⟨hclk, hhl⟩ := Bool.and_eq_true_iff.mp h
    refine ⟨fun hfr => ?_, fun now' hnow => ?_⟩
    · rw [hfr, Bool.not_true, Bool.false_or] at hhl
      exact Option.isSome_iff_exists.mp hhl
    · rw [← Option.some.inj hnow, of_decide_eq_true hclk]
  | resume n now =>
    refine ⟨trivial, fun now' hnow => ?_⟩
    rw [← Option.some.inj hnow, of_decide_eq_true h]
  | claim peer spk | deposit peer nonce blob epk sig =>
    exact ⟨trivial, nofun⟩

theorem timed_reachable_new (env : Env N Key) (ok : Timed N Key → Action N → Prop) :
    (timed env).Reachable ok ⟨.new, 0, []⟩ := .init ⟨0, rfl⟩

theorem copy_refused :
    ∃ w, (timed chatEnv).Reachable (fun w action => Orderly w action ∧ Paced chatEnv w action) w
      ∧ frames w.client = [.dispatched (literal "x") (chatPayload 0) 0]
      ∧ w.client.history.count (.checked (literal "x") (literal "k")) = 2
      ∧ w.client.history.Pairwise fun e e' => ¬ Copies chatEnv e e' := by
  obtain ⟨w, hrch, hend⟩ := (timed_reachable_new chatEnv
    fun w action => Orderly w action ∧ Paced chatEnv w action).exists_of_run
    (fun w action => orderlyCheck w action && decide (w.stamps.length < nonceCacheMax))
    [.deliver (literal "x") (sampleJoin "k") 0, .resume 0 0,
      .deliver (literal "x") (chatPayload 0) 0, .deliver (literal "x") (chatPayload 0) 0,
      .resume 1 0, .resume 2 0]
    (fun w : Timed Int Text => decide (
      frames w.client = [.dispatched (literal "x") (chatPayload 0) 0]
      ∧ w.client.history.count (.checked (literal "x") (literal "k")) = 2))
    (fun w action hch => by
      obtain ⟨hord, hrm⟩ := Bool.and_eq_true_iff.mp hch
      refine ⟨orderly_of_check hord, fun stamp now _ _ hfl => ?_⟩
      exact absurd hfl (Nat.not_le_of_lt (of_decide_eq_true hrm)))
    (by decide +kernel)
  obtain ⟨hfrs, hchk⟩ := of_decide_eq_true hend
  exact ⟨w, hrch, hfrs, hchk, signed_frame_dispatched_once chatEnv integers_lawful w hrch⟩

theorem chatted_start : ∃ w, Chatted [] w := by
  obtain ⟨w, hrch, hend⟩ := (timed_reachable_new chatEnv Orderly).exists_of_run orderlyCheck
    [.deliver (literal "x") (sampleJoin "k") 0, .resume 0 0]
    (fun w : Timed Int Text => decide (w.clock = 0
      ∧ w.client.peerKeys.lookup (literal "x") = some (literal "k") ∧ w.client.seenNonces = []))
    (fun _ _ => orderly_of_check) (by decide)
  obtain ⟨hclk, hkey, hsn⟩ := of_decide_eq_true hend
  exact ⟨w, hrch, hclk, hkey, hsn⟩

theorem chatKey_not_mem {l : List Nat} (h : i ∉ l) : chatKey i ∉ l.map chatKey := by
  intro hmem
  obtain ⟨j, hj, hkey⟩ := mem_map.mp hmem
  exact h (chatKey_inj hkey ▸ hj)

theorem chatted_upTo (i : Nat) (hi : i < 1000) :
    ∃ w, Chatted ((List.range (i + 1)).map chatKey) w
      ∧ .dispatched (literal "x") (chatPayload 0) 0 ∈ w.client.history := by
  induction i with
  | zero =>
    obtain ⟨w, hw⟩ := chatted_start
    obtain ⟨w', older, hw', hhs, -⟩ :=
      chatted_next (i := 0) hw (Nat.zero_le _) not_mem_nil
    exact ⟨w', hw', by rw [hhs]; exact .head _⟩
  | succ i ih =>
    obtain ⟨w, hw, hds⟩ := ih (by omega)
    have hnew : chatKey (i + 1) ∉ (range (i + 1)).map chatKey :=
      chatKey_not_mem (by simp)
    obtain ⟨w', older, hw', hhs, holder⟩ := chatted_next hw (by omega) hnew
    have hrm : ¬ ((range (i + 1)).map chatKey).length ≥ nonceCacheMax := by
      simp only [length_map, length_range, nonceCacheMax]
      omega
    rw [if_neg hrm] at hw'
    refine ⟨w', ?_, ?_⟩
    · rw [range_succ, map_append]
      exact hw'
    · rw [hhs]
      exact .tail _ (holder hds)

/--
**A copy is dispatched within the window.** 1000 other frames of the same moment drive the
nonce of the first one out of the cache, and a copy of it is dispatched a second time.
-/
theorem copy_dispatched_after_eviction :
    chatEnv.numbers.Lawful ∧ ∃ w older, (timed chatEnv).Reachable Orderly w
      ∧ w.client.history = .dispatched (literal "x") (chatPayload 0) 0 :: older
      ∧ .dispatched (literal "x") (chatPayload 0) 0 ∈ older
      ∧ ¬ w.client.history.Pairwise fun e e' => ¬ Copies chatEnv e e' := by
  obtain ⟨w, hw, hfst⟩ := chatted_upTo 999 (by omega)
  have hrn : range (999 + 1) = 0 :: range' 1 999 := range_eq_range'
  obtain ⟨w₁, older₁, hw₁, hhs₁, holder₁⟩ :=
    chatted_next (i := 1000) hw le_rfl (chatKey_not_mem (by simp))
  have hfl : ((range (999 + 1)).map chatKey).length ≥ nonceCacheMax := by
    simp [nonceCacheMax]
  rw [if_pos hfl, hrn, map_cons, tail_cons] at hw₁
  have hfr : chatKey 0 ∉ (range' 1 999).map chatKey ++ [chatKey 1000] := by
    have hmap : (range' 1 999).map chatKey ++ [chatKey 1000]
        = (range' 1 999 ++ [1000]).map chatKey := by simp
    rw [hmap]
    exact chatKey_not_mem (by simp [mem_range'_1])
  obtain ⟨w₂, older₂, hw₂, hhs₂, holder₂⟩ :=
    chatted_next (i := 0) hw₁ (Nat.zero_le _) hfr
  have hag : .dispatched (literal "x") (chatPayload 0) 0 ∈ older₂ := by
    refine holder₂ ?_
    rw [hhs₁]
    exact .tail _ (holder₁ hfst)
  refine ⟨integers_lawful, w₂, older₂, hw₂.reachable, hhs₂, hag, fun hon => ?_⟩
  rw [hhs₂] at hon
  exact (pairwise_cons.mp hon).1 _ hag (.exact rfl)

end VulosRelay.Client.Signaling
