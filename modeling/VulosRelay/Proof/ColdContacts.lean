import VulosRelay.Gateway.ColdSender
import VulosRelay.Lib.History
import VulosRelay.Lib.SlidingWindow

/-!
# What a cold sender pays

Only the first sight of a pair, or one after its entry has expired, writes the greylist. An
acceptance needs the entry, and a refusal for the rate leaves it. So the entry of a pair is its
last deferral, and any other deferral is too old to count.
-/

namespace VulosRelay.Gateway

open List ColdSenderGate Function

def Check.hits (c : Check) (gate : ColdSenderGate) (state : GateState) : List Nat :=
  (state.accepts c.ip).filter (c.now - gate.rateWindowMs ≤ ·)

def Check.known (c : Check) (gate : ColdSenderGate) : Bool := gate.isKnown c.ip c.sender

def deferred : AbuseDecision := .reject 451 greylistedText

def GateState.setHits (state : GateState) (ip : Str) (hits : List Nat) : GateState :=
  { state with accepts := Function.update state.accepts ip hits }

theorem GateState.setHits_accepts {state : GateState} {ip : Str} {hits : List Nat} {of : Str} :
    (state.setHits ip hits).accepts of = if of = ip then hits else state.accepts of :=
  update_apply ..

/-- What a check may come to. -/
inductive Outcome (gate : ColdSenderGate) (state : GateState) (c : Check) :
    AbuseDecision × GateState → Prop where
  | blocked : gate.isBlocked c.ip c.sender = true →
      Outcome gate state c (.reject 554 "5.7.1 sender blocked by policy", state)
  | known : c.known gate = true → Outcome gate state c (.accept, state)
  | limited : gate.rateLimit ≤ (c.hits gate state).length % 2 ^ 32 →
      Outcome gate state c (.reject 451 "4.7.1 rate limit exceeded, slow down and retry later",
        state.setHits c.ip (c.hits gate state))
  | greylisted :
      (∀ seen, state.greylist (c.ip, c.sender) = some seen → gate.greylistTtlMs < c.now - seen) →
      Outcome gate state c (deferred, { state.setHits c.ip (c.hits gate state) with
        greylist := Function.update state.greylist (c.ip, c.sender) (some c.now) })
  | tooSoon {seen : Nat} : state.greylist (c.ip, c.sender) = some seen →
      c.now - seen < gate.greylistMinRetryMs →
      Outcome gate state c (.reject 451 tooSoonText, state.setHits c.ip (c.hits gate state))
  | accepted {seen : Nat} : c.known gate = false →
      (c.hits gate state).length % 2 ^ 32 < gate.rateLimit →
      state.greylist (c.ip, c.sender) = some seen → gate.greylistMinRetryMs ≤ c.now - seen →
      c.now - seen ≤ gate.greylistTtlMs →
      Outcome gate state c (.accept, state.setHits c.ip (c.hits gate state ++ [c.now]))

variable {gate : ColdSenderGate} {state : GateState} {w w' : GateWorld} {c : Check}

theorem outcome_of_check : Outcome gate state c (gate.check c.now state c.ip c.sender) := by
  unfold ColdSenderGate.check
  split_ifs with hb hk
  · exact .blocked hb
  · exact .known hk
  dsimp only
  split_ifs with hfull
  · exact .limited hfull
  cases hseen : state.greylist (c.ip, c.sender) with
  | none => exact .greylisted fun seen h => by rw [hseen] at h; cases h
  | some seen =>
    dsimp only
    split_ifs with hold hsoon
    · refine .greylisted fun seen' h => ?_
      rw [hseen] at h
      cases h
      exact hold
    · exact .tooSoon hseen hsoon
    · rw [update_idem]
      exact .accepted (eq_false_of_ne_true hk) (Nat.not_le.mp hfull) hseen (Nat.not_lt.mp hsoon)
        (Nat.not_lt.mp hold)

/-- The clock does not go back. -/
def GateWorld.Clocked (w : GateWorld) (c : Check) : Prop := w.clock ≤ c.now

/-- When messages of unknown senders were accepted from an address, latest first. -/
def coldAccepts (gate : ColdSenderGate) (ip : Str) (log : List (Check × AbuseDecision)) :
    List Nat :=
  (log.filter fun e => e.1.ip = ip ∧ e.1.known gate = false ∧ e.2 matches .accept).map (·.1.now)

/-- An unknown sender that is accepted was deferred before, in the range of the greylist. -/
def Paid (gate : ColdSenderGate) (e : Check × AbuseDecision)
    (older : List (Check × AbuseDecision)) : Prop :=
  e.1.known gate = false → e.2 = .accept → ∃ s, (⟨e.1.ip, e.1.sender, s⟩, deferred) ∈ older
    ∧ s + gate.greylistMinRetryMs ≤ e.1.now ∧ e.1.now ≤ s + gate.greylistTtlMs

/-- The state of the gate against its log. -/
structure Gated (gate : ColdSenderGate) (w : GateWorld) : Prop where
  /-- The accepts of an address are those of the log that are in the window. -/
  window : ∀ ip, Window gate.rateWindowMs gate.rateLimit w.clock (w.state.accepts ip)
    (coldAccepts gate ip w.log)
  /-- What is on the greylist was deferred at that time. -/
  seen : ∀ ip sender s, w.state.greylist (ip, sender) = some s →
    s ≤ w.clock ∧ (⟨ip, sender, s⟩, deferred) ∈ w.log
  /-- A deferral is still on the greylist, or was so long ago that it was renewed. -/
  last : ∀ c, (c, deferred) ∈ w.log → ∃ s, w.state.greylist (c.ip, c.sender) = some s
    ∧ (c.now = s ∨ c.now + gate.greylistTtlMs < s)
  /-- Every accept so far was paid for. -/
  paid : History.Each (Paid gate) w.log

theorem coldAccepts_cons_of_not (h : ¬(c.known gate = false ∧ d = .accept)) {ip : Str} :
    coldAccepts gate ip ((c, d) :: log) = coldAccepts gate ip log := by
  rw [coldAccepts, filter_cons_of_neg, coldAccepts]
  cases d <;> simp_all

theorem Gated.retained (h : Gated gate w) (hclk : w.Clocked c) (ip : Str) :
    Window gate.rateWindowMs gate.rateLimit c.now
      ((w.state.setHits c.ip (c.hits gate w.state)).accepts ip) (coldAccepts gate ip w.log) := by
  rw [GateState.setHits_accepts]
  split_ifs with heq
  · exact heq ▸ (h.window c.ip).retain hclk
  · exact (h.window ip).later hclk

theorem Gated.window_step (h : Gated gate w) (hlim : gate.rateLimit < 2 ^ 32) (hclk : w.Clocked c)
    (ho : Outcome gate w.state c (d, st)) (ip : Str) :
    Window gate.rateWindowMs gate.rateLimit c.now (st.accepts ip)
      (coldAccepts gate ip ((c, d) :: w.log)) := by
  have hret := h.retained hclk
  cases ho with
  | blocked =>
    rw [coldAccepts_cons_of_not (by simp)]
    exact (h.window ip).later hclk
  | known hk =>
    rw [coldAccepts_cons_of_not (by simp [hk])]
    exact (h.window ip).later hclk
  | limited | tooSoon =>
    rw [coldAccepts_cons_of_not (by simp)]
    exact hret ip
  | greylisted =>
    rw [coldAccepts_cons_of_not (by simp [deferred])]
    exact hret ip
  | accepted hk hroom =>
    specialize hret ip
    rw [GateState.setHits_accepts] at hret ⊢
    rw [coldAccepts]
    split_ifs at hret ⊢ with heq
    · rw [Nat.mod_eq_of_lt (hret.length.trans_lt hlim)] at hroom
      rw [filter_cons_of_pos (by simp [hk, heq])]
      exact hret.push hroom
    · rw [filter_cons_of_neg (by simp [Ne.symm heq])]
      exact hret

/-- Only a deferral writes the greylist. -/
theorem Outcome.greylist (h : Outcome gate state c (d, st)) :
    d ≠ deferred ∧ st.greylist = state.greylist ∨
      d = deferred ∧ st.greylist = update state.greylist (c.ip, c.sender) (some c.now) ∧
      ∀ seen, state.greylist (c.ip, c.sender) = some seen → gate.greylistTtlMs < c.now - seen := by
  cases h with
  | greylisted hold => exact .inr ⟨rfl, rfl, hold⟩
  | blocked | known | accepted => exact .inl ⟨by simp [deferred], rfl⟩
  | limited | tooSoon =>
    refine .inl ⟨fun heq => ?_, rfl⟩
    injection heq with _ htext
    revert htext
    decide

theorem Gated.step (h : Gated gate w) (hlim : gate.rateLimit < 2 ^ 32) (hclk : w.Clocked c)
    (hst : (coldGate gate).step w c = some w') : Gated gate w' := by
  have hle : w.clock ≤ c.now := hclk
  have ho : Outcome gate w.state c (gate.check c.now w.state c.ip c.sender) := outcome_of_check
  rw [coldGate] at hst
  dsimp only at hst
  generalize gate.check c.now w.state c.ip c.sender = r at hst ho
  obtain ⟨d, st⟩ := r
  cases hst
  refine ⟨h.window_step hlim hclk ho, ?_, ?_, ?_, h.paid⟩
  · intro ip sender s hs
    rcases ho.greylist with ⟨-, heq⟩ | ⟨rfl, heq, -⟩
    · rw [heq] at hs
      exact ⟨(h.seen _ _ _ hs).1.trans hle, .tail _ (h.seen _ _ _ hs).2⟩
    rw [heq, update_apply] at hs
    split at hs
    · rename_i hkey
      cases hs
      cases hkey
      exact ⟨le_rfl, .head _⟩
    · exact ⟨(h.seen _ _ _ hs).1.trans hle, .tail _ (h.seen _ _ _ hs).2⟩
  · intro e he
    rcases ho.greylist with ⟨hne, heq⟩ | ⟨rfl, heq, hold⟩
    · rw [heq]
      refine h.last e (History.mem_of_cons_ne (fun hhead => hne ?_) he)
      exact (Prod.mk.inj hhead).2.symm
    rw [heq, update_apply]
    split
    · rename_i hkey
      refine ⟨c.now, rfl, ?_⟩
      rcases mem_cons.mp he with hhead | htail
      · exact .inl (congrArg (·.1.now) hhead)
      · -- the entry that this deferral replaces has expired, and with it all that are older
        obtain ⟨s, hs, hor⟩ := h.last e htail
        rw [hkey] at hs
        have := hold s hs
        omega
    · rename_i hkey
      refine h.last e (History.mem_of_cons_ne (fun hhead => hkey ?_) he)
      rw [(Prod.mk.inj hhead).1]
  · intro hk hacc
    cases ho with
    | known hknown => cases hk.symm.trans hknown
    | accepted _ _ hseen hmin httl =>
      obtain ⟨hs, hmem⟩ := h.seen _ _ _ hseen
      refine ⟨_, hmem, ?_⟩
      dsimp only
      omega
    | _ => cases hacc

theorem gated_reachable (hlim : gate.rateLimit < 2 ^ 32)
    (h : (coldGate gate).Reachable GateWorld.Clocked w) : Gated gate w := by
  refine h.invariant ?_ fun _ _ _ hg hclk hst => hg.step hlim hclk hst
  rintro _ rfl
  exact ⟨fun _ => .nil _ _, nofun, nofun, trivial⟩

/--
**Cold senders pay.** An unknown sender is accepted only if it was deferred in the range before.
An address has no more such acceptances in any window than its limit. The blocked are not
accepted, and a retry in the range below the limit is.
-/
theorem cold_senders_pay (gate : ColdSenderGate) (hlim : gate.rateLimit < 2 ^ 32) (w : GateWorld)
    (h : (coldGate gate).Reachable GateWorld.Clocked w) :
    History.Each (Paid gate) w.log ∧
    (∀ ip start, (coldAccepts gate ip w.log).countP
      (fun t => start ≤ t ∧ t ≤ start + gate.rateWindowMs) ≤ gate.rateLimit) ∧
    (∀ c : Check, gate.isBlocked c.ip c.sender = true →
      (gate.check c.now w.state c.ip c.sender).1 ≠ .accept) ∧
    ∀ c : Check, w.clock ≤ c.now → gate.isBlocked c.ip c.sender = false → ∀ s,
      (⟨c.ip, c.sender, s⟩, deferred) ∈ w.log → s + gate.greylistMinRetryMs ≤ c.now →
      c.now ≤ s + gate.greylistTtlMs →
      (coldAccepts gate c.ip w.log).countP (c.now - gate.rateWindowMs ≤ ·) < gate.rateLimit →
        (gate.check c.now w.state c.ip c.sender).1 = .accept := by
  have hg := gated_reachable hlim h
  refine ⟨hg.paid, fun ip => (hg.window ip).bounded, ?_, ?_⟩
  · intro c hb
    rw [ColdSenderGate.check, if_pos hb]
    nofun
  · intro c hle hb s hdef hmin httl hroom
    obtain ⟨s', hs, hor⟩ := hg.last _ hdef
    have hcur := (hg.seen _ _ _ hs).1
    have heq : s' = s := by
      dsimp only at hor
      omega
    subst heq
    have ho : Outcome gate w.state c (gate.check c.now w.state c.ip c.sender) := outcome_of_check
    generalize gate.check c.now w.state c.ip c.sender = r at ho
    cases ho with
    | known | accepted => rfl
    | blocked hyes => cases hb.symm.trans hyes
    | limited hfull =>
      have hlen : (c.hits gate w.state).length ≤ _ := ((hg.window c.ip).retain hle).length
      rw [Nat.mod_eq_of_lt (hlen.trans_lt hlim), Check.hits,
        (hg.window c.ip).retained_length hle] at hfull
      omega
    | greylisted hold =>
      have := hold s' hs
      omega
    | tooSoon hseen hsoon =>
      cases hs.symm.trans hseen
      omega

theorem retry_accepted :
    let gate : ColdSenderGate := { }
    (gate.check 60005 (gate.check 5 .empty ['1'] ['a']).2 ['1'] ['a']).1 = .accept :=
  (cold_senders_pay { } (by decide) _
    (.tail (a := ⟨['1'], ['a'], 5⟩) (.init rfl) (Nat.zero_le _) rfl)).2.2.2 ⟨['1'], ['a'], 60005⟩
      (by decide) rfl 5 (.head _) (by decide) (by decide) (by decide)

end VulosRelay.Gateway
