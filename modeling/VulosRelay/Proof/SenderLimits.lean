import VulosRelay.Gateway.OutboundGuard
import VulosRelay.Lib.SlidingWindow

/-!
# Limits in every window

The two lists of hits of a sender are windows over its sends, so a send is let through only if
the windows that end with it have room. The strikes and the end of the backoff are what the
outcomes in the log add up to (`strikesOf`, `backoffOf`).
-/

namespace VulosRelay.Gateway.OutboundGuard

open List OutboundSenderGuard

variable {now : Nat}

/-- The times of the sends that an account was allowed, latest first. -/
def sentBy (account : Str) (log : List Entry) : List Nat :=
  log.filterMap fun
    | .send a now .allow => if a = account then some now else none
    | _ => none

/-- The strikes of an account by the log: a failure adds one, a delivery takes one away. -/
def strikesOf (account : Str) : List Entry → Nat
  | [] => 0
  | .send _ _ _ :: older => strikesOf account older
  | .outcome caller _ delivered :: older =>
    if caller ≠ account then strikesOf account older
    else if delivered then strikesOf account older - 1
    else min (strikesOf account older + 1) (2 ^ 32 - 1)

/-- The end of the backoff that the last failure of an account has begun, from its strikes then. -/
def backoffOf (g : OutboundSenderGuard) (account : Str) : List Entry → Nat
  | [] => 0
  | .send _ _ _ :: older => backoffOf g account older
  | .outcome caller now delivered :: older =>
    if caller ≠ account ∨ delivered then backoffOf g account older
    else g.backoffEnd now
      (min (strikesOf account (.outcome account now false :: older) - 1) g.backoffMaxShift)

/-- The state of an account is what the log says of it. -/
structure Tracks (g : OutboundSenderGuard) (w : World) (account : Str) : Prop where
  /-- The hits of the rate are a window over its sends. -/
  rate : Window g.rateWindowMs g.rateLimit.toNat w.clock (w.state account).rateHits
    (sentBy account w.log)
  /-- The hits of the volume are another one. -/
  volume : Window g.volumeWindowMs g.volumeCap.toNat w.clock (w.state account).volumeHits
    (sentBy account w.log)
  /-- The strikes are those of its outcomes. -/
  strikes : (w.state account).strikes = strikesOf account w.log
  /-- The backoff is that of its last failure. -/
  backoff : (w.state account).backoffUntil = backoffOf g account w.log

variable {g : OutboundSenderGuard} {w : World} {account other : Str}

theorem state_insert (states : FinMap Str SenderState) (st : SenderState) (log : List Entry)
    (clock : Nat) (account other : Str) : World.state ⟨states.insert account st, clock, log⟩ other =
      if other = account then st else World.state ⟨states, clock, log⟩ other := by
  unfold World.state
  by_cases h : other = account
  · rw [h, Finmap.lookup_insert, if_pos rfl]
    rfl
  · rw [Finmap.lookup_insert_of_ne _ h, if_neg h]

/-- **The cause of a refusal is there**: a backoff that is not over, or a full window. -/
inductive Present (g : OutboundSenderGuard) (log : List Entry) (account : Str) (now : Nat) :
    SenderVerdict → Prop where
  | backoff : now < backoffOf g account log →
      Present g log account now (.throttle (backoffOf g account log - now) inBackoff)
  | volume : g.volumeCap.toNat ≤ (sentBy account log).countP (now - g.volumeWindowMs ≤ ·) →
      Present g log account now (.refuse overVolume)
  | rate (n : Nat) : g.rateLimit.toNat ≤ (sentBy account log).countP (now - g.rateWindowMs ≤ ·) →
      Present g log account now (.throttle n overRate)

/-- The windows of a sender whose sends are these. -/
def Windows (g : OutboundSenderGuard) (now : Nat) (st : SenderState) (sent : List Nat) : Prop :=
  Window g.rateWindowMs g.rateLimit.toNat now st.rateHits sent ∧
    Window g.volumeWindowMs g.volumeCap.toNat now st.volumeHits sent

/-- The lists are no longer than their limits, so their lengths fit 32 bits. -/
theorem mod_of_le_limit {limit : UInt32} (h : n ≤ limit.toNat) : n % 2 ^ 32 = n :=
  Nat.mod_eq_of_lt (h.trans_lt (UInt32.toNat_lt _))

theorem authorize_spec (h : Tracks g w account) (hle : w.clock ≤ now) :
    (g.authorize (w.state account) now).1.strikes = (w.state account).strikes ∧
    (g.authorize (w.state account) now).1.backoffUntil = (w.state account).backoffUntil ∧
    (((g.authorize (w.state account) now).2 = .allow ∧
        Windows g now (g.authorize (w.state account) now).1 (now :: sentBy account w.log)) ∨
      (Present g w.log account now (g.authorize (w.state account) now).2 ∧
        Windows g now (g.authorize (w.state account) now).1 (sentBy account w.log))) := by
  have hrt := h.rate.retain hle
  have hvl := h.volume.retain hle
  unfold authorize
  dsimp only
  rw [mod_of_le_limit hrt.length, mod_of_le_limit hvl.length]
  split_ifs with hbc hcap hlm
  · refine ⟨rfl, rfl, .inr ⟨?_, h.rate.later hle, h.volume.later hle⟩⟩
    rw [h.backoff] at hbc ⊢
    exact .backoff hbc
  · refine ⟨rfl, rfl, .inr ⟨.volume ?_, h.rate.later hle, hvl⟩⟩
    rwa [← h.volume.retained_length hle]
  · refine ⟨rfl, rfl, .inr ⟨.rate _ ?_, hrt, hvl⟩⟩
    rwa [← h.rate.retained_length hle]
  · exact ⟨rfl, rfl, .inl ⟨rfl, hrt.push (not_le.mp hlm), hvl.push (not_le.mp hcap)⟩⟩

/-- A call that concerns neither the state nor the entries of an account. -/
theorem Tracks.frame (h : Tracks g w account) (hle : w.clock ≤ w'.clock)
    (hst : w'.state account = w.state account)
    (hsn : sentBy account w'.log = sentBy account w.log)
    (hsk : strikesOf account w'.log = strikesOf account w.log)
    (hbk : backoffOf g account w'.log = backoffOf g account w.log) :
    Tracks g w' account := by
  refine ⟨?_, ?_, ?_, ?_⟩ <;> rw [hst]
  · rw [hsn]
    exact h.rate.later hle
  · rw [hsn]
    exact h.volume.later hle
  · exact h.strikes.trans hsk.symm
  · exact h.backoff.trans hbk.symm

theorem sentBy_send (verdict : SenderVerdict) (log : List Entry) (h : other ≠ account) :
    sentBy other (.send account now verdict :: log) = sentBy other log := by
  cases verdict with
  | allow => simp [sentBy, h.symm]
  | _ => rfl

theorem tracks_authorizeSend (h : ∀ account, Tracks g w account) (hle : w.clock ≤ now) :
    Tracks g (g.authorizeSend w account now).1 other := by
  unfold authorizeSend
  split_ifs
  · by_cases hoth : other = account
    · subst hoth
      obtain ⟨hsk, hbk, hans⟩ := authorize_spec (h other) hle
      generalize g.authorize (w.state other) now = answer at *
      obtain ⟨st, verdict⟩ := answer
      have hwn : Windows g now st (sentBy other (.send other now verdict :: w.log)) := by
        rcases hans with ⟨rfl, hwn⟩ | ⟨hcs, hwn⟩
        · simpa [sentBy] using hwn
        · cases hcs <;> exact hwn
      constructor <;> rw [state_insert, if_pos rfl]
      exacts [hwn.1, hwn.2, hsk.trans (h other).strikes, hbk.trans (h other).backoff]
    · refine (h other).frame hle ?_ (sentBy_send _ _ hoth) rfl rfl
      rw [state_insert, if_neg hoth]
      rfl
  · exact (h other).frame hle rfl rfl rfl rfl

theorem tracks_reportOutcome (h : ∀ account, Tracks g w account) (hle : w.clock ≤ now)
    {delivered : Bool} :
    Tracks g (g.reportOutcome w account now delivered) other := by
  unfold reportOutcome
  by_cases hoth : other = account
  · subst hoth
    have hht : (g.report (w.state other) now delivered).rateHits = (w.state other).rateHits ∧
        (g.report (w.state other) now delivered).volumeHits = (w.state other).volumeHits := by
      unfold report
      split_ifs <;> exact ⟨rfl, rfl⟩
    constructor <;> rw [state_insert, if_pos rfl]
    · rw [hht.1]
      exact (h other).rate.later hle
    · rw [hht.2]
      exact (h other).volume.later hle
    · cases delivered with
      | true => simp [report, strikesOf, (h other).strikes]
      | false => simp [report, strikesOf, (h other).strikes]
    · cases delivered with
      | true => simp [report, backoffOf, (h other).backoff]
      | false => simp [report, backoffOf, strikesOf, (h other).strikes]
  · refine (h other).frame hle ?_ rfl (if_pos (Ne.symm hoth)) (if_pos (.inl (Ne.symm hoth)))
    rw [state_insert, if_neg hoth]
    rfl

/-- The clock does not go back. -/
def Clocked (w : World) (call : Call) : Prop := w.clock ≤ call.now

theorem reachable_tracks (h : (guard g).Reachable Clocked w) : ∀ account, Tracks g w account := by
  refine h.invariant (P := fun w => ∀ account, Tracks g w account) (fun w hin account => ?_)
    fun w call w' hw hclk hst account => ?_
  · subst hin
    exact ⟨.nil .., .nil .., rfl, rfl⟩
  · cases call with
    | authorizeSend caller now =>
      cases hst
      exact tracks_authorizeSend hw hclk
    | reportOutcome caller now delivered =>
      cases hst
      exact tracks_reportOutcome hw hclk

/-- **The limits hold in every window**, and what is not let through has its cause. -/
theorem sender_limits (g : OutboundSenderGuard) (w : World) (h : (guard g).Reachable Clocked w)
    (account : Str) :
    (∀ start, (sentBy account w.log).countP
        (fun t => start ≤ t ∧ t ≤ start + g.rateWindowMs) ≤ g.rateLimit.toNat) ∧
    (∀ start, (sentBy account w.log).countP
        (fun t => start ≤ t ∧ t ≤ start + g.volumeWindowMs) ≤ g.volumeCap.toNat) ∧
    (∀ now, (¬ ∃ set ∈ g.registered, account ∈ set) →
      (g.authorizeSend w account now).2 ≠ .allow) ∧
    ∀ now, w.clock ≤ now → (∃ set ∈ g.registered, account ∈ set) → trim account ≠ [] →
      (g.authorizeSend w account now).2 ≠ .allow →
        Present g w.log account now (g.authorizeSend w account now).2 := by
  have htr := reachable_tracks h account
  refine ⟨htr.rate.bounded, htr.volume.bounded, fun now hoth => ?_,
    fun now hle hls hbl href => ?_⟩
  · have hdn : g.isAuthenticated account = false := by
      rw [isAuthenticated, decide_eq_false_iff_not]
      exact fun h => hoth h.2
    rw [authorizeSend, if_neg (by rw [hdn]; decide)]
    nofun
  · have hal : g.isAuthenticated account = true := decide_eq_true ⟨hbl, hls⟩
    rw [authorizeSend, if_pos hal] at href ⊢
    rcases (authorize_spec htr hle).2.2 with ⟨halw, -⟩ | ⟨hcs, -⟩
    · exact absurd halw href
    · exact hcs

/-- A guard that lets one message of `a` through in ten milliseconds, and has a blank account. -/
def strict : OutboundSenderGuard := ⟨1, 10, 1, 10, 5, 0, some [['a'], [' ']]⟩

theorem second_message_over_volume : Present strict [.send ['a'] 3 .allow] ['a'] 7
    (.refuse overVolume) := by
  have hrch : (guard strict).Reachable Clocked (strict.authorizeSend ⟨∅, 0, []⟩ ['a'] 3).1 :=
    .tail (a := .authorizeSend ['a'] 3) (.init rfl) (Nat.zero_le _) rfl
  exact (sender_limits strict _ hrch ['a']).2.2.2 7 (by decide) ⟨_, rfl, by decide⟩ (by decide)
    nofun

/-- An account that is listed but blank is refused without any of the causes. -/
theorem blank_account_refused : ∃ w : World, (guard strict).Reachable Clocked w ∧
    (∃ set ∈ strict.registered, [' '] ∈ set) ∧
    (strict.authorizeSend w [' '] 0).2 = .refuse unauthenticated ∧
    ¬ Present strict w.log [' '] 0 (.refuse unauthenticated) := by
  refine ⟨⟨∅, 0, []⟩, .init rfl, ⟨_, rfl, by decide⟩, rfl, fun hcs => ?_⟩
  generalize hrs : SenderVerdict.refuse unauthenticated = verdict at hcs
  cases hcs with
  | backoff => cases hrs
  | volume =>
    injection hrs with htx
    exact absurd htx (by decide)
  | rate => cases hrs

end VulosRelay.Gateway.OutboundGuard
