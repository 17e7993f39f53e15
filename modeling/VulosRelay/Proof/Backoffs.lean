import VulosRelay.Proof.SenderLimits

/-!
# Backoffs and retries

A failed delivery sets the end of the backoff anew, from the strikes there are then. After late
deliveries have taken strikes away, the new end may be before the old one. As long as no failure
comes with fewer strikes, a backoff is served (`Serving`).

The time to wait that comes with a refusal for the rate leads to the moment at which the oldest
send is still in the window, unless that moment is now: then the wait is one millisecond.
-/

namespace VulosRelay.Gateway.OutboundGuard

open List OutboundSenderGuard

def Call.account : Call → Str
  | .authorizeSend account _ => account
  | .reportOutcome account _ _ => account

/-- The runs that go on from a state. -/
def after (g : OutboundSenderGuard) (w : World) : System World Call := ⟨(· = w), (guard g).step⟩

/-- Before a time, no failure of the account comes with fewer strikes, itself counted, than some. -/
def StrikesKept (account : Str) (strikes time : Nat) (w : World) : Call → Prop
  | .reportOutcome caller now false => caller = account → now < time →
      strikes ≤ strikesOf account (.outcome account now false :: w.log)
  | _ => True

/-- By the log, an attempt after the wait is throttled again: at the end of a backoff if the rate is
used up and the volume is not; else if no send is just as old as the window is wide. -/
def Again (g : OutboundSenderGuard) (log : List Entry) (account : Str) (now : Nat) : Prop :=
  if now < backoffOf g account log then
    (sentBy account log).countP (backoffOf g account log - g.volumeWindowMs ≤ ·)
        < g.volumeCap.toNat ∧
      g.rateLimit.toNat ≤
        (sentBy account log).countP (backoffOf g account log - g.rateWindowMs ≤ ·)
  else ∀ t ∈ sentBy account log, t + g.rateWindowMs ≠ now

def Throttled : SenderVerdict → Prop
  | .throttle _ _ => True
  | _ => False

variable {g : OutboundSenderGuard} {w later : World} {account : Str} {now time : Nat}

theorem reachable_after (h : (guard g).Reachable Clocked w)
    (hok : ∀ w call, ok w call → Clocked w call) (hrun : (after g w).Reachable ok later) :
    (guard g).Reachable Clocked later := by
  induction hrun with
  | init heq => exact heq ▸ h
  | tail _ hcall hstep ih => exact .tail ih (hok _ _ hcall) hstep

/-! ## A backoff is served -/

theorem factor_mono {m n : Nat} (h : m ≤ n) : factor m ≤ factor n := by
  unfold factor
  split_ifs
  · exact Nat.pow_le_pow_right (by decide) h
  · exact (Nat.pow_le_pow_right (by decide) (by omega : m ≤ 63)).trans (by decide)
  · omega
  · exact le_rfl

theorem backoffEnd_mono {since shift shift' : Nat} (hle : since ≤ now) (hsh : shift ≤ shift') :
    g.backoffEnd since shift ≤ g.backoffEnd now shift' := by
  have hmul := Nat.mul_le_mul_left g.backoffBaseMs (factor_mono hsh)
  unfold backoffEnd
  omega

/-- The backoff that began at a time with some strikes is over, or it holds. -/
def Serving (g : OutboundSenderGuard) (account : Str) (since strikes : Nat) (w : World) : Prop :=
  since ≤ w.clock ∧ (g.backoffEnd since (min (strikes - 1) g.backoffMaxShift) ≤ w.clock ∨
    g.backoffEnd since (min (strikes - 1) g.backoffMaxShift) ≤ backoffOf g account w.log)

theorem Serving.step {since strikes : Nat} {w' : World} {call : Call}
    (h : Serving g account since strikes w) (hclk : Clocked w call)
    (hkept : StrikesKept account strikes (g.backoffEnd since (min (strikes - 1) g.backoffMaxShift))
      w call) (hst : (guard g).step w call = some w') : Serving g account since strikes w' := by
  have hclock : w.clock ≤ call.now := hclk
  obtain ⟨hsince, hserve⟩ := h
  cases call with
  | authorizeSend caller now =>
    cases hst
    have hw : (g.authorizeSend w caller now).1.clock = now ∧
        backoffOf g account (g.authorizeSend w caller now).1.log = backoffOf g account w.log := by
      unfold authorizeSend
      split_ifs <;> exact ⟨rfl, rfl⟩
    rw [Serving, hw.1, hw.2]
    exact ⟨hsince.trans hclock, hserve.imp_left fun hover => hover.trans hclock⟩
  | reportOutcome caller now delivered =>
    cases hst
    refine ⟨hsince.trans hclock, ?_⟩
    rcases hserve with hover | huntil
    · exact .inl (hover.trans hclock)
    rw [reportOutcome, backoffOf]
    split_ifs with hoth
    · exact .inr huntil
    obtain ⟨hcl, hdl⟩ := not_or.mp hoth
    rw [Bool.not_eq_true] at hdl
    subst hdl
    -- a failure in the backoff is later and has no fewer strikes, so it ends no earlier
    refine or_iff_not_imp_left.mpr fun hlt => backoffEnd_mono (hsince.trans hclock) ?_
    have hsk := hkept (not_not.mp hcl) (not_le.mp hlt)
    omega

theorem Serving.not_allow {since strikes time : Nat} (h : Serving g account since strikes w)
    (htr : Tracks g w account) (hclk : w.clock ≤ time)
    (hlt : time < g.backoffEnd since (min (strikes - 1) g.backoffMaxShift)) :
    (g.authorizeSend w account time).2 ≠ .allow := by
  have huntil : time < (w.state account).backoffUntil := by
    rw [htr.backoff]
    rcases h.2 with h | h <;> omega
  unfold authorizeSend
  split_ifs
  · rw [authorize, if_pos huntil]
    nofun
  · nofun

/-! ## What an attempt after the wait gets -/

theorem throttled_iff (h : Tracks g w account) (hle : w.clock ≤ now)
    (hover : (w.state account).backoffUntil ≤ now) :
    Throttled (g.authorize (w.state account) now).2 ↔
      (sentBy account w.log).countP (now - g.volumeWindowMs ≤ ·) < g.volumeCap.toNat ∧
        g.rateLimit.toNat ≤ (sentBy account w.log).countP (now - g.rateWindowMs ≤ ·) := by
  unfold authorize
  dsimp only
  rw [if_neg (Nat.not_lt.mpr hover), mod_of_le_limit (h.rate.retain hle).length,
    mod_of_le_limit (h.volume.retain hle).length, h.rate.retained_length hle,
    h.volume.retained_length hle]
  split_ifs with hcap hlimit
  · exact ⟨False.elim, fun hand => absurd hcap (Nat.not_le.mpr hand.1)⟩
  · exact iff_of_true trivial ⟨Nat.not_le.mp hcap, hlimit⟩
  · exact ⟨False.elim, fun hand => absurd hand.2 hlimit⟩

/-- What a throttle says: the rest of the backoff, or the wait for the oldest hit of a full window
of the rate. -/
theorem wait_cases (h : Tracks g w account) (hle : w.clock ≤ now)
    (hthr : (g.authorize (w.state account) now).2 = .throttle r reason) :
    (now < backoffOf g account w.log ∧ now + r = backoffOf g account w.log) ∨
    (backoffOf g account w.log ≤ now ∧
      (sentBy account w.log).countP (now - g.volumeWindowMs ≤ ·) < g.volumeCap.toNat ∧
      ∃ hits, (∀ t ∈ hits, now - g.rateWindowMs ≤ t) ∧
        Window g.rateWindowMs g.rateLimit.toNat now hits (sentBy account w.log) ∧
        g.rateLimit.toNat ≤ hits.length ∧
        ∀ oldest ∈ hits.head?, r = max ((oldest + g.rateWindowMs) % 2 ^ 64 - now) 1) := by
  have hrt := h.rate.retain hle
  unfold authorize at hthr
  dsimp only at hthr
  rw [mod_of_le_limit hrt.length, mod_of_le_limit (h.volume.retain hle).length,
    h.volume.retained_length hle, h.backoff] at hthr
  split_ifs at hthr with hbc hcap hlm
  · injection hthr with hr
    exact .inl ⟨hbc, by omega⟩
  · injection hthr with hr
    refine .inr ⟨not_lt.mp hbc, not_le.mp hcap, _, fun t ht => ?_, hrt, hlm, fun oldest hold => ?_⟩
    · exact of_decide_eq_true (mem_filter.mp ht).2
    · rw [← hr, Option.mem_def.mp hold]

/-- A full window of the rate is full again after the wait, unless its oldest hit is just as old as
it is wide. -/
theorem full_again_iff {hits sent : List Nat} {width limit : Nat}
    (hwin : Window width limit now hits sent) (hin : ∀ t ∈ hits, now - width ≤ t)
    (hfull : limit ≤ hits.length)
    (hr : ∀ oldest ∈ hits.head?, r = max ((oldest + width) % 2 ^ 64 - now) 1) :
    limit ≤ sent.countP (now + r - width ≤ ·) ↔ ∀ t ∈ sent, t + width ≠ now := by
  rw [← hwin.tracks (now + r - width) (by omega)]
  cases hits with
  | nil =>
    refine iff_of_true (hfull.trans (Nat.zero_le _)) fun t ht heq => ?_
    have hno := hwin.tracks (now - width) (by omega)
    rw [countP_nil] at hno
    exact countP_eq_zero.mp hno.symm t ht (decide_eq_true (by omega))
  | cons oldest rest =>
    have hold := hin oldest (.head _)
    have hex := hwin.exists_width_iff hold
    have hr := hr oldest rfl
    have hord := (pairwise_append.mp hwin.ordered).1
    constructor
    · intro hlim t ht heq
      -- the oldest hit has left the window, and no other one has come
      have hleft : oldest + width = now := hex.mp ⟨t, ht, heq⟩
      have hone : r = 1 := by
        have hmod := Nat.mod_le now (2 ^ 64)
        rw [hr, hleft]
        omega
      rw [countP_cons_of_neg (by simp; omega)] at hlim
      have hrest : rest.countP (now + r - width ≤ ·) ≤ rest.length := countP_le_length
      have hlen := hwin.length
      rw [length_cons] at hlen
      omega
    · intro hno
      have hne : oldest + width ≠ now := fun heq => by
        obtain ⟨t, ht, heq⟩ := hex.mpr heq
        exact hno t ht heq
      have hmod := Nat.mod_le (oldest + width) (2 ^ 64)
      rw [countP_eq_length.mpr]
      · exact hfull
      · intro t ht
        have hle : oldest ≤ t := by
          rcases mem_cons.mp ht with rfl | ht
          · exact le_rfl
          · exact (pairwise_cons.mp hord).1 t ht
        exact decide_eq_true (by omega)

/-- Calls of others leave an account's state and its sends as they are. -/
theorem unchanged_after (h : (after g w).Reachable (fun w c => Clocked w c ∧ c.account ≠ account)
    later) : later.state account = w.state account ∧
      sentBy account later.log = sentBy account w.log := by
  induction h with
  | init heq => exact heq ▸ ⟨rfl, rfl⟩
  | @tail u u' call _ hok hst ih =>
    rw [← ih.1, ← ih.2]
    have hother : account ≠ call.account := fun heq => hok.2 heq.symm
    cases call with
    | authorizeSend caller now =>
      cases hst
      unfold authorizeSend
      split_ifs
      · exact ⟨(state_insert ..).trans (if_neg hother), sentBy_send _ _ hother⟩
      · exact ⟨rfl, rfl⟩
    | reportOutcome caller now delivered =>
      cases hst
      exact ⟨(state_insert ..).trans (if_neg hother), rfl⟩

/-- After a throttle, the log decides whether the wait is enough. -/
theorem retry_throttled_iff (h : (guard g).Reachable Clocked w) (hle : w.clock ≤ now)
    (hthr : (g.authorizeSend w account now).2 = .throttle r reason)
    (hrun : (after g (g.authorizeSend w account now).1).Reachable
      (fun w c => Clocked w c ∧ c.account ≠ account) later) (hclk : later.clock ≤ now + r) :
    Throttled (g.authorizeSend later account (now + r)).2 ↔ Again g w.log account now := by
  have hauth : g.isAuthenticated account = true := by
    by_contra hno
    rw [authorizeSend, if_neg hno] at hthr
    cases hthr
  have htr := reachable_tracks h account
  have hfirst : (guard g).Reachable Clocked (g.authorizeSend w account now).1 :=
    .tail (a := .authorizeSend account now) h hle rfl
  have hlater := reachable_tracks (reachable_after hfirst (fun _ _ hok => hok.1) hrun) account
  obtain ⟨hstate, hsent⟩ := unchanged_after hrun
  have hwait := hthr
  rw [authorizeSend, if_pos hauth] at hwait
  have hsame : sentBy account (g.authorizeSend w account now).1.log = sentBy account w.log ∧
      backoffOf g account (g.authorizeSend w account now).1.log = backoffOf g account w.log := by
    rw [authorizeSend, if_pos hauth]
    dsimp only at hwait ⊢
    rw [hwait]
    exact ⟨rfl, rfl⟩
  have huntil : (later.state account).backoffUntil = backoffOf g account w.log := by
    rw [hstate, (reachable_tracks hfirst account).backoff, hsame.2]
  have hcases := wait_cases htr hle hwait
  have hover : (later.state account).backoffUntil ≤ now + r := by
    rcases hcases with ⟨-, heq⟩ | ⟨hov, -⟩ <;> omega
  rw [authorizeSend, if_pos hauth]
  refine (throttled_iff hlater hclk hover).trans ?_
  rw [hsent, hsame.1, Again]
  rcases hcases with ⟨hlt, heq⟩ | ⟨hov, hvol, hits, hin, hwin, hfull, hr⟩
  · rw [if_pos hlt, heq]
  · rw [if_neg (not_lt.mpr hov), full_again_iff hwin hin hfull hr, and_iff_right]
    refine lt_of_le_of_lt (countP_mono_left fun t _ ht => ?_) hvol
    rw [decide_eq_true_eq] at ht ⊢
    omega

/--
**When a backoff is served and a wait is enough.** No send is allowed before the end of the
backoff that a failure has begun, in runs in which until then no failure of the account comes with
fewer strikes. An attempt after the wait is throttled again exactly if the log says so.
-/
theorem backoff_served (g : OutboundSenderGuard) (w : World) (h : (guard g).Reachable Clocked w)
    (account : Str) (now : Nat) (hle : w.clock ≤ now) :
    (∀ later time,
      let log := .outcome account now false :: w.log
      (after g (g.reportOutcome w account now false)).Reachable
        (fun w c => Clocked w c ∧
          StrikesKept account (strikesOf account log) (backoffOf g account log) w c) later →
      later.clock ≤ time → time < backoffOf g account log →
        (g.authorizeSend later account time).2 ≠ .allow) ∧
    ∀ r reason, (g.authorizeSend w account now).2 = .throttle r reason →
      ∀ later, (after g (g.authorizeSend w account now).1).Reachable
        (fun w c => Clocked w c ∧ c.account ≠ account) later → later.clock ≤ now + r →
      (Throttled (g.authorizeSend later account (now + r)).2 ↔ Again g w.log account now) := by
  constructor
  · intro later time log hrun hclk hlt
    have hfirst : (guard g).Reachable Clocked (g.reportOutcome w account now false) :=
      .tail (a := .reportOutcome account now false) h hle rfl
    have hlater := reachable_tracks (reachable_after hfirst (fun _ _ hok => hok.1) hrun) account
    have huntil : backoffOf g account log =
        g.backoffEnd now (min (strikesOf account log - 1) g.backoffMaxShift) := by
      simp [log, backoffOf]
    rw [huntil] at hrun hlt
    refine Serving.not_allow ?_ hlater hclk hlt
    clear hlater hclk
    induction hrun with
    | init heq =>
      subst heq
      exact ⟨le_rfl, .inr huntil.ge⟩
    | tail _ hok hst ih => exact ih.step hok.1 hok.2 hst
  · intro r reason hthr later hrun hclk
    exact retry_throttled_iff h hle hthr hrun hclk

/-- A guard for `a`: one send in ten milliseconds, and backoffs of 100 ms that double. -/
def doubling : OutboundSenderGuard := ⟨1, 10, 9, 10, 100, 3, some [['a']]⟩

theorem single_failure_served :
    ((doubling.authorizeSend (doubling.reportOutcome ⟨∅, 0, []⟩ ['a'] 5 false) ['a'] 60).2
      ≠ .allow) :=
  (backoff_served doubling ⟨∅, 0, []⟩ (.init rfl) ['a'] 5 (Nat.zero_le _)).1 _ 60 (.init rfl)
    (by decide) (by decide)

/-- Two failures, two late deliveries and a failure: the backoff until 200 ends at 100. And the
send at 3 makes that at 5 wait for 8 ms, which is not enough. -/
theorem backoff_shortened :
    let twice := doubling.reportOutcome (doubling.reportOutcome ⟨∅, 0, []⟩ ['a'] 0 false) ['a'] 0
      false
    let late := doubling.reportOutcome (doubling.reportOutcome (doubling.reportOutcome twice ['a'] 0
      true) ['a'] 0 true) ['a'] 0 false
    let sent := (doubling.authorizeSend ⟨∅, 0, []⟩ ['a'] 3).1
    (guard doubling).Reachable Clocked twice ∧ (twice.state ['a']).backoffUntil = 200 ∧
      (after doubling twice).Reachable Clocked late ∧
      (doubling.authorizeSend late ['a'] 100).2 = .allow ∧
      (guard doubling).Reachable Clocked sent ∧
      (doubling.authorizeSend sent ['a'] 5).2 = .throttle 8 overRate ∧
      Throttled (doubling.authorizeSend (doubling.authorizeSend sent ['a'] 5).1 ['a'] 13).2 := by
  refine ⟨?_, rfl, ?_, rfl, ?_, rfl, trivial⟩
  · exact .tail (a := .reportOutcome ['a'] 0 false)
      (.tail (a := .reportOutcome ['a'] 0 false) (.init rfl) (Nat.zero_le _) rfl) le_rfl rfl
  · exact .tail (a := .reportOutcome ['a'] 0 false) (.tail (a := .reportOutcome ['a'] 0 true)
      (.tail (a := .reportOutcome ['a'] 0 true) (.init rfl) le_rfl rfl) le_rfl rfl) le_rfl rfl
  · exact .tail (a := .authorizeSend ['a'] 3) (.init rfl) (Nat.zero_le _) rfl

end VulosRelay.Gateway.OutboundGuard
