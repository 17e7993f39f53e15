import VulosRelay.RateLimit
import Mathlib.Tactic.Linarith
import Mathlib.Tactic.Ring

/-!
# Rates over any interval

The level of a key at a time is what its bucket would hold then; a key without a bucket has a full
one. A call that is allowed lowers the level by one and time raises it at the rate, so the calls
since a time and the level now make up no more than the burst and what has flowed in since. A sweep
leaves the level alone if a bucket that has been idle for so long is full again. That is the
condition: the burst has to flow in within the idle time.
-/

namespace VulosRelay.RateLimit

open List Finmap GoTime FinMap RateLimiter

variable {rl : RateLimiter} {clock now s t : Int} {key other : String} {sent : List Int}

theorem seconds_mono (h : s ≤ t) : seconds s ≤ seconds t :=
  div_le_div_of_nonneg_right (Int.cast_le.mpr h) (by norm_num)

theorem seconds_sub {s t : Int} : seconds (s - t) = seconds s - seconds t := by
  unfold seconds
  push_cast
  ring

theorem seconds_sub_le (h : s ≤ t) : 0 ≤ seconds (sub t s) ∧
    seconds (sub t s) ≤ seconds t - seconds s := by
  have hzr : seconds 0 = 0 := by norm_num [seconds]
  rw [← seconds_sub, ← hzr]
  refine ⟨seconds_mono (sub_nonneg h), seconds_mono ?_⟩
  unfold sub minDuration maxDuration
  omega

def level (rl : RateLimiter) (key : String) (t : Int) : ℚ :=
  match rl.buckets.lookup key with
  | none => rl.burst
  | some b => min (b.tokens + seconds (GoTime.sub t b.last) * rl.rate) rl.burst

/-- A limiter at a time that is none of its buckets' future. -/
structure Sound (rl : RateLimiter) (clock : Int) : Prop where
  rate : 0 < rl.rate
  burst : 1 ≤ rl.burst
  /-- A bucket was last used in the past, and its level is between zero and the burst. -/
  bucket : ∀ key b, rl.buckets.lookup key = some b →
    b.lastUsed = b.last ∧ b.last ≤ clock ∧ 0 ≤ b.tokens ∧ b.tokens ≤ rl.burst
  size : (rl.buckets.size : Int) ≤ rl.maxKeys

theorem level_le_burst (rl : RateLimiter) (key : String) (t : Int) : level rl key t ≤ rl.burst := by
  unfold level
  split
  · exact le_rfl
  · exact min_le_right ..

theorem Sound.level_nonneg (h : Sound rl clock) (ht : clock ≤ t) : 0 ≤ level rl key t := by
  unfold level
  split
  · linarith [h.burst]
  · rename_i b hb
    obtain ⟨-, hls, htk, -⟩ := h.bucket key b hb
    have := mul_nonneg (seconds_sub_le (hls.trans ht)).1 h.rate.le
    exact le_min (by linarith) (by linarith [h.burst])

theorem sweepLocked_cases {now : Int} : rl.sweepLocked now = rl ∨
    rl.sweepLocked now = { rl with
      lastSwep := now
      buckets := rl.buckets.filter fun _ b => sub now b.lastUsed ≤ rl.idleTTL } :=
  ite_eq_or_eq _ _ _

/-- What no call changes. -/
def RateLimiter.config (rl : RateLimiter) : ℚ × ℚ × Int × Int :=
  (rl.rate, rl.burst, rl.idleTTL, rl.maxKeys)

theorem sweepLocked_config (rl : RateLimiter) (now : Int) :
    (rl.sweepLocked now).config = rl.config := by
  rcases sweepLocked_cases with hsw | hsw <;> rw [hsw]
  rfl

theorem allow_config (rl : RateLimiter) (now : Int) (key : String) :
    (rl.allow now key).1.config = rl.config := by
  unfold RateLimiter.allow
  split_ifs
  · rfl
  rw [← sweepLocked_config rl now, RateLimiter.take]
  split
  · split_ifs <;> rfl
  · dsimp only
    split_ifs <;> rfl

/-- A bucket fills up while it is idle. -/
def RateLimiter.FillsUp (rl : RateLimiter) : Prop := rl.burst ≤ seconds rl.idleTTL * rl.rate

/-- The sweep takes away buckets that are full. -/
theorem level_sweepLocked (h : Sound rl clock) (hfl : rl.FillsUp) (ht : now ≤ t) :
    level (rl.sweepLocked now) key t = level rl key t := by
  rcases sweepLocked_cases with hsw | hsw <;> rw [hsw]
  rw [level, level, lookup_filter]
  cases hb : rl.buckets.lookup key with
  | none => rfl
  | some b =>
    obtain ⟨hus, hls, htk, -⟩ := h.bucket key b hb
    rw [Option.filter_some]
    split_ifs with hid
    · rfl
    · have hlt : rl.idleTTL ≤ sub t b.last := by
        rw [decide_eq_true_iff, hus] at hid
        unfold sub minDuration maxDuration at hid ⊢
        omega
      have hgn := mul_le_mul_of_nonneg_right (seconds_mono hlt) h.rate.le
      have hflu := hfl.trans hgn
      exact (min_eq_right (by linarith)).symm

theorem Sound.later (h : Sound rl clock) (hle : clock ≤ now) : Sound rl now := by
  refine ⟨h.rate, h.burst, fun key b hb => ?_, h.size⟩
  obtain ⟨hus, hls, htk⟩ := h.bucket key b hb
  exact ⟨hus, hls.trans hle, htk⟩

theorem Sound.sweepLocked (h : Sound rl now) : Sound (rl.sweepLocked now) now := by
  rcases sweepLocked_cases with hsw | hsw <;> rw [hsw]
  · exact h
  · refine ⟨h.rate, h.burst, fun key b hb => ?_, ?_⟩
    · exact h.bucket key b (lookup_filter_eq_some.mp hb).1
    · refine le_trans (Int.ofNat_le.mpr (size_le_of_subset fun k hk => ?_)) h.size
      obtain ⟨b, hb⟩ := mem_iff_lookup.mp hk
      exact mem_of_lookup (lookup_filter_eq_some.mp hb).1

/-- **What a call can do**: it is refused a bucket, or its bucket is left with the level, less
one if the call is allowed. -/
inductive Taken (rl : RateLimiter) (now : Int) (key : String) : RateLimiter × Bool → Prop where
  | full : Taken rl now key (rl, false)
  | left (x : ℚ) (ok : Bool) (hx : x + (if ok then 1 else 0) = level rl key now) (hnonneg : 0 ≤ x)
      (hroom : key ∈ rl.buckets ∨ (rl.buckets.size : Int) < rl.maxKeys) :
      Taken rl now key ({ rl with buckets := rl.buckets.insert key ⟨x, now, now⟩ }, ok)

theorem refill_eq (h : Sound rl now) (hb : rl.buckets.lookup key = some b) :
    rl.refill now b = ⟨level rl key now, now, now⟩ := by
  obtain ⟨hus, hls, -, hbr⟩ := h.bucket key b hb
  unfold refill level
  rw [hb]
  dsimp only
  split_ifs with hel
  · rfl
  · have hzr := le_antisymm (not_lt.mp hel) (seconds_sub_le hls).1
    have hsm : b.last = now := by
      have hsub : sub now b.last = 0 := by
        simpa [seconds] using hzr
      unfold sub minDuration maxDuration at hsub
      omega
    simp_all

theorem take_taken (h : Sound rl now) (key : String) : Taken rl now key (rl.take now key) := by
  unfold RateLimiter.take
  cases hb : rl.buckets.lookup key with
  | none =>
    have hlv : level rl key now = rl.burst := by rw [level, hb]
    dsimp only
    split_ifs with hcap
    · exact .full
    · refine .left _ true ?_ (by linarith [h.burst]) (.inr (not_le.mp hcap))
      rw [hlv, if_pos rfl]
      ring
  | some b =>
    have hmem : key ∈ rl.buckets := mem_of_lookup hb
    dsimp only
    rw [refill_eq h hb]
    split_ifs with hone
    · refine .left _ true ?_ (by linarith) (.inl hmem)
      rw [if_pos rfl]
      ring
    · exact .left _ false (by simp) (h.level_nonneg le_rfl) (.inl hmem)

theorem Sound.taken (h : Sound rl now) (hr : Taken rl now key r) : Sound r.1 now := by
  cases hr with
  | full => exact h
  | left x ok hx hng hrm =>
    refine ⟨h.rate, h.burst, fun k b hb => ?_, ?_⟩
    · by_cases hk : k = key
      · subst hk
        rw [lookup_insert] at hb
        cases hb
        have := level_le_burst rl k now
        refine ⟨rfl, le_rfl, hng, ?_⟩
        split_ifs at hx <;> linarith
      · rw [lookup_insert_of_ne _ hk] at hb
        exact h.bucket k b hb
    · rcases hrm with hmem | hlt
      · refine le_trans (Int.ofNat_le.mpr (size_le_of_subset fun k hk => ?_)) h.size
        rcases mem_insert.mp hk with rfl | hk
        · exact hmem
        · exact hk
      · have := size_insert_le rl.buckets key ⟨x, now, now⟩
        dsimp only
        omega

/-- The calls of a key that were allowed: those of an interval, and what is left at its end if that
is not past, make up no more than the burst and what has flowed in. -/
structure Metered (rl : RateLimiter) (key : String) (clock : Int) (sent : List Int) : Prop where
  past : ∀ t ∈ sent, t ≤ clock
  /-- What was let out and what is left is at most the burst and what flowed in. -/
  flow : ∀ s t, s ≤ t → (sent.countP (fun u => s ≤ u ∧ u ≤ t) : ℚ)
    + (if clock ≤ t then level rl key t else 0) ≤ rl.burst + (seconds t - seconds s) * rl.rate

/-- Nothing that concerns the key happens. -/
theorem Metered.frame (hrl : Sound rl clock) (h : Metered rl key clock sent) (hle : clock ≤ now)
    (hrt : rl'.rate = rl.rate) (hbr : rl'.burst = rl.burst)
    (hlv : ∀ t, now ≤ t → level rl' key t = level rl key t) : Metered rl' key now sent := by
  refine ⟨fun t ht => (h.past t ht).trans hle, fun s t hst => ?_⟩
  have hold := h.flow s t hst
  rw [hrt, hbr]
  split_ifs with ht
  · rw [if_pos (hle.trans ht)] at hold
    rw [hlv t ht]
    exact hold
  · split_ifs at hold with hclk
    · have : 0 ≤ level rl key t := hrl.level_nonneg hclk
      linarith
    · exact hold

theorem Metered.left {ok : Bool} (hrl : Sound rl now) (h : Metered rl key now sent)
    (hx : x + (if ok then 1 else 0) = level rl key now) :
    Metered { rl with buckets := rl.buckets.insert key ⟨x, now, now⟩ } key now
      (if ok then now :: sent else sent) := by
  have hps : ∀ t ∈ (if ok then now :: sent else sent), t ≤ now := by
    cases ok
    · exact h.past
    · exact forall_mem_cons.mpr ⟨le_rfl, h.past⟩
  refine ⟨hps, fun s t hst => ?_⟩
  rw [level, lookup_insert]
  by_cases hs : now < s
  · -- an interval that is to come
    have hno : (if ok then now :: sent else sent).countP (fun u => s ≤ u ∧ u ≤ t) = 0 := by
      refine countP_eq_zero.mpr fun u hu hin => absurd (hps u hu) ?_
      exact not_le.mpr (hs.trans_le (of_decide_eq_true hin).1)
    have hgn := mul_nonneg (sub_nonneg.mpr (seconds_mono hst)) hrl.rate.le
    have hmin := min_le_right (x + seconds (sub t now) * rl.rate) rl.burst
    rw [hno, Nat.cast_zero, if_pos (hs.le.trans hst)]
    linarith
  by_cases ht : now ≤ t
  · have hold := h.flow s now (not_lt.mp hs)
    rw [if_pos le_rfl, ← hx] at hold
    have hcnt : ((if ok then now :: sent else sent).countP (fun u => s ≤ u ∧ u ≤ t) : ℚ)
        ≤ sent.countP (fun u => s ≤ u ∧ u ≤ now) + if ok then 1 else 0 := by
      have hmn : sent.countP (fun u => s ≤ u ∧ u ≤ t) ≤ sent.countP (fun u => s ≤ u ∧ u ≤ now) :=
        countP_mono_left fun u hu hin => decide_eq_true ⟨(of_decide_eq_true hin).1, h.past u hu⟩
      cases ok
      · simpa using hmn
      · simpa [ht, not_lt.mp hs] using hmn
    have hgn := mul_le_mul_of_nonneg_right (seconds_sub_le ht).2 hrl.rate.le
    have hmin := min_le_left (x + seconds (sub t now) * rl.rate) rl.burst
    rw [if_pos ht]
    linarith
  · have hsm : (if ok then now :: sent else sent).countP (fun u => s ≤ u ∧ u ≤ t)
        = sent.countP (fun u => s ≤ u ∧ u ≤ t) := by
      cases ok
      · rfl
      · simp [ht]
    have hold := h.flow s t hst
    rw [if_neg ht] at hold ⊢
    rw [hsm]
    exact hold

def sentBy (key : String) (allowed : List (String × Int)) : List Int :=
  (allowed.filter (·.1 = key)).map (·.2)

structure Inv (w : World) : Prop where
  sound : Sound w.limiter w.clock
  metered : w.limiter.FillsUp → ∀ key, key ≠ "" →
    Metered w.limiter key w.clock (sentBy key w.allowed)

theorem sentBy_cons : sentBy other ((key, now) :: allowed) =
    if other = key then now :: sentBy other allowed else sentBy other allowed := by
  unfold sentBy
  by_cases h : other = key
  · simp [h]
  · simp [h, Ne.symm h]

/-- The clock does not go back. -/
def Clocked (w : World) (c : Call) : Prop := w.clock ≤ c.now

theorem Inv.call (hw : Inv w) (hle : Clocked w c) : Inv (w.call c) := by
  obtain ⟨key, now⟩ := c
  by_cases hemp : key = ""
  · have hal : w.limiter.allow now key = (w.limiter, true) := if_pos hemp
    refine ⟨?_, fun hfl other hoth => ?_⟩
    · rw [World.call, hal]
      exact hw.sound.later hle
    · simp only [World.call, hal, if_true] at hfl ⊢
      rw [sentBy_cons, if_neg (hemp ▸ hoth)]
      exact (hw.metered hfl other hoth).frame hw.sound hle rfl rfl fun _ _ => rfl
  have hal : w.limiter.allow now key = (w.limiter.sweepLocked now).take now key :=
    if_neg hemp
  have hsw := (hw.sound.later hle).sweepLocked
  have htk := take_taken hsw key
  refine ⟨?_, fun hfl other hoth => ?_⟩
  · rw [World.call, hal]
    exact hsw.taken htk
  have hcfg := allow_config w.limiter now key
  have hsm := sweepLocked_config w.limiter now
  simp only [config, Prod.mk.injEq] at hcfg hsm
  have hpre : w.limiter.FillsUp := by
    rw [FillsUp, ← hcfg.1, ← hcfg.2.1, ← hcfg.2.2.1]
    exact hfl
  have hmt : ∀ other, other ≠ "" →
      Metered (w.limiter.sweepLocked now) other now (sentBy other w.allowed) := fun other hoth =>
    (hw.metered hpre other hoth).frame hw.sound hle hsm.1 hsm.2.1 fun t ht =>
      level_sweepLocked hw.sound hpre ht
  rw [World.call, hal]
  generalize (w.limiter.sweepLocked now).take now key = r at htk
  cases htk with
  | full => exact hmt other hoth
  | left x ok hx hng hrm =>
    by_cases hkey : other = key
    · subst hkey
      have := (hmt other hoth).left hsw hx
      cases ok
      · exact this
      · simpa [sentBy_cons] using this
    · have hsn : sentBy other (if ok then (key, now) :: w.allowed else w.allowed)
          = sentBy other w.allowed := by
        cases ok
        · rfl
        · simp [sentBy_cons, hkey]
      rw [hsn]
      refine (hmt other hoth).frame hsw le_rfl rfl rfl fun t ht => ?_
      rw [level, level, lookup_insert_of_ne _ hkey]

theorem Inv.of_empty (hrt : 0 < w.limiter.rate) (hbr : 1 ≤ w.limiter.burst)
    (hky : 0 ≤ w.limiter.maxKeys) (hbc : w.limiter.buckets = ∅) (hal : w.allowed = []) :
    Inv w := by
  have hlv : ∀ key t, level w.limiter key t = w.limiter.burst := by
    intro key t
    rw [level, hbc]
    rfl
  refine ⟨⟨hrt, hbr, fun key b hb => ?_, ?_⟩, fun _ key _ => ?_⟩
  · rw [hbc] at hb
    cases hb
  · rw [hbc]
    exact hky
  · rw [hal]
    refine ⟨nofun, fun s t hst => ?_⟩
    have hgn := mul_nonneg (sub_nonneg.mpr (seconds_mono hst)) hrt.le
    rw [hlv, sentBy, filter_nil, map_nil, countP_nil, Nat.cast_zero]
    split_ifs <;> linarith

/-- **Rates hold over any interval**, for the limiters of all three services, if the burst flows
in while a bucket is idle; and there are never more buckets than keys. -/
theorem rates_hold {make : ℚ → ℚ → Int → Int → Option RateLimiter}
    (hmake : make ∈ [Server.newRateLimiter, Rendezvous.newLimiter, Pubcache.newLimiter])
    (rate burst : ℚ) (idleTTL maxKeys : Int) (hrate : 0 < rate) (hburst : 1 ≤ burst) (w : World)
    (h : (limiting make rate burst idleTTL maxKeys).Reachable Clocked w) :
    (burst ≤ seconds (if idleTTL ≤ 0 then 10 * minute else idleTTL) * rate →
      ∀ key, key ≠ "" → ∀ s d, 0 ≤ d →
        ((sentBy key w.allowed).countP (fun t => s ≤ t ∧ t ≤ s + d) : ℚ)
          ≤ burst + rate * seconds d) ∧
    (w.limiter.buckets.size : Int) ≤ if maxKeys ≤ 0 then 100000 else maxKeys := by
  have hnew : make = newLimiter := by
    simpa [Server.newRateLimiter, Rendezvous.newLimiter, Pubcache.newLimiter] using hmake
  subst hnew
  obtain ⟨hw, hcfg⟩ : Inv w ∧ w.limiter.config = (rate, burst,
      if idleTTL ≤ 0 then 10 * minute else idleTTL,
      if maxKeys ≤ 0 then 100000 else maxKeys) := by
    refine h.invariant (P := fun w => Inv w ∧ w.limiter.config = _) ?_ ?_
    · rintro ⟨rl, clock, allowed⟩ ⟨hlm, hal⟩
      rw [newLimiter, if_neg (by push Not; exact ⟨hrate, by linarith⟩)] at hlm
      cases hlm
      refine ⟨.of_empty hrate hburst ?_ rfl hal, rfl⟩
      dsimp only
      omega
    · rintro w c w' ⟨hw, hcfg⟩ hclk hst
      cases hst
      exact ⟨hw.call hclk, (allow_config ..).trans hcfg⟩
  simp only [config, Prod.mk.injEq] at hcfg
  obtain ⟨rfl, rfl, httl, hky⟩ := hcfg
  rw [← httl, ← hky]
  refine ⟨fun hfl key hkey s d hd => ?_, hw.sound.size⟩
  have hflw := (hw.metered hfl key hkey).flow s (s + d) (by omega)
  rw [← seconds_sub, add_sub_cancel_left, mul_comm] at hflw
  refine le_trans (le_add_of_nonneg_right ?_) hflw
  split_ifs with hclk
  · exact hw.sound.level_nonneg hclk
  · exact le_rfl

/-- A limiter as it is made, with the default of keys. -/
def fresh (rate burst : ℚ) (idleTTL : Int) : World :=
  ⟨⟨rate, burst, idleTTL, 100000, ∅, GoTime.zero⟩, 0, []⟩

theorem fresh_reachable {rate burst : ℚ} (idleTTL : Int) (hrt : 0 < rate) (hbr : 0 < burst)
    (httl : 0 < idleTTL) : (limiting Server.newRateLimiter rate burst idleTTL 0).Reachable Clocked
      (fresh rate burst idleTTL) := by
  refine .init ⟨?_, rfl⟩
  rw [Server.newRateLimiter, newLimiter, if_neg (by push Not; exact ⟨hrt, hbr⟩), if_neg httl.not_ge]
  rfl

/-- Two keys share a limiter of one call a second, with a second to idle: of five calls three are
allowed, the last after the idle buckets have been swept. -/
theorem one_call_a_second : ∃ w,
    (limiting Server.newRateLimiter 1 1 second 0).Reachable Clocked w ∧
    w.allowed = [("k", 2 * second), ("j", 0), ("k", 0)] ∧ ¬ "j" ∈ w.limiter.buckets ∧
    ((sentBy "k" w.allowed).countP (fun t => 0 ≤ t ∧ t ≤ 0 + 2 * second) : ℚ)
      ≤ 1 + 1 * seconds (2 * second) := by
  obtain ⟨w, hrch, hend⟩ := System.Reachable.exists_of_run
    (fun w c => decide (w.clock ≤ c.now))
    [⟨"k", 0⟩, ⟨"j", 0⟩, ⟨"k", second / 2⟩, ⟨"k", 2 * second⟩, ⟨"k", 2 * second⟩]
    (fun w => w.allowed = [("k", 2 * second), ("j", 0), ("k", 0)] ∧ ¬ "j" ∈ w.limiter.buckets)
    (fun _ _ => of_decide_eq_true) (fresh_reachable second one_pos one_pos (by decide))
    (by decide +kernel)
  obtain ⟨hal, hswept⟩ := of_decide_eq_true hend
  exact ⟨w, hrch, hal, hswept, (rates_hold (.head _) 1 1 second 0 one_pos le_rfl w hrch).1
    (by decide +kernel) "k" (by decide) 0 (2 * second) (by decide)⟩

/-- A bucket that fills up in 200 seconds is swept after one, and the next one is full. -/
theorem swept_bucket_is_full : ∃ w,
    (limiting Server.newRateLimiter (1 / 100) 2 second 0).Reachable Clocked w ∧
    ¬ ((sentBy "k" w.allowed).countP (fun t => 0 ≤ t ∧ t ≤ 0 + 2 * second) : ℚ)
      ≤ 2 + 1 / 100 * seconds (2 * second) := by
  obtain ⟨w, hrch, hov⟩ := System.Reachable.exists_of_run
    (fun w c => decide (w.clock ≤ c.now))
    [⟨"k", 0⟩, ⟨"k", 0⟩, ⟨"k", 2 * second⟩, ⟨"k", 2 * second⟩]
    (fun w => decide ¬ ((sentBy "k" w.allowed).countP
      (fun t => 0 ≤ t ∧ t ≤ 0 + 2 * second) : ℚ) ≤ 2 + 1 / 100 * seconds (2 * second))
    (fun _ _ => of_decide_eq_true)
    (fresh_reachable second (by norm_num : (0 : ℚ) < 1 / 100) two_pos (by decide))
    (by decide +kernel)
  exact ⟨w, hrch, of_decide_eq_true hov⟩

end VulosRelay.RateLimit
