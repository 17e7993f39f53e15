import VulosRelay.Server.Autoscale
import Mathlib.Data.List.TakeWhile
import Mathlib.Tactic.Linarith

/-!
# Hysteresis of the autoscaler

A timer of the detector is a function of its observations: the time of the oldest one of the
latest streak past its watermark, counted from the last action on. So a streak is as long as
`Sustain` exactly if its first observation is that far back. An unset timer is the zero instant,
so the clock must not show that instant: a streak that began there is taken for none.
-/

namespace VulosRelay.Server.Autoscale

open List GoTime

/-- The times of the observations since the last action that meet a condition, up to the first
that does not. -/
def streak (p : ℚ → Prop) [DecidablePred p] (past : List (Observation × Action)) : List Int :=
  (past.takeWhile fun e => e.2 = .none ∧ p e.1.ratio).map (·.1.now)

def lastTime (past : List (Observation × Action)) : Option Int :=
  (past.find? (·.2 ≠ .none)).map (·.1.now)

/-- From an observation on that is `Sustain` ago, and after the last action, all meet a
condition. -/
def Sustained (p : ℚ → Prop) (c : DetectorConfig) (past : List (Observation × Action))
    (o : Observation) : Prop :=
  p o.ratio ∧ ∃ run, run <+: past ∧ (∀ e ∈ run, e.2 = .none ∧ p e.1.ratio) ∧
    (run.map (·.1.now)).getLastD o.now ≤ o.now - c.sustain.toInt

/-- The last action is `Cooldown` ago. -/
def Cooled (c : DetectorConfig) (past : List (Observation × Action)) (o : Observation) : Prop :=
  ∀ t ∈ lastTime past, c.cooldown.toInt ≤ o.now - t

/-- The clock does not go back, and does not show the zero instant. -/
def Clocked (r : Run) (o : Observation) : Prop :=
  (∀ e ∈ r.past, e.1.now ≤ o.now) ∧ o.now ≠ GoTime.zero

structure Inv (c : DetectorConfig) (r : Run) : Prop where
  cfg : r.detector.cfg = c
  above : r.detector.aboveSince = (streak (c.high ≤ ·) r.past).getLastD GoTime.zero
  below : r.detector.belowSince = (streak (· ≤ c.low) r.past).getLastD GoTime.zero
  last : r.detector.lastAction = (lastTime r.past).getD GoTime.zero
  clocks : r.past.Pairwise fun e e' => e'.1.now ≤ e.1.now
  shown : ∀ e ∈ r.past, e.1.now ≠ GoTime.zero

/-- What `applyDefaults` ensures. -/
structure Sane (c : DetectorConfig) : Prop where
  low_lt : c.low < c.high
  sustain : 0 ≤ c.sustain.toInt
  cooldown : 0 ≤ c.cooldown.toInt

theorem durationField_nonneg {v default : Int64} (h : 0 ≤ default.toInt) :
    0 ≤ (durationField v default).toInt := by
  unfold durationField
  split_ifs with hneg hzr
  · decide
  · exact h
  · rw [Int64.lt_iff_toInt_lt] at hneg
    exact not_lt.mp hneg

theorem sane_applyDefaults (cfg : DetectorConfig) : Sane cfg.applyDefaults := by
  refine ⟨?_, durationField_nonneg (by decide), durationField_nonneg (by decide)⟩
  have hhg : 0 < cfg.applyDefaults.high := by
    change 0 < if cfg.high ≤ 0 then 4 / 5 else cfg.high
    split_ifs with h
    · norm_num
    · exact not_le.mp h
  obtain ⟨low, hlow⟩ : ∃ low, cfg.applyDefaults.low =
      if cfg.applyDefaults.high ≤ low then cfg.applyDefaults.high / 2 else low := ⟨_, rfl⟩
  rw [hlow]
  split_ifs with h
  · linarith
  · exact not_le.mp h

/-- A duration is reached by the saturating difference when it is by the instants. -/
theorem sub_lt_iff {d : Int64} (h : 0 ≤ d.toInt) (t u : Int) :
    sub t u < d.toInt ↔ t - u < d.toInt := by
  have hle := d.toInt_lt
  unfold sub minDuration maxDuration
  omega

variable {c : DetectorConfig} {r : Run} {o : Observation} {p : ℚ → Prop} [DecidablePred p]
  {past : List (Observation × Action)}

theorem streak_cons : streak p ((o, a) :: past) =
    if a = .none ∧ p o.ratio then o.now :: streak p past else [] := by
  rw [streak, takeWhile_cons]
  split_ifs with h h' h'
  · rfl
  · exact absurd (of_decide_eq_true h) h'
  · exact absurd (decide_eq_true h') h
  · rfl

theorem streak_cons_getLastD : (streak p ((o, a) :: past)).getLastD zero =
    if a = .none ∧ p o.ratio then (streak p past).getLastD o.now else zero := by
  rw [streak_cons, apply_ite (getLastD · zero), getLastD_cons]
  rfl

theorem mem_streak (h : t ∈ streak p past) : ∃ e ∈ past, e.1.now = t := by
  obtain ⟨e, he, rfl⟩ := mem_map.mp h
  exact ⟨e, (takeWhile_sublist _).subset he, rfl⟩

/-- A timer that is set keeps its time. -/
theorem timer_eq {l : List Int} (h : ∀ t ∈ l, t ≠ zero) {now : Int} :
    (if l.getLastD zero = zero then now else l.getLastD zero)
      = l.getLastD now := by
  cases l with
  | nil => rfl
  | cons t l =>
    have hmem : (t :: l).getLastD zero ∈ t :: l := by
      rw [getLastD_cons, ← getLast_eq_getLastD]
      exact getLast_mem (cons_ne_nil t l)
    rw [if_neg (h _ hmem), getLastD_cons, getLastD_cons]

/-- The longer of two runs began earlier. -/
theorem getLastD_le {now : Int} (hsub : l <+: l') (hsr : (now :: l').Pairwise fun t t' => t' ≤ t) :
    l'.getLastD now ≤ l.getLastD now := by
  obtain ⟨more, rfl⟩ := hsub
  induction l generalizing now with
  | nil =>
    cases more with
    | nil => exact le_rfl
    | cons t more =>
      rw [nil_append, getLastD_cons, ← getLast_eq_getLastD (cons_ne_nil t more)]
      exact (pairwise_cons.mp hsr).1 _ (getLast_mem _)
  | cons t l ih =>
    rw [cons_append, getLastD_cons, getLastD_cons]
    exact ih (pairwise_cons.mp hsr).2

theorem sustained_iff (hcl : past.Pairwise fun e e' => e'.1.now ≤ e.1.now)
    (ho : ∀ e ∈ past, e.1.now ≤ o.now) :
    Sustained p c past o ↔
      p o.ratio ∧ (streak p past).getLastD o.now ≤ o.now - c.sustain.toInt := by
  refine and_congr_right fun _ => ⟨?_, fun h => ?_⟩
  · rintro ⟨run, hrun, hall, hls⟩
    refine le_trans (getLastD_le ?_ ?_) hls
    · obtain ⟨more, rfl⟩ := hrun
      rw [streak, takeWhile_append_of_pos fun e he => decide_eq_true (hall e he), map_append]
      exact prefix_append _ _
    · refine pairwise_cons.mpr ⟨fun t ht => ?_, ?_⟩
      · obtain ⟨e, he, rfl⟩ := mem_streak ht
        exact ho e he
      · exact pairwise_map.mpr (hcl.sublist (takeWhile_sublist _))
  · refine ⟨_, takeWhile_prefix _, fun e he => ?_, h⟩
    simpa using mem_takeWhile_imp he

section Observe

variable {d : Detector}

theorem observe_high (h : d.cfg.high ≤ o.ratio) :
    let since := if d.aboveSince = zero then o.now else d.aboveSince
    d.observe o = if sub o.now since < d.cfg.sustain.toInt ∨
        d.cooldownElapsed o.now = false ∨ 0 < d.cfg.maxNodes ∧ d.cfg.maxNodes ≤ o.nodes
      then (⟨d.cfg, since, zero, d.lastAction⟩, .none)
      else (⟨d.cfg, zero, zero, o.now⟩, .scaleUp) := by
  simp only [ite_or]
  exact if_pos h

theorem observe_low (h : ¬ d.cfg.high ≤ o.ratio) (hlow : o.ratio ≤ d.cfg.low) :
    let since := if d.belowSince = zero then o.now else d.belowSince
    d.observe o = if sub o.now since < d.cfg.sustain.toInt ∨
        d.cooldownElapsed o.now = false ∨ o.nodes ≤ d.cfg.minNodes
      then (⟨d.cfg, zero, since, d.lastAction⟩, .none)
      else (⟨d.cfg, zero, zero, o.now⟩, .scaleDown) := by
  simp only [ite_or]
  exact (if_neg h).trans (if_pos hlow)

theorem observe_band (h : ¬ d.cfg.high ≤ o.ratio) (hlow : ¬ o.ratio ≤ d.cfg.low) :
    d.observe o = (⟨d.cfg, zero, zero, d.lastAction⟩, .none) :=
  (if_neg h).trans (if_neg hlow)

theorem observe_state (h : d.cfg.low < d.cfg.high) :
    (d.observe o).1 = ⟨d.cfg,
      if (d.observe o).2 = .none ∧ d.cfg.high ≤ o.ratio then
        (if d.aboveSince = zero then o.now else d.aboveSince) else zero,
      if (d.observe o).2 = .none ∧ o.ratio ≤ d.cfg.low then
        (if d.belowSince = zero then o.now else d.belowSince) else zero,
      if (d.observe o).2 = .none then d.lastAction else o.now⟩ := by
  by_cases hhg : d.cfg.high ≤ o.ratio
  · have hlow : ¬ o.ratio ≤ d.cfg.low := not_le.mpr (h.trans_le hhg)
    rw [observe_high hhg]
    generalize (if d.aboveSince = zero then o.now else d.aboveSince) = since
    split
    · simp [hhg, hlow]
    · simp
  by_cases hlow : o.ratio ≤ d.cfg.low
  · rw [observe_low hhg hlow]
    generalize (if d.belowSince = zero then o.now else d.belowSince) = since
    split
    · simp [hhg, hlow]
    · simp
  · simp [observe_band hhg hlow, hhg, hlow]

end Observe

theorem lastTime_cons {a : Action} :
    lastTime ((o, a) :: past) = if a = .none then lastTime past else some o.now := by
  rw [lastTime, find?_cons]
  cases a <;> rfl

theorem Inv.streak_shown (hr : Inv c r) : ∀ t ∈ streak p r.past, t ≠ zero := by
  intro t ht
  obtain ⟨e, he, rfl⟩ := mem_streak ht
  exact hr.shown e he

theorem cooldownElapsed_iff (hr : Inv c r) (hc : Sane c) :
    r.detector.cooldownElapsed o.now = true ↔ Cooled c r.past o := by
  rw [Detector.cooldownElapsed, hr.cfg, hr.last, decide_eq_true_iff, Cooled]
  cases hls : lastTime r.past with
  | none => simp
  | some t =>
    have ht : t ≠ zero := by
      obtain ⟨e, he, rfl⟩ := Option.map_eq_some_iff.mp hls
      exact hr.shown e (mem_of_find?_eq_some he)
    have hsub := sub_lt_iff hc.cooldown o.now t
    simp only [Option.getD_some, ht, false_or, Option.mem_some_iff, forall_eq']
    omega

section Step

variable (hr : Inv c r) (hc : Sane c) (ho : Clocked r o)

include hr hc ho

theorem observe_iff : ((r.detector.observe o).2 = .scaleUp ↔
      Sustained (c.high ≤ ·) c r.past o ∧ Cooled c r.past o ∧
        (0 < c.maxNodes → o.nodes < c.maxNodes)) ∧
    ((r.detector.observe o).2 = .scaleDown ↔
      Sustained (· ≤ c.low) c r.past o ∧ Cooled c r.past o ∧ c.minNodes < o.nodes) := by
  rw [sustained_iff hr.clocks ho.1, sustained_iff hr.clocks ho.1, ← cooldownElapsed_iff hr hc]
  by_cases hhg : c.high ≤ o.ratio
  · have hlow : ¬ o.ratio ≤ c.low := not_le.mpr (hc.low_lt.trans_le hhg)
    rw [observe_high (by rwa [hr.cfg]), hr.cfg, hr.above, timer_eq hr.streak_shown]
    simp only [sub_lt_iff hc.sustain]
    split
    all_goals
      simp only [hhg, hlow]
      grind
  by_cases hlow : o.ratio ≤ c.low
  · rw [observe_low (by rwa [hr.cfg]) (by rwa [hr.cfg]), hr.cfg, hr.below, timer_eq hr.streak_shown]
    simp only [sub_lt_iff hc.sustain]
    split
    all_goals
      simp only [hhg, hlow]
      grind
  · simp [observe_band, hr.cfg, hhg, hlow]

theorem Inv.observe : Inv c (r.observe o) := by
  have hst := @observe_state o r.detector (by rw [hr.cfg]; exact hc.low_lt)
  rw [hr.cfg, hr.above, hr.below, timer_eq hr.streak_shown, timer_eq hr.streak_shown,
    hr.last] at hst
  refine ⟨congrArg (·.cfg) hst, (congrArg (·.aboveSince) hst).trans ?_,
    (congrArg (·.belowSince) hst).trans ?_, (congrArg (·.lastAction) hst).trans ?_,
    pairwise_cons.mpr ⟨ho.1, hr.clocks⟩, forall_mem_cons.mpr ⟨ho.2, hr.shown⟩⟩
  · exact (streak_cons_getLastD (p := (c.high ≤ ·))).symm
  · exact (streak_cons_getLastD (p := (· ≤ c.low))).symm
  · rw [Run.observe, lastTime_cons]
    split_ifs <;> rfl

end Step

/-- Any action was made at the time of the last one, or earlier. -/
theorem le_lastTime (hcl : past.Pairwise fun e e' => e'.1.now ≤ e.1.now) (he : e ∈ past)
    (ha : e.2 ≠ .none) :
    ∃ t ∈ lastTime past, e.1.now ≤ t := by
  induction past with
  | nil => cases he
  | cons x past ih =>
    obtain ⟨hx, hrs⟩ := pairwise_cons.mp hcl
    rw [lastTime_cons]
    split_ifs with hno
    · rcases mem_cons.mp he with rfl | he
      · exact absurd hno ha
      · exact ih hrs he
    · refine ⟨_, rfl, ?_⟩
      rcases mem_cons.mp he with rfl | he
      · exact le_rfl
      · exact hx e he

/-- Two actions are a cooldown apart. -/
def Spaced (c : DetectorConfig) (past : List (Observation × Action)) : Prop :=
  past.Pairwise fun e e' => e.2 ≠ .none → e'.2 ≠ .none → c.cooldown.toInt ≤ e.1.now - e'.1.now

theorem reachable_inv (h : (autoscaler cfg).Reachable Clocked r) :
    Inv cfg.applyDefaults r ∧ Spaced cfg.applyDefaults r.past := by
  have hc := sane_applyDefaults cfg
  refine h.invariant (P := fun r => Inv cfg.applyDefaults r ∧ Spaced cfg.applyDefaults r.past)
    (fun r hin => ?_) fun r o r' hr ho hst => ?_
  · subst hin
    exact ⟨⟨rfl, rfl, rfl, rfl, .nil, nofun⟩, .nil⟩
  · cases hst
    refine ⟨hr.1.observe hc ho, pairwise_cons.mpr ⟨fun e he hact hps => ?_, hr.2⟩⟩
    have hcl : Cooled cfg.applyDefaults r.past o := by
      obtain ⟨hup, hdw⟩ := observe_iff hr.1 hc ho
      cases ha : (r.detector.observe o).2 with
      | none => exact absurd ha hact
      | scaleUp => exact (hup.mp ha).2.1
      | scaleDown => exact (hdw.mp ha).2.1
    obtain ⟨t, ht, hle⟩ := le_lastTime hr.1.clocks he hps
    have := hcl t ht
    dsimp only
    omega

/-- **The autoscaler acts exactly when it should**, and not twice within a cooldown. -/
theorem autoscaler_hysteresis (cfg : DetectorConfig) (r : Run)
    (h : (autoscaler cfg).Reachable Clocked r) :
    (∀ o, Clocked r o →
      ((r.detector.observe o).2 = .scaleUp ↔
        Sustained (cfg.applyDefaults.high ≤ ·) cfg.applyDefaults r.past o ∧
          Cooled cfg.applyDefaults r.past o ∧
          (0 < cfg.applyDefaults.maxNodes → o.nodes < cfg.applyDefaults.maxNodes)) ∧
      ((r.detector.observe o).2 = .scaleDown ↔
        Sustained (· ≤ cfg.applyDefaults.low) cfg.applyDefaults r.past o ∧
          Cooled cfg.applyDefaults r.past o ∧ cfg.applyDefaults.minNodes < o.nodes)) ∧
    Spaced cfg.applyDefaults r.past ∧
    ∀ ratio, ¬ (cfg.applyDefaults.high ≤ ratio ∧ ratio ≤ cfg.applyDefaults.low) := by
  have hc := sane_applyDefaults cfg
  obtain ⟨hinv, hsp⟩ := reachable_inv h
  refine ⟨fun o ho => observe_iff hinv hc ho, hsp, fun ratio hbt => ?_⟩
  exact absurd (hbt.1.trans hbt.2) (not_le.mpr hc.low_lt)

def defaults : DetectorConfig := ⟨0, 0, 0, 0, 0, 0⟩

def saturatedAt (t : Int) : Run := Run.observe ⟨newDetector defaults, []⟩ ⟨1, 1, t⟩

theorem saturated_scales_up :
    ((saturatedAt 0).detector.observe ⟨1, 1, 60 * second⟩).2 = .scaleUp := by
  have hfst : Clocked ⟨newDetector defaults, []⟩ ⟨1, 1, 0⟩ := ⟨nofun, by decide⟩
  refine (((autoscaler_hysteresis defaults (saturatedAt 0) (.tail (.init rfl) hfst rfl)).1 _
    ⟨?_, by decide⟩).1).mpr ⟨⟨by decide +kernel, ?_⟩, ?_, nofun⟩
  · exact forall_mem_cons.mpr ⟨by decide, nofun⟩
  · exact ⟨(saturatedAt 0).past, prefix_rfl, by decide +kernel, by decide⟩
  · have hno : lastTime (saturatedAt 0).past = none := by decide +kernel
    rw [Cooled, hno]
    nofun

/-- A streak that begins at the zero instant is not seen. -/
theorem zero_instant_unseen : ∃ r o,
    (autoscaler defaults).Reachable (fun r o => ∀ e ∈ r.past, e.1.now ≤ o.now) r ∧
    (∀ e ∈ r.past, e.1.now ≤ o.now) ∧
    Sustained (defaults.applyDefaults.high ≤ ·) defaults.applyDefaults r.past o ∧
    Cooled defaults.applyDefaults r.past o ∧ defaults.applyDefaults.maxNodes = 0 ∧
    (r.detector.observe o).2 = .none := by
  refine ⟨saturatedAt zero, ⟨1, 1, zero + 60 * second⟩,
    .tail (.init rfl) nofun rfl, ?_, ⟨by decide +kernel, ?_⟩, ?_, rfl, by decide +kernel⟩
  · exact forall_mem_cons.mpr ⟨by decide, nofun⟩
  · exact ⟨(saturatedAt zero).past, prefix_rfl, by decide +kernel, by decide⟩
  · have hno : lastTime (saturatedAt zero).past = none := by decide +kernel
    rw [Cooled, hno]
    nofun

end VulosRelay.Server.Autoscale
