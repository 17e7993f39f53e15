import VulosRelay.Keyauth.Replay

/-!
# When a signed write is honoured once

A write accepted at `a` is remembered until `a + skew`, and its timestamp keeps it
fresh until `ts + skew`. So the memory covers the freshness exactly if the
timestamp was behind the clock when the write was accepted: then no later call can
be both past the memory and inside the window. Over a run with a clock that does
not go back, what was accepted is either still remembered or no longer fresh
(`Remembers`), which is what a sweep and a new entry keep.

The other way round, a timestamp at or ahead of the clock leaves a gap, and the
write is accepted a second time in it (`replayed_of_ahead`).
-/

namespace VulosRelay.Keyauth

open GoTime List Guard Int

structure Call where
  key : String
  nonce : String
  ts : Int
  now : Int
  deriving DecidableEq, Repr

variable {g : Guard} {now ts last : Int} {past : List Call}

def Call.write (c : Call) : String × String × Int := (c.key, c.nonce, c.ts)

namespace Guard

def accepted (g : Guard) : List Call → List Call
  | [] => []
  | c :: calls =>
    let after := g.checkAndRecord c.key c.nonce c.ts c.now
    if after.2 then c :: accepted after.1 calls else accepted after.1 calls

variable {now : Int}

theorem sweepLocked_skew : (g.sweepLocked now).skew = g.skew := by
  unfold sweepLocked
  split <;> rfl

theorem sweepLocked_maxKeys : (g.sweepLocked now).maxKeys = g.maxKeys := by
  unfold sweepLocked
  split <;> rfl

theorem lookup_sweepLocked_sub {exp : Int} {id : String}
    (h : (g.sweepLocked now).seen.lookup id = some exp) : g.seen.lookup id = some exp := by
  unfold sweepLocked at h
  split at h
  · exact h
  · exact (FinMap.lookup_filter_eq_some.mp h).1

theorem lookup_sweepLocked {exp : Int} {id : String} (h : g.seen.lookup id = some exp)
    (hlv : now < exp) : (g.sweepLocked now).seen.lookup id = some exp := by
  unfold sweepLocked
  split
  · exact h
  · exact FinMap.lookup_filter_eq_some.mpr ⟨h, decide_eq_true hlv⟩

def remember (g : Guard) (id : String) (now : Int) : Guard :=
  { g with seen := g.seen.insert id (now + g.skew) }

/-- What a call can do to the guard: refuse and forget what is over, or record the pair as well. -/
inductive Outcome (g : Guard) (c : Call) : Guard × Bool → Prop where
  | stale : Outcome g c (g, false)
  | refused : Outcome g c (g.sweepLocked c.now, false)
  | accepted :
      g.freshTimestamp c.ts c.now = true →
      (∀ exp, (g.sweepLocked c.now).seen.lookup (seenId c.key c.nonce) = some exp →
        exp ≤ c.now) →
      Outcome g c ((g.sweepLocked c.now).remember (seenId c.key c.nonce) c.now, true)

theorem checkAndRecord_outcome (g : Guard) (c : Call) :
    Outcome g c (g.checkAndRecord c.key c.nonce c.ts c.now) := by
  unfold checkAndRecord
  split
  · exact .stale
  rename_i hfr
  unfold record
  split
  · exact .refused
  rename_i hlv
  split
  · exact .refused
  refine .accepted ?_ ?_
  · by_contra hst
    exact hfr (.inr (Bool.eq_false_of_not_eq_true hst))
  intro exp hexp
  by_contra hlt
  apply hlv
  rw [hexp]
  exact decide_eq_true (not_le.mp hlt)

theorem fresh_until (hsk : g.skew < maxDuration) (hpos : 0 < g.skew)
    (hfr : g.freshTimestamp ts now = true) (hps : unix ts ≤ now) : now ≤ unix ts + g.skew := by
  unfold freshTimestamp at hfr
  split at hfr
  · simp at hfr
  have hdl := of_decide_eq_true hfr
  rw [if_neg (not_lt.mpr (sub_nonneg hps)), sub_le_iff _ hsk] at hdl
  · omega
  · unfold minDuration
    omega

structure Remembers (g : Guard) (last : Int) (past : List Call) : Prop where
  before : ∀ a ∈ past, a.now ≤ last
  behind : ∀ a ∈ past, unix a.ts < a.now
  kept : ∀ a ∈ past, a.now + g.skew ≤ last ∨
    ∃ exp, g.seen.lookup (seenId a.key a.nonce) = some exp ∧ a.now + g.skew ≤ exp

section

variable (h : Remembers g last past)

include h

theorem Remembers.sweepLocked (hnow : last ≤ now) :
    Remembers (g.sweepLocked now) now past where
  before a ha := le_trans (h.before a ha) hnow
  behind := h.behind
  kept a ha := by
    rw [sweepLocked_skew]
    rcases h.kept a ha with hov | ⟨exp, hexp, hln⟩
    · exact .inl (le_trans hov hnow)
    by_cases hlv : now < exp
    · exact .inr ⟨exp, lookup_sweepLocked hexp hlv, hln⟩
    · -- What the sweep may have dropped is over by now.
      exact .inl (le_trans hln (not_lt.mp hlv))

theorem Remembers.advance (hnow : last ≤ now) :
    Remembers g now past where
  before a ha := le_trans (h.before a ha) hnow
  behind := h.behind
  kept a ha := (h.kept a ha).imp_left fun hov => le_trans hov hnow

theorem Remembers.fresh_ne (hsk : g.skew < maxDuration) (hpos : 0 < g.skew) {c : Call}
    (hfr : g.freshTimestamp c.ts c.now = true) (hnow : last ≤ c.now)
    (hnew : ∀ exp, (g.sweepLocked c.now).seen.lookup (seenId c.key c.nonce) = some exp →
      exp ≤ c.now) : ∀ a ∈ past, a.write ≠ c.write := by
  intro a ha heq
  obtain ⟨hkey, hnc, hts⟩ : a.key = c.key ∧ a.nonce = c.nonce ∧ a.ts = c.ts := by
    simpa [Call.write] using heq
  have hbh := h.behind a ha
  have hpre := h.before a ha
  rw [hts] at hbh
  -- Once the memory is over, so is the window.
  have hun : c.now ≤ unix c.ts + g.skew := fresh_until hsk hpos hfr (by omega)
  rcases (h.sweepLocked hnow).kept a ha with hov | ⟨exp, hexp, hln⟩
  · rw [sweepLocked_skew] at hov
    omega
  rw [hkey, hnc] at hexp
  have hgn := hnew exp hexp
  rw [sweepLocked_skew] at hln
  omega

theorem Remembers.remember (hnow : c.now = last) (hbh : unix c.ts < c.now) :
    Remembers (g.remember (seenId c.key c.nonce) c.now) last (c :: past) where
  before a ha := by
    rcases mem_cons.mp ha with heq | hmem
    · rw [heq, hnow]
    · exact h.before a hmem
  behind a ha := by
    rcases mem_cons.mp ha with heq | hmem
    · rw [heq]
      exact hbh
    · exact h.behind a hmem
  kept a ha := by
    by_cases hid : seenId a.key a.nonce = seenId c.key c.nonce
    · -- The new entry lasts at least as long as any older one of the pair.
      refine .inr ⟨c.now + g.skew, ?_, ?_⟩
      · rw [hid]
        exact Finmap.lookup_insert _
      have hle : a.now ≤ c.now := by
        rcases mem_cons.mp ha with heq | hmem
        · rw [heq]
        · rw [hnow]
          exact h.before a hmem
      exact Int.add_le_add_right hle g.skew
    · rcases mem_cons.mp ha with heq | hmem
      · exact absurd (by rw [heq]) hid
      rcases h.kept a hmem with hov | ⟨exp, hexp, hln⟩
      · exact .inl hov
      refine .inr ⟨exp, ?_, hln⟩
      rw [Guard.remember, Finmap.lookup_insert_of_ne _ hid]
      exact hexp

end

theorem freshTimestamp_congr {g' : Guard} (h : g.skew = g'.skew) {ts : Int} :
    g.freshTimestamp ts now = g'.freshTimestamp ts now := by
  unfold freshTimestamp
  rw [h]

theorem accepted_new {g₀ : Guard} (hsk : g₀.skew < maxDuration) (hpos : 0 < g₀.skew) :
    ∀ {calls : List Call} {g : Guard} {last : Int} {past : List Call}, g.skew = g₀.skew →
      Remembers g last past → (∀ c ∈ calls, last ≤ c.now) →
      calls.Pairwise (fun a b => a.now ≤ b.now) →
      (∀ c ∈ calls, g₀.freshTimestamp c.ts c.now = true → unix c.ts < c.now) →
      (g.accepted calls).Pairwise (fun a b => a.write ≠ b.write) ∧
        ∀ a ∈ past, ∀ b ∈ g.accepted calls, a.write ≠ b.write
  | [], _, _, _, _, _, _, _, _ =>
    ⟨List.Pairwise.nil, nofun⟩
  | c :: calls, g, last, past, hg, h, hls, hclk, hps => by
    obtain ⟨hfst, hrs⟩ := pairwise_cons.mp hclk
    have hnow : last ≤ c.now := hls c (.head _)
    have hlt : ∀ d ∈ calls, g₀.freshTimestamp d.ts d.now = true → unix d.ts < d.now :=
      fun d hd => hps d (mem_cons_of_mem c hd)
    have hout := checkAndRecord_outcome g c
    rw [accepted]
    generalize g.checkAndRecord c.key c.nonce c.ts c.now = after at hout ⊢
    cases hout with
    | stale => exact accepted_new hsk hpos hg (h.advance hnow) hfst hrs hlt
    | refused =>
      exact accepted_new hsk hpos (sweepLocked_skew.trans hg)
        (h.sweepLocked hnow) hfst hrs hlt
    | accepted hfr hnew =>
      have hbh : unix c.ts < c.now := by
        apply hps c (.head _)
        rw [← freshTimestamp_congr hg]
        exact hfr
      have hold := h.fresh_ne (hg ▸ hsk) (hg ▸ hpos) hfr hnow hnew
      obtain ⟨hpr, hag⟩ := accepted_new hsk hpos
        (g := (g.sweepLocked c.now).remember (seenId c.key c.nonce) c.now)
        (sweepLocked_skew.trans hg) ((h.sweepLocked hnow).remember rfl hbh)
        hfst hrs hlt
      refine ⟨pairwise_cons.mpr ⟨hag c (.head _), hpr⟩, ?_⟩
      intro a ha b hb
      rcases mem_cons.mp hb with heq | hmem
      · rw [heq]
        exact hold a ha
      · exact hag a (mem_cons_of_mem c ha) b hmem

end Guard

theorem newGuard_skew_pos (skew maxKeys : Int) : 0 < (newGuard skew maxKeys).skew := by
  show 0 < if skew ≤ 0 then defaultClockSkew else skew
  split
  · unfold defaultClockSkew minute second
    omega
  · omega

/-- **One signed write is honoured at most once**, if no fresh write carries a timestamp that is
not yet past. -/
theorem accepted_once_if_past (skew maxKeys : Int) (calls : List Call)
    (hskew : (newGuard skew maxKeys).skew < maxDuration)
    (hclock : calls.Pairwise fun a b => a.now ≤ b.now)
    (hpast : ∀ c ∈ calls, (newGuard skew maxKeys).freshTimestamp c.ts c.now = true →
      unix c.ts < c.now) :
    ((newGuard skew maxKeys).accepted calls).Pairwise fun a b => a.write ≠ b.write := by
  cases calls with
  | nil => exact List.Pairwise.nil
  | cons c calls =>
    have hst : (newGuard skew maxKeys).Remembers c.now [] :=
      ⟨nofun, nofun, nofun⟩
    refine (accepted_new hskew (newGuard_skew_pos skew maxKeys) rfl hst ?_ hclock hpast).1
    intro d hd
    rcases mem_cons.mp hd with heq | hmem
    · rw [heq]
    · exact (pairwise_cons.mp hclock).1 d hmem

theorem accepted_once_if_past_pair :
    ((newGuard 0 0).accepted [⟨"k", "n", 1000, 1001 * second⟩, ⟨"k", "n", 1000, 1002 * second⟩,
      ⟨"k", "m", 1001, 1002 * second⟩]).Pairwise fun a b => a.write ≠ b.write :=
  accepted_once_if_past 0 0 _ (by decide) (by decide) (by decide)

/-- The guard has room beside the pair, and does not hold the pair any longer. -/
structure Guard.Forgets (g : Guard) (id : String) (now : Int) : Prop where
  /-- The other pairs are fewer than the cap. -/
  room : ((g.seen.keys.erase id).card : Int) < g.maxKeys
  /-- What is kept of the pair is over. -/
  lapsed : ∀ exp, g.seen.lookup id = some exp → exp ≤ now

theorem Guard.keys_sweepLocked_subset (g : Guard) (now : Int) :
    (g.sweepLocked now).seen.keys ⊆ g.seen.keys := by
  intro id hid
  obtain ⟨exp, hexp⟩ := FinMap.mem_iff_lookup.mp (Finmap.mem_keys.mp hid)
  exact Finmap.mem_keys.mpr (FinMap.mem_of_lookup (lookup_sweepLocked_sub hexp))

theorem Guard.Forgets.sweepLocked {id : String} (hg : g.Forgets id now) (later : Int) :
    (g.sweepLocked later).Forgets id now where
  room := by
    have hcd := Finset.card_le_card
      (Finset.erase_subset_erase id (g.keys_sweepLocked_subset later))
    rw [sweepLocked_maxKeys]
    exact lt_of_le_of_lt (Int.ofNat_le.mpr hcd) hg.room
  lapsed exp hexp := hg.lapsed exp (lookup_sweepLocked_sub hexp)

theorem Guard.Forgets.accepts {key nonce : String} (hg : g.Forgets (seenId key nonce) now)
    (hnc : nonce ≠ "") (hfr : g.freshTimestamp ts now = true) :
    g.checkAndRecord key nonce ts now =
      ((g.sweepLocked now).remember (seenId key nonce) now, true) := by
  have hsw := hg.sweepLocked now
  unfold checkAndRecord record
  rw [if_neg, if_neg, if_neg]
  · rfl
  · -- If the pair is not in the map, the map is what is beside the pair.
    rintro ⟨hsz, habs⟩
    have hrm := hsw.room
    rw [Finset.erase_eq_of_notMem fun hid => habs (Finmap.mem_keys.mp hid)] at hrm
    exact absurd hsz (not_le.mpr hrm)
  · intro hany
    obtain ⟨exp, hexp, hlv⟩ := (Option.any_eq_true _ _).mp hany
    exact absurd (hsw.lapsed exp hexp) (not_le.mpr (of_decide_eq_true hlv))
  · rintro (hemp | hst)
    · exact hnc hemp
    · rw [hfr] at hst
      cases hst

/-- A pair that is recorded is forgotten again when the skew is over. -/
theorem Guard.Forgets.remember {id : String} {later : Int} (hg : g.Forgets id now)
    (hle : now + g.skew ≤ later) :
    ((g.sweepLocked now).remember id now).Forgets id later where
  room := by
    have hky : (((g.sweepLocked now).remember id now).seen.keys).erase id =
        (g.sweepLocked now).seen.keys.erase id := by
      ext id'
      simp only [Guard.remember, Finset.mem_erase, Finmap.mem_keys, Finmap.mem_insert]
      tauto
    rw [hky]
    exact (hg.sweepLocked now).room
  lapsed exp hexp := by
    rw [Guard.remember, Finmap.lookup_insert, sweepLocked_skew] at hexp
    exact Option.some.inj hexp ▸ hle

theorem Guard.fresh_at_end (hts : 0 < ts) (hpos : 0 < g.skew) (hsk : g.skew ≤ maxDuration) :
    g.freshTimestamp ts (unix ts + g.skew) = true := by
  have hdl : sub (unix ts + g.skew) (unix ts) = g.skew := by
    unfold sub minDuration
    omega
  unfold freshTimestamp
  rw [if_neg (by omega), hdl]
  dsimp only
  rw [if_neg (by omega)]
  exact decide_eq_true (le_refl _)

/-- **A write stamped at or ahead of the clock can be replayed**: a guard that has room and does not
hold the pair accepts such a write if it is fresh, and accepts it again at the end of its window,
whatever else it holds. -/
theorem replayed_of_ahead (g : Guard) (key nonce : String) (ts now : Int) (hpos : 0 < g.skew)
    (hsk : g.skew ≤ maxDuration) (hg : g.Forgets (seenId key nonce) now) (hnc : nonce ≠ "")
    (hfr : g.freshTimestamp ts now = true) (hah : now ≤ unix ts) :
    let calls : List Call := [⟨key, nonce, ts, now⟩, ⟨key, nonce, ts, unix ts + g.skew⟩]
    g.accepted calls = calls := by
  have hts : 0 < ts := by
    unfold freshTimestamp at hfr
    split at hfr
    · simp at hfr
    · omega
  have hlater := hg.remember (Int.add_le_add_right hah g.skew)
  have hag := fresh_at_end hts hpos hsk
  intro calls
  rw [accepted, hg.accepts hnc hfr, accepted,
    hlater.accepts hnc ((freshTimestamp_congr sweepLocked_skew).trans hag)]
  rfl

/-- A guard for two pairs that holds another one. -/
def busyGuard : Guard := ((newGuard 0 2).checkAndRecord "k" "m" 990 (991 * second)).1

theorem replayed_after_five_minutes :
    busyGuard.seen.lookup (seenId "k" "m") = some (1291 * second) ∧
      busyGuard.accepted [⟨"k", "n", 1000, 999 * second⟩, ⟨"k", "n", 1000, 1300 * second⟩] =
        [⟨"k", "n", 1000, 999 * second⟩, ⟨"k", "n", 1000, 1300 * second⟩] := by
  have hno : busyGuard.seen.lookup (seenId "k" "n") = none := by decide
  refine ⟨by decide, replayed_of_ahead busyGuard "k" "n" 1000 (999 * second) (by decide)
    (by decide) ⟨by decide, fun exp hexp => ?_⟩ (by decide) (by decide) (by decide)⟩
  rw [hno] at hexp
  cases hexp

/-- The default guard accepts a write stamped with its own clock, and accepts it again when it has
forgotten it; one that is stamped three centuries ahead it accepts as long as it forgets it. -/
theorem stamped_now_accepted_twice :
    (newGuard 0 0).accepted [⟨"k", "n", 1000, 1000 * second⟩, ⟨"k", "n", 1000, 1300 * second⟩]
      = [⟨"k", "n", 1000, 1000 * second⟩, ⟨"k", "n", 1000, 1300 * second⟩] ∧
    (newGuard 0 0).accepted
        [⟨"k", "n", 10000000000, 1000 * second⟩, ⟨"k", "n", 10000000000, 1300 * second⟩]
      = [⟨"k", "n", 10000000000, 1000 * second⟩, ⟨"k", "n", 10000000000, 1300 * second⟩] := by
  decide

end VulosRelay.Keyauth
