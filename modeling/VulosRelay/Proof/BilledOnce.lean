import Mathlib
import VulosRelay.Lib.Amount
import VulosRelay.Server.Metering

/-!
# Usage is billed once

What is recorded goes into one batch, and the batch keeps its report id wherever it
goes. The drained batches have distinct ids, so a batch that the control plane has not
applied is in the retry queue, in the hands of the flush goroutine or dropped, and in one
of these places only (`Places`). Each batch reports what was recorded between two drains,
as signed words count it (`Books`). Together they give the books of an account: recorded
is applied, pending, retained and not applied, and dropped and not applied.

A batch may be applied and dropped: its answer was lost, and the queue overflowed before
it was sent again. Counting every dropped batch therefore counts such a batch twice.
-/

namespace VulosRelay.Server

open Amount List Finmap Int

/-! ## Counters -/

inductive Counter where
  | bytes
  | sessions

def MeterDelta.get (d : MeterDelta) : Counter → Int64
  | .bytes => d.bytes
  | .sessions => d.sessions

def reading (c : Counter) (account : String) (m : FinMap String MeterDelta) : Int :=
  (((m.lookup account).getD ⟨0, 0⟩).get c).toInt

def reported (c : Counter) (account : String) (batches : List PendingReport) : Int :=
  (batches.map fun b => reading c account b.items).sum

def credited (c : Counter) (account : String) (credits : List Credit) : Int :=
  (credits.map fun cr => if cr.account = account then (cr.delta.get c).toInt else 0).sum

theorem reported_append :
    reported c account (xs ++ ys) = reported c account xs + reported c account ys := by
  rw [reported, map_append, sum_append]
  rfl

theorem reported_perm (h : xs.Perm ys) : reported c account xs = reported c account ys :=
  (h.map _).sum_eq

theorem credited_append :
    credited c account (xs ++ ys) = credited c account xs + credited c account ys := by
  rw [credited, map_append, sum_append]
  rfl

theorem get_zero : ((⟨0, 0⟩ : MeterDelta).get c).toInt = 0 := by
  cases c <;> rfl

theorem reading_empty : reading c account ∅ = 0 := by
  rw [reading, lookup_empty]
  exact get_zero

theorem get_add {c : Counter} {d : MeterDelta} {bytes sessions : Int64} :
    (MeterDelta.get ⟨d.bytes + bytes, d.sessions + sessions⟩ c).toInt
      = ((d.get c).toInt + (MeterDelta.get ⟨bytes, sessions⟩ c).toInt).bmod (2 ^ 64) := by
  cases c with
  | bytes | sessions => exact Int64.toInt_add _ _

namespace MeterState

def recorded (s : MeterState) (c : Counter) (account : String) : Int :=
  credited c account (s.drained.flatMap Prod.snd ++ s.credits)

def batches (s : MeterState) : List PendingReport := s.drained.map Prod.fst

def retained (s : MeterState) : List PendingReport := s.retry ++ s.flusher.held

def unsettled (s : MeterState) : List PendingReport := s.retained ++ s.dropped

/-- The control plane has applied the report. -/
def Applied (s : MeterState) (b : PendingReport) : Prop := b.id ∈ s.applied.map PendingReport.id

instance (s : MeterState) (b : PendingReport) : Decidable (s.Applied b) :=
  inferInstanceAs (Decidable (_ ∈ _))

def unapplied (s : MeterState) (batches : List PendingReport) : List PendingReport :=
  batches.filter fun b => ¬ s.Applied b

end MeterState

open MeterState hiding batches credits

/-! ## Moves -/

inductive MeterMove (cfg : MeterConfig) (s s' : MeterState) : Prop where
  | skip : s' = s → MeterMove cfg s s'
  | credit {account : String} {bytes sessions : Int64} : 0 ≤ bytes.toInt → 0 ≤ sessions.toInt →
      s' = { s with
        pending := s.pending.insert account
          ⟨((s.pending.lookup account).getD ⟨0, 0⟩).bytes + bytes,
            ((s.pending.lookup account).getD ⟨0, 0⟩).sessions + sessions⟩
        credits := s.credits ++ [⟨account, bytes, sessions⟩] } → MeterMove cfg s s'
  | shuffle : (∀ c account, reading c account s'.pending = reading c account s.pending) →
      s'.credits = s.credits → s'.drained = s.drained → s'.seq = s.seq →
      s'.applied = s.applied → s'.unsettled.Perm s.unsettled →
      (∀ b ∈ s'.sent, b ∈ s.sent ∨ b ∈ s.unsettled) → MeterMove cfg s s'
  | drain : (∀ c account, reading c account (s.report cfg).items = reading c account s.pending) →
      s'.pending = ∅ → s'.credits = [] → s'.drained = s.drained ++ [(s.report cfg, s.credits)] →
      s'.seq = s.nextSeq → s'.applied = s.applied →
      s'.unsettled.Perm (s.report cfg :: s.unsettled) → s'.sent = s.sent → MeterMove cfg s s'
  | apply {b : PendingReport} : b ∈ s.sent → ¬ s.Applied b →
      s' = { s with applied := s.applied ++ [b] } → MeterMove cfg s s'
  | settle {b : PendingReport} : s.Applied b → s'.pending = s.pending →
      s'.credits = s.credits → s'.drained = s.drained → s'.seq = s.seq →
      s'.applied = s.applied → s.unsettled.Perm (b :: s'.unsettled) → s'.sent = s.sent →
      MeterMove cfg s s'

theorem move_record (hby : 0 ≤ bytes.toInt) (hse : 0 ≤ sessions.toInt) :
    MeterMove cfg s (s.record cfg account bytes sessions) := by
  unfold record
  split
  · exact .skip rfl
  · exact .credit hby hse rfl

theorem reading_items (s : MeterState) :
    reading c account s.items = reading c account s.pending := by
  unfold reading items
  rw [FinMap.lookup_filter]
  cases hd : s.pending.lookup account with
  | none => rfl
  | some d =>
    by_cases hsm : d.bytes ≠ 0 ∨ d.sessions ≠ 0
    · rw [Option.filter_some_pos (by simpa using hsm)]
    rw [Option.filter_some_neg (by simpa using hsm)]
    obtain ⟨hby, hse⟩ := not_or.mp hsm
    have hd : d = ⟨0, 0⟩ := by
      cases d
      rw [MeterDelta.mk.injEq]
      exact ⟨not_not.mp hby, not_not.mp hse⟩
    rw [hd]
    rfl

variable {s : MeterState} {cfg : MeterConfig}

theorem unsettled_of_flusher (h : s.flusher = f) :
    s.unsettled = (s.retry ++ f.held) ++ s.dropped := by
  rw [unsettled, retained, h]

theorem move_drain (htk : s.flusher = .taken batches) :
    MeterMove cfg s (s.drain cfg batches) := by
  have hpl : s.unsettled = (s.retry ++ batches) ++ s.dropped := unsettled_of_flusher htk
  unfold drain
  split
  · rename_i hno
    -- every pending delta is zero
    refine .shuffle (fun c account => ?_) rfl rfl rfl rfl ?_ fun b hb => .inl hb
    · have hout : s.items.lookup account = none := by
        refine lookup_eq_none.mpr fun hmem => ?_
        have hkey := mem_keys.mpr hmem
        rw [Finset.card_eq_zero.mp hno] at hkey
        exact absurd hkey (Finset.notMem_empty _)
      rw [← reading_items s, reading_empty, reading, hout]
      exact get_zero.symm
    · rw [hpl]
      split
      · rename_i hnil
        rw [unsettled_of_flusher rfl, hnil]
        exact List.Perm.refl _
      · rw [unsettled_of_flusher rfl]
        simp [Flusher.held]
  · refine .drain (fun c account => reading_items s) rfl rfl rfl rfl rfl ?_ rfl
    rw [hpl, unsettled_of_flusher rfl]
    show ((s.retry ++ (batches ++ [s.report cfg] ++ [])) ++ s.dropped).Perm _
    rw [append_nil, ← append_assoc s.retry]
    exact (perm_append_singleton _ _).append_right _

theorem move_requeue (hsnd : s.flusher = .sending [] failed) :
    MeterMove cfg s (s.requeue cfg failed) := by
  have hpl : s.unsettled = (s.retry ++ failed) ++ s.dropped := unsettled_of_flusher hsnd
  unfold requeue
  split
  · rename_i hnil
    refine .shuffle (fun _ _ => rfl) rfl rfl rfl rfl ?_ fun b hb => .inl hb
    rw [hpl, unsettled_of_flusher rfl, hnil]
    exact List.Perm.refl _
  · refine .shuffle (fun _ _ => rfl) rfl rfl rfl rfl ?_ fun b hb => .inl hb
    rw [hpl, unsettled_of_flusher rfl]
    show ((_ ++ []) ++ (s.dropped ++ _)).Perm _
    rw [append_nil]
    refine perm_append_comm.trans ?_
    rw [append_assoc s.dropped, take_append_drop]
    exact perm_append_comm

theorem step_move (h : s.step cfg action = some s') : MeterMove cfg s s' := by
  cases action with
  | addBytes accountId n =>
    rw [← Option.some.inj h, addBytes]
    split
    · exact .skip rfl
    rename_i hgr
    have hpos : 0 < n := Int64.not_le.mp fun hle => hgr (.inr hle)
    exact move_record (le_of_lt (Int64.lt_iff_toInt_lt.mp hpos))
      (le_refl 0)
  | addSession accountId =>
    rw [← Option.some.inj h, addSession]
    split
    · exact .skip rfl
    · exact move_record (le_refl 0) (by decide)
  | takeRetry =>
    rw [step] at h
    split at h
    · rename_i hid
      cases h
      refine .shuffle (fun _ _ => rfl) rfl rfl rfl rfl ?_ fun b hb => .inl hb
      rw [unsettled_of_flusher hid, unsettled_of_flusher rfl]
      simp [Flusher.held]
    · simp at h
  | drain =>
    rw [step] at h
    split at h
    · rename_i htk
      cases h
      exact move_drain htk
    · simp at h
  | post =>
    rw [step] at h
    split at h
    · rename_i batch todo failed hsnd
      cases h
      refine .shuffle (fun _ _ => rfl) rfl rfl rfl rfl ?_ fun b hb => ?_
      · rw [unsettled_of_flusher hsnd, unsettled_of_flusher rfl]
        exact List.Perm.refl _
      rcases mem_append.mp hb with hold | hnew
      · exact .inl hold
      right
      rw [unsettled_of_flusher hsnd, mem_singleton.mp hnew]
      simp [Flusher.held]
    · simp at h
  | deliver i =>
    obtain ⟨b, hb, hs'⟩ := Option.map_eq_some_iff.mp h
    rw [← hs', receive]
    split
    · exact .skip rfl
    · next hnew => exact .apply (mem_of_getElem? hb) hnew rfl
  | fail =>
    rw [step] at h
    split at h
    · rename_i batch todo failed hwt
      cases h
      refine .shuffle (fun _ _ => rfl) rfl rfl rfl rfl ?_ fun b hb => .inl hb
      rw [unsettled_of_flusher hwt, unsettled_of_flusher rfl]
      refine (List.Perm.append_left _ ?_).append_right _
      show (todo ++ (failed ++ [batch])).Perm (batch :: (todo ++ failed))
      rw [← append_assoc]
      exact perm_append_singleton _ _
    · simp at h
  | succeed overQuota =>
    rw [step] at h
    split at h
    · rename_i batch todo failed hwt
      obtain ⟨happ, hs'⟩ := Option.ite_none_right_eq_some.mp h
      cases hs'
      refine .settle happ rfl rfl rfl rfl rfl ?_ rfl
      rw [unsettled_of_flusher hwt, unsettled_of_flusher rfl]
      exact perm_middle.append_right _
    · simp at h
  | requeue =>
    rw [step] at h
    split at h
    · rename_i failed hsnd
      cases h
      exact move_requeue hsnd
    · simp at h

/-! ## Where the batches are -/

theorem reportId_injective (h : cfg.reportId n = cfg.reportId m) : n = m := by
  have hrp : n.repr = m.repr := (String.append_right_inj _).mp h
  exact ofNat.inj (repr_injective (show (ofNat n).repr = (ofNat m).repr from hrp))

theorem length_drained_le (hmv : MeterMove cfg s s') : s.drained.length ≤ s'.drained.length := by
  cases hmv with
  | skip hs | credit _ _ hs | apply _ _ hs => rw [hs]
  | shuffle _ _ hdrn | settle _ _ _ hdrn => rw [hdrn]
  | drain _ _ _ hdrn =>
    rw [hdrn, length_append]
    exact Nat.le_add_right _ _

/-- **Each drained batch has an id of its own and is applied or not done with**, for as long as
the counter of the ids does not wrap. -/
structure Places (cfg : MeterConfig) (s : MeterState) : Prop where
  /-- The ids count up. -/
  ids : s.batches.map PendingReport.id = (List.range s.seq).map fun i => cfg.reportId (i + 1)
  /-- What is not done with has distinct ids, and was drained. -/
  apart : (s.unsettled.map PendingReport.id).Nodup
  drained : ∀ b ∈ s.unsettled, b ∈ s.batches
  /-- A batch is applied or not done with. -/
  found : ∀ b ∈ s.batches, s.Applied b ∨ b ∈ s.unsettled
  /-- Nothing was sent or applied that was not drained, -/
  sent : ∀ b ∈ s.sent, b ∈ s.batches
  applied : ∀ b ∈ s.applied, b ∈ s.batches
  /-- and nothing applied twice. -/
  once : (s.applied.map PendingReport.id).Nodup

theorem places_new : Places cfg .new where
  ids := rfl
  apart := nodup_nil
  drained _ hb := absurd hb not_mem_nil
  found _ hb := absurd hb not_mem_nil
  sent _ hb := absurd hb not_mem_nil
  applied _ hb := absurd hb not_mem_nil
  once := nodup_nil

theorem Places.nodup_ids (h : Places cfg s) : (s.batches.map PendingReport.id).Nodup := by
  rw [h.ids]
  refine List.Nodup.map (fun i j hij => ?_) nodup_range
  exact Nat.succ.inj (reportId_injective hij)

theorem Places.nextSeq (h : Places cfg s) (hfit : s.drained.length + 1 < 2 ^ 64) :
    s.nextSeq = s.seq + 1 := by
  have hlen := congrArg List.length h.ids
  rw [MeterState.batches, length_map, length_map, length_map, length_range] at hlen
  exact Nat.mod_eq_of_lt (hlen ▸ hfit)

theorem Places.fresh (h : Places cfg s) (hfit : s.drained.length + 1 < 2 ^ 64) :
    (s.report cfg).id ∉ s.batches.map PendingReport.id := by
  rw [h.ids, report, h.nextSeq hfit]
  intro hmem
  obtain ⟨i, hi, heq⟩ := mem_map.mp hmem
  have hseq := reportId_injective heq
  have hlt := mem_range.mp hi
  omega

theorem batches_eq {s' : MeterState} (h : s'.drained = s.drained) : s'.batches = s.batches := by
  rw [MeterState.batches, h]
  rfl

theorem places_move (h : Places cfg s) (hmv : MeterMove cfg s s')
    (hfit : s'.drained.length < 2 ^ 64) : Places cfg s' := by
  cases hmv with
  | skip hs =>
    rw [hs]
    exact h
  | credit _ _ hs =>
    rw [hs]
    exact ⟨h.ids, h.apart, h.drained, h.found, h.sent, h.applied, h.once⟩
  | shuffle _ _ hdrn hseq happ hpr hsn =>
    have hbat := batches_eq hdrn
    refine ⟨?_, ?_, ?_, ?_, ?_, ?_, ?_⟩
    · rw [hbat, hseq]
      exact h.ids
    · exact (hpr.map _).nodup_iff.mpr h.apart
    · intro b hb
      rw [hbat]
      exact h.drained b (hpr.mem_iff.mp hb)
    · intro b hb
      rw [hbat] at hb
      rw [Applied, happ, hpr.mem_iff]
      exact h.found b hb
    · intro b hb
      rw [hbat]
      rcases hsn b hb with hold | hnew
      · exact h.sent b hold
      · exact h.drained b hnew
    · rw [hbat, happ]
      exact h.applied
    · rw [happ]
      exact h.once
  | drain _ _ _ hdrn hseq happ hpr hsn =>
    rw [hdrn, length_append] at hfit
    have hbat : s'.batches = s.batches ++ [s.report cfg] := by
      rw [MeterState.batches, hdrn, map_append]
      rfl
    have hin : ∀ b ∈ s.batches, b ∈ s'.batches := by
      intro b hb
      rw [hbat]
      exact mem_append_left _ hb
    refine ⟨?_, ?_, ?_, ?_, ?_, ?_, ?_⟩
    · rw [hbat, hseq, map_append, h.ids, map_singleton, report, h.nextSeq hfit, range_succ,
        map_append]
      rfl
    · -- the counter has not wrapped, so no batch has the new id
      refine (hpr.map _).nodup_iff.mpr (nodup_cons.mpr ⟨fun hmem => ?_, h.apart⟩)
      obtain ⟨b, hb, hid⟩ := mem_map.mp hmem
      exact h.fresh hfit (hid ▸ mem_map_of_mem (h.drained b hb))
    · intro b hb
      rcases mem_cons.mp (hpr.mem_iff.mp hb) with hnew | hold
      · rw [hbat, hnew]
        exact mem_append_right _ mem_cons_self
      · exact hin b (h.drained b hold)
    · intro b hb
      rw [Applied, happ, hpr.mem_iff]
      rw [hbat] at hb
      rcases mem_append.mp hb with hold | hnew
      · exact (h.found b hold).imp_right fun hb => .tail _ hb
      · exact .inr (mem_singleton.mp hnew ▸ mem_cons_self)
    · rw [hsn]
      exact fun b hb => hin b (h.sent b hb)
    · rw [happ]
      exact fun b hb => hin b (h.applied b hb)
    · rw [happ]
      exact h.once
  | @apply b hsn hnew hs =>
    rw [hs]
    refine ⟨h.ids, h.apart, h.drained, fun b' hb' => ?_, h.sent, fun b' hb' => ?_, ?_⟩
    · refine (h.found b' hb').imp_left fun hold => ?_
      show b'.id ∈ (s.applied ++ [b]).map PendingReport.id
      rw [map_append]
      exact mem_append_left _ hold
    · rcases mem_append.mp hb' with hold | hls
      · exact h.applied b' hold
      · exact mem_singleton.mp hls ▸ h.sent b hsn
    show ((s.applied ++ [b]).map PendingReport.id).Nodup
    rw [map_append]
    exact (perm_append_singleton _ _).nodup_iff.mpr (nodup_cons.mpr ⟨hnew, h.once⟩)
  | @settle b hb _ _ hdrn hseq happ hpr hsn =>
    have hbat := batches_eq hdrn
    have hcn := (hpr.map PendingReport.id).nodup_iff.mp h.apart
    refine ⟨?_, (nodup_cons.mp hcn).2, ?_, ?_, ?_, ?_, ?_⟩
    · rw [hbat, hseq]
      exact h.ids
    · intro b' hb'
      rw [hbat]
      exact h.drained b' (hpr.mem_iff.mpr (.tail _ hb'))
    · intro b' hb'
      rw [hbat] at hb'
      rw [Applied, happ]
      rcases h.found b' hb' with hdn | hpl
      · exact .inl hdn
      rcases mem_cons.mp (hpr.mem_iff.mp hpl) with heq | hrs
      · exact .inl (heq ▸ hb)
      · exact .inr hrs
    · rw [hbat, hsn]
      exact h.sent
    · rw [hbat, happ]
      exact h.applied
    · rw [happ]
      exact h.once

/-! ## What the batches carry -/

/-- **The words count what was recorded, up to wrapping.** -/
structure Books (s : MeterState) : Prop where
  /-- The pending words are what was recorded since the last drain, -/
  pending : ∀ c account,
    reading c account s.pending = (credited c account s.credits).bmod (2 ^ 64)
  /-- and those of a batch what was recorded for it. -/
  batches : ∀ e ∈ s.drained, ∀ c account,
    reading c account e.1.items = (credited c account e.2).bmod (2 ^ 64)
  nonneg : ∀ cr ∈ s.drained.flatMap Prod.snd ++ s.credits, ∀ c, 0 ≤ (cr.delta.get c).toInt

theorem books_new : Books .new where
  pending c account := by
    rw [show new.pending = ∅ from rfl, reading_empty]
    rfl
  batches _ he := absurd he not_mem_nil
  nonneg _ hcr := absurd hcr not_mem_nil

theorem books_move (h : Books s) (hmv : MeterMove cfg s s') : Books s' := by
  cases hmv with
  | skip hs =>
    rw [hs]
    exact h
  | @credit account bytes sessions hby hse hs =>
    rw [hs]
    refine ⟨fun c other => ?_, h.batches, ?_⟩
    · show reading c other (s.pending.insert account _) = _
      rw [credited_append]
      by_cases heq : other = account
      · subst heq
        have hold : (((s.pending.lookup other).getD ⟨0, 0⟩).get c).toInt
            = (credited c other s.credits).bmod (2 ^ 64) := h.pending c other
        rw [reading, lookup_insert, Option.getD_some, get_add, hold, bmod_add_bmod]
        simp [credited]
      · have hold : reading c other s.pending
            = (credited c other s.credits).bmod (2 ^ 64) := h.pending c other
        rw [reading, lookup_insert_of_ne _ heq]
        rw [reading] at hold
        rw [hold]
        simp [credited, Ne.symm heq]
    · intro cr hcr c
      rw [← append_assoc] at hcr
      rcases mem_append.mp hcr with hold | hnew
      · exact h.nonneg cr hold c
      rw [mem_singleton.mp hnew]
      cases c with
      | bytes => exact hby
      | sessions => exact hse
  | shuffle hpn hcrd hdrn _ _ _ _ =>
    refine ⟨fun c account => ?_, ?_, ?_⟩
    · rw [hpn, hcrd]
      exact h.pending c account
    · rw [hdrn]
      exact h.batches
    · rw [hdrn, hcrd]
      exact h.nonneg
  | drain hitm hpn hcrd hdrn _ _ _ _ =>
    refine ⟨fun c account => ?_, ?_, ?_⟩
    · rw [hpn, hcrd, reading_empty]
      rfl
    · rw [hdrn]
      intro e he c account
      rcases mem_append.mp he with hold | hnew
      · exact h.batches e hold c account
      · rw [mem_singleton.mp hnew, hitm]
        exact h.pending c account
    · rw [hdrn, hcrd, append_nil, flatMap_append]
      intro cr hcr c
      refine h.nonneg cr ?_ c
      simpa using hcr
  | apply _ _ hs =>
    rw [hs]
    exact ⟨h.pending, h.batches, h.nonneg⟩
  | settle _ hpn hcrd hdrn _ _ _ _ =>
    refine ⟨?_, ?_, ?_⟩
    · rw [hpn, hcrd]
      exact h.pending
    · rw [hdrn]
      exact h.batches
    · rw [hdrn, hcrd]
      exact h.nonneg

theorem credited_nonneg (h : ∀ cr ∈ credits, ∀ c, 0 ≤ (cr.delta.get c).toInt) :
    0 ≤ credited c account credits := by
  refine sum_nonneg fun n hn => ?_
  obtain ⟨cr, hcr, heq⟩ := mem_map.mp hn
  rw [← heq]
  split
  · exact h cr hcr c
  · exact le_refl 0

theorem recorded_eq :
    s.recorded c account = ((s.drained.map fun e => credited c account e.2)
      ++ [credited c account s.credits]).sum := by
  have hfl : ∀ es : List (PendingReport × List Credit),
      credited c account (es.flatMap Prod.snd) = (es.map fun e => credited c account e.2).sum := by
    intro es
    induction es with
    | nil => rfl
    | cons e es ih => rw [flatMap_cons, credited_append, ih, map_cons, sum_cons]
  rw [recorded, credited_append, hfl, sum_append, sum_singleton]

theorem reported_eq (h : Books s) :
    reported c account s.batches + reading c account s.pending
      = (((s.drained.map fun e => credited c account e.2)
          ++ [credited c account s.credits]).map fun n => n.bmod (2 ^ 64)).sum := by
  rw [map_append, sum_append, map_map, h.pending, reported, MeterState.batches,
    map_map, map_singleton, sum_singleton]
  congr 2
  refine map_congr_left fun e he => ?_
  exact h.batches e he c account

/-! ## The balance -/

theorem batches_perm (h : Places cfg s) :
    s.batches.Perm (s.applied ++ (s.unapplied s.retained ++ s.unapplied s.dropped)) := by
  have hids := h.nodup_ids
  have happ : (s.batches.filter fun b => s.Applied b).Perm s.applied := by
    refine (perm_ext_iff_of_nodup (hids.of_map.filter _) h.once.of_map).mpr fun b => ?_
    rw [mem_filter, decide_eq_true_iff]
    constructor
    · intro hb
      obtain ⟨b', hb', hid⟩ := mem_map.mp hb.2
      rw [← inj_on_of_nodup_map hids (h.applied b' hb') hb.1 hid]
      exact hb'
    · intro hb
      exact ⟨h.applied b hb, mem_map_of_mem hb⟩
  have hop : (s.batches.filter fun b => !decide (s.Applied b)).Perm
      (s.unapplied s.unsettled) := by
    refine (perm_ext_iff_of_nodup (hids.of_map.filter _) (h.apart.of_map.filter _)).mpr fun b => ?_
    rw [mem_filter, mem_filter, decide_eq_true_iff, Bool.not_eq_true', decide_eq_false_iff_not]
    constructor
    · intro hb
      exact ⟨(h.found b hb.1).resolve_left hb.2, hb.2⟩
    · intro hb
      exact ⟨h.drained b hb.1, hb.2⟩
  rw [unsettled, unapplied, filter_append] at hop
  exact (filter_append_perm _ _).symm.trans (happ.append hop)

def MeterState.accounted (s : MeterState) (c : Counter) (account : String) : Int :=
  reported c account s.applied + reading c account s.pending
    + reported c account (s.unapplied s.retained) + reported c account (s.unapplied s.dropped)

theorem accounted_eq (h : Places cfg s) :
    s.accounted c account = reported c account s.batches + reading c account s.pending := by
  rw [reported_perm (batches_perm h), reported_append, reported_append, accounted]
  ring

variable {cfg : MeterConfig} {s : MeterState}

theorem reachable_new (cfg : MeterConfig) : (metering cfg).Reachable (fun _ _ => True) .new :=
  .init rfl

section

variable (h : (metering cfg).Reachable (fun _ _ => True) s)

include h

theorem places_reachable (hfit : s.drained.length < 2 ^ 64) : Places cfg s := by
  refine System.Reachable.invariant (P := fun s => s.drained.length < 2 ^ 64 → Places cfg s)
    (fun s hs _ => ?_) ?_ h hfit
  · rw [hs]
    exact places_new
  · intro s action s' hpl _ hst hfit
    have hmv := step_move hst
    exact places_move (hpl (Nat.lt_of_le_of_lt (length_drained_le hmv) hfit)) hmv hfit

theorem books_reachable : Books s := by
  refine System.Reachable.invariant (P := Books) (fun s hs => ?_) ?_ h
  · rw [hs]
    exact books_new
  · intro s action s' hbk _ hst
    exact books_move hbk (step_move hst)

theorem accounted_emod (hfit : s.drained.length < 2 ^ 64) (c : Counter) (account : String) :
    s.recorded c account % 2 ^ 64 = s.accounted c account % 2 ^ 64 := by
  rw [accounted_eq (places_reachable h hfit), reported_eq (books_reachable h), sum_bmod_emod,
    recorded_eq]

theorem accounted_exact (hfit : s.drained.length < 2 ^ 64)
    (hft : s.recorded c account ≤ signedLimit) :
    s.recorded c account = s.accounted c account := by
  have hbk := books_reachable h
  rw [accounted_eq (places_reachable h hfit), reported_eq hbk, sum_bmod_of_le, recorded_eq]
  · intro t ht
    rcases mem_append.mp ht with hbt | hls
    · obtain ⟨e, he, heq⟩ := mem_map.mp hbt
      rw [← heq]
      refine credited_nonneg fun cr hcr => hbk.nonneg cr (mem_append_left _ ?_)
      exact mem_flatMap.mpr ⟨e, he, hcr⟩
    · rw [mem_singleton.mp hls]
      exact credited_nonneg fun cr hcr => hbk.nonneg cr (mem_append_right _ hcr)
  · rw [← recorded_eq]
    exact hft

end

/--
**Usage is billed once.** In every run of fewer than 2⁶⁴ batches, for every account and both
counters, what was recorded is what the control plane has applied, what is pending, what is
in retained batches that are not applied and what is in dropped batches that are not
applied: as 64-bit words always, and exactly as long as the total fits one. A batch reports
the credits recorded for it and no others, no two batches share an id, and no id is applied
twice.
-/
theorem usage_billed_once (cfg : MeterConfig) (s : MeterState)
    (h : (metering cfg).Reachable (fun _ _ => True) s) (hdrained : s.drained.length < 2 ^ 64)
    (c : Counter) (account : String) :
    s.recorded c account % 2 ^ 64
        = (reported c account s.applied + reading c account s.pending
            + reported c account (s.unapplied s.retained)
            + reported c account (s.unapplied s.dropped)) % 2 ^ 64
      ∧ (s.recorded c account ≤ signedLimit →
          s.recorded c account = reported c account s.applied + reading c account s.pending
            + reported c account (s.unapplied s.retained)
            + reported c account (s.unapplied s.dropped))
      ∧ (∀ e ∈ s.drained, reading c account e.1.items = (credited c account e.2).bmod (2 ^ 64))
      ∧ (s.batches.map PendingReport.id).Nodup
      ∧ (s.applied.map PendingReport.id).Nodup ∧ ∀ b ∈ s.applied, b ∈ s.batches := by
  have hpl := places_reachable h hdrained
  exact ⟨accounted_emod h hdrained c account, accounted_exact h hdrained,
    fun e he => (books_reachable h).batches e he c account, hpl.nodup_ids, hpl.once,
    hpl.applied⟩

def lostAnswer (n : Int64) : List MeterAction :=
  [.addBytes "a" n, .takeRetry, .drain, .post, .deliver 0, .fail, .requeue]

theorem lost_answer_billed_once :
    ∃ s, (metering (newMeter "pop" "boot")).Reachable (fun _ _ => True) s
      ∧ s.recorded .bytes "a" = 12 ∧ reported .bytes "a" s.applied = 5
      ∧ reading .bytes "a" s.pending = 7 ∧ reported .bytes "a" s.retained = 5
      ∧ s.recorded .bytes "a" = reported .bytes "a" s.applied + reading .bytes "a" s.pending
          + reported .bytes "a" (s.unapplied s.retained)
          + reported .bytes "a" (s.unapplied s.dropped) := by
  obtain ⟨s, hrch, hdrn, hrec, happ, hpn, hrt⟩ :=
    (reachable_new (newMeter "pop" "boot")).exists_after (lostAnswer 5 ++ [.addBytes "a" 7])
      (fun s => s.drained.length < 2 ^ 64 ∧ s.recorded .bytes "a" = 12
        ∧ reported .bytes "a" s.applied = 5 ∧ reading .bytes "a" s.pending = 7
        ∧ reported .bytes "a" s.retained = 5) (by decide)
  refine ⟨s, hrch, hrec, happ, hpn, hrt, ?_⟩
  exact (usage_billed_once (newMeter "pop" "boot") s hrch hdrn .bytes "a").2.1
    (by rw [hrec]; decide)

/-! ## A batch that is applied and dropped -/

theorem step_takeRetry (h : s.flusher = .idle) :
    (metering cfg).step s .takeRetry = some { s with retry := [], flusher := .taken s.retry } := by
  show s.step cfg .takeRetry = _
  rw [step, h]

theorem step_drain (h : s.flusher = .taken batches) (hsm : FinMap.size s.items ≠ 0) :
    (metering cfg).step s .drain
      = some { s with
          pending := ∅, seq := s.nextSeq
          flusher := .sending (batches ++ [s.report cfg]) []
          drained := s.drained ++ [(s.report cfg, s.credits)], credits := [] } := by
  show s.step cfg .drain = _
  rw [step, h]
  exact congrArg some (if_neg hsm)

theorem step_post (h : s.flusher = .sending (batch :: todo) failed) : (metering cfg).step s .post
      = some { s with flusher := .waiting batch todo failed, sent := s.sent ++ [batch] } := by
  show s.step cfg .post = _
  rw [step, h]

theorem step_requeue (h : s.flusher = .sending [] failed) (hsm : failed ≠ []) :
    (metering cfg).step s .requeue
      = some { s with
          retry := (s.retry ++ failed).drop ((s.retry ++ failed).length - cfg.maxRetryBatches)
          flusher := .idle
          dropped := s.dropped
            ++ (s.retry ++ failed).take ((s.retry ++ failed).length - cfg.maxRetryBatches) } := by
  show s.step cfg .requeue = _
  rw [step, h]
  exact congrArg some (if_neg hsm)

theorem reachable_fail_all (failed : List PendingReport)
    (h : (metering cfg).Reachable (fun _ _ => True) s) (hsnd : s.flusher = .sending todo failed) :
    ∃ sent, (metering cfg).Reachable (fun _ _ => True)
      { s with flusher := .sending [] (failed ++ todo), sent := sent } := by
  induction todo generalizing s failed with
  | nil =>
    refine ⟨s.sent, ?_⟩
    rw [append_nil, ← hsnd]
    exact h
  | cons batch todo ih =>
    have hfl := (h.tail trivial (step_post hsnd)).tail (a := .fail) trivial rfl
    obtain ⟨sent, hend⟩ := ih (failed ++ [batch]) hfl rfl
    rw [append_assoc] at hend
    exact ⟨sent, hend⟩

def oneByte : FinMap String MeterDelta := (∅ : FinMap String MeterDelta).insert "a" ⟨0 + 1, 0 + 0⟩

theorem reachable_round (h : (metering cfg).Reachable (fun _ _ => True) s)
    (hrm : 0 < cfg.maxAccounts) (hid : s.flusher = .idle) (hpn : s.pending = ∅) :
    ∃ s' b, (metering cfg).Reachable (fun _ _ => True) s' ∧ s'.flusher = .idle
      ∧ s'.pending = ∅ ∧ s'.applied = s.applied ∧ s'.drained.length = s.drained.length + 1
      ∧ s'.retry = (s.retry ++ [b]).drop ((s.retry ++ [b]).length - cfg.maxRetryBatches)
      ∧ s'.dropped = s.dropped
          ++ (s.retry ++ [b]).take ((s.retry ++ [b]).length - cfg.maxRetryBatches) := by
  have hadd : s.addBytes cfg "a" 1
      = { s with pending := oneByte, credits := s.credits ++ [⟨"a", 1, 0⟩] } := by
    have hacc : ¬ ("a" ∉ s.pending ∧ cfg.maxAccounts ≤ FinMap.size s.pending) := by
      rw [hpn]
      intro hfl
      exact absurd hfl.2 (Nat.not_le.mpr hrm)
    rw [addBytes, if_neg (by decide), record, if_neg hacc, hpn]
    rfl
  have hrec : (metering cfg).step s (.addBytes "a" 1)
      = some { s with pending := oneByte, credits := s.credits ++ [⟨"a", 1, 0⟩] } :=
    congrArg some hadd
  have hsm : FinMap.size (FinMap.filter
      (fun _ d => decide (d.bytes ≠ 0 ∨ d.sessions ≠ 0)) oneByte) ≠ 0 := by
    decide
  have hdrn := ((h.tail trivial hrec).tail trivial (step_takeRetry hid)).tail trivial
    (step_drain rfl hsm)
  obtain ⟨sent, hfla⟩ := reachable_fail_all [] hdrn rfl
  have hend := hfla.tail trivial (step_requeue rfl (by simp))
  exact ⟨_, _, hend, rfl, rfl, rfl, length_append, rfl, rfl⟩

theorem reachable_rounds (hrm : 0 < cfg.maxAccounts)
    (h : (metering cfg).Reachable (fun _ _ => True) s) (hid : s.flusher = .idle)
    (hpn : s.pending = ∅) (hrt : s.retry = [b]) (hdr : s.dropped = []) (n : Nat)
    (hn : n < cfg.maxRetryBatches) :
    ∃ s' rest, (metering cfg).Reachable (fun _ _ => True) s' ∧ s'.flusher = .idle
      ∧ s'.pending = ∅ ∧ s'.applied = s.applied ∧ s'.drained.length = s.drained.length + n
      ∧ s'.retry = b :: rest ∧ rest.length = n
      ∧ s'.dropped = [] := by
  induction n with
  | zero => exact ⟨s, [], h, hid, hpn, rfl, rfl, hrt, rfl, hdr⟩
  | succ n ih =>
    obtain ⟨s₁, rest, hrch, hid₁, hpn₁, happ₁, hdrn₁, hrt₁, hlen, hdr₁⟩ :=
      ih (by omega)
    obtain ⟨s₂, b', hrch₂, hid₂, hpn₂, happ₂, hdrn₂, hrt₂, hdr₂⟩ :=
      reachable_round hrch hrm hid₁ hpn₁
    have hno : (s₁.retry ++ [b']).length - cfg.maxRetryBatches = 0 := by
      rw [hrt₁, length_append, length_cons, hlen, length_singleton]
      omega
    rw [hno] at hrt₂ hdr₂
    refine ⟨s₂, rest ++ [b'], hrch₂, hid₂, hpn₂, happ₂.trans happ₁, by omega, ?_, ?_, ?_⟩
    · rw [hrt₂, hrt₁]
      rfl
    · rw [length_append, hlen]
      rfl
    · rw [hdr₂, hdr₁]
      rfl

def appliedAgainCheck (s : MeterState) : Bool :=
  match s.flusher, s.retry, s.applied, s.dropped with
  | .idle, [b], [b'], [] => decide (b.id = b'.id ∧ reading .bytes "a" b.items = 5
      ∧ FinMap.size s.pending = 0 ∧ s.drained.length = 1)
  | _, _, _, _ => false

/--
**A batch that was applied and then dropped is in both places.** With the queue bound of
`newMeter` there is a run after which counting the dropped batches in full gives more
than was recorded.
-/
theorem dropped_batch_counted_twice :
    ∃ s, (metering (newMeter "pop" "boot")).Reachable (fun _ _ => True) s
      ∧ s.recorded .bytes "a" ≠ reported .bytes "a" s.applied + reading .bytes "a" s.pending
          + reported .bytes "a" (s.unapplied s.retained) + reported .bytes "a" s.dropped := by
  have hrm : 0 < (newMeter "pop" "boot").maxAccounts := by decide
  -- one batch is applied, and its answer is lost
  obtain ⟨s₀, hrch₀, hend⟩ := System.Reachable.exists_of_run (fun _ _ => true) (lostAnswer 5)
    appliedAgainCheck (fun _ _ _ => trivial) (reachable_new (newMeter "pop" "boot"))
    (by decide)
  rw [appliedAgainCheck] at hend
  split at hend
  · rename_i b b' hidl₀ hrt₀ happ₀ hdr₀
    obtain ⟨hid, hrd, hsz, hdrn₀⟩ := of_decide_eq_true hend
    have hpn₀ : s₀.pending = ∅ := by
      apply ext_lookup
      intro account
      refine lookup_eq_none.mpr fun hmem => ?_
      have hkey := mem_keys.mpr hmem
      rw [Finset.card_eq_zero.mp hsz] at hkey
      exact absurd hkey (Finset.notMem_empty _)
    -- rounds without an answer fill the queue, and one more drops that batch
    obtain ⟨s₁, rest, hrch₁, hidl₁, hpn₁, happ₁, hdrn₁, hrt₁, hlen, hdr₁⟩ :=
      reachable_rounds hrm hrch₀ hidl₀ hpn₀ hrt₀ hdr₀ 1023 (by decide)
    obtain ⟨s₂, b₂, hrch₂, -, -, happ₂, hdrn₂, -, hdr₂⟩ :=
      reachable_round hrch₁ hrm hidl₁ hpn₁
    have hone : (s₁.retry ++ [b₂]).length - (newMeter "pop" "boot").maxRetryBatches = 1 := by
      rw [hrt₁, length_append, length_cons, hlen, length_singleton]
      show 1023 + 1 + 1 - 1024 = 1
      rfl
    rw [hone, hrt₁, hdr₁] at hdr₂
    refine ⟨s₂, hrch₂, fun hlit => ?_⟩
    have hdn : s₂.Applied b := by
      rw [Applied, happ₂, happ₁, happ₀, hid]
      exact .head _
    have hbal := accounted_emod hrch₂ (by omega) .bytes "a"
    have hgn : s₂.unapplied s₂.dropped = [] := by
      rw [hdr₂]
      exact filter_cons_of_neg (by simpa using hdn)
    have hfv : reported .bytes "a" s₂.dropped = 5 := by
      rw [hdr₂, ← hrd]
      exact add_zero _
    rw [accounted, hgn, hlit, hfv] at hbal
    have hnil : reported .bytes "a" ([] : List PendingReport) = 0 := rfl
    rw [hnil] at hbal
    omega
  · simp at hend

end VulosRelay.Server
