import VulosRelay.Gateway.Metering

/-!
# Quota is exact

A charge either leaves every usage as it was or adds itself to the usage of its account, within
the caps (`tryCharge_cases`). Below `2 ^ 64` no sum is cut off, so the usage of an account is what
its charges add up to; and the events of the charges are those that the meter was told of and
those it has yet to be told of.
-/

namespace VulosRelay.Gateway.Metering

open List Finmap

open MultiDomain (folded)

def State.chargesOf (s : State) (tenant account : Str) : List Charge :=
  s.charges.filter fun c => c.tenant = tenant ∧ c.event.account = account

/-- The totals of every account are below `2 ^ 64`. -/
def State.Below (s : State) : Prop :=
  ∀ t a, (s.chargesOf t a).length < 2 ^ 64 ∧ ((s.chargesOf t a).map Charge.size).sum < 2 ^ 64

/-- A usage within the caps that are not zero. -/
def Quota.Admits (quota : Quota) (usage : Usage) : Prop :=
  (quota.hardCapMessages ≠ 0 → usage.messages ≤ quota.hardCapMessages) ∧
    (quota.hardCapBytes ≠ 0 → usage.bytes ≤ quota.hardCapBytes)

def metered (events : List MeterEvent) : DomainUsage :=
  ⟨UInt64.ofNat (events.countP (·.direction matches .inbound)),
    UInt64.ofNat (events.countP (·.direction matches .outbound)), UInt64.ofNat events.length⟩

/-- The books are exact: ledgers, events and meter tell the same charges. -/
structure Exact (s : State) : Prop where
  /-- The usage of an account is the number and the total size of its charges. -/
  usage : ∀ t l a, s.ledgers.lookup t = some l →
    (l.usageOf a).messages.toNat = (s.chargesOf t a).length ∧
      (l.usageOf a).bytes.toNat = ((s.chargesOf t a).map Charge.size).sum
  /-- Every charge has its event, recorded or pending, and no event is without one. -/
  events : (s.recorded ++ s.pending).Perm (s.charges.map Charge.event)
  /-- The meter of a domain counts the events that were recorded for it. -/
  meter : ∀ domain, s.meter.usage domain =
    metered (s.recorded.filter fun e => toAsciiLowercase e.domain = domain)

variable {l : QuotaLedger} {s s' : State}

theorem usageOf_insert : QuotaLedger.usageOf ⟨limits, used.insert account usage⟩ a =
      if a = account then usage else QuotaLedger.usageOf ⟨limits, used⟩ a := by
  unfold QuotaLedger.usageOf
  split
  · rename_i ha
    rw [ha, lookup_insert, Option.getD_some]
  · rename_i ha
    rw [lookup_insert_of_ne _ ha]

/-- **What a charge does**: nothing that is seen, or it adds itself within the caps. -/
theorem tryCharge_cases {n : UInt64} :
    (∃ l' e, l.tryCharge account n = (l', .error e) ∧ ∀ a, l'.usageOf a = l.usageOf a) ∨
      ∃ l' quota usage, l.tryCharge account n = (l', .ok usage) ∧
        l.limits.lookup account = some quota ∧ quota.Admits usage ∧
        usage = ⟨Amount.satAdd (l.usageOf account).messages 1,
          Amount.satAdd (l.usageOf account).bytes n⟩ ∧
        ∀ a, l'.usageOf a = if a = account then usage else l.usageOf a := by
  have hen : ∀ a, QuotaLedger.usageOf ⟨l.limits, l.usage.insert account (l.usageOf account)⟩ a
      = l.usageOf a := by
    intro a
    rw [usageOf_insert]
    split
    · rename_i ha
      rw [ha]
    · rfl
  rw [QuotaLedger.tryCharge]
  cases hqt : l.limits.lookup account with
  | none => exact .inl ⟨l, _, rfl, fun _ => rfl⟩
  | some quota =>
    dsimp only
    split
    · exact .inl ⟨_, _, rfl, hen⟩
    rename_i hms
    split
    · exact .inl ⟨_, _, rfl, hen⟩
    rename_i hby
    refine .inr ⟨_, quota, _, rfl, rfl, ⟨fun hcap => ?_, fun hcap => ?_⟩, rfl, fun a => ?_⟩
    · exact UInt64.not_lt.mp fun hlt => hms ⟨hcap, hlt⟩
    · exact UInt64.not_lt.mp fun hlt => hby ⟨hcap, hlt⟩
    · rw [← hen a]
      exact usageOf_insert

theorem toNat_satAdd_of_lt (ha : a.toNat = m) (hb : b.toNat = n) (h : m + n < 2 ^ 64) :
    (Amount.satAdd a b).toNat = m + n := by
  rw [Amount.toNat_satAdd, ha, hb]
  exact Nat.min_eq_left (Nat.le_pred_of_lt h)

variable {msgDigest : List UInt8 → List UInt8} {tenant account domain : Str}
  {direction : BridgeDirection} {rfc5322 : List UInt8} {time : UInt64} {e : ChargeError}
  {usage : Usage}

theorem Exact.setLedger (hs : Exact s) (hl : s.ledgers.lookup tenant = some l)
    (hsm : ∀ a, l'.usageOf a = l.usageOf a) :
    Exact { s with ledgers := s.ledgers.insert tenant l' } := by
  refine ⟨fun t l'' a hl'' => ?_, hs.events, hs.meter⟩
  by_cases ht : t = tenant
  · rw [ht, lookup_insert] at hl''
    cases hl''
    rw [ht, hsm a]
    exact hs.usage tenant l a hl
  · rw [lookup_insert_of_ne _ ht] at hl''
    exact hs.usage t l'' a hl''

/-- Below `2 ^ 64` the saturating sums of a charge are exact. -/
theorem Exact.sums {tenant : Str} {size : Nat} (event : MeterEvent) (hs : Exact s)
    (hl : s.ledgers.lookup tenant = some l) (hbl : s'.Below)
    (hch : s'.charges = ⟨tenant, size, event⟩ :: s.charges) :
    (Amount.satAdd (l.usageOf event.account).messages 1).toNat =
        (l.usageOf event.account).messages.toNat + 1 ∧
      (Amount.satAdd (l.usageOf event.account).bytes (UInt64.ofNat size)).toNat =
        (l.usageOf event.account).bytes.toNat + size := by
  obtain ⟨hms, hby⟩ := hs.usage tenant l event.account hl
  obtain ⟨hcnt, htl⟩ := hbl tenant event.account
  rw [State.chargesOf, hch, filter_cons, if_pos (by simp)] at hcnt htl
  rw [map_cons, sum_cons, Nat.add_comm] at htl
  have hsz : (UInt64.ofNat size).toNat = size :=
    UInt64.toNat_ofNat_of_lt' (lt_of_le_of_lt (Nat.le_add_left ..) htl)
  rw [hms, hby]
  exact ⟨toNat_satAdd_of_lt hms rfl hcnt, toNat_satAdd_of_lt hby hsz htl⟩

theorem exact_charge (hs : Exact s) :
    (chargeAndMeter msgDigest s tenant account domain direction rfc5322 time).1.Below →
      Exact (chargeAndMeter msgDigest s tenant account domain direction rfc5322 time).1 := by
  rw [chargeAndMeter]
  cases hl : s.ledgers.lookup tenant with
  | none => exact fun _ => hs
  | some l =>
    dsimp only
    obtain ⟨l', e, heq, hsm⟩ | ⟨l', quota, usage, heq, -, -, hus, haf⟩ :=
      tryCharge_cases
    · rw [heq]
      exact fun _ => hs.setLedger hl hsm
    rw [heq]
    intro hbl
    refine ⟨fun t l'' a hl'' => ?_, perm_middle.trans (hs.events.cons _), hs.meter⟩
    rw [State.chargesOf, filter_cons]
    by_cases ht : t = tenant
    · rw [ht, lookup_insert] at hl''
      cases hl''
      obtain ⟨hms, hby⟩ := hs.usage tenant l a hl
      rw [haf a]
      by_cases ha : a = account
      · -- below `2 ^ 64` the sums are the ones without saturation
        obtain ⟨hms', hby'⟩ := hs.sums _ hl hbl rfl
        rw [if_pos ha, hus, if_pos (by simp [ht, ha]), length_cons, map_cons,
          sum_cons, Nat.add_comm rfc5322.length]
        subst ht ha
        exact ⟨hms'.trans (congrArg (· + 1) hms), hby'.trans (congrArg (· + _) hby)⟩
      · rw [if_neg ha, if_neg (by simp [Ne.symm ha]), ht]
        exact ⟨hms, hby⟩
    · rw [lookup_insert_of_ne _ ht] at hl''
      rw [if_neg (by simp [Ne.symm ht])]
      exact hs.usage t l'' a hl''

theorem chargeRelay_cases (s : State) (domain : Str) :
    (∃ e, chargeRelay msgDigest s domain direction rfc5322 time = (s, .error e)) ∨
      chargeRelay msgDigest s domain direction rfc5322 time = chargeAndMeter msgDigest s
        (folded domain) (folded domain) (folded domain) direction rfc5322 time := by
  rw [chargeRelay]
  split
  · exact .inl ⟨_, rfl⟩
  · exact .inr rfl

theorem metered_cons {e : MeterEvent} {events : List MeterEvent} :
    metered (e :: events) = match e.direction with
      | .inbound => ⟨(metered events).inbound + 1, (metered events).outbound,
          (metered events).messages + 1⟩
      | .outbound => ⟨(metered events).inbound, (metered events).outbound + 1,
          (metered events).messages + 1⟩ := by
  unfold metered
  cases hdir : e.direction with
  | inbound | outbound => simp [hdir]

theorem exact_record (hs : Exact s) (h : s.record i = some s') : Exact s' := by
  obtain ⟨event, hi, heq⟩ := Option.map_eq_some_iff.mp h
  cases heq
  obtain ⟨hlt, rfl⟩ := List.getElem?_eq_some_iff.mp hi
  refine ⟨hs.usage, ?_, fun domain => ?_⟩
  · have hpr := (getElem_cons_eraseIdx_perm hlt).append_left s.recorded
    exact (perm_middle.symm.trans hpr).trans hs.events
  · dsimp only
    rw [UsageMeter.record, UsageMeter.usage, filter_cons]
    by_cases hdom : domain = toAsciiLowercase s.pending[i].domain
    · rw [hdom, lookup_insert, if_pos (by simp), metered_cons, hs.meter]
      rfl
    · rw [lookup_insert_of_ne _ hdom, if_neg (by simpa using Ne.symm hdom)]
      exact hs.meter domain

theorem exact_step (hs : Exact s) (hbl : s'.Below)
    (h : (metering msgDigest).step s action = some s') : Exact s' := by
  cases action with
  | chargeAndMeter _ _ _ _ _ _ =>
    cases h
    exact exact_charge hs hbl
  | chargeRelay domain _ _ _ =>
    cases h
    obtain ⟨e, heq⟩ | heq := chargeRelay_cases s domain
    · rw [heq]
      exact hs
    · rw [heq] at hbl ⊢
      exact exact_charge hs hbl
  | setDomainQuota domain quota =>
    cases h
    rw [setDomainQuota]
    split
    · exact hs
    · rename_i l hl
      exact hs.setLedger hl fun _ => rfl
  | record i => exact exact_record hs h

/-- A step to a state with totals below `2 ^ 64`. -/
def Below (msgDigest : List UInt8 → List UInt8) (s : State) (action : Action) : Prop :=
  ∀ s', (metering msgDigest).step s action = some s' → s'.Below

theorem exact_reachable (h : (metering msgDigest).Reachable (Below msgDigest) s) : Exact s := by
  refine h.invariant (P := Exact) (fun s hin => ?_) fun s a s' hs hok hst =>
    exact_step hs (hok s' hst) hst
  obtain ⟨hus, hmt, hpn, hrec, hch⟩ := hin
  refine ⟨fun t l a hl => ?_, ?_, fun domain => ?_⟩
  · rw [QuotaLedger.usageOf, hus t l hl, State.chargesOf, hch]
    exact ⟨rfl, rfl⟩
  · rw [hrec, hpn, hch]
    exact .nil
  · rw [hmt, hrec]
    rfl

/-- What a charge of `size` bytes to an account of `tenant` leaves: a refused one nothing, a
successful one its entry in the log, its event for the meter and its usage within the caps. -/
def Settled (s s' : State) (tenant : Str) (size : Nat) (event : MeterEvent) :
    Except ChargeError Usage → Prop
  | .error _ => s'.meter = s.meter ∧ s'.pending = s.pending ∧ s'.recorded = s.recorded ∧
      s'.charges = s.charges ∧ ∀ t a, (s'.ledgers.lookup t).map (·.usageOf a) =
        (s.ledgers.lookup t).map (·.usageOf a)
  | .ok usage => s'.charges = ⟨tenant, size, event⟩ :: s.charges ∧
      s'.pending = event :: s.pending ∧ s'.recorded = s.recorded ∧ s'.meter = s.meter ∧
      ∃ l l' quota, s.ledgers.lookup tenant = some l ∧
        l.limits.lookup event.account = some quota ∧ quota.Admits usage ∧
        s'.ledgers.lookup tenant = some l' ∧ l'.usageOf event.account = usage ∧
        (s'.Below → usage.messages.toNat = (l.usageOf event.account).messages.toNat + 1 ∧
          usage.bytes.toNat = (l.usageOf event.account).bytes.toNat + size)

theorem Exact.settled {result : Except ChargeError Usage} (hs : Exact s)
    (h : chargeAndMeter msgDigest s tenant account domain direction rfc5322 time = (s', result)) :
    Settled s s' tenant rfc5322.length ⟨direction, account, domain, msgDigest rfc5322, time⟩
      result := by
  rw [chargeAndMeter] at h
  cases hl : s.ledgers.lookup tenant with
  | none =>
    rw [hl] at h
    cases h
    exact ⟨rfl, rfl, rfl, rfl, fun _ _ => rfl⟩
  | some l =>
    rw [hl] at h
    dsimp only at h
    obtain ⟨l', e, heq, hsm⟩ | ⟨l', quota, usage, heq, hqt, had, hus, haf⟩ := tryCharge_cases
    · rw [heq] at h
      cases h
      refine ⟨rfl, rfl, rfl, rfl, fun t a => ?_⟩
      by_cases ht : t = tenant
      · rw [ht, lookup_insert, hl, Option.map_some, Option.map_some, hsm a]
      · rw [lookup_insert_of_ne _ ht]
    · rw [heq] at h
      cases h
      refine ⟨rfl, rfl, rfl, rfl, l, l', quota, hl, hqt, had, lookup_insert _, ?_, fun hbl => ?_⟩
      · rw [haf, if_pos rfl]
      · rw [hus]
        exact hs.sums ⟨direction, account, domain, msgDigest rfc5322, time⟩ hl hbl rfl

/-- **Quota is exact and never exceeded.** -/
theorem quota_exact (msgDigest : List UInt8 → List UInt8) (s : State)
    (h : (metering msgDigest).Reachable (Below msgDigest) s) :
    Exact s ∧
      (∀ tenant account domain direction rfc5322 time s' result,
        chargeAndMeter msgDigest s tenant account domain direction rfc5322 time = (s', result) →
        Settled s s' tenant rfc5322.length
          ⟨direction, account, domain, msgDigest rfc5322, time⟩ result) ∧
      ∀ domain direction rfc5322 time s' result,
        chargeRelay msgDigest s domain direction rfc5322 time = (s', result) →
        Settled s s' (folded domain) rfc5322.length
          ⟨direction, folded domain, folded domain, msgDigest rfc5322, time⟩ result := by
  have hs : Exact s := exact_reachable h
  refine ⟨hs, fun _ _ _ _ _ _ _ _ hcl => hs.settled hcl, ?_⟩
  intro domain direction rfc5322 time s' result hcl
  obtain ⟨e, heq⟩ | heq := chargeRelay_cases s domain
  · rw [heq] at hcl
    cases hcl
    exact ⟨rfl, rfl, rfl, rfl, fun _ _ => rfl⟩
  · exact hs.settled (heq.symm.trans hcl)

def oneTenant : State where
  ledgers := Finmap.singleton "a.b".toList ⟨Finmap.singleton "a.b".toList ⟨0, 2, 0, 0⟩, ∅⟩
  meter := ∅
  pending := []
  recorded := []
  charges := []

theorem oneTenant_exact :
    Exact (chargeRelay id oneTenant "A.b".toList .inbound [1, 2, 3] 0).1 := by
  refine (quota_exact id _ ((.init ?_ : (metering id).Reachable _ oneTenant).tail
    (a := .chargeRelay "A.b".toList .inbound [1, 2, 3] 0) ?_ rfl)).1
  · refine ⟨fun t l hl => ?_, rfl, rfl, rfl, rfl⟩
    have ht : t = "a.b".toList := (Finmap.mem_singleton ..).mp (Finmap.mem_of_lookup_eq_some hl)
    rw [ht, oneTenant, lookup_singleton_eq] at hl
    cases hl
    rfl
  · intro s' h t a
    cases h
    have hch : (chargeRelay id oneTenant "A.b".toList .inbound [1, 2, 3] 0).1.charges
        = [⟨"a.b".toList, 3, ⟨.inbound, "a.b".toList, "a.b".toList, [1, 2, 3], 0⟩⟩] := rfl
    rw [State.chargesOf, hch, filter_cons]
    split <;> simp

end VulosRelay.Gateway.Metering
