import VulosRelay.Billing.Sim
import VulosRelay.Proof.BillReceipts

/-!
# What becomes of metered usage

The engine takes the usage of an event off the meter before it evaluates and debits it,
so the meter is empty between events and usage whose evaluation or debit fails is
nowhere afterwards. The units of a payer that were fed in are therefore the units on
their receipts and the units of the events that could not be paid at their turn, and
nothing is lost exactly if every event with any units could be.
-/

namespace VulosRelay.Billing

open Amount List Finmap Option PrepaidLedger

theorem iter_single {units : UInt64} :
    KindMap.iter ((∅ : KindMap).insert kind units) = [(kind, units)] := by
  cases kind <;> rfl

namespace TariffSchedule

variable (schedule : TariffSchedule) (kind : ResourceKind) (units : UInt64)

theorem evaluate_single_unpriced (h : kind ∉ schedule.prices) :
    schedule.evaluate ((∅ : KindMap).insert kind units) = .error (.unpricedKind kind) := by
  rw [evaluate, iter_single, evaluateFrom, lookup_eq_none.mpr h]

theorem evaluate_single_priced (h : kind ∈ schedule.prices) :
    schedule.evaluate ((∅ : KindMap).insert kind units)
      = .ok ⟨schedule.currency, (schedule.line (kind, units)).amount,
          [schedule.line (kind, units)]⟩ := by
  obtain ⟨price, hpr⟩ := FinMap.mem_iff_lookup.mp h
  have hln : schedule.lineItem kind units price = schedule.line (kind, units) := by
    unfold line TariffSchedule.price
    rw [hpr]
    rfl
  rw [evaluate, iter_single, evaluateFrom, hpr]
  simp only [evaluateFrom, hln, zero_satAdd, nil_append]

end TariffSchedule

theorem PrepaidLedger.debitAndReceipt_log (l : PrepaidLedger) (payer : List UInt8) (bill : Bill)
    (log : ReceiptLog) (ik : IdentityKey) :
    (l.debitAndReceipt payer bill log ik).2.1
      = if bill.currency = l.currency ∧ bill.amount ≤ l.balance payer then
          (log.issueForBill payer bill ik).1
        else log := by
  by_cases hcur : bill.currency = l.currency
  · by_cases heno : bill.amount ≤ l.balance payer
    · rw [debitAndReceipt, debit, if_neg (not_not.mpr hcur),
        if_neg (UInt64.not_lt.mpr heno), if_pos ⟨hcur, heno⟩]
    · rw [debitAndReceipt, debit, if_neg (not_not.mpr hcur),
        if_pos (UInt64.not_le.mp heno), if_neg fun h => heno h.2]
  · rw [debitAndReceipt, debit, if_pos hcur, if_neg fun h => hcur h.1]

variable {payer : List UInt8}

theorem PrepaidLedger.topUp_isSome {l : PrepaidLedger} (h : l.Numbered) {amount : UInt64}
    {fundingRef : String} :
    ∃ record, (l.topUp payer amount fundingRef).2 = some record := by
  by_cases hcr : fundingRef ∈ l.creditedRefs
  · obtain ⟨r, hr, href⟩ := mem_map.mp ((h.credited fundingRef).mp hcr)
    refine ⟨r, ?_⟩
    rw [← href, topUp_replay h hr]
  · exact ⟨_, by rw [topUp, if_neg hcr]⟩

def UsageReceipt.unitsFor (payer : List UInt8) (kind : ResourceKind) (r : UsageReceipt) : Nat :=
  if r.payer = some payer ∧ r.kindTag = some kind.wireTag then (r.meteredUnits.getD 0).toNat else 0

def receiptedUnits (payer : List UInt8) (kind : ResourceKind) (receipts : List UsageReceipt) :
    Nat :=
  (receipts.map (UsageReceipt.unitsFor payer kind)).sum

variable {kind : ResourceKind}

theorem wireTag_inj {kind' : ResourceKind} : kind.wireTag = kind'.wireTag ↔ kind = kind' := by
  cases kind <;> cases kind' <;> decide

theorem unitsFor_issueItem {log : ReceiptLog} {payer' : List UInt8} {currency : String}
    {ik : IdentityKey} {item : LineItem} :
    (log.issueItem payer' currency ik item).2.unitsFor payer kind
      = if payer' = payer ∧ item.kind = kind then item.meteredUnits.toNat else 0 := by
  show (if some payer' = some payer ∧ some item.kind.wireTag = some kind.wireTag then _ else _) = _
  simp only [some.injEq, wireTag_inj]
  rfl

theorem receiptedUnits_issueItem {log : ReceiptLog} {payer' : List UInt8} {currency : String}
    {ik : IdentityKey} {item : LineItem} :
    receiptedUnits payer kind (log.issueItem payer' currency ik item).1.receipts
      = receiptedUnits payer kind log.receipts
        + if payer' = payer ∧ item.kind = kind then item.meteredUnits.toNat else 0 := by
  rw [← unitsFor_issueItem]
  show (map _ (log.receipts ++ [_])).sum = _
  rw [map_append, sum_append, map_singleton, sum_singleton]
  rfl

def BillingEvent.fed (payer : List UInt8) (kind : ResourceKind) : BillingEvent → Nat
  | .meteredUsage payer' kind' units => if payer' = payer ∧ kind' = kind then units.toNat else 0
  | _ => 0

def fedUnits (payer : List UInt8) (kind : ResourceKind) (events : List BillingEvent) : Nat :=
  (events.map (BillingEvent.fed payer kind)).sum

namespace SimEngine

variable {σ ε : Type} (engine : SimEngine σ ε)

/--
Units of a kind can be paid: the kind has a price, the tariff is in the currency of the
ledger, and the balance covers the price of the units, or is the greatest word.
-/
def Payable (payer : List UInt8) (kind : ResourceKind) (units : UInt64) : Prop :=
  kind ∈ engine.schedule.prices ∧ engine.schedule.currency = engine.ledger.currency
    ∧ min (engine.schedule.due kind units) limit ≤ (engine.ledger.balance payer).toNat

instance (payer : List UInt8) (kind : ResourceKind) (units : UInt64) :
    Decidable (engine.Payable payer kind units) := by
  unfold Payable
  infer_instance

/-- An event brings no usage, or usage that can be paid at its turn. -/
def Billable : BillingEvent → Prop
  | .meteredUsage payer kind units => units = 0 ∨ engine.Payable payer kind units
  | _ => True

def lost (payer : List UInt8) (kind : ResourceKind) : BillingEvent → Nat
  | .meteredUsage payer' kind' units =>
    if payer' = payer ∧ kind' = kind ∧ ¬ engine.Payable payer' kind' units then units.toNat else 0
  | _ => 0

theorem billUsage_meter :
    (engine.billUsage payer usage).1.meter = engine.meter := by
  unfold billUsage
  split
  · rfl
  · split <;> rfl

theorem billUsage_log {units : UInt64} :
    (engine.billUsage payer ((∅ : KindMap).insert kind units)).1.log
      = if engine.Payable payer kind units then
          (engine.log.issueItem payer engine.schedule.currency engine.ik
            (engine.schedule.line (kind, units))).1
        else engine.log := by
  unfold billUsage
  by_cases hpr : kind ∈ engine.schedule.prices
  · rw [engine.schedule.evaluate_single_priced kind units hpr]
    have hlog := engine.ledger.debitAndReceipt_log payer
      ⟨engine.schedule.currency, (engine.schedule.line (kind, units)).amount,
        [engine.schedule.line (kind, units)]⟩ engine.log engine.ik
    have hpy : engine.Payable payer kind units
        ↔ engine.schedule.currency = engine.ledger.currency
          ∧ (engine.schedule.line (kind, units)).amount ≤ engine.ledger.balance payer := by
      unfold Payable
      rw [UInt64.le_iff_toNat_le, engine.schedule.toNat_amount_line]
      exact and_iff_right hpr
    rw [if_congr hpy rfl rfl]
    refine Eq.trans ?_ hlog
    dsimp only
    split <;> next heq => rw [heq]
  · rw [engine.schedule.evaluate_single_unpriced kind units hpr,
      if_neg fun h : engine.Payable payer kind units => hpr h.1]

theorem applyUsage_eq (hmt : engine.meter = .new) (payer : List UInt8) (kind : ResourceKind)
    (units : UInt64) :
    engine.applyUsage payer kind units
      = engine.billUsage payer ((∅ : KindMap).insert kind units) := by
  have hrec : engine.meter.record payer kind units
      = ⟨(∅ : FinMap (List UInt8) KindMap).insert payer ((∅ : KindMap).insert kind units)⟩ := by
    rw [hmt]
    simp [InMemoryMeter.record, InMemoryMeter.usageOf, InMemoryMeter.new, zero_satAdd]
  have hrs : (engine.meter.record payer kind units).reset payer
      = (engine.meter, (∅ : KindMap).insert kind units) := by
    rw [hrec, InMemoryMeter.reset, hmt]
    have her : ((∅ : FinMap (List UInt8) KindMap).insert payer
        ((∅ : KindMap).insert kind units)).erase payer = ∅ := by
      apply ext_lookup
      intro other
      by_cases h : other = payer
      · rw [h, lookup_erase, lookup_empty]
      · rw [lookup_erase_ne h, lookup_insert_of_ne _ h]
    rw [her, InMemoryMeter.usageOf, lookup_insert]
    rfl
  rw [applyUsage, hrs]

variable {out : List BillingOutcome} {debug : ε → String}

theorem apply_eq_some {engine engine' : SimEngine σ ε} {event : BillingEvent}
    (hmt : engine.meter = .new) (h : engine.apply debug event = some (engine', out)) :
    engine'.meter = .new ∧ ∀ payer kind,
      event.fed payer kind + receiptedUnits payer kind engine.log.receipts
        = receiptedUnits payer kind engine'.log.receipts + engine.lost payer kind event := by
  cases event with
  | tariffChange schedule =>
    cases h
    exact ⟨hmt, fun _ _ => Nat.zero_add _⟩
  | topUp | refund | monthlyCharge =>
    rw [apply] at h
    split at h <;> cases h <;> exact ⟨hmt, fun _ _ => Nat.zero_add _⟩
  | meteredUsage payer' kind' units =>
    rw [apply, engine.applyUsage_eq hmt] at h
    have hen : (engine.billUsage payer' ((∅ : KindMap).insert kind' units)).1 = engine' :=
      congrArg Prod.fst (some.inj h)
    refine ⟨?_, fun payer kind => ?_⟩
    · rw [← hen, billUsage_meter, hmt]
    rw [← hen, billUsage_log]
    by_cases hpay : engine.Payable payer' kind' units
    · have hls : engine.lost payer kind (.meteredUsage payer' kind' units) = 0 :=
        if_neg fun hnot => hnot.2.2 hpay
      rw [if_pos hpay, receiptedUnits_issueItem, hls, Nat.add_zero, Nat.add_comm]
      rfl
    · have hls : engine.lost payer kind (.meteredUsage payer' kind' units)
          = BillingEvent.fed payer kind (.meteredUsage payer' kind' units) :=
        if_congr (by simp [hpay]) rfl rfl
      rw [if_neg hpay, hls, Nat.add_comm]

def lostIn (debug : ε → String) (payer : List UInt8) (kind : ResourceKind) :
    SimEngine σ ε → List BillingEvent → Nat
  | _, [] => 0
  | engine, event :: events =>
    engine.lost payer kind event
      + ((engine.apply debug event).elim 0 fun next => lostIn debug payer kind next.1 events)

/-- Every event of a replay is billable at its turn. -/
def EachBillable (debug : ε → String) : SimEngine σ ε → List BillingEvent → Prop
  | _, [] => True
  | engine, event :: events =>
    engine.Billable event
      ∧ ∀ next, engine.apply debug event = some next → EachBillable debug next.1 events

theorem replay_eq_some {events : List BillingEvent} {engine engine' : SimEngine σ ε}
    (hmt : engine.meter = .new) (h : engine.replay debug events = some (engine', out)) :
    engine'.meter = .new ∧ ∀ payer kind,
      fedUnits payer kind events + receiptedUnits payer kind engine.log.receipts
        = receiptedUnits payer kind engine'.log.receipts
          + lostIn debug payer kind engine events := by
  induction events generalizing engine out with
  | nil =>
    cases h
    exact ⟨hmt, fun _ _ => Nat.add_comm _ _⟩
  | cons event events ih =>
    rw [replay] at h
    split at h
    · simp at h
    rename_i next outs hap
    obtain ⟨rest, hrs, heq⟩ := map_eq_some_iff.mp h
    obtain ⟨rfl, -⟩ := Prod.mk.inj heq
    obtain ⟨hmt', hst⟩ := apply_eq_some hmt hap
    obtain ⟨hend, hsum⟩ := ih hmt' hrs
    refine ⟨hend, fun payer kind => ?_⟩
    have hfst := hst payer kind
    have hoth := hsum payer kind
    rw [fedUnits] at hoth ⊢
    rw [map_cons, sum_cons, lostIn, hap]
    show _ = _ + (_ + lostIn debug payer kind next events)
    omega

theorem lost_eq_zero_iff :
    (∀ payer kind, engine.lost payer kind event = 0) ↔ engine.Billable event := by
  cases event with
  | meteredUsage payer' kind' units =>
    constructor
    · intro hno
      by_cases hpay : engine.Payable payer' kind' units
      · exact .inr hpay
      have hzr := hno payer' kind'
      rw [lost, if_pos ⟨rfl, rfl, hpay⟩] at hzr
      exact .inl (UInt64.toNat_inj.mp hzr)
    · intro hbl payer kind
      rcases hbl with hzr | hpay
      · rw [lost, hzr, UInt64.toNat_zero, ite_self]
      · exact if_neg fun hnot => hnot.2.2 hpay
  | topUp payer amount fundingRef | tariffChange schedule | refund payer amount
  | monthlyCharge payer amount currency => exact ⟨fun _ => trivial, fun _ _ _ => rfl⟩

theorem lostIn_eq_zero_iff (events : List BillingEvent) (engine : SimEngine σ ε) :
    (∀ payer kind, lostIn debug payer kind engine events = 0)
      ↔ EachBillable debug engine events := by
  induction events generalizing engine with
  | nil => exact ⟨fun _ => trivial, fun _ _ _ => rfl⟩
  | cons event events ih =>
    rw [EachBillable, ← lost_eq_zero_iff]
    constructor
    · intro hno
      refine ⟨fun payer kind => (Nat.add_eq_zero_iff.mp (hno payer kind)).1,
        fun next hnx => (ih next.1).mp fun payer kind => ?_⟩
      have hrs := (Nat.add_eq_zero_iff.mp (hno payer kind)).2
      rw [hnx] at hrs
      exact hrs
    · intro hgv payer kind
      obtain ⟨hev, hrs⟩ := hgv
      refine Nat.add_eq_zero_iff.mpr ⟨hev payer kind, ?_⟩
      cases hnx : engine.apply debug event with
      | none => rfl
      | some next => exact (ih next.1).mpr (hrs next hnx) payer kind

theorem billUsage_ledger :
    ∃ ops, (engine.billUsage payer usage).1.ledger = engine.ledger.run ops := by
  unfold billUsage
  split
  · exact ⟨[], rfl⟩
  rename_i bill _
  refine ⟨[.debitAndReceipt payer bill engine.log engine.ik], ?_⟩
  show _ = (engine.ledger.debitAndReceipt payer bill engine.log engine.ik).1
  split <;> next heq => rw [heq]

theorem apply_ledger {engine engine' : SimEngine σ ε} {event : BillingEvent}
    (h : engine.apply debug event = some (engine', out)) :
    ∃ ops, engine'.ledger = engine.ledger.run ops := by
  cases event with
  | topUp payer amount fundingRef =>
    refine ⟨[.topUp payer amount fundingRef], ?_⟩
    show _ = (engine.ledger.topUp payer amount fundingRef).1
    rw [apply] at h
    split at h
    · rename_i heq
      cases h
      rw [heq]
    · simp at h
  | meteredUsage payer kind units =>
    have hen : (engine.applyUsage payer kind units).1 = engine' :=
      congrArg Prod.fst (some.inj h)
    rw [← hen]
    exact billUsage_ledger _
  | tariffChange schedule =>
    cases h
    exact ⟨[], rfl⟩
  | refund payer amount =>
    refine ⟨[.refund payer amount], ?_⟩
    show _ = (engine.ledger.refund payer amount).1
    rw [apply] at h
    split at h <;> rename_i heq <;> cases h <;> rw [heq]
  | monthlyCharge payer amount currency =>
    rw [apply] at h
    split at h <;> cases h <;> exact ⟨[], rfl⟩

theorem apply_isSome (debug : ε → String) (hld : engine.ledger.Numbered)
    (event : BillingEvent) : ∃ next, engine.apply debug event = some next := by
  cases event with
  | topUp payer amount fundingRef =>
    obtain ⟨record, hrec⟩ := topUp_isSome hld
    rw [apply]
    split
    · exact ⟨_, rfl⟩
    rename_i heq
    rw [heq] at hrec
    simp at hrec
  | meteredUsage payer kind units | tariffChange schedule => exact ⟨_, rfl⟩
  | refund payer amount | monthlyCharge payer amount currency =>
    rw [apply]
    split <;> exact ⟨_, rfl⟩

theorem replay_isSome (debug : ε → String) (events : List BillingEvent) (engine : SimEngine σ ε)
    (hld : engine.ledger.Numbered) : ∃ result, engine.replay debug events = some result := by
  induction events generalizing engine with
  | nil => exact ⟨_, rfl⟩
  | cons event events ih =>
    obtain ⟨next, hnx⟩ := engine.apply_isSome debug hld event
    obtain ⟨ops, hops⟩ := apply_ledger hnx
    have hld' : next.1.ledger.Numbered := by
      rw [hops]
      exact numbered_run ops hld
    obtain ⟨rest, hrs⟩ := ih next.1 hld'
    rw [replay, hnx]
    dsimp only
    rw [hrs]
    exact ⟨_, rfl⟩

end SimEngine

/--
**Usage is conserved exactly if it can be paid when it comes**: over every list of
events, from any ledger, the units fed in are those on receipts and those on the meter
exactly if every event with any units comes when its kind has a price in the ledger's
currency that the balance covers.
-/
theorem usage_conserved_iff {σ ε : Type} (debug : ε → String) (currency : String)
    (threshold : UInt64) (ops : List LedgerOp) (schedule : TariffSchedule) (ik : IdentityKey)
    (rail : SettlementRail σ ε) (railState : σ) (events : List BillingEvent) :
    let start := SimEngine.new ((new currency threshold).run ops) schedule ik rail
      railState
    ∃ engine out, start.replay debug events = some (engine, out)
      ∧ ((∀ payer kind, fedUnits payer kind events
            = receiptedUnits payer kind engine.log.receipts
              + (engine.meter.held payer kind).toNat)
          ↔ start.EachBillable debug events) := by
  intro start
  obtain ⟨result, hres⟩ := start.replay_isSome debug events
    (numbered_run ops (numbered_new currency threshold))
  obtain ⟨engine, out⟩ := result
  obtain ⟨hmt, hsum⟩ := SimEngine.replay_eq_some rfl hres
  refine ⟨engine, out, hres, ?_⟩
  rw [← SimEngine.lostIn_eq_zero_iff]
  refine forall_congr' fun payer => forall_congr' fun kind => ?_
  have hbal : fedUnits payer kind events
      = receiptedUnits payer kind engine.log.receipts
        + SimEngine.lostIn debug payer kind start events := hsum payer kind
  have hhl : (engine.meter.held payer kind).toNat = 0 := by
    rw [hmt]
    rfl
  rw [hbal, hhl]
  omega

def unfundedEngine : SimEngine InMemoryLedger LedgerError :=
  SimEngine.new (PrepaidLedger.new "USD" 0) smallSchedule someKey InMemoryLedger.rail
    InMemoryLedger.new

/--
**Usage that could not be paid is gone after the top-up**: three messages are fed in
before the credit for them arrives, and afterwards they are neither on a receipt nor on
the meter.
-/
theorem unpaid_usage_lost :
    ((unfundedEngine.replay (fun _ => "") [.meteredUsage [1] .messages 3,
        .topUp [1] 100 "f1", .meteredUsage [1] .messages 2]).map fun result =>
      (receiptedUnits [1] .messages result.1.log.receipts,
        (result.1.meter.held [1] .messages).toNat))
      = some (2, 0)
    ∧ fedUnits [1] .messages [.meteredUsage [1] .messages 3, .topUp [1] 100 "f1",
        .meteredUsage [1] .messages 2] = 5 := by
  decide

end VulosRelay.Billing
