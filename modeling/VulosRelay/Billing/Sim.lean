import VulosRelay.Billing.Prepaid
import VulosRelay.Billing.Settlement

/-!
# The simulated billing engine

The model of `InMemoryMeter` (`broker-billing/src/meter.rs`) and of `SimEngine`
(`broker-billing/src/sim.rs`), which drives the meter, the tariff, the prepaid ledger,
the receipt log and a settlement rail through a list of events. The engine holds the
rail by reference, so the state of the rail is carried along. A panic is `none`.
-/

namespace VulosRelay.Billing

open Amount

structure InMemoryMeter where
  usage : FinMap (List UInt8) KindMap

namespace InMemoryMeter

def new : InMemoryMeter := ⟨∅⟩

def usageOf (m : InMemoryMeter) (payer : List UInt8) : KindMap := (m.usage.lookup payer).getD ∅

def record (m : InMemoryMeter) (payer : List UInt8) (kind : ResourceKind) (units : UInt64) :
    InMemoryMeter :=
  let entry := m.usageOf payer
  ⟨m.usage.insert payer (entry.insert kind (satAdd ((entry.lookup kind).getD 0) units))⟩

def reset (m : InMemoryMeter) (payer : List UInt8) : InMemoryMeter × KindMap :=
  (⟨m.usage.erase payer⟩, m.usageOf payer)

def held (m : InMemoryMeter) (payer : List UInt8) (kind : ResourceKind) : UInt64 :=
  ((m.usageOf payer).lookup kind).getD 0

end InMemoryMeter

inductive BillingEvent where
  | topUp (payer : List UInt8) (amount : UInt64) (fundingRef : String)
  | meteredUsage (payer : List UInt8) (kind : ResourceKind) (units : UInt64)
  | tariffChange (schedule : TariffSchedule)
  | refund (payer : List UInt8) (amount : UInt64)
  | monthlyCharge (payer : List UInt8) (amount : UInt64) (currency : String)

inductive BillingOutcome where
  | toppedUp (record : TopUpRecord)
  | debited (record : DebitRecord) (receipts : List UsageReceipt)
  | debitFailed (payer : List UInt8) (error : PrepaidError)
  | tariffChanged
  | refunded (record : RefundRecord)
  | lowBalance (payer : List UInt8) (balance : UInt64)
  | exhausted (payer : List UInt8)
  | monthlyCharged (receipt : SettlementReceipt)
  | monthlyChargeFailed (payer : List UInt8) (error : String)

def PrepaidLedger.stateNotification (l : PrepaidLedger) (payer : List UInt8) :
    List BillingOutcome :=
  match l.state payer with
  | .lowBalance => [.lowBalance payer (l.balance payer)]
  | .exhausted => [.exhausted payer]
  | .ok => []

structure SimEngine (σ ε : Type) where
  meter : InMemoryMeter
  ledger : PrepaidLedger
  schedule : TariffSchedule
  log : ReceiptLog
  ik : IdentityKey
  rail : SettlementRail σ ε
  railState : σ

namespace SimEngine

variable {σ ε : Type}

def new (ledger : PrepaidLedger) (schedule : TariffSchedule) (ik : IdentityKey)
    (rail : SettlementRail σ ε) (railState : σ) : SimEngine σ ε :=
  ⟨InMemoryMeter.new, ledger, schedule, ReceiptLog.new, ik, rail, railState⟩

def billUsage (engine : SimEngine σ ε) (payer : List UInt8) (usage : KindMap) :
    SimEngine σ ε × List BillingOutcome :=
  match engine.schedule.evaluate usage with
  | .error _ =>
    (engine, [.debitFailed payer (.currencyMismatch "unpriced-kind" engine.ledger.currency)])
  | .ok bill =>
    match engine.ledger.debitAndReceipt payer bill engine.log engine.ik with
    | (ledger, log, .ok (record, receipts)) =>
      ({ engine with ledger := ledger, log := log },
        .debited record receipts :: ledger.stateNotification payer)
    | (ledger, log, .error error) =>
      ({ engine with ledger := ledger, log := log }, [.debitFailed payer error])

def applyUsage (engine : SimEngine σ ε) (payer : List UInt8) (kind : ResourceKind)
    (units : UInt64) : SimEngine σ ε × List BillingOutcome :=
  let cleared := (engine.meter.record payer kind units).reset payer
  { engine with meter := cleared.1 }.billUsage payer cleared.2

def apply (debug : ε → String) (engine : SimEngine σ ε) :
    BillingEvent → Option (SimEngine σ ε × List BillingOutcome)
  | .topUp payer amount fundingRef =>
    match engine.ledger.topUp payer amount fundingRef with
    | (ledger, some record) => some ({ engine with ledger := ledger }, [.toppedUp record])
    | (_, none) => none
  | .meteredUsage payer kind units => some (engine.applyUsage payer kind units)
  | .tariffChange schedule => some ({ engine with schedule := schedule }, [.tariffChanged])
  | .refund payer amount =>
    match engine.ledger.refund payer amount with
    | (ledger, .ok record) =>
      some ({ engine with ledger := ledger },
        .refunded record :: ledger.stateNotification payer)
    | (ledger, .error error) =>
      some ({ engine with ledger := ledger }, [.debitFailed payer error])
  | .monthlyCharge payer amount currency =>
    match engine.rail.charge engine.railState payer amount currency with
    | (railState, .ok receipt) =>
      some ({ engine with railState := railState }, [.monthlyCharged receipt])
    | (railState, .error error) =>
      some ({ engine with railState := railState }, [.monthlyChargeFailed payer (debug error)])

def replay (debug : ε → String) :
    SimEngine σ ε → List BillingEvent → Option (SimEngine σ ε × List BillingOutcome)
  | engine, [] => some (engine, [])
  | engine, event :: events =>
    match engine.apply debug event with
    | none => none
    | some (engine', out) =>
      (replay debug engine' events).map fun rest => (rest.1, out ++ rest.2)

end SimEngine

end VulosRelay.Billing
