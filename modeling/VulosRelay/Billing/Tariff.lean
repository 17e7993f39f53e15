import VulosRelay.Lib.Amount
import VulosRelay.Lib.FinMap

/-!
# Tariffs and bills

The model of `TariffSchedule::evaluate` (`broker-billing/src/tariff.rs`): metered
usage and a price schedule give an itemised bill. A `BTreeMap` over the four resource
kinds is a finite map that is iterated in the order of the kinds.
-/

namespace VulosRelay.Billing

open Amount

inductive ResourceKind where
  | bytesForwarded
  | connections
  | messages
  | computeSeconds
  deriving DecidableEq, Repr

namespace ResourceKind

def all : List ResourceKind := [.bytesForwarded, .connections, .messages, .computeSeconds]

def wireTag : ResourceKind → UInt64
  | .bytesForwarded => 1
  | .connections => 2
  | .messages => 3
  | .computeSeconds => 4

end ResourceKind

abbrev KindMap := FinMap ResourceKind UInt64

def KindMap.iter (m : KindMap) : List (ResourceKind × UInt64) :=
  ResourceKind.all.filterMap fun kind => (m.lookup kind).map fun v => (kind, v)

structure TariffSchedule where
  currency : String
  prices : KindMap
  freeAllowance : KindMap

structure LineItem where
  kind : ResourceKind
  meteredUnits : UInt64
  freeUnitsApplied : UInt64
  billedUnits : UInt64
  unitPrice : UInt64
  amount : UInt64
  deriving DecidableEq, Repr

structure Bill where
  currency : String
  amount : UInt64
  lineItems : List LineItem
  deriving DecidableEq, Repr

inductive BillingError where
  | unpricedKind (kind : ResourceKind)
  deriving DecidableEq, Repr

namespace TariffSchedule

variable (schedule : TariffSchedule)

def free (kind : ResourceKind) : UInt64 := (schedule.freeAllowance.lookup kind).getD 0

def lineItem (kind : ResourceKind) (units unitPrice : UInt64) : LineItem where
  kind := kind
  meteredUnits := units
  freeUnitsApplied := min (schedule.free kind) units
  billedUnits := satSub units (schedule.free kind)
  unitPrice := unitPrice
  amount := satMul (satSub units (schedule.free kind)) unitPrice

def evaluateFrom : List (ResourceKind × UInt64) → UInt64 → List LineItem → Except BillingError Bill
  | [], amount, lineItems => .ok ⟨schedule.currency, amount, lineItems⟩
  | (kind, units) :: rest, amount, lineItems =>
    match schedule.prices.lookup kind with
    | none => .error (.unpricedKind kind)
    | some unitPrice =>
      let item := schedule.lineItem kind units unitPrice
      evaluateFrom rest (satAdd amount item.amount) (lineItems ++ [item])

def evaluate (usage : KindMap) : Except BillingError Bill :=
  schedule.evaluateFrom usage.iter 0 []

end TariffSchedule

end VulosRelay.Billing
