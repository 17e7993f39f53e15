import VulosRelay.Lib.Amount
import VulosRelay.Lib.FinMap
import VulosRelay.Lib.System

/-!
# The reference settlement ledger

The model of `InMemoryLedger` (`broker-billing/src/settlement.rs`) and of
`Subscription::charge` (`broker-billing/src/subscription.rs`). Amounts are unsigned
words and accounts signed ones: `as i64` keeps the bits, and `+=` and `-=` wrap, as
they do in a build without overflow checks. The transaction counter is a natural
number.
-/

namespace VulosRelay.Billing

structure SettlementReceipt where
  payer : List UInt8
  amount : UInt64
  currency : String
  txSeq : Nat
  deriving DecidableEq, Repr

structure SettlementRail (σ ε : Type) where
  charge : σ → List UInt8 → UInt64 → String → σ × Except ε SettlementReceipt
  balance : σ → List UInt8 → String → Except ε Int64

inductive LedgerError where
  | insufficientBalance (payer : List UInt8) (balance : Int64) (amount : UInt64)
      (currency : String)
  deriving DecidableEq, Repr

structure InMemoryLedger where
  balances : FinMap (List UInt8 × String) Int64
  house : FinMap String Int64
  nextTxSeq : Nat

namespace InMemoryLedger

def new : InMemoryLedger := ⟨∅, ∅, 0⟩

def balance (l : InMemoryLedger) (payer : List UInt8) (currency : String) : Int64 :=
  (l.balances.lookup (payer, currency)).getD 0

def houseBalance (l : InMemoryLedger) (currency : String) : Int64 :=
  (l.house.lookup currency).getD 0

def deposit (l : InMemoryLedger) (payer : List UInt8) (amount : UInt64) (currency : String) :
    InMemoryLedger :=
  { l with
    balances := l.balances.insert (payer, currency) (l.balance payer currency + amount.toInt64)
    house := l.house.insert currency (l.houseBalance currency - amount.toInt64) }

def charge (l : InMemoryLedger) (payer : List UInt8) (amount : UInt64) (currency : String) :
    InMemoryLedger × Except LedgerError SettlementReceipt :=
  if l.balance payer currency < amount.toInt64 then
    (l, .error (.insufficientBalance payer (l.balance payer currency) amount currency))
  else
    ({ balances := l.balances.insert (payer, currency) (l.balance payer currency - amount.toInt64)
       house := l.house.insert currency (l.houseBalance currency + amount.toInt64)
       nextTxSeq := l.nextTxSeq + 1 },
      .ok ⟨payer, amount, currency, l.nextTxSeq⟩)

def rail : SettlementRail InMemoryLedger LedgerError where
  charge := charge
  balance l payer currency := .ok (l.balance payer currency)

end InMemoryLedger

structure Subscription where
  payer : List UInt8
  monthlyAmount : UInt64
  currency : String
  active : Bool

def Subscription.charge {σ ε : Type} (sub : Subscription) (rail : SettlementRail σ ε) (s : σ) :
    σ × Except ε SettlementReceipt :=
  rail.charge s sub.payer sub.monthlyAmount sub.currency

inductive SettlementOp where
  | deposit (payer : List UInt8) (amount : UInt64) (currency : String)
  | charge (payer : List UInt8) (amount : UInt64) (currency : String)
  | subscription (sub : Subscription)

def InMemoryLedger.step (l : InMemoryLedger) : SettlementOp → InMemoryLedger
  | .deposit payer amount currency => l.deposit payer amount currency
  | .charge payer amount currency => (l.charge payer amount currency).1
  | .subscription sub => (sub.charge InMemoryLedger.rail l).1

def settlementSystem : System InMemoryLedger SettlementOp where
  init l := l = InMemoryLedger.new
  step l op := some (l.step op)

end VulosRelay.Billing
