import VulosRelay.Billing.Receipt

/-!
# The prepaid ledger

The model of `PrepaidLedger` (`broker-billing/src/prepaid.rs`): credit is topped up
ahead of use, debited for bills and refunded, and each of the three is recorded. A
method is one step. The transaction counter is a natural number: it is advanced once
for each record pushed, and the three vectors cannot hold as many records as a 64-bit
word counts.
-/

namespace VulosRelay.Billing

open Amount

inductive PrepaidError where
  | currencyMismatch (billCurrency ledgerCurrency : String)
  | exhausted (payer : List UInt8) (balance amount : UInt64) (currency : String)
  | refundExceedsBalance (payer : List UInt8) (amount balance : UInt64)
  deriving DecidableEq, Repr

structure TopUpRecord where
  payer : List UInt8
  amount : UInt64
  currency : String
  fundingRef : String
  txSeq : Nat
  deriving DecidableEq, Repr

structure DebitRecord where
  payer : List UInt8
  amount : UInt64
  currency : String
  txSeq : Nat
  deriving DecidableEq, Repr

structure RefundRecord where
  payer : List UInt8
  amount : UInt64
  currency : String
  txSeq : Nat
  deriving DecidableEq, Repr

inductive BillingState where
  | ok
  | lowBalance
  | exhausted
  deriving DecidableEq, Repr

structure PrepaidLedger where
  currency : String
  lowBalanceThreshold : UInt64
  balances : FinMap (List UInt8) UInt64
  topUps : List TopUpRecord
  debits : List DebitRecord
  refunds : List RefundRecord
  nextTxSeq : Nat
  creditedRefs : Finset String

namespace PrepaidLedger

def new (currency : String) (lowBalanceThreshold : UInt64) : PrepaidLedger :=
  ⟨currency, lowBalanceThreshold, ∅, [], [], [], 0, ∅⟩

def balance (l : PrepaidLedger) (payer : List UInt8) : UInt64 := (l.balances.lookup payer).getD 0

def state (l : PrepaidLedger) (payer : List UInt8) : BillingState :=
  if l.balance payer = 0 then .exhausted
  else if l.balance payer ≤ l.lowBalanceThreshold then .lowBalance
  else .ok

def topUp (l : PrepaidLedger) (payer : List UInt8) (amount : UInt64) (fundingRef : String) :
    PrepaidLedger × Option TopUpRecord :=
  if fundingRef ∈ l.creditedRefs then (l, l.topUps.find? fun r => r.fundingRef = fundingRef)
  else
    let record : TopUpRecord := ⟨payer, amount, l.currency, fundingRef, l.nextTxSeq⟩
    ({ l with
        balances := l.balances.insert payer (satAdd (l.balance payer) amount)
        topUps := l.topUps ++ [record]
        nextTxSeq := l.nextTxSeq + 1
        creditedRefs := insert fundingRef l.creditedRefs },
      some record)

def debit (l : PrepaidLedger) (payer : List UInt8) (bill : Bill) :
    PrepaidLedger × Except PrepaidError DebitRecord :=
  if bill.currency ≠ l.currency then (l, .error (.currencyMismatch bill.currency l.currency))
  else if l.balance payer < bill.amount then
    (l, .error (.exhausted payer (l.balance payer) bill.amount l.currency))
  else
    let record : DebitRecord := ⟨payer, bill.amount, l.currency, l.nextTxSeq⟩
    ({ l with
        balances := l.balances.insert payer (l.balance payer - bill.amount)
        debits := l.debits ++ [record]
        nextTxSeq := l.nextTxSeq + 1 },
      .ok record)

def debitAndReceipt (l : PrepaidLedger) (payer : List UInt8) (bill : Bill) (log : ReceiptLog)
    (ik : IdentityKey) :
    PrepaidLedger × ReceiptLog × Except PrepaidError (DebitRecord × List UsageReceipt) :=
  match l.debit payer bill with
  | (l', .error e) => (l', log, .error e)
  | (l', .ok record) =>
    let issued := log.issueForBill payer bill ik
    (l', issued.1, .ok (record, issued.2))

def refund (l : PrepaidLedger) (payer : List UInt8) (amount : UInt64) :
    PrepaidLedger × Except PrepaidError RefundRecord :=
  if l.balance payer < amount then
    (l, .error (.refundExceedsBalance payer amount (l.balance payer)))
  else
    let record : RefundRecord := ⟨payer, amount, l.currency, l.nextTxSeq⟩
    ({ l with
        balances := l.balances.insert payer (l.balance payer - amount)
        refunds := l.refunds ++ [record]
        nextTxSeq := l.nextTxSeq + 1 },
      .ok record)

end PrepaidLedger

inductive LedgerOp where
  | topUp (payer : List UInt8) (amount : UInt64) (fundingRef : String)
  | debit (payer : List UInt8) (bill : Bill)
  | debitAndReceipt (payer : List UInt8) (bill : Bill) (log : ReceiptLog) (ik : IdentityKey)
  | refund (payer : List UInt8) (amount : UInt64)

def LedgerOp.payer : LedgerOp → List UInt8
  | .topUp payer _ _ => payer
  | .debit payer _ => payer
  | .debitAndReceipt payer _ _ _ => payer
  | .refund payer _ => payer

namespace PrepaidLedger

def step (l : PrepaidLedger) : LedgerOp → PrepaidLedger
  | .topUp payer amount fundingRef => (l.topUp payer amount fundingRef).1
  | .debit payer bill => (l.debit payer bill).1
  | .debitAndReceipt payer bill log ik => (l.debitAndReceipt payer bill log ik).1
  | .refund payer amount => (l.refund payer amount).1

def run (l : PrepaidLedger) (ops : List LedgerOp) : PrepaidLedger := ops.foldl step l

end PrepaidLedger

end VulosRelay.Billing
