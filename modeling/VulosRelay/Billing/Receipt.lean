import VulosRelay.Billing.Tariff

/-!
# Usage receipts

The model of `BilledOperation` and `ReceiptLog::issue_for_bill`
(`broker-billing/src/receipt.rs`) and of `UsageReceipt::sign`
(`broker-economics/src/descriptor.rs`). The canonical encoding is a bijection between
value trees and their bytes that is not this repository's, so a receipt carries the
tree. The signature is whatever the key makes of the identity and the operation.
-/

namespace VulosRelay.Billing

inductive Cv where
  | u64 (n : UInt64)
  | bytes (b : List UInt8)
  | text (s : String)
  | map (fields : List (UInt64 × Cv))

def Cv.field (key : UInt64) : Cv → Option Cv
  | .map fields => (fields.find? fun f => f.1 = key).map Prod.snd
  | _ => none

structure BilledOperation where
  payer : List UInt8
  kind : ResourceKind
  meteredUnits : UInt64
  billedUnits : UInt64
  amount : UInt64
  currency : String
  sequence : UInt64

def BilledOperation.toCv (op : BilledOperation) : Cv :=
  .map [(1, .bytes op.payer), (2, .u64 op.kind.wireTag), (3, .u64 op.meteredUnits),
    (4, .u64 op.billedUnits), (5, .u64 op.amount), (6, .text op.currency), (7, .u64 op.sequence)]

structure UsageReceipt where
  identity : List UInt8
  operation : Cv
  sig : List UInt8

structure IdentityKey where
  publicKey : List UInt8
  signReceipt : List UInt8 → Cv → List UInt8

def BilledOperation.sign (op : BilledOperation) (ik : IdentityKey) : UsageReceipt where
  identity := ik.publicKey
  operation := op.toCv
  sig := ik.signReceipt ik.publicKey op.toCv

def UsageReceipt.word (r : UsageReceipt) (key : UInt64) : Option UInt64 :=
  match r.operation.field key with
  | some (.u64 n) => some n
  | _ => none

def UsageReceipt.payer (r : UsageReceipt) : Option (List UInt8) :=
  match r.operation.field 1 with
  | some (.bytes b) => some b
  | _ => none

def UsageReceipt.kindTag (r : UsageReceipt) : Option UInt64 := r.word 2

def UsageReceipt.meteredUnits (r : UsageReceipt) : Option UInt64 := r.word 3

def UsageReceipt.amount (r : UsageReceipt) : Option UInt64 := r.word 5

def UsageReceipt.sequence (r : UsageReceipt) : Option UInt64 := r.word 7

structure ReceiptLog where
  receipts : List UsageReceipt
  nextSequence : UInt64

namespace ReceiptLog

def new : ReceiptLog := ⟨[], 0⟩

def issueItem (log : ReceiptLog) (payer : List UInt8) (currency : String) (ik : IdentityKey)
    (item : LineItem) : ReceiptLog × UsageReceipt :=
  let op : BilledOperation :=
    { payer := payer
      kind := item.kind
      meteredUnits := item.meteredUnits
      billedUnits := item.billedUnits
      amount := item.amount
      currency := currency
      sequence := log.nextSequence }
  ({ receipts := log.receipts ++ [op.sign ik], nextSequence := log.nextSequence + 1 }, op.sign ik)

def issueItems (payer : List UInt8) (currency : String) (ik : IdentityKey) :
    ReceiptLog → List LineItem → ReceiptLog × List UsageReceipt
  | log, [] => (log, [])
  | log, item :: items =>
    let issued := log.issueItem payer currency ik item
    let rest := issueItems payer currency ik issued.1 items
    (rest.1, issued.2 :: rest.2)

def issueForBill (log : ReceiptLog) (payer : List UInt8) (bill : Bill) (ik : IdentityKey) :
    ReceiptLog × List UsageReceipt :=
  issueItems payer bill.currency ik log bill.lineItems

structure BillCall where
  payer : List UInt8
  bill : Bill
  ik : IdentityKey

def issueAll (log : ReceiptLog) (calls : List BillCall) : ReceiptLog :=
  calls.foldl (fun log call => (log.issueForBill call.payer call.bill call.ik).1) log

end ReceiptLog

end VulosRelay.Billing
