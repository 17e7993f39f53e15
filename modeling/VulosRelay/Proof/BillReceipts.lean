import VulosRelay.Proof.PrepaidFunds

/-!
# What is debited and what is receipted

A bill is made of one line for each metered kind, and a receipt is issued for each
line. Line amounts and the total saturate, each by itself, so the total of a bill is
its exact price cut off at the greatest word, and the receipts add up to the sum of the
lines, which is something else again. All three agree exactly if the exact price is a
word.
-/

namespace VulosRelay.Billing

open Amount List ReceiptLog

namespace TariffSchedule

variable (schedule : TariffSchedule)

def price (kind : ResourceKind) : UInt64 := (schedule.prices.lookup kind).getD 0

def due (kind : ResourceKind) (units : UInt64) : Nat :=
  (units.toNat - (schedule.free kind).toNat) * (schedule.price kind).toNat

def exactPrice (usage : KindMap) : Nat :=
  ∑ kind ∈ usage.keys, schedule.due kind ((usage.lookup kind).getD 0)

def line (e : ResourceKind × UInt64) : LineItem :=
  schedule.lineItem e.1 e.2 (schedule.price e.1)

theorem toNat_amount_line (e : ResourceKind × UInt64) :
    (schedule.line e).amount.toNat = min (schedule.due e.1 e.2) limit := by
  show (satMul (satSub e.2 (schedule.free e.1)) (schedule.price e.1)).toNat = _
  rw [toNat_satMul, toNat_satSub]
  rfl

theorem evaluateFrom_eq_ok (h : schedule.evaluateFrom entries amount lineItems = .ok bill) :
    bill.lineItems = lineItems ++ entries.map schedule.line
      ∧ bill.amount = (entries.map fun e => (schedule.line e).amount).foldl satAdd amount := by
  induction entries generalizing amount lineItems with
  | nil =>
    cases h
    exact ⟨(append_nil _).symm, rfl⟩
  | cons e entries ih =>
    obtain ⟨kind, units⟩ := e
    rw [evaluateFrom] at h
    split at h
    · simp at h
    rename_i unitPrice hpr
    have hln : schedule.lineItem kind units unitPrice = schedule.line (kind, units) := by
      unfold line price
      rw [hpr]
      rfl
    obtain ⟨hitm, hamt⟩ := ih h
    rw [hln] at hitm hamt
    refine ⟨?_, hamt⟩
    rw [hitm, append_assoc]
    rfl

theorem due_zero (kind : ResourceKind) : schedule.due kind 0 = 0 := by
  unfold due
  rw [UInt64.toNat_zero, Nat.zero_sub, Nat.zero_mul]

theorem sum_iter :
    (usage.iter.map fun e => schedule.due e.1 e.2).sum = schedule.exactPrice usage := by
  have hkn : ∀ kinds : List ResourceKind,
      ((kinds.filterMap fun kind => (usage.lookup kind).map fun v => (kind, v)).map
        fun e => schedule.due e.1 e.2).sum
      = (kinds.map fun kind => schedule.due kind ((usage.lookup kind).getD 0)).sum := by
    intro kinds
    induction kinds with
    | nil => rfl
    | cons kind kinds ih =>
      cases hun : usage.lookup kind with
      | none =>
        rw [filterMap_cons_none (by rw [hun]; rfl), ih, map_cons, sum_cons,
          hun, Option.getD_none, due_zero, Nat.zero_add]
      | some units =>
        rw [filterMap_cons_some (by rw [hun]; rfl), map_cons, sum_cons, ih, map_cons, sum_cons, hun]
        rfl
  have hall : usage.keys ⊆ ResourceKind.all.toFinset := by
    intro kind _
    cases kind <;> decide
  unfold KindMap.iter exactPrice
  rw [hkn, Finset.sum_subset hall, sum_toFinset _ (by decide)]
  intro kind _ hout
  have hno : usage.lookup kind = none :=
    Finmap.lookup_eq_none.mpr fun hmem => hout (Finmap.mem_keys.mpr hmem)
  rw [hno]
  exact schedule.due_zero kind

variable {schedule}

theorem toNat_amount_evaluate (h : schedule.evaluate usage = .ok bill) :
    bill.amount.toNat = min (schedule.exactPrice usage) limit := by
  obtain ⟨-, hamt⟩ := schedule.evaluateFrom_eq_ok h
  have hln : (usage.iter.map fun e => (schedule.line e).amount).map UInt64.toNat
      = (usage.iter.map fun e => schedule.due e.1 e.2).map fun t => min t limit := by
    rw [map_map, map_map]
    exact map_congr_left fun e _ => schedule.toNat_amount_line e
  rw [hamt, toNat_foldl_satAdd, UInt64.toNat_zero, Nat.zero_add, hln, min_sum_min, sum_iter]

theorem sum_lines_evaluate (h : schedule.evaluate usage = .ok bill)
    (hle : schedule.exactPrice usage ≤ limit) :
    (bill.lineItems.map fun item => item.amount.toNat).sum = schedule.exactPrice usage := by
  obtain ⟨hitm, -⟩ := schedule.evaluateFrom_eq_ok h
  have hln : bill.lineItems.map (fun item => item.amount.toNat)
      = (usage.iter.map fun e => schedule.due e.1 e.2).map fun t => min t limit := by
    rw [hitm, nil_append, map_map, map_map]
    exact map_congr_left fun e _ => schedule.toNat_amount_line e
  rw [hln, sum_min_of_le, sum_iter]
  rw [sum_iter]
  exact hle

end TariffSchedule

theorem amounts_issueItems :
    (issueItems payer currency ik log items).2.map UsageReceipt.amount
      = items.map fun item => some item.amount := by
  induction items generalizing log with
  | nil => rfl
  | cons item items ih =>
    rw [issueItems, map_cons, map_cons, ih]
    rfl

def receipted (receipts : List UsageReceipt) : Nat :=
  (receipts.map fun r => (r.amount.getD 0).toNat).sum

variable {payer : List UInt8} {bill : Bill}

theorem receipted_issueForBill {log : ReceiptLog} {ik : IdentityKey} :
    receipted (log.issueForBill payer bill ik).2
      = (bill.lineItems.map fun item => item.amount.toNat).sum := by
  have hsp : ∀ receipts : List UsageReceipt,
      receipted receipts
        = ((receipts.map UsageReceipt.amount).map fun a => (a.getD 0).toNat).sum := by
    intro receipts
    rw [map_map]
    rfl
  rw [hsp, issueForBill, amounts_issueItems, map_map]
  rfl

namespace PrepaidLedger

theorem debit_eq_ok {l l' : PrepaidLedger} {record : DebitRecord}
    (h : l.debit payer bill = (l', .ok record)) :
    record.amount = bill.amount ∧ (l'.balance payer).toNat + bill.amount.toNat
      = (l.balance payer).toNat := by
  rw [debit] at h
  split at h
  · simp at h
  split at h
  · simp at h
  rename_i heno
  have hle : bill.amount ≤ l.balance payer := UInt64.not_lt.mp heno
  have hnat : bill.amount.toNat ≤ (l.balance payer).toNat := UInt64.le_iff_toNat_le.mp hle
  injection h with hl hrec
  injection hrec with hrec
  have hbal : l'.balance payer = l.balance payer - bill.amount := by
    rw [← hl]
    show ((l.balances.insert payer (l.balance payer - bill.amount)).lookup payer).getD 0 = _
    rw [Finmap.lookup_insert]
    rfl
  refine ⟨by rw [← hrec], ?_⟩
  rw [hbal, UInt64.toNat_sub_of_le _ _ hle]
  exact Nat.sub_add_cancel hnat

theorem debitAndReceipt_eq_ok {l l' : PrepaidLedger} {log log' : ReceiptLog} {ik : IdentityKey}
    {record : DebitRecord} {receipts : List UsageReceipt}
    (h : l.debitAndReceipt payer bill log ik = (l', log', .ok (record, receipts))) :
    l.debit payer bill = (l', .ok record) ∧ receipts = (log.issueForBill payer bill ik).2 := by
  rw [debitAndReceipt] at h
  split at h
  · simp at h
  rename_i hdb
  simp only [Prod.mk.injEq, Except.ok.injEq] at h
  obtain ⟨hl, -, hrec, hrc⟩ := h
  rw [hdb, hl, hrec]
  exact ⟨rfl, hrc.symm⟩

end PrepaidLedger

/-- **What is debited is what is receipted, exactly if the exact price is a word.** -/
theorem debited_is_receipted_iff (schedule : TariffSchedule) (usage : KindMap) (bill : Bill)
    (heval : schedule.evaluate usage = .ok bill) :
    (bill.amount.toNat = schedule.exactPrice usage
      ∧ ∀ (l l' : PrepaidLedger) (payer : List UInt8) (log log' : ReceiptLog) (ik : IdentityKey)
          (record : DebitRecord) (receipts : List UsageReceipt),
        l.debitAndReceipt payer bill log ik = (l', log', .ok (record, receipts)) →
          record.amount.toNat = schedule.exactPrice usage
          ∧ (l'.balance payer).toNat + schedule.exactPrice usage = (l.balance payer).toNat
          ∧ (∀ r ∈ receipts, r.amount.isSome = true)
          ∧ receipted receipts = record.amount.toNat)
    ↔ schedule.exactPrice usage ≤ limit := by
  have hamt := TariffSchedule.toNat_amount_evaluate heval
  constructor
  · intro hgv
    obtain ⟨hex, -⟩ := hgv
    rw [← hex]
    exact toNat_le_limit bill.amount
  · intro hle
    have hex : bill.amount.toNat = schedule.exactPrice usage := by
      rw [hamt, Nat.min_eq_left hle]
    refine ⟨hex, fun l l' payer log log' ik record receipts h => ?_⟩
    obtain ⟨hdb, hrc⟩ := PrepaidLedger.debitAndReceipt_eq_ok h
    obtain ⟨hrec, hbal⟩ := PrepaidLedger.debit_eq_ok hdb
    rw [hex] at hbal
    refine ⟨by rw [hrec, hex], hbal, fun r hr => ?_, ?_⟩
    · have hmem : r.amount ∈ receipts.map UsageReceipt.amount := mem_map_of_mem hr
      rw [hrc, issueForBill, amounts_issueItems] at hmem
      obtain ⟨item, -, heq⟩ := mem_map.mp hmem
      rw [← heq]
      rfl
    · rw [hrc, receipted_issueForBill, TariffSchedule.sum_lines_evaluate heval hle, hrec, hex]

def smallSchedule : TariffSchedule where
  currency := "USD"
  prices := ((∅ : KindMap).insert .bytesForwarded 2).insert .messages 5
  freeAllowance := (∅ : KindMap).insert .bytesForwarded 10

def smallUsage : KindMap := ((∅ : KindMap).insert .messages 3).insert .bytesForwarded 15

def someKey : IdentityKey where
  publicKey := [7]
  signReceipt := fun identity _ => identity

def toppedUp (amount : UInt64) : PrepaidLedger :=
  ((PrepaidLedger.new "USD" 0).topUp [1] amount "f1").1

theorem small_bill_receipted :
    ∃ bill l' log' record receipts, smallSchedule.evaluate smallUsage = .ok bill
      ∧ (toppedUp 100).debitAndReceipt [1] bill new someKey
          = (l', log', .ok (record, receipts))
      ∧ record.amount.toNat = 25 ∧ receipted receipts = 25 ∧ (l'.balance [1]).toNat + 25 = 100 := by
  have hex : smallSchedule.exactPrice smallUsage = 25 := by decide
  obtain ⟨bill, hev⟩ : ∃ bill, smallSchedule.evaluate smallUsage = .ok bill := ⟨_, rfl⟩
  obtain ⟨l', log', record, receipts, hdb⟩ : ∃ l' log' record receipts,
      (toppedUp 100).debitAndReceipt [1] bill new someKey
        = (l', log', .ok (record, receipts)) := by
    rw [← Except.ok.inj hev]
    exact ⟨_, _, _, _, rfl⟩
  obtain ⟨hrec, hbal, -, hrc⟩ :=
    ((debited_is_receipted_iff smallSchedule smallUsage bill hev).mpr
      (by rw [hex]; decide)).2 _ _ _ _ _ _ _ _ hdb
  rw [hex] at hrec hbal
  exact ⟨bill, l', log', record, receipts, hev, hdb, hrec, hrc.trans hrec, hbal⟩

def dearSchedule : TariffSchedule where
  currency := "USD"
  prices := ((∅ : KindMap).insert .bytesForwarded (UInt64.ofNat limit)).insert .messages
    (UInt64.ofNat limit)
  freeAllowance := ∅

def dearUsage : KindMap := ((∅ : KindMap).insert .messages 1).insert .bytesForwarded 1

/-- **The receipts add up to twice the debit.** -/
theorem receipts_exceed_debit :
    dearSchedule.exactPrice dearUsage = 2 * limit
      ∧ ((dearSchedule.evaluate dearUsage).toOption.map fun bill =>
          let result :=
            (toppedUp (UInt64.ofNat limit)).debitAndReceipt [1] bill new someKey
          (bill.amount.toNat, result.2.2.toOption.map fun ok =>
            (ok.1.amount.toNat, receipted ok.2)))
        = some (limit, some (limit, 2 * limit)) := by
  decide

end VulosRelay.Billing
