import VulosRelay.Billing.Prepaid

/-!
# What becomes of prepaid credit

A call on the ledger posts at most one entry: a credit, a debit or a refund. `entry`
says which, and the rest is about posting. What the records of a payer say is left,
less the balance, is the payer's `shortfall`. A debit and a refund keep it, and a
credit raises it by what the saturating addition cuts off. So it starts at zero and
never falls: the records always cover the balance, and they match it for as long as
no credit has been cut off, and never again after that.
-/

namespace VulosRelay.Billing

open Amount List Option PrepaidLedger Finset

namespace PrepaidLedger

def funded (l : PrepaidLedger) (payer : List UInt8) : Nat :=
  tally TopUpRecord.payer TopUpRecord.amount payer l.topUps

def debited (l : PrepaidLedger) (payer : List UInt8) : Nat :=
  tally DebitRecord.payer DebitRecord.amount payer l.debits

def refunded (l : PrepaidLedger) (payer : List UInt8) : Nat :=
  tally RefundRecord.payer RefundRecord.amount payer l.refunds

def txSeqs (l : PrepaidLedger) : List Nat :=
  l.topUps.map TopUpRecord.txSeq ++ l.debits.map DebitRecord.txSeq
    ++ l.refunds.map RefundRecord.txSeq

end PrepaidLedger

/-! ## Entries -/

inductive Entry where
  | credit (payer : List UInt8) (amount : UInt64) (fundingRef : String)
  | debit (payer : List UInt8) (amount : UInt64)
  | refund (payer : List UInt8) (amount : UInt64)

variable {l : PrepaidLedger} {e : Entry}

def Entry.payer : Entry → List UInt8
  | .credit payer _ _ => payer
  | .debit payer _ => payer
  | .refund payer _ => payer

def Entry.value : Entry → Int
  | .credit _ amount _ => amount.toNat
  | .debit _ amount => -amount.toNat
  | .refund _ amount => -amount.toNat

namespace PrepaidLedger

def after (l : PrepaidLedger) : Entry → UInt64
  | .credit payer amount _ => satAdd (l.balance payer) amount
  | .debit payer amount => l.balance payer - amount
  | .refund payer amount => l.balance payer - amount

def post (l : PrepaidLedger) (e : Entry) : PrepaidLedger :=
  let l' := { l with
    balances := l.balances.insert e.payer (l.after e)
    nextTxSeq := l.nextTxSeq + 1 }
  match e with
  | .credit payer amount fundingRef =>
    { l' with
      topUps := l.topUps ++ [⟨payer, amount, l.currency, fundingRef, l.nextTxSeq⟩]
      creditedRefs := insert fundingRef l.creditedRefs }
  | .debit payer amount =>
    { l' with debits := l.debits ++ [⟨payer, amount, l.currency, l.nextTxSeq⟩] }
  | .refund payer amount =>
    { l' with refunds := l.refunds ++ [⟨payer, amount, l.currency, l.nextTxSeq⟩] }

def entry (l : PrepaidLedger) : LedgerOp → Option Entry
  | .topUp payer amount fundingRef =>
    if fundingRef ∈ l.creditedRefs then none else some (.credit payer amount fundingRef)
  | .debit payer bill | .debitAndReceipt payer bill _ _ =>
    if bill.currency = l.currency ∧ bill.amount ≤ l.balance payer then
      some (.debit payer bill.amount)
    else none
  | .refund payer amount =>
    if amount ≤ l.balance payer then some (.refund payer amount) else none

/-- The entries that may be posted. -/
def Admissible (l : PrepaidLedger) : Entry → Prop
  | .credit _ _ fundingRef => fundingRef ∉ l.creditedRefs
  | .debit payer amount => amount ≤ l.balance payer
  | .refund payer amount => amount ≤ l.balance payer

section

variable (l : PrepaidLedger)

section

variable (payer : List UInt8)

theorem topUp_fst {amount : UInt64} : (l.topUp payer amount fundingRef).1
      = (l.entry (.topUp payer amount fundingRef)).elim l l.post := by
  rw [topUp, entry]
  split <;> rfl

theorem debit_fst :
    (l.debit payer bill).1 = (l.entry (.debit payer bill)).elim l l.post := by
  rw [debit, entry]
  split
  · rename_i hcur
    rw [if_neg fun h => hcur h.1]
    rfl
  rename_i hcur
  split
  · rename_i hsh
    rw [if_neg fun h => absurd hsh (UInt64.not_lt.mpr h.2)]
    rfl
  rename_i heno
  rw [if_pos ⟨Decidable.not_not.mp hcur, UInt64.not_lt.mp heno⟩]
  rfl

theorem debitAndReceipt_fst :
    (l.debitAndReceipt payer bill log ik).1 = (l.debit payer bill).1 := by
  unfold debitAndReceipt
  split <;> next heq => rw [heq]

theorem refund_fst {amount : UInt64} :
    (l.refund payer amount).1 = (l.entry (.refund payer amount)).elim l l.post := by
  rw [refund, entry]
  split
  · rename_i hsh
    rw [if_neg (UInt64.not_le.mpr hsh)]
    rfl
  rename_i heno
  rw [if_pos (UInt64.not_lt.mp heno)]
  rfl

end

theorem step_eq : l.step op = (l.entry op).elim l l.post := by
  cases op with
  | topUp payer amount fundingRef => exact topUp_fst l payer
  | debit payer bill => exact debit_fst l payer
  | debitAndReceipt payer bill log ik =>
    exact (debitAndReceipt_fst l payer).trans (debit_fst l payer)
  | refund payer amount => exact refund_fst l payer

end

theorem entry_admissible (h : l.entry op = some e) : l.Admissible e ∧ e.payer = op.payer := by
  cases op with
  | topUp payer amount fundingRef =>
    obtain ⟨hfr, he⟩ := ite_none_left_eq_some.mp h
    exact some.inj he ▸ ⟨hfr, rfl⟩
  | debit payer bill | debitAndReceipt payer bill log ik =>
    obtain ⟨heno, he⟩ := ite_none_right_eq_some.mp h
    exact some.inj he ▸ ⟨heno.2, rfl⟩
  | refund payer amount =>
    obtain ⟨heno, he⟩ := ite_none_right_eq_some.mp h
    exact some.inj he ▸ ⟨heno, rfl⟩

theorem step_induction {P : PrepaidLedger → Prop} (h : P l)
    (hps : ∀ e, l.Admissible e → P (l.post e)) {op : LedgerOp} : P (l.step op) := by
  rw [step_eq]
  cases he : l.entry op with
  | none => exact h
  | some e => exact hps e (entry_admissible he).1

/-! ## Balances -/

theorem balances_post :
    (l.post e).balances = l.balances.insert e.payer (l.after e) := by
  cases e with
  | credit payer amount fundingRef => rfl
  | debit payer amount => rfl
  | refund payer amount => rfl

theorem balance_post :
    (l.post e).balance payer = if payer = e.payer then l.after e else l.balance payer := by
  unfold balance
  rw [balances_post]
  by_cases hp : payer = e.payer
  · rw [hp, Finmap.lookup_insert, if_pos rfl]
    rfl
  · rw [Finmap.lookup_insert_of_ne _ hp, if_neg hp]

theorem balance_step_of_ne (h : payer ≠ op.payer) :
    (l.step op).balance payer = l.balance payer := by
  rw [step_eq]
  cases he : l.entry op with
  | none => rfl
  | some e =>
    show (l.post e).balance payer = l.balance payer
    rw [balance_post, if_neg ((entry_admissible he).2 ▸ h)]

def left (l : PrepaidLedger) (payer : List UInt8) : Int :=
  l.funded payer - l.debited payer - l.refunded payer

theorem left_post_self :
    (l.post e).left e.payer = l.left e.payer + e.value := by
  unfold left funded debited refunded
  cases e with
  | credit payer amount fundingRef | debit payer amount | refund payer amount =>
    simp only [post, tally_concat, Entry.payer, Entry.value, ↓reduceIte]
    omega

theorem left_post_of_ne (h : e.payer ≠ payer) :
    (l.post e).left payer = l.left payer := by
  unfold left funded debited refunded
  cases e with
  | credit payer' amount fundingRef | debit payer' amount | refund payer' amount =>
    have hne : payer' ≠ payer := h
    simp only [post, tally_concat, if_neg hne, Nat.add_zero]

def cutOff (l : PrepaidLedger) : Entry → Nat
  | .credit payer amount _ => (l.balance payer).toNat + amount.toNat - limit
  | .debit _ _ => 0
  | .refund _ _ => 0

theorem toNat_after (h : l.Admissible e) :
    ((l.after e).toNat : Int) = (l.balance e.payer).toNat + e.value - l.cutOff e := by
  cases e with
  | credit payer amount fundingRef =>
    simp only [after, toNat_satAdd, Entry.payer, Entry.value, cutOff]
    omega
  | debit payer amount | refund payer amount =>
    have hle : amount.toNat ≤ (l.balance payer).toNat := UInt64.le_iff_toNat_le.mp h
    simp only [after, UInt64.toNat_sub_of_le _ _ h, Entry.payer, Entry.value, cutOff]
    omega

def shortfall (l : PrepaidLedger) (payer : List UInt8) : Int :=
  l.left payer - (l.balance payer).toNat

theorem shortfall_post (h : l.Admissible e) {payer : List UInt8} : (l.post e).shortfall payer
      = l.shortfall payer + if e.payer = payer then (l.cutOff e : Int) else 0 := by
  unfold shortfall
  rw [balance_post]
  by_cases hp : e.payer = payer
  · rw [← hp, if_pos rfl, if_pos rfl, left_post_self, toNat_after h]
    omega
  · rw [if_neg (Ne.symm hp), if_neg hp, left_post_of_ne hp]
    omega

theorem shortfall_le_step (l : PrepaidLedger) (op : LedgerOp) (payer : List UInt8) :
    l.shortfall payer ≤ (l.step op).shortfall payer := by
  refine step_induction (P := fun l' => l.shortfall payer ≤ l'.shortfall payer)
    (Int.le_refl _) (fun e h => ?_)
  rw [shortfall_post h]
  split <;> omega

theorem shortfall_le_run (ops : List LedgerOp) (l : PrepaidLedger) (payer : List UInt8) :
    l.shortfall payer ≤ (l.run ops).shortfall payer := by
  induction ops generalizing l with
  | nil => exact Int.le_refl _
  | cons op ops ih => exact Int.le_trans (shortfall_le_step l op payer) (ih (l.step op))

theorem shortfall_new {currency : String} {threshold : UInt64} {payer : List UInt8} :
    (new currency threshold).shortfall payer = 0 := rfl

/-! ## References and transaction numbers -/

/-- The records are numbered apart, and there is one for each reference that has been credited. -/
structure Numbered (l : PrepaidLedger) : Prop where
  refs : (l.topUps.map TopUpRecord.fundingRef).Nodup
  credited : ∀ fundingRef, fundingRef ∈ l.creditedRefs ↔
    fundingRef ∈ l.topUps.map TopUpRecord.fundingRef
  seqs : l.txSeqs.Nodup
  below : ∀ seq ∈ l.txSeqs, seq < l.nextTxSeq

theorem nextTxSeq_post :
    (l.post e).nextTxSeq = l.nextTxSeq + 1 := by
  cases e with
  | credit payer amount fundingRef => rfl
  | debit payer amount => rfl
  | refund payer amount => rfl

theorem txSeqs_post (l : PrepaidLedger) (e : Entry) :
    (l.post e).txSeqs.Perm (l.nextTxSeq :: l.txSeqs) := by
  unfold txSeqs
  cases e with
  | credit payer amount fundingRef =>
    simp only [post, map_append, append_assoc]
    exact perm_middle
  | debit payer amount =>
    simp only [post, map_append, append_assoc]
    exact (perm_middle.append_left _).trans perm_middle
  | refund payer amount =>
    simp only [post, map_append, ← append_assoc]
    exact perm_append_singleton _ _

theorem numbered_new (currency : String) (threshold : UInt64) :
    Numbered (new currency threshold) where
  refs := nodup_nil
  credited fundingRef := by
    constructor
    · intro h
      exact absurd h (notMem_empty _)
    · intro h
      cases h
  seqs := nodup_nil
  below seq h := absurd h not_mem_nil

theorem numbered_post (h : Numbered l) (hadm : l.Admissible e) : Numbered (l.post e) := by
  have hpr := txSeqs_post l e
  have hfr : l.nextTxSeq ∉ l.txSeqs := fun hmem => lt_irrefl _ (h.below _ hmem)
  have hsq : (l.post e).txSeqs.Nodup :=
    hpr.nodup_iff.mpr (nodup_cons.mpr ⟨hfr, h.seqs⟩)
  have hbl : ∀ seq ∈ (l.post e).txSeqs, seq < (l.post e).nextTxSeq := by
    intro seq hmem
    rw [nextTxSeq_post]
    rcases mem_cons.mp (hpr.mem_iff.mp hmem) with hnew | hold
    · rw [hnew]
      exact Nat.lt_succ_self _
    · exact Nat.lt_succ_of_lt (h.below seq hold)
  cases e with
  | debit payer amount | refund payer amount => exact ⟨h.refs, h.credited, hsq, hbl⟩
  | credit payer amount fundingRef =>
    have hnew : fundingRef ∉ l.topUps.map TopUpRecord.fundingRef :=
      fun hmem => hadm ((h.credited fundingRef).mpr hmem)
    refine ⟨?_, fun r => ?_, hsq, hbl⟩
    · show ((l.topUps ++ [_]).map TopUpRecord.fundingRef).Nodup
      rw [map_append]
      exact (perm_append_singleton _ _).nodup_iff.mpr (nodup_cons.mpr ⟨hnew, h.refs⟩)
    show r ∈ insert fundingRef l.creditedRefs ↔
      r ∈ (l.topUps ++ [_]).map TopUpRecord.fundingRef
    rw [mem_insert, h.credited, map_append, mem_append, or_comm]
    simp

theorem numbered_run (ops : List LedgerOp) (h : Numbered l) : Numbered (l.run ops) := by
  induction ops generalizing l with
  | nil => exact h
  | cons op ops ih => exact ih (step_induction h (fun e hadm => numbered_post h hadm))

theorem topUp_replay (h : Numbered l) (hr : r ∈ l.topUps) (payer : List UInt8) (amount : UInt64) :
    l.topUp payer amount r.fundingRef = (l, some r) := by
  have hcr : r.fundingRef ∈ l.creditedRefs :=
    (h.credited _).mpr (mem_map_of_mem hr)
  rw [topUp, if_pos hcr]
  obtain ⟨r', hfn⟩ : ∃ r', l.topUps.find? (fun r' => r'.fundingRef = r.fundingRef) = some r' :=
    isSome_iff_exists.mp (find?_isSome.mpr ⟨r, hr, by simp⟩)
  have href : r'.fundingRef = r.fundingRef := by simpa using find?_some hfn
  have heq : r' = r :=
    inj_on_of_nodup_map h.refs (mem_of_find?_eq_some hfn) hr href
  rw [hfn, heq]

theorem creditedRefs_step {l : PrepaidLedger} (op : LedgerOp) :
    l.creditedRefs ⊆ (l.step op).creditedRefs := by
  refine step_induction (P := fun l' => l.creditedRefs ⊆ l'.creditedRefs)
    (Subset.refl _) (fun e h => ?_)
  cases e with
  | credit payer amount fundingRef => exact subset_insert _ _
  | debit payer amount | refund payer amount => exact Subset.refl _

theorem creditedRefs_run (l : PrepaidLedger) :
    l.creditedRefs ⊆ (l.run ops).creditedRefs := by
  induction ops generalizing l with
  | nil => exact Subset.refl _
  | cons op ops ih => exact (creditedRefs_step op).trans (ih (l.step op))

theorem mem_creditedRefs_run (h : .topUp payer amount fundingRef ∈ ops) (l : PrepaidLedger) :
    fundingRef ∈ (l.run ops).creditedRefs := by
  induction ops generalizing l with
  | nil => cases h
  | cons op ops ih =>
    rcases mem_cons.mp h with heq | hmem
    · refine creditedRefs_run (l.step op) ?_
      rw [← heq]
      show fundingRef ∈ (l.topUp payer amount fundingRef).1.creditedRefs
      rw [topUp]
      split
      · next hold => exact hold
      · exact mem_insert_self _ _
    · exact ih hmem (l.step op)

end PrepaidLedger

/-! ## Every history -/

/-- **Credit is never spent beyond what was funded.** After any calls the balance, the debits and
the refunds of a payer are covered by its top-ups; a reference has one record, and naming it again
returns that record and changes nothing; the transaction numbers are distinct; and a call leaves
the other payers' balances alone. -/
theorem credit_never_overspent (currency : String) (threshold : UInt64) (ops : List LedgerOp) :
    let l := (new currency threshold).run ops
    (∀ payer, (l.balance payer).toNat + l.debited payer + l.refunded payer ≤ l.funded payer)
    ∧ (l.topUps.map TopUpRecord.fundingRef).Nodup
    ∧ (∀ payer amount fundingRef, .topUp payer amount fundingRef ∈ ops →
        ∃ r ∈ l.topUps, r.fundingRef = fundingRef ∧
          ∀ payer' amount', l.topUp payer' amount' fundingRef = (l, some r))
    ∧ l.txSeqs.Nodup
    ∧ ∀ op payer, payer ≠ op.payer → (l.step op).balance payer = l.balance payer := by
  intro l
  have hnum : l.Numbered := numbered_run ops (numbered_new _ _)
  refine ⟨fun payer => ?_, hnum.refs, fun payer amount fundingRef hop => ?_, hnum.seqs,
    fun op payer hne => balance_step_of_ne hne⟩
  · have hle : 0 ≤ l.shortfall payer :=
      shortfall_le_run ops (new currency threshold) payer
    unfold shortfall left at hle
    omega
  · have hcr : fundingRef ∈ l.creditedRefs := mem_creditedRefs_run hop _
    obtain ⟨r, hr, href⟩ := mem_map.mp ((hnum.credited fundingRef).mp hcr)
    refine ⟨r, hr, href, fun payer' amount' => ?_⟩
    rw [← href]
    exact topUp_replay hnum hr payer' amount'

namespace PrepaidLedger

/-- A top-up that is going to be credited fits on the balance. -/
def Fits (l : PrepaidLedger) : LedgerOp → Prop
  | .topUp payer amount fundingRef =>
    fundingRef ∉ l.creditedRefs → (l.balance payer).toNat + amount.toNat ≤ limit
  | .debit _ _ => True
  | .debitAndReceipt _ _ _ _ => True
  | .refund _ _ => True

/-- Every call of a sequence fits when its turn comes. -/
def AllFit : PrepaidLedger → List LedgerOp → Prop
  | _, [] => True
  | l, op :: ops => l.Fits op ∧ AllFit (l.step op) ops

theorem cutOff_eq_zero_iff (h : l.entry op = some e) : l.cutOff e = 0 ↔ l.Fits op := by
  cases op with
  | topUp payer amount fundingRef =>
    obtain ⟨hfr, he⟩ := ite_none_left_eq_some.mp h
    cases he
    show (l.balance payer).toNat + amount.toNat - limit = 0 ↔ (_ → _)
    rw [Nat.sub_eq_zero_iff_le]
    exact ⟨fun hle _ => hle, fun hft => hft hfr⟩
  | debit payer bill | debitAndReceipt payer bill log ik | refund payer amount =>
    obtain ⟨-, he⟩ := ite_none_right_eq_some.mp h
    cases he
    exact ⟨fun _ => trivial, fun _ => rfl⟩

theorem fits_of_entry_none (h : l.entry op = none) : l.Fits op := by
  cases op with
  | topUp payer amount fundingRef =>
    intro hfr
    rw [entry, if_neg hfr] at h
    simp at h
  | debit payer bill | debitAndReceipt payer bill log ik | refund payer amount => trivial

theorem shortfall_step_iff :
    (∀ payer, (l.step op).shortfall payer = l.shortfall payer) ↔ l.Fits op := by
  rw [step_eq]
  cases he : l.entry op with
  | none => exact ⟨fun _ => fits_of_entry_none he, fun _ _ => rfl⟩
  | some e =>
    rw [← cutOff_eq_zero_iff he]
    show (∀ payer, (l.post e).shortfall payer = l.shortfall payer) ↔ l.cutOff e = 0
    constructor
    · intro hkp
      have hsl := hkp e.payer
      rw [shortfall_post (entry_admissible he).1, if_pos rfl] at hsl
      omega
    · intro hzr payer
      rw [shortfall_post (entry_admissible he).1, hzr]
      split <;> omega

theorem shortfall_run_iff (ops : List LedgerOp) (l : PrepaidLedger) :
    (∀ payer, (l.run ops).shortfall payer = l.shortfall payer) ↔ l.AllFit ops := by
  induction ops generalizing l with
  | nil => exact ⟨fun _ => trivial, fun _ _ => rfl⟩
  | cons op ops ih =>
    show (∀ payer, ((l.step op).run ops).shortfall payer = l.shortfall payer) ↔
      l.Fits op ∧ (l.step op).AllFit ops
    rw [← shortfall_step_iff, ← ih]
    constructor
    · -- No later call makes good what an earlier one has lost.
      intro hkp
      have hst : ∀ payer, (l.step op).shortfall payer = l.shortfall payer := by
        intro payer
        have hle := shortfall_le_run ops (l.step op) payer
        rw [hkp payer] at hle
        exact Int.le_antisymm hle (shortfall_le_step l op payer)
      exact ⟨hst, fun payer => (hkp payer).trans (hst payer).symm⟩
    · intro hgv payer
      obtain ⟨hst, hrs⟩ := hgv
      exact (hrs payer).trans (hst payer)

end PrepaidLedger

/-- **The balances are what the records say, exactly if no top-up is cut off.** After a sequence of
calls every payer's balance is the exact sum of its top-ups less its debits and refunds, if and only
if every top-up that was credited fitted on the balance it was credited to. -/
theorem balances_conserved_iff (currency : String) (threshold : UInt64) (ops : List LedgerOp) :
    (∀ payer,
      ((((new currency threshold).run ops).balance payer).toNat : Int)
        = ((new currency threshold).run ops).funded payer
          - ((new currency threshold).run ops).debited payer
          - ((new currency threshold).run ops).refunded payer)
    ↔ (new currency threshold).AllFit ops := by
  rw [← shortfall_run_iff]
  refine forall_congr' fun payer => ?_
  rw [shortfall_new, shortfall, left]
  omega

theorem top_up_lost :
    let l := (new "USD" 0).run
      [.topUp [1] (UInt64.ofNat limit) "f1", .topUp [1] 1 "f2"]
    l.topUps.map TopUpRecord.amount = [UInt64.ofNat limit, 1]
      ∧ (l.balance [1]).toNat = limit ∧ l.funded [1] = limit + 1
      ∧ l.debited [1] = 0 ∧ l.refunded [1] = 0 := by
  decide

end VulosRelay.Billing
