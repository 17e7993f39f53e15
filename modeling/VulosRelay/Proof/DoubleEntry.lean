import VulosRelay.Billing.Settlement

/-!
# The settlement ledger balances while amounts are signed words

Amounts come in as unsigned words and accounts are signed ones. As long as a deposit
fits on both of its accounts and a charge is no more than the greatest signed word,
every conversion and every operation is exact, and the books are kept: no payer is
below zero, and in each currency the payers and the house account sum to zero. A
charge needs no condition on the house account: the house owes at least what the
payer has.

A charge above that word turns negative, so it is granted to everybody and adds to
the balance.
-/

namespace VulosRelay.Billing

open Amount InMemoryLedger

namespace InMemoryLedger

variable {l : InMemoryLedger}

def worth (currency : String) (account : List UInt8 × String) (balance : Int64) : Int :=
  if account.2 = currency then balance.toInt else 0

def payerTotal (l : InMemoryLedger) (currency : String) : Int :=
  FinMap.sumOf (worth currency) l.balances

theorem worth_lookup :
    ((l.balances.lookup (payer, currency)).map (worth currency' (payer, currency))).getD 0
      = if currency = currency' then (l.balance payer currency).toInt else 0 := by
  unfold balance
  cases l.balances.lookup (payer, currency) with
  | none =>
    show (0 : Int) = if currency = currency' then 0 else 0
    rw [ite_self]
  | some balance => rfl

/-- The books are kept. -/
structure Kept (l : InMemoryLedger) : Prop where
  nonneg : ∀ payer currency, 0 ≤ (l.balance payer currency).toInt
  zero : ∀ currency, l.payerTotal currency + (l.houseBalance currency).toInt = 0

/-- The calls whose amounts fit. -/
def Fits (l : InMemoryLedger) : SettlementOp → Prop
  | .deposit payer amount currency =>
    (l.balance payer currency).toInt + amount.toNat ≤ signedLimit
      ∧ -signedLimit - 1 ≤ (l.houseBalance currency).toInt - amount.toNat
  | .charge _ amount _ => (amount.toNat : Int) ≤ signedLimit
  | .subscription sub => (sub.monthlyAmount.toNat : Int) ≤ signedLimit

theorem kept_new : Kept new where
  nonneg _ _ := Int.le_refl 0
  zero _ := rfl

theorem balance_le_payerTotal (h : Kept l) (payer : List UInt8) (currency : String) :
    (l.balance payer currency).toInt ≤ l.payerTotal currency := by
  have hng : ∀ account balance, l.balances.lookup account = some balance →
      0 ≤ worth currency account balance := by
    intro account balance hlk
    have hbal := h.nonneg account.1 account.2
    unfold InMemoryLedger.balance at hbal
    rw [hlk] at hbal
    unfold worth
    split
    · exact hbal
    · exact Int.le_refl 0
  have hle := FinMap.le_sumOf hng (payer, currency)
  rw [worth_lookup, if_pos rfl] at hle
  exact hle

def moved (l : InMemoryLedger) (payer : List UInt8) (currency : String) (balance house : Int64)
    (nextTxSeq : Nat) : InMemoryLedger :=
  ⟨l.balances.insert (payer, currency) balance, l.house.insert currency house, nextTxSeq⟩

section
variable (l) (payer : List UInt8) (currency : String) (b h : Int64) (n : Nat)

theorem balance_moved :
    (l.moved payer currency b h n).balance payer' currency'
      = if (payer', currency') = (payer, currency) then b else l.balance payer' currency' := by
  unfold balance moved
  by_cases hk : (payer', currency') = (payer, currency)
  · rw [hk, Finmap.lookup_insert, if_pos rfl]
    rfl
  · rw [Finmap.lookup_insert_of_ne _ hk, if_neg hk]

theorem balance_moved_self : (l.moved payer currency b h n).balance payer currency = b := by
  rw [balance_moved, if_pos rfl]

theorem houseBalance_moved :
    (l.moved payer currency b h n).houseBalance currency'
      = if currency' = currency then h else l.houseBalance currency' := by
  unfold houseBalance moved
  by_cases hk : currency' = currency
  · rw [hk, Finmap.lookup_insert, if_pos rfl]
    rfl
  · rw [Finmap.lookup_insert_of_ne _ hk, if_neg hk]

theorem payerTotal_moved :
    (l.moved payer currency b h n).payerTotal currency' = l.payerTotal currency'
      + if currency = currency' then b.toInt - (l.balance payer currency).toInt else 0 := by
  unfold payerTotal moved
  rw [FinMap.sumOf_insert, worth_lookup]
  unfold worth
  by_cases hk : currency = currency'
  · rw [if_pos hk, if_pos hk, if_pos hk]
    omega
  · rw [if_neg hk, if_neg hk, if_neg hk]
    omega

variable {l payer currency b h n}

theorem kept_moved (hkp : Kept l) (hb : 0 ≤ b.toInt)
    (hmr : b.toInt + h.toInt
      = (l.balance payer currency).toInt + (l.houseBalance currency).toInt) :
    Kept (l.moved payer currency b h n) where
  nonneg payer' currency' := by
    rw [balance_moved]
    split
    · exact hb
    · exact hkp.nonneg payer' currency'
  zero currency' := by
    have hzr := hkp.zero currency'
    rw [payerTotal_moved, houseBalance_moved]
    by_cases hk : currency = currency'
    · rw [if_pos hk, if_pos hk.symm]
      rw [← hk] at hzr ⊢
      omega
    · rw [if_neg hk, if_neg (Ne.symm hk)]
      omega

end

theorem kept_deposit (hkp : Kept l) (hft : l.Fits (.deposit payer amount currency)) :
    Kept (l.deposit payer amount currency) := by
  obtain ⟨hhg, hlow⟩ := hft
  have hng := hkp.nonneg payer currency
  have hhs := toInt_le_signedLimit (l.houseBalance currency)
  have hbal := neg_signedLimit_le_toInt (l.balance payer currency)
  have hamt : amount.toInt64.toInt = amount.toNat := toInt_toInt64_of_le (by omega)
  have hb := toInt_add (a := l.balance payer currency) (b := amount.toInt64)
    (by omega) (by omega)
  have hh := toInt_sub (a := l.houseBalance currency) (b := amount.toInt64)
    (by omega) (by omega)
  have hmv : Kept (l.moved payer currency (l.balance payer currency + amount.toInt64)
      (l.houseBalance currency - amount.toInt64) l.nextTxSeq) :=
    kept_moved hkp (by omega) (by omega)
  exact hmv

/-- What a call of `charge` should come to. -/
def Settled (l : InMemoryLedger) (payer : List UInt8) (amount : UInt64) (currency : String) :
    InMemoryLedger × Except LedgerError SettlementReceipt → Prop
  | (l', .ok _) =>
    (amount.toNat : Int) ≤ (l.balance payer currency).toInt
      ∧ (l'.balance payer currency).toInt = (l.balance payer currency).toInt - amount.toNat
      ∧ 0 ≤ (l'.balance payer currency).toInt
  | (l', .error _) => l' = l

theorem charge_spec (hkp : Kept l) (payer : List UInt8) (currency : String)
    (hft : (amount.toNat : Int) ≤ signedLimit) :
    l.Settled payer amount currency (l.charge payer amount currency)
      ∧ Kept (l.charge payer amount currency).1 := by
  have hamt := toInt_toInt64_of_le hft
  rw [charge]
  split
  · exact ⟨rfl, hkp⟩
  rename_i heno
  have hle : amount.toInt64.toInt ≤ (l.balance payer currency).toInt :=
    Int64.le_iff_toInt_le.mp (Int64.not_lt.mp heno)
  have hbal := toInt_le_signedLimit (l.balance payer currency)
  have hhs := neg_signedLimit_le_toInt (l.houseBalance currency)
  have htl := balance_le_payerTotal hkp payer currency
  have hzr := hkp.zero currency
  have hb := toInt_sub (a := l.balance payer currency) (b := amount.toInt64)
    (by omega) (by omega)
  -- The house owes all that the payers have, so it can take the amount back.
  have hh := toInt_add (a := l.houseBalance currency) (b := amount.toInt64)
    (by omega) (by omega)
  have hsl := balance_moved_self l payer currency
    (l.balance payer currency - amount.toInt64)
    (l.houseBalance currency + amount.toInt64) (l.nextTxSeq + 1)
  have hset : l.Settled payer amount currency
      (l.moved payer currency (l.balance payer currency - amount.toInt64)
        (l.houseBalance currency + amount.toInt64) (l.nextTxSeq + 1),
      .ok ⟨payer, amount, currency, l.nextTxSeq⟩) := by
    refine ⟨by omega, ?_, ?_⟩
    · rw [hsl, hb, hamt]
    · rw [hsl]
      omega
  exact ⟨hset, kept_moved hkp (by omega) (by omega)⟩

theorem kept_step (hkp : Kept l) (hft : l.Fits op) : Kept (l.step op) := by
  cases op with
  | deposit payer amount currency => exact kept_deposit hkp hft
  | charge payer amount currency => exact (charge_spec hkp payer currency hft).2
  | subscription sub => exact (charge_spec hkp sub.payer sub.currency hft).2

theorem kept_reachable (h : settlementSystem.Reachable Fits l) : Kept l := by
  refine h.invariant (fun l' hnew => ?_) fun l' op l'' hkp hft hst => ?_
  · rw [hnew]
    exact kept_new
  · cases hst
    exact kept_step hkp hft

/-- A charge of an amount that is no signed word is granted, and no balance covers it. -/
theorem charge_granted_of_gt (l : InMemoryLedger) (h : settlementSystem.Reachable Fits l)
    (payer : List UInt8) (amount : UInt64) (currency : String)
    (hgt : signedLimit < amount.toNat) :
    (l.balance payer currency).toInt < amount.toNat
      ∧ (l.charge payer amount currency).2 = .ok ⟨payer, amount, currency, l.nextTxSeq⟩ := by
  have hamt := toInt_toInt64_of_gt hgt
  have hlt : amount.toNat < 2 ^ 64 := amount.toNat_lt
  have hng := (kept_reachable h).nonneg payer currency
  have hbal := toInt_le_signedLimit (l.balance payer currency)
  refine ⟨by omega, ?_⟩
  rw [charge, if_neg]
  rw [Int64.lt_iff_toInt_lt, hamt]
  omega

theorem deposited_reachable :
    settlementSystem.Reachable Fits (new.deposit [1] 1000 "USDC") :=
  .tail (a := .deposit [1] 1000 "USDC") (.init rfl) ⟨by decide, by decide⟩ rfl

theorem greatest_charge_granted :
    ((new.deposit [1] 1000 "USDC").balance [1] "USDC").toInt = 1000
      ∧ ((new.deposit [1] 1000 "USDC").charge [1] (UInt64.ofNat limit) "USDC").2
        = .ok ⟨[1], UInt64.ofNat limit, "USDC", (new.deposit [1] 1000 "USDC").nextTxSeq⟩ :=
  ⟨by decide, (charge_granted_of_gt _ deposited_reachable [1] _ "USDC" (by decide)).2⟩

end InMemoryLedger

/-- **The ledger never creates money.** In every ledger reached by calls whose amounts fit, the
payers and the house sum to zero in each currency, and a charge of a signed word, direct or by a
subscription, is granted only on a sufficient balance, which it lowers by the amount and not below
zero; refused, it changes nothing. -/
theorem ledger_never_creates_money (l : InMemoryLedger)
    (h : settlementSystem.Reachable Fits l) :
    (∀ currency, l.payerTotal currency + (l.houseBalance currency).toInt = 0)
    ∧ (∀ payer (amount : UInt64) currency, (amount.toNat : Int) ≤ signedLimit →
        l.Settled payer amount currency (l.charge payer amount currency))
    ∧ ∀ sub : Subscription, (sub.monthlyAmount.toNat : Int) ≤ signedLimit →
        l.Settled sub.payer sub.monthlyAmount sub.currency (sub.charge rail l) := by
  have hkp := kept_reachable h
  refine ⟨hkp.zero, fun payer amount currency hft => ?_, fun sub hft => ?_⟩
  · exact (charge_spec hkp payer currency hft).1
  · exact (charge_spec hkp sub.payer sub.currency hft).1

theorem ledger_never_creates_money_deposit :
    ∃ l, settlementSystem.Reachable Fits l
      ∧ l.payerTotal "USDC" + (l.houseBalance "USDC").toInt = 0
      ∧ l.Settled [1] 300 "USDC" (l.charge [1] 300 "USDC") := by
  obtain ⟨hzr, hchg, -⟩ := ledger_never_creates_money _ deposited_reachable
  exact ⟨_, deposited_reachable, hzr "USDC", hchg [1] 300 "USDC" (by decide)⟩

/-- **A charge that pays the payer.** The greatest amount is charged to a payer who has nothing: it
is granted, and the payer has one more than before. -/
theorem charge_creates_money :
    let result := new.charge [1] (UInt64.ofNat limit) "USDC"
    result.2.toOption.isSome = true
      ∧ (new.balance [1] "USDC").toInt = 0
      ∧ (result.1.balance [1] "USDC").toInt = 1 := by
  decide

end VulosRelay.Billing
