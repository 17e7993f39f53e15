import VulosRelay.Gateway.MultiDomain

/-!
# Quota and metering

The model of `QuotaLedger` (`crates/gateway/src/authz.rs`), and of `set_domain_quota`,
`charge_relay` and `UsageMeter` (`crates/gateway/src/multidomain.rs`). A charge is made under the
lock of its ledger and the meter is told afterwards: other calls may come between. Beside the
state runs a list of the charges that succeeded.
-/

namespace VulosRelay.Gateway.Metering

open MultiDomain (folded)

structure Quota where
  freeMessages : UInt64
  hardCapMessages : UInt64
  freeBytes : UInt64
  hardCapBytes : UInt64

structure Usage where
  messages : UInt64
  bytes : UInt64
  deriving DecidableEq

inductive QuotaError where
  | unregistered (account : Str)
  | messageCapExceeded (account : Str) (cap : UInt64)
  | volumeCapExceeded (account : Str) (cap : UInt64)

structure QuotaLedger where
  limits : FinMap Str Quota
  usage : FinMap Str Usage

namespace QuotaLedger

def usageOf (l : QuotaLedger) (account : Str) : Usage := (l.usage.lookup account).getD ⟨0, 0⟩

def upsertQuota (l : QuotaLedger) (account : Str) (quota : Quota) : QuotaLedger :=
  { l with limits := l.limits.insert account quota }

def tryCharge (l : QuotaLedger) (account : Str) (msgBytes : UInt64) :
    QuotaLedger × Except QuotaError Usage :=
  match l.limits.lookup account with
  | none => (l, .error (.unregistered account))
  | some quota =>
    let cur := l.usageOf account
    -- the entry is made before the checks
    let l := { l with usage := l.usage.insert account cur }
    let next : Usage := ⟨Amount.satAdd cur.messages 1, Amount.satAdd cur.bytes msgBytes⟩
    if quota.hardCapMessages ≠ 0 ∧ next.messages > quota.hardCapMessages then
      (l, .error (.messageCapExceeded account quota.hardCapMessages))
    else if quota.hardCapBytes ≠ 0 ∧ next.bytes > quota.hardCapBytes then
      (l, .error (.volumeCapExceeded account quota.hardCapBytes))
    else ({ l with usage := l.usage.insert account next }, .ok next)

end QuotaLedger

inductive BridgeDirection where
  | inbound
  | outbound

structure MeterEvent where
  direction : BridgeDirection
  account : Str
  domain : Str
  msgDigest : List UInt8
  time : UInt64

structure DomainUsage where
  inbound : UInt64
  outbound : UInt64
  messages : UInt64

abbrev UsageMeter := FinMap Str DomainUsage

def UsageMeter.usage (m : UsageMeter) (domain : Str) : DomainUsage :=
  (m.lookup domain).getD ⟨0, 0, 0⟩

def UsageMeter.record (m : UsageMeter) (event : MeterEvent) : UsageMeter :=
  let entry := m.usage (toAsciiLowercase event.domain)
  m.insert (toAsciiLowercase event.domain) <|
    match event.direction with
    | .inbound => ⟨entry.inbound + 1, entry.outbound, entry.messages + 1⟩
    | .outbound => ⟨entry.inbound, entry.outbound + 1, entry.messages + 1⟩

structure Charge where
  tenant : Str
  size : Nat
  event : MeterEvent

structure State where
  ledgers : FinMap Str QuotaLedger
  meter : UsageMeter
  /-- The events that the meter has yet to be told of, and those it was told of. -/
  pending : List MeterEvent
  recorded : List MeterEvent
  charges : List Charge

inductive ChargeError where
  | noSuchDomain (domain : Str)
  | quota (error : QuotaError)

section

variable (msgDigest : List UInt8 → List UInt8)

def chargeAndMeter (s : State) (tenant account domain : Str) (direction : BridgeDirection)
    (rfc5322 : List UInt8) (time : UInt64) : State × Except ChargeError Usage :=
  match s.ledgers.lookup tenant with
  | none => (s, .error (.noSuchDomain tenant))
  | some l =>
    match l.tryCharge account (UInt64.ofNat rfc5322.length) with
    | (l, .error e) => ({ s with ledgers := s.ledgers.insert tenant l }, .error (.quota e))
    | (l, .ok usage) =>
      let event : MeterEvent := ⟨direction, account, domain, msgDigest rfc5322, time⟩
      ({ s with
        ledgers := s.ledgers.insert tenant l
        pending := event :: s.pending
        charges := ⟨tenant, rfc5322.length, event⟩ :: s.charges }, .ok usage)

def chargeRelay (s : State) (domain : Str) (direction : BridgeDirection) (rfc5322 : List UInt8)
    (time : UInt64) : State × Except ChargeError Usage :=
  match s.ledgers.lookup (folded domain) with
  -- the error names the domain as it was given
  | none => (s, .error (.noSuchDomain domain))
  | some _ => chargeAndMeter msgDigest s (folded domain) (folded domain) (folded domain) direction
      rfc5322 time

def State.record (s : State) (i : Nat) : Option State :=
  s.pending[i]?.map fun event => { s with
    meter := s.meter.record event
    pending := s.pending.eraseIdx i
    recorded := event :: s.recorded }

def setDomainQuota (s : State) (domain : Str) (quota : Quota) : State :=
  match s.ledgers.lookup (folded domain) with
  | none => s
  | some l =>
    { s with ledgers := s.ledgers.insert (folded domain) (l.upsertQuota (folded domain) quota) }

inductive Action where
  | chargeAndMeter (tenant account domain : Str) (direction : BridgeDirection)
      (rfc5322 : List UInt8) (time : UInt64)
  | chargeRelay (domain : Str) (direction : BridgeDirection) (rfc5322 : List UInt8) (time : UInt64)
  | setDomainQuota (domain : Str) (quota : Quota)
  | record (i : Nat)

def metering : System State Action where
  init s := (∀ t l, s.ledgers.lookup t = some l → l.usage = ∅) ∧ s.meter = ∅ ∧ s.pending = [] ∧
    s.recorded = [] ∧ s.charges = []
  step s
    | .chargeAndMeter tenant account domain direction rfc5322 time =>
      some (chargeAndMeter msgDigest s tenant account domain direction rfc5322 time).1
    | .chargeRelay domain direction rfc5322 time =>
      some (chargeRelay msgDigest s domain direction rfc5322 time).1
    | .setDomainQuota domain quota => some (setDomainQuota s domain quota)
    | .record i => s.record i

end

end VulosRelay.Gateway.Metering
