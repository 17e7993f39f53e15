import VulosRelay.Gateway.Spf
import Mathlib.Data.List.Count

/-!
# SPF work is bounded for every DNS

How much a resolver can be made to do. The counters of the evaluator are shared by all the
branches of an evaluation, so the bound is about them and not about the records:

* each call of the resolver but the first is paid for by a charge before it, so that there
  are at most as many calls as charges, and one (`Within`); an evaluation of a record may
  start only when its own lookup is paid for (`Paid`);
* the eleventh charge and the third void answer each end the evaluation: nothing is asked
  after them and the result is a permanent error (`Stopped`), which every level above hands
  on.

Every part of the evaluator leads from the one to one of the two.
-/

namespace VulosRelay.Gateway.Spf

open List

def Event.isCharge : Event → Bool
  | .charged => true
  | .asked _ _ => false

def Event.isCall : Event → Bool
  | .charged => false
  | .asked _ _ => true

def Event.isVoid : Event → Bool
  | .charged => false
  | .asked _ void => void

def charges (trace : List Event) : Nat := trace.countP Event.isCharge

def calls (trace : List Event) : Nat := trace.countP Event.isCall

def voids (trace : List Event) : Nat := trace.countP Event.isVoid

section
variable (trace : List Event) (query : Query) (void : Bool)

@[simp] theorem charges_charged : charges (trace ++ [.charged]) = charges trace + 1 := by
  simp [charges, countP_append, Event.isCharge]

@[simp] theorem charges_asked : charges (trace ++ [.asked query void]) = charges trace := by
  simp [charges, countP_append, Event.isCharge]

@[simp] theorem calls_charged : calls (trace ++ [.charged]) = calls trace := by
  simp [calls, countP_append, Event.isCall]

@[simp] theorem calls_asked : calls (trace ++ [.asked query void]) = calls trace + 1 := by
  simp [calls, countP_append, Event.isCall]

@[simp] theorem voids_charged : voids (trace ++ [.charged]) = voids trace := by
  simp [voids, countP_append, Event.isVoid]

@[simp] theorem voids_asked :
    voids (trace ++ [.asked query void]) = voids trace + if void then 1 else 0 := by
  cases void <;> simp [voids, countP_append, Event.isVoid]

end

/-- The evaluation is within both limits, and all calls but one are paid for. -/
structure Within (ev : Evaluator) : Prop where
  lookups : ev.lookups = charges ev.trace
  voidLookups : ev.voidLookups = voids ev.trace
  charges_le : charges ev.trace ≤ maxLookups
  voids_le : voids ev.trace ≤ maxVoidLookups
  calls_le : calls ev.trace ≤ charges ev.trace + 1

structure Paid (ev : Evaluator) : Prop extends Within ev where
  calls_paid : calls ev.trace ≤ charges ev.trace

/-- **A limit was passed**: by the last charge, or by the last answer. -/
structure Stopped (ev : Evaluator) : Prop where
  calls_le : calls ev.trace ≤ maxLookups + 1
  calls_paid : calls ev.trace ≤ charges ev.trace + 1
  last :
    (charges ev.trace = maxLookups + 1 ∧ voids ev.trace ≤ maxVoidLookups ∧
        ev.trace.getLast? = some .charged) ∨
      (voids ev.trace = maxVoidLookups + 1 ∧ charges ev.trace ≤ maxLookups ∧
        ∃ query, ev.trace.getLast? = some (.asked query true))

def MechEnds (r : MechOutcome × Evaluator) : Prop :=
  Within r.2 ∨ (Stopped r.2 ∧ r.1 = .abort .permError)

def Ends (r : SpfResult × Evaluator) : Prop :=
  Within r.2 ∨ (Stopped r.2 ∧ r.1 = .permError)

variable {ev : Evaluator}

theorem chargeLookup_cases (h : Within ev) : (∃ ev', ev.chargeLookup = (none, ev') ∧ Paid ev') ∨
      ∃ ev', ev.chargeLookup = (some .permError, ev') ∧ Stopped ev' := by
  have hch : charges ev.chargeLookup.2.trace = charges ev.trace + 1 := charges_charged _
  have hcl : calls ev.chargeLookup.2.trace = calls ev.trace := calls_charged _
  have hvd : voids ev.chargeLookup.2.trace = voids ev.trace := voids_charged _
  have hlk : ev.chargeLookup.2.lookups = ev.lookups + 1 := rfl
  have hvl : ev.chargeLookup.2.voidLookups = ev.voidLookups := rfl
  obtain ⟨hl, hv, hchm, hvdm, hclm⟩ := h
  by_cases hsp : ev.lookups + 1 > maxLookups
  · refine .inr ⟨ev.chargeLookup.2, Prod.ext (if_pos hsp) rfl, by omega, by omega, .inl ?_⟩
    exact ⟨by omega, by omega, getLast?_concat⟩
  · refine .inl ⟨ev.chargeLookup.2, Prod.ext (if_neg hsp) rfl, ?_⟩
    exact ⟨⟨by omega, by omega, by omega, by omega, by omega⟩, by omega⟩

theorem Paid.asked (h : Paid ev) (query : Query) : Within (ev.note (.asked query false)) := by
  have hch : charges (ev.note (.asked query false)).trace = charges ev.trace := charges_asked ..
  have hcl : calls (ev.note (.asked query false)).trace = calls ev.trace + 1 := calls_asked ..
  have hvd : voids (ev.note (.asked query false)).trace = voids ev.trace := voids_asked ..
  have hpd := h.calls_paid
  refine ⟨h.lookups.trans hch.symm, h.voidLookups.trans hvd.symm, ?_, ?_, by omega⟩
  · exact hch.trans_le h.charges_le
  · exact hvd.trans_le h.voids_le

theorem Paid.chargeVoid (h : Paid ev) (query : Query) :
    MechEnds (ev.note (.asked query true)).chargeVoid := by
  have hch : charges (ev.note (.asked query true)).chargeVoid.2.trace = charges ev.trace :=
    charges_asked ..
  have hcl : calls (ev.note (.asked query true)).chargeVoid.2.trace = calls ev.trace + 1 :=
    calls_asked ..
  have hvd : voids (ev.note (.asked query true)).chargeVoid.2.trace = voids ev.trace + 1 :=
    voids_asked ..
  obtain ⟨⟨hl, hv, hchm, hvdm, -⟩, hpd⟩ := h
  by_cases hsp : ev.voidLookups + 1 > maxVoidLookups
  · refine .inr ⟨⟨by omega, by omega, .inr ⟨by omega, by omega, query, ?_⟩⟩, if_pos hsp⟩
    exact getLast?_concat
  · refine .inl ⟨hl.trans hch.symm, ?_, by omega, by omega, by omega⟩
    exact (congrArg (· + 1) hv).trans hvd.symm

theorem askVoidable_ends (h : Paid ev) (hfn : ∀ xs ev, Within ev → MechEnds (found xs ev)) :
    MechEnds (askVoidable query answer found ev) := by
  match answer with
  | none => exact .inl (h.asked query)
  | some [] => exact h.chargeVoid query
  | some (x :: xs) => exact hfn (x :: xs) _ (h.asked query)

section
variable (ips : IpTexts) (resolver : SpfResolver) (ip : Ip.IP)

theorem matchAddressLookup_ends (target : Str) (cidr4 cidr6 : Nat)
    (h : Paid ev) : MechEnds (matchAddressLookup resolver ip target cidr4 cidr6 ev) := by
  cases ip with
  | v4 a | v6 a => exact askVoidable_ends h fun _ _ h => .inl h

theorem charged_ends {k : Evaluator → MechOutcome × Evaluator} (h : Within ev)
    (hk : ∀ ev, Paid ev → MechEnds (k ev)) :
    MechEnds (match ev.chargeLookup with
      | (some e, ev) => (.abort e, ev)
      | (none, ev) => k ev) := by
  rcases chargeLookup_cases h with ⟨ev', hchg, hpd⟩ | ⟨ev', hchg, hst⟩
  · rw [hchg]
    exact hk ev' hpd
  · rw [hchg]
    exact .inr ⟨hst, rfl⟩

theorem matchHosts_ends (cidr4 cidr6 : Nat) (hosts : List Str) :
    ∀ ev, Within ev → MechEnds (matchHosts resolver ip cidr4 cidr6 hosts ev) := by
  induction hosts with
  | nil => exact fun _ h => .inl h
  | cons host hosts ih =>
    intro ev h
    refine charged_ends h fun ev hpd => ?_
    have hen := matchAddressLookup_ends resolver ip (normalize host) cidr4 cidr6 hpd
    rcases hlk : matchAddressLookup resolver ip (normalize host) cidr4 cidr6 ev with ⟨r, ev'⟩
    rw [hlk] at hen
    cases r with
    | matched => exact hen
    | abort r => exact hen
    | noMatch =>
      rcases hen with hin | ⟨-, hab⟩
      · exact ih ev' hin
      · cases hab

variable {check : Str → Evaluator → SpfResult × Evaluator}

section

variable (hchk : ∀ target ev, Paid ev → Ends (check target ev))

include hchk

theorem evalMechanism_ends (current : Str) (m : Mechanism) (h : Within ev) :
    MechEnds (evalMechanism resolver ip check current m ev) := by
  cases m with
  | all => exact .inl h
  | ip4 net cidr | ip6 net cidr => cases ip <;> exact .inl h
  | includes target =>
    refine charged_ends h fun ev hpd => ?_
    rcases hchk target ev hpd with hin | ⟨hst, hres⟩
    · exact .inl hin
    · exact .inr ⟨hst, by rw [hres]; rfl⟩
  | a domain cidr4 cidr6 =>
    exact charged_ends h fun _ hpd =>
      matchAddressLookup_ends resolver ip _ cidr4 cidr6 hpd
  | mx domain cidr4 cidr6 =>
    exact charged_ends h fun _ hpd =>
      askVoidable_ends hpd (matchHosts_ends resolver ip cidr4 cidr6)
  | ptr => exact charged_ends h fun _ hpd => .inl hpd.toWithin
  | «exists» target =>
    exact charged_ends h fun _ hpd => askVoidable_ends hpd fun _ _ h => .inl h

theorem evalMechanisms_ends (current : Str) (mechanisms : List (Qualifier × Mechanism)) :
    ∀ ev, Within ev →
      Within (evalMechanisms resolver ip check current mechanisms ev).2 ∨
        (Stopped (evalMechanisms resolver ip check current mechanisms ev).2 ∧
          (evalMechanisms resolver ip check current mechanisms ev).1 = some .permError) := by
  induction mechanisms with
  | nil => exact fun _ h => .inl h
  | cons qm rest ih =>
    intro ev h
    obtain ⟨q, m⟩ := qm
    rw [evalMechanisms]
    split
    · exact .inl h
    have hen := evalMechanism_ends resolver ip hchk current m h
    rcases hmc : evalMechanism resolver ip check current m ev with ⟨r, ev'⟩
    rw [hmc] at hen
    cases r with
    | matched =>
      rcases hen with hin | ⟨-, hab⟩
      · exact .inl hin
      · cases hab
    | abort r =>
      rcases hen with hin | ⟨hst, hab⟩
      · exact .inl hin
      · injection hab with hab
        exact .inr ⟨hst, by rw [hab]⟩
    | noMatch =>
      rcases hen with hin | ⟨-, hab⟩
      · exact ih ev' hin
      · cases hab

theorem afterMechanisms_ends (h : Within ev) :
    Ends (afterMechanisms check redirect ev) := by
  cases redirect with
  | none => exact .inl h
  | some target =>
    rw [afterMechanisms]
    split
    · exact .inl h
    rcases chargeLookup_cases h with ⟨ev', hchg, hpd⟩ | ⟨ev', hchg, hst⟩
    · rw [hchg]
      exact hchk target ev' hpd
    · rw [hchg]
      exact .inr ⟨hst, rfl⟩

end

/-- **The evaluation of a record whose own lookup is paid for stays within the limits or was
stopped by one**, on every level. -/
theorem checkHostFrom_ends (levels : Nat) :
    ∀ domain ev, Paid ev → Ends (checkHostFrom ips resolver ip levels domain ev) := by
  induction levels with
  | zero => exact fun _ _ h => .inl h.toWithin
  | succ levels ih =>
    intro domain ev h
    rw [checkHostFrom]
    dsimp only
    split
    · exact .inl h.toWithin
    have has := h.asked (.txt (normalize domain))
    split
    · exact .inl has
    split
    · exact .inl has
    · split
      · exact .inl has
      rename_i parsed _
      have hen := evalMechanisms_ends resolver ip ih (normalize domain)
        parsed.mechanisms _ has
      rcases hmc : evalMechanisms resolver ip
        (fun target ev => checkHostFrom ips resolver ip levels target ev)
        (normalize domain) parsed.mechanisms
        (ev.note (.asked (.txt (normalize domain)) false)) with ⟨r, ev'⟩
      rw [hmc] at hen
      cases r with
      | some r =>
        rcases hen with hin | ⟨hst, hres⟩
        · exact .inl hin
        · injection hres with hres
          exact .inr ⟨hst, hres⟩
      | none =>
        rcases hen with hin | ⟨-, hres⟩
        · exact afterMechanisms_ends ih hin
        · cases hres
    · exact .inl has

end

/-- **SPF work is bounded.** For every resolver, address and domain there are at most eleven
calls of the resolver, the first and ten that were charged. The eleventh charge is the last
thing that happens and the result is a permanent error; so is the third void answer. -/
theorem checkHost_bounded (ips : IpTexts) (resolver : SpfResolver) (ip : Ip.IP) (domain : Str) :
    calls (checkHost ips resolver ip domain).2.trace ≤ 11 ∧
    calls (checkHost ips resolver ip domain).2.trace
      ≤ charges (checkHost ips resolver ip domain).2.trace + 1 ∧
    (charges (checkHost ips resolver ip domain).2.trace ≤ 10 ∨
      (charges (checkHost ips resolver ip domain).2.trace = 11 ∧
        (checkHost ips resolver ip domain).2.trace.getLast? = some .charged ∧
        (checkHost ips resolver ip domain).1 = .permError)) ∧
    (voids (checkHost ips resolver ip domain).2.trace ≤ 2 ∨
      (voids (checkHost ips resolver ip domain).2.trace = 3 ∧
        (∃ query, (checkHost ips resolver ip domain).2.trace.getLast?
          = some (.asked query true)) ∧
        (checkHost ips resolver ip domain).1 = .permError)) := by
  have hst : Paid ⟨0, 0, []⟩ :=
    ⟨⟨rfl, rfl, Nat.zero_le _, Nat.zero_le _, Nat.zero_le _⟩, le_rfl⟩
  have hen : Ends (checkHost ips resolver ip domain) :=
    checkHostFrom_ends ips resolver ip maxLevels domain _ hst
  rcases hen with hin | ⟨hstp, hres⟩
  · have hch := hin.charges_le
    have hcl := hin.calls_le
    unfold maxLookups at hch
    exact ⟨by omega, hcl, .inl hch, .inl hin.voids_le⟩
  · have hcl := hstp.calls_le
    rcases hstp.last with ⟨hch, hvd, hls⟩ | ⟨hvd, hch, hls⟩
    · refine ⟨hcl, ?_, .inr ⟨hch, hls, hres⟩, .inl hvd⟩
      rw [hch]
      omega
    · exact ⟨hcl, hstp.calls_paid, .inl hch, .inr ⟨hvd, hls, hres⟩⟩

end VulosRelay.Gateway.Spf
