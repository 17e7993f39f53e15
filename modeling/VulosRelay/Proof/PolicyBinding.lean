import VulosRelay.Gateway.Outbound
import VulosRelay.Lib.Outcome

/-!
# An enforce policy and the whole send

A send makes two discoveries, one for the TLS requirement and one for the host patterns,
and each maps every failure to no policy. So the requirement is the one of the first
discovery and the filter the one of the second, and nothing compares the two.

The argument:

* a policy in enforce mode always lists a pattern, so the filter is off only when the
  second discovery found nothing to enforce, and the host dialed is the first candidate
  that the second discovery allows;
* what was dialed is then compared with each of the two discoveries.
-/

namespace VulosRelay.Gateway.MtaSts

def enforces : Option StsPolicy → Bool
  | some ⟨.enforce, _, _⟩ => true
  | _ => false

def allows : Option StsPolicy → Str → Bool
  | some ⟨.enforce, mxPatterns, _⟩, host => anyPatternMatches mxPatterns host
  | _, _ => true

theorem enforces_iff : enforces found = true ↔ ∃ p, found = some p ∧ p.mode = .enforce := by
  constructor
  · intro h
    match found, h with
    | some ⟨.enforce, mxPatterns, maxAge⟩, _ => exact ⟨_, rfl, rfl⟩
  rintro ⟨⟨mode, mxPatterns, maxAge⟩, rfl, hmd⟩
  subst hmd
  rfl

theorem allows_enforced (h : p.mode = .enforce) :
    allows (some p) host = anyPatternMatches p.mxPatterns host := by
  obtain ⟨mode, mxPatterns, maxAge⟩ := p
  subst h
  rfl

theorem allows_of_not_enforces (h : enforces found = false) :
    allows found host = true := by
  match found, h with
  | none, _ => rfl
  | some ⟨.testing, _, _⟩, _ => rfl
  | some ⟨.none, _, _⟩, _ => rfl

theorem Fields.policy_patterns {fields : Fields} {p : StsPolicy} (h : fields.policy = .ok p)
    (hmd : p.mode = .enforce) : p.mxPatterns ≠ [] := by
  rw [Fields.policy] at h
  split at h
  · cases h
  split at h
  · cases h
  split at h
  · cases h
  split at h
  · cases h
  rename_i hls
  cases h
  intro hno
  exact hls ⟨by simp_all, hno⟩

theorem resolve_patterns {answers : Discovery} {domain : Str} {p : StsPolicy}
    (h : resolve answers domain = some p) (hmd : p.mode = .enforce) : p.mxPatterns ≠ [] := by
  rw [resolve] at h
  split at h
  · obtain ⟨body, -, hbd⟩ := Option.bind_eq_some_iff.mp h
    cases hprs : parsePolicy body with
    | error e =>
      rw [hprs] at hbd
      cases hbd
    | ok q =>
      rw [hprs] at hbd
      cases hbd
      obtain ⟨fields, -, hfl⟩ := Except.bind_eq_ok.mp hprs
      exact Fields.policy_patterns hfl hmd
  · cases h

theorem requirementFor_eq :
    (requirementFor answers domain == .required) = enforces (resolve answers domain) := by
  rw [requirementFor]
  match resolve answers domain with
  | none => rfl
  | some ⟨.enforce, _, _⟩ => rfl
  | some ⟨.testing, _, _⟩ => rfl
  | some ⟨.none, _, _⟩ => rfl

theorem eligible_eq {answers : Discovery} {domain : Str} {host : α → Str} {candidates : List α} :
    (if allowedMxPatterns answers domain = [] then candidates
      else candidates.filter fun h =>
        anyPatternMatches (allowedMxPatterns answers domain) (host h))
      = candidates.filter fun h => allows (resolve answers domain) (host h) := by
  cases hfn : enforces (resolve answers domain) with
  | true =>
    obtain ⟨p, hp, hmd⟩ := enforces_iff.mp hfn
    have hpt : allowedMxPatterns answers domain = p.mxPatterns := by
      obtain ⟨mode, mxPatterns, maxAge⟩ := p
      subst hmd
      rw [allowedMxPatterns, hp]
    rw [hpt, if_neg (resolve_patterns hp hmd), hp]
    simp only [allows_enforced hmd]
  | false =>
    have hpt : allowedMxPatterns answers domain = [] := by
      rw [allowedMxPatterns]
      split
      · rename_i hp
        rw [hp] at hfn
        cases hfn
      · rfl
    rw [if_pos hpt]
    exact (List.filter_eq_self.mpr fun h _ => allows_of_not_enforces hfn).symm

end VulosRelay.Gateway.MtaSts

namespace VulosRelay.Gateway.Outbound

open MtaSts

/-- The first candidate that the second discovery allows is dialed, and TLS is required
when the first discovery says so. -/
theorem sendTo_dialed :
    (sendTo out signed domain).2
      = ((out.resolveMx domain).find? fun h => allows (resolve out.second domain) h.host).map
          fun h => ⟨h.host, signed, enforces (resolve out.first domain)⟩ := by
  rw [sendTo, eligible_eq, ← List.head?_filter]
  rw [requirementFor_eq]
  cases (out.resolveMx domain).filter fun h => allows (resolve out.second domain) h.host with
  | nil =>
    dsimp only
    split <;> rfl
  | cons h rest => rfl

theorem send_dialed_iff : (send out toAddr).2 = some call ↔
      ∃ signed domain, out.signed = .ok signed ∧ destination out toAddr = .ok domain ∧
        ∃ h, ((out.resolveMx domain).find? fun h => allows (resolve out.second domain) h.host)
            = some h ∧
          call = ⟨h.host, signed, enforces (resolve out.first domain)⟩ := by
  rw [send]
  cases hsgn : out.signed with
  | error e => simp
  | ok signed =>
    cases hdom : destination out toAddr with
    | error e => simp
    | ok domain =>
      rw [sendTo_dialed, Option.map_eq_some_iff]
      constructor
      · rintro ⟨h, hfst, rfl⟩
        exact ⟨signed, domain, rfl, rfl, h, hfst, rfl⟩
      rintro ⟨_, _, hs, hd, h, hfst, rfl⟩
      injection hs with hs
      injection hd with hd
      subst hs
      subst hd
      exact ⟨h, hfst, rfl⟩

/-- **The policies bind the send**: whatever policy in enforce mode a discovery of the send
found, the host dialed matches one of its patterns and TLS is required. -/
def PolicyBinds (out : Outside) (toAddr : Str) : Prop :=
  ∀ call domain p, (send out toAddr).2 = some call → destination out toAddr = .ok domain →
    (resolve out.first domain = some p ∨ resolve out.second domain = some p) →
    p.mode = .enforce →
    call.requireTls = true ∧ anyPatternMatches p.mxPatterns call.host = true

/-- The two discoveries agree on this send: the second enforces only if the first does, and
of the candidates that the second allows, the first one is allowed by the first discovery. -/
def Agreeing (out : Outside) (domain : Str) : Prop :=
  ∀ h, ((out.resolveMx domain).find? fun h => allows (resolve out.second domain) h.host) = some h →
    (enforces (resolve out.second domain) = true → enforces (resolve out.first domain) = true) ∧
      allows (resolve out.first domain) h.host = true

/-- **An enforce policy binds the send exactly when the two discoveries agree**, or when the
send fails before it makes them. -/
theorem policyBinds_iff (out : Outside) (toAddr : Str) :
    PolicyBinds out toAddr ↔
      ∀ signed domain, out.signed = .ok signed → destination out toAddr = .ok domain →
        Agreeing out domain := by
  constructor
  · intro hbn signed domain hsgn hdom h hfst
    have hdl := send_dialed_iff.mpr ⟨signed, domain, hsgn, hdom, h, hfst, rfl⟩
    constructor
    · intro hsnd
      obtain ⟨p, hp, hmd⟩ := enforces_iff.mp hsnd
      exact (hbn _ domain p hdl hdom (.inr hp) hmd).1
    cases hfn : enforces (resolve out.first domain) with
    | false => exact allows_of_not_enforces hfn
    | true =>
      obtain ⟨p, hp, hmd⟩ := enforces_iff.mp hfn
      rw [hp, allows_enforced hmd]
      exact (hbn _ domain p hdl hdom (.inl hp) hmd).2
  · intro hag call domain p hdl hdom hfn hmd
    obtain ⟨signed, domain', hsgn, hdom', h, hfst, rfl⟩ := send_dialed_iff.mp hdl
    obtain rfl : domain' = domain := by
      rw [hdom] at hdom'
      injection hdom' with heq
      exact heq.symm
    obtain ⟨hreq, hal⟩ := hag signed domain' hsgn hdom h hfst
    rcases hfn with hp | hp
    · -- found by the first discovery, which also set the requirement
      refine ⟨enforces_iff.mpr ⟨p, hp, hmd⟩, ?_⟩
      rw [hp, allows_enforced hmd] at hal
      exact hal
    · -- found by the second discovery, which also filtered the candidates
      refine ⟨hreq (enforces_iff.mpr ⟨p, hp, hmd⟩), ?_⟩
      have hsnd := List.find?_some hfst
      rw [hp, allows_enforced hmd] at hsnd
      exact hsnd

def enforcing : Discovery where
  lookupTxt := fun _ => ["v=STSv1; id=20260101".toList]
  fetchPolicy := fun _ =>
    some "version: STSv1\nmode: enforce\nmx: mail.example.com\nmax_age: 604800\n".toList

def unreachable : Discovery where
  lookupTxt := fun _ => ["v=STSv1; id=20260101".toList]
  fetchPolicy := fun _ => none

def sending (first second : Discovery) (host : Str) : Outside where
  signed := .ok []
  domainToAscii := .ok
  first := first
  second := second
  resolveMx := fun _ => [⟨host, 10⟩]
  deliver := fun _ => .delivered 250

/-- The first fetch fails and the second finds the policy: the host is dialed without TLS
being required. The first finds it and the second fails: a host outside of its patterns is
dialed. -/
theorem policy_not_bound :
    ¬ PolicyBinds (sending unreachable enforcing "mail.example.com".toList)
        "bob@example.com".toList ∧
      ¬ PolicyBinds (sending enforcing unreachable "mx.evil.net".toList)
        "bob@example.com".toList := by
  constructor
  · intro h
    exact absurd (h ⟨"mail.example.com".toList, [], false⟩ "example.com".toList
      ⟨.enforce, ["mail.example.com".toList], 604800⟩ (by decide) (by rfl)
      (.inr (by decide)) rfl).1 (by decide)
  · intro h
    exact absurd (h ⟨"mx.evil.net".toList, [], true⟩ "example.com".toList
      ⟨.enforce, ["mail.example.com".toList], 604800⟩ (by decide) (by rfl)
      (.inl (by decide)) rfl).2 (by decide)

end VulosRelay.Gateway.Outbound
