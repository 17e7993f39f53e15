import VulosRelay.Agent.Supervise

/-!
# The handoff

`superviseFrom` forgets the channel after its first attempt, so the signal is given if the
first attempt registers and never otherwise. A successor that registers on a later attempt
leaves its predecessor waiting until the timeout.
-/

namespace VulosRelay.Agent

open List

variable (opts : Options) (ctx : Option Nat)

def registrations (events : List Event) : List Nat := events.filterMap Event.registeredAt

def signals (events : List Event) : List Nat := events.filterMap Event.closedAt

/-- A registration that comes before the wait is over. -/
def InTime (t : Nat) : Prop := t < handoffTimeout ∧ ∀ c ∈ ctx, t < c

/-- Make before break, for one wait of a predecessor and what its successor does. -/
structure MakesBeforeBreak (events : List Event) : Prop where
  /-- A first registration in time is signalled, and the predecessor leaves for that alone. -/
  signalled : ∀ t, (registrations events).head? = some t → InTime ctx t →
    signals events = [t] ∧ ∀ cause, Leaves ctx events cause ↔ cause = .ready
  /-- A signal comes after the registration that it is for. -/
  registered_first : ∀ earlier later t, events = earlier ++ .closed t :: later →
    .registered t ∈ earlier

/-- The attempt ends in a registration. -/
def Attempt.Registers (a : Attempt) : Prop := ∃ serving last, a.verdict = .registered serving last

theorem signals_connectOnce :
    signals (connectOnce clock endpoint false a).1 = [] := by
  rw [connectOnce]
  cases a.verdict <;> rfl

/-- One turn of the loop is one attempt, and what follows it has no channel. -/
theorem superviseLoop_cons (ready : Bool) (endpoint : String) (backoff : Nat) (a : Attempt)
    (rest : List Attempt) :
    superviseLoop opts ctx ready endpoint backoff clock (a :: rest) = []
      ∨ ∃ dialed target later, superviseLoop opts ctx ready endpoint backoff clock (a :: rest)
          = (connectOnce dialed target ready a).1 ++ later
        ∧ (later = [] ∨ ∃ backoff' clock',
          later = superviseLoop opts ctx false "" backoff' clock' rest) := by
  obtain ⟨dialed, target, hr⟩ : ∃ dialed target,
      (if endpoint = "" then connectOnce (clock + a.resolving) a.resolved ready a
        else connectOnce clock endpoint ready a) = connectOnce dialed target ready a := by
    split <;> exact ⟨_, _, rfl⟩
  rw [superviseLoop, hr]
  split
  · exact .inl rfl
  refine .inr ⟨dialed, target, ?_⟩
  dsimp only
  split
  · exact ⟨[], (append_nil _).symm, .inl rfl⟩
  split
  · exact ⟨[], (append_nil _).symm, .inl rfl⟩
  · exact ⟨_, rfl, .inr ⟨_, _, rfl⟩⟩

theorem signals_superviseLoop (endpoint : String) (backoff clock : Nat) :
    signals (superviseLoop opts ctx false endpoint backoff clock attempts) = [] := by
  induction attempts generalizing endpoint backoff clock with
  | nil => rfl
  | cons a rest ih =>
    rcases superviseLoop_cons opts ctx false endpoint backoff a rest with
      h | ⟨dialed, target, later, h, hlt⟩
    · rw [h]
      rfl
    have hno : signals later = [] := by
      rcases hlt with rfl | ⟨backoff', clock', rfl⟩
      · rfl
      · exact ih _ _ _
    rw [h, signals, filterMap_append, ← signals, ← signals, signals_connectOnce, hno]
    rfl

theorem gracefulHandoff_cases (attempts : List Attempt) :
    gracefulHandoff opts ctx random attempts = []
      ∨ ∃ a rest dialed target later, attempts = a :: rest ∧ signals later = []
        ∧ gracefulHandoff opts ctx random attempts
          = (connectOnce dialed target true a).1 ++ later := by
  rw [gracefulHandoff, superviseFrom]
  split
  · exact .inl rfl
  cases attempts with
  | nil => exact .inl rfl
  | cons a rest =>
    rcases superviseLoop_cons opts ctx true "" (second / 2) a rest with
      h | ⟨dialed, target, later, h, hlt⟩
    · exact .inl h
    refine .inr ⟨a, rest, dialed, target, later, rfl, ?_, h⟩
    rcases hlt with rfl | ⟨backoff', clock', rfl⟩
    · rfl
    · exact signals_superviseLoop _ _ _ _ _

theorem not_closed_of_signals (h : signals events = []) : .closed t ∉ events := by
  intro hmem
  have hmem' : t ∈ signals events := mem_filterMap.mpr ⟨_, hmem, rfl⟩
  rw [h] at hmem'
  cases hmem'

/-- Without a signal, make before break says that no registration came in time. -/
theorem makesBeforeBreak_silent (h : signals events = []) :
    MakesBeforeBreak ctx events ↔
      ∀ t, (registrations events).head? = some t → ¬ InTime ctx t := by
  constructor
  · intro hm t ht hin
    have hsig := (hm.signalled t ht hin).1
    rw [h] at hsig
    cases hsig
  · intro hlt
    refine ⟨fun t ht hin => absurd hin (hlt t ht), fun earlier later t heq => ?_⟩
    refine absurd ?_ (not_closed_of_signals (t := t) h)
    rw [heq]
    exact mem_append_right _ mem_cons_self

theorem makesBeforeBreak_registered (h : signals later = []) :
    MakesBeforeBreak ctx (.dialed endpoint dialed :: .registered t :: .closed t :: later) := by
  have hsig : signals (.dialed endpoint dialed :: .registered t :: .closed t :: later) = [t] := by
    rw [← h]
    rfl
  refine ⟨fun t' ht hin => ?_, fun earlier rest t' heq => ?_⟩
  · obtain rfl : t = t' := Option.some.inj ht
    refine ⟨hsig, fun cause => ⟨?_, ?_⟩⟩
    · rintro ⟨left, hlf, hmin⟩
      have hle : left ≤ t := hmin .ready t rfl
      cases cause with
      | ready => rfl
      | ctxDone => exact absurd (hin.2 left hlf) (Nat.not_lt.mpr hle)
      | timeout =>
        rw [← Option.some.inj hlf] at hle
        exact absurd hin.1 (Nat.not_lt.mpr hle)
    · rintro rfl
      refine ⟨t, rfl, fun other t' hot => ?_⟩
      cases other with
      | ready => exact Nat.le_of_eq (Option.some.inj hot)
      | ctxDone => exact Nat.le_of_lt (hin.2 t' hot)
      | timeout => exact Option.some.inj hot ▸ Nat.le_of_lt hin.1
  · rcases earlier with _ | ⟨e₁, _ | ⟨e₂, _ | ⟨e₃, earlier⟩⟩⟩
    · cases heq
    · cases heq
    · cases heq
      exact mem_cons_of_mem _ mem_cons_self
    · cases heq
      exact absurd (mem_append_right _ mem_cons_self) (not_closed_of_signals h)

/--
**When a handoff makes before it breaks.** It does so exactly if the successor registers on
its first attempt, or registers on none before the wait is over anyway.
-/
theorem makes_before_break_iff (opts : Options) (ctx : Option Nat) (random : Nat)
    (attempts : List Attempt) :
    MakesBeforeBreak ctx (gracefulHandoff opts ctx random attempts) ↔
      (∃ a rest, attempts = a :: rest ∧ a.Registers) ∨
        ∀ t, (registrations (gracefulHandoff opts ctx random attempts)).head? = some t →
          ¬ InTime ctx t := by
  rcases gracefulHandoff_cases opts ctx attempts with
    h | ⟨a, rest, dialed, target, later, rfl, hno, h⟩
  · rw [h, makesBeforeBreak_silent _ rfl]
    exact ⟨.inr, fun _ _ ht => by cases ht⟩
  rw [h]
  cases hv : a.verdict with
  | failed err =>
    have hsig : signals ((connectOnce dialed target true a).1 ++ later) = [] := by
      rw [connectOnce, hv, ← hno]
      rfl
    rw [makesBeforeBreak_silent _ hsig]
    refine ⟨.inr, fun hcn => hcn.resolve_left ?_⟩
    rintro ⟨b, rest', heq, serving, last, hreg⟩
    rw [← (cons.inj heq).1, hv] at hreg
    cases hreg
  | registered serving last =>
    refine iff_of_true ?_ (.inl ⟨a, rest, rfl, serving, last, hv⟩)
    rw [connectOnce, hv]
    exact makesBeforeBreak_registered _ hno

/-- A successor whose first dial fails registers at once on its second attempt. -/
theorem second_attempt_not_signalled :
    let successor := gracefulHandoff ⟨second, 0⟩ none 0
      [{ verdict := .failed .dial }, { verdict := .registered 0 (.ended none) }]
    registrations successor = [0] ∧ signals successor = [] ∧ Leaves none successor .timeout := by
  refine ⟨by decide, by decide, handoffTimeout, rfl, fun other t h => ?_⟩
  cases other with
  | ready | ctxDone => cases h
  | timeout => exact Nat.le_of_eq (Option.some.inj h)

end VulosRelay.Agent
