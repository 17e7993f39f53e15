/-!
# Systems that take steps

A transition system is an initial condition and a partial step function. Its
runs may be restricted to steps that meet a condition `ok` on the state and the
action; `fun _ _ => True` gives every run. One rule carries every invariant:
what holds at the start and is kept by each permitted step holds in every state
a permitted run reaches.
-/

structure System (σ α : Type) where
  init : σ → Prop
  step : σ → α → Option σ

namespace System

variable {σ α : Type}

/-- The states reached by runs whose steps all meet `ok`. -/
inductive Reachable (sys : System σ α) (ok : σ → α → Prop) : σ → Prop where
  | init {s : σ} : sys.init s → Reachable sys ok s
  | tail {s s' : σ} {a : α} :
      Reachable sys ok s → ok s a → sys.step s a = some s' → Reachable sys ok s'

variable {sys : System σ α} {ok : σ → α → Prop}

theorem Reachable.invariant {P : σ → Prop} (hin : ∀ s, sys.init s → P s)
    (hst : ∀ s a s', P s → ok s a → sys.step s a = some s' → P s')
    {s : σ} (h : Reachable sys ok s) : P s := by
  induction h with
  | init h0 => exact hin _ h0
  | tail _ hok hs ih => exact hst _ _ _ ih hok hs

theorem Reachable.mono (himp : ∀ s a, ok s a → ok' s a) (h : Reachable sys ok s) :
    Reachable sys ok' s := by
  induction h with
  | init h0 => exact .init h0
  | tail _ hok hs ih => exact .tail ih (himp _ _ hok) hs

def run (sys : System σ α) (check : σ → α → Bool) : σ → List α → Option σ
  | s, [] => some s
  | s, a :: as => if check s a then (sys.step s a).bind fun s' => run sys check s' as else none

theorem Reachable.run (hchk : ∀ s a, check s a = true → ok s a) :
    ∀ {as : List α} {s s' : σ}, Reachable sys ok s → sys.run check s as = some s' →
      Reachable sys ok s'
  | [], s, s', h, hrun => by
    cases hrun
    exact h
  | a :: as, s, s', h, hrun => by
    rw [System.run] at hrun
    split at hrun
    · rename_i hc
      obtain ⟨t, hs, hrs⟩ := Option.bind_eq_some_iff.mp hrun
      exact Reachable.run hchk (.tail h (hchk s a hc) hs) hrs
    · simp at hrun

theorem Reachable.exists_of_run (check : σ → α → Bool) (as : List α) (P : σ → Bool)
    (hchk : ∀ s a, check s a = true → ok s a) (h : Reachable sys ok s)
    (hrun : (sys.run check s as).any P = true) :
    ∃ s', Reachable sys ok s' ∧ P s' = true := by
  cases hs : sys.run check s as with
  | none => rw [hs] at hrun; simp at hrun
  | some s' =>
    rw [hs] at hrun
    exact ⟨s', Reachable.run hchk h hs, hrun⟩

theorem Reachable.exists_after (as : List α) (P : σ → Prop) [DecidablePred P]
    (h : Reachable sys (fun _ _ => True) s)
    (hrun : (sys.run (fun _ _ => true) s as).any (fun s => P s) = true) :
    ∃ s', Reachable sys (fun _ _ => True) s' ∧ P s' := by
  obtain ⟨s', hrch, hend⟩ := h.exists_of_run _ as _ (fun _ _ _ => trivial) hrun
  exact ⟨s', hrch, of_decide_eq_true hend⟩

def exhaust (sys : System σ α) (a : α) : Nat → σ → σ
  | 0, s => s
  | k + 1, s => ((sys.step s a).map (exhaust sys a k)).getD s

theorem exhaust_of_step (h : sys.step s a = some s') (k : Nat) :
    sys.exhaust a (k + 1) s = sys.exhaust a k s' := by
  rw [exhaust, h]
  rfl

theorem exhaust_of_stuck (h : sys.step s a = none) :
    ∀ k, sys.exhaust a k s = s
  | 0 => rfl
  | k + 1 => by
    rw [exhaust, h]
    rfl

theorem exhaust_invariant {a : α} {P : σ → Prop}
    (hst : ∀ s s', P s → sys.step s a = some s' → P s') :
    ∀ k {s : σ}, P s → P (sys.exhaust a k s)
  | 0, _, hs => hs
  | k + 1, s, hs => by
    cases h : sys.step s a with
    | none =>
      rw [exhaust_of_stuck h]
      exact hs
    | some s' =>
      rw [exhaust_of_step h]
      exact exhaust_invariant hst k (hst s s' hs h)

end System
