import VulosRelay.Client.Endpoints

/-!
# Endpoints that were invalidated

`invalidateEndpoint` clears the time of the last selection, and so does a seed. A selection
in flight knows nothing of it: later callers still join it, and when it ends it sets the
time again. So a call gets an answer from before the invalidation exactly if a selection
was in flight at that moment.
-/

namespace VulosRelay.Client.Endpoints

open Option

/-- The module state, and how many invalidations there had been: so far, when the selection
in flight began, and when the one began that chose `selected`. -/
structure Watched where
  state : State
  invalidations : Nat
  flight : Nat
  chosen : Nat
  flight_le : flight ≤ invalidations

def invalidates : Action → Bool
  | .invalidate | .seed (some _) => true
  | _ => false

def Watched.after (w : Watched) (action : Action) (s : State) : Watched where
  state := s
  invalidations := w.invalidations + (invalidates action).toNat
  flight := if w.state.selecting.isSome then w.flight else w.invalidations
  chosen := if w.state.selecting.isSome && s.selecting.isNone then w.flight else w.chosen
  flight_le := by have := w.flight_le; split <;> omega

def watched (surface : Surface) : System Watched Action where
  init w := ∃ storage, w = ⟨.new storage, 0, 0, 0, Nat.le_refl 0⟩
  step w action := (step surface w.state action).map (w.after action)

/-- The number of invalidations before the probes that answer a call of `selectEndpoint`. -/
def Watched.answer (w : Watched) (force : Bool) (now : Int) : Nat :=
  if !force && w.state.selectedAt ≠ 0 && now - w.state.selectedAt < revalidateAfter then w.chosen
  else if w.state.selecting.isSome then w.flight
  else w.invalidations

/-- Every call is answered by probes that began after every invalidation so far. -/
def Watched.Fresh (w : Watched) : Prop := ∀ force now, w.answer force now = w.invalidations

/-- The choice is not invalidated while a selection is under way. -/
def OutsideFlight (w : Watched) (action : Action) : Prop :=
  invalidates action = true → w.state.selecting = none

variable {surface : Surface} {w : Watched}

theorem step_selection (h : step surface s action = some s') :
    (invalidates action = true ∧ s'.selectedAt = 0 ∧ s'.selecting = s.selecting) ∨
      invalidates action = false ∧ ((s.selecting.isSome ∧ s'.selecting = none) ∨
        s'.selectedAt = s.selectedAt ∧ (s.selecting.isSome → s'.selecting = s.selecting)) := by
  cases action with
  | finish answered now =>
    obtain ⟨bases, hsome, rfl⟩ := map_eq_some_iff.mp h
    exact .inr ⟨rfl, .inl ⟨by rw [hsome]; rfl, rfl⟩⟩
  | seed target =>
    cases target <;> grind [step, invalidates, seedFromResolveBackend, keepPair]
  | _ => grind [step, invalidates, configure, resolveEndpoints, selectEndpoint, keepPair, record]

theorem fresh_iff : w.Fresh ↔ (w.state.selectedAt ≠ 0 → w.chosen = w.invalidations) ∧
    (w.state.selecting.isSome → w.flight = w.invalidations) := by
  constructor
  · intro h
    refine ⟨fun hat => ?_, fun hsome => ?_⟩
    · have hcall := h false w.state.selectedAt
      rwa [Watched.answer, if_pos (by simp [hat, revalidateAfter])] at hcall
    · have hcall := h true 0
      rwa [Watched.answer, if_neg (by simp), if_pos hsome] at hcall
  · rintro ⟨hchosen, hflight⟩ force now
    unfold Watched.answer
    split
    · rename_i hrec
      simp only [Bool.and_eq_true, decide_eq_true_eq] at hrec
      exact hchosen hrec.1.2
    split
    · exact hflight ‹_›
    · rfl

theorem Watched.Fresh.step (hw : w.Fresh) (hok : OutsideFlight w action)
    (h : step surface w.state action = some s') : (w.after action s').Fresh := by
  rw [fresh_iff] at hw ⊢
  obtain ⟨hchosen, hflight⟩ := hw
  simp only [after]
  rcases step_selection h with ⟨hinv, hat, hsel⟩ | ⟨hinv, hend | ⟨hat, hsel⟩⟩
  · rw [hat, hsel, hok hinv]
    simp
  · rw [hend.2, hinv, if_pos hend.1]
    simp [hend.1, hflight hend.1]
  rw [hat, hinv]
  by_cases hsome : w.state.selecting.isSome
  · rw [hsel hsome]
    constructor
    · simpa [isSome_iff_ne_none.mp hsome] using hchosen
    · simp [hflight hsome]
  · simpa [hsome] using hchosen

/-- **An invalidated endpoint is probed again, if no selection was in flight.** Along runs
where invalidations and seeds fall between selections every call is fresh; after one that
falls into a selection, some call is not. -/
theorem invalidated_reprobed_iff (surface : Surface) :
    (∀ w, (watched surface).Reachable OutsideFlight w → w.Fresh) ∧
      ∀ w w' action, ¬ OutsideFlight w action → (watched surface).step w action = some w' →
        ¬ w'.Fresh := by
  constructor
  · intro w h
    refine h.invariant ?_ fun w action w' hw hok hst => ?_
    · rintro w ⟨storage, rfl⟩
      exact fresh_iff.mpr ⟨fun _ => rfl, fun _ => rfl⟩
    · obtain ⟨s', hs', rfl⟩ := map_eq_some_iff.mp hst
      exact hw.step hok hs'
  · intro w w' action hin hst hfr
    obtain ⟨s', hs', rfl⟩ := map_eq_some_iff.mp hst
    obtain ⟨hinv, hsome⟩ := Classical.not_imp.mp hin
    have hsome' : w.state.selecting.isSome := isSome_iff_ne_none.mpr hsome
    obtain ⟨-, -, hsel⟩ | ⟨hno, -⟩ := step_selection hs'
    · have hflight := (fresh_iff.mp hfr).2 (by rwa [← hsel] at hsome')
      simp only [Watched.after, hsome', hinv, if_true, Bool.toNat_true] at hflight
      have := w.flight_le
      omega
    · simp [hinv] at hno

def barePage : Surface := ⟨[], [], fun _ => none, none, ⟨.falsy, .falsy⟩⟩

/-- A selection ends after an invalidation, and for half a minute its answer stands. -/
theorem invalidated_answer_kept : ∃ w, (watched barePage).Reachable (fun _ _ => True) w ∧
    w.invalidations = 1 ∧ w.answer false 29999 = 0 := by
  have hinit : (watched barePage).Reachable (fun _ _ => True)
      ⟨.new fun _ => none, 0, 0, 0, Nat.le_refl 0⟩ := .init ⟨_, rfl⟩
  exact hinit.exists_after [.select false 0, .invalidate, .finish [true] 5] _ (by decide)

end VulosRelay.Client.Endpoints
