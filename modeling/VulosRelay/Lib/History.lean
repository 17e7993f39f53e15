/-!
# Histories

A history is a list of events, latest first, so that what comes after an event in the
list is what had happened before it. A property of every event and its past is carried
along by proving it for each event that is added.
-/

namespace History

variable {ε : Type}

/-- Every event of a history has a property together with its past. -/
def Each (P : ε → List ε → Prop) : List ε → Prop
  | [] => True
  | e :: older => P e older ∧ Each P older

variable {P : ε → List ε → Prop}

theorem Each.past (h : Each P (newer ++ e :: older)) : P e older := by
  induction newer with
  | nil => exact h.1
  | cons _ newer ih => exact ih h.2

theorem Each.of_mem (h : Each P history) (hmem : e ∈ history) :
    ∃ past, past ⊆ history ∧ P e past := by
  obtain ⟨newer, older, rfl⟩ := List.append_of_mem hmem
  refine ⟨older, fun d hd => ?_, h.past⟩
  exact List.mem_append_right _ (.tail _ hd)

theorem mem_of_cons_ne (hne : e ≠ latest) (h : e ∈ latest :: history) : e ∈ history :=
  (List.mem_cons.mp h).resolve_left hne

end History
