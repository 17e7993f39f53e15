import Mathlib.Algebra.Order.Ring.Nat
import Mathlib.Data.List.Count

/-!
# Sliding windows

A list of hits that forgets what has left the window still counts every event from the start of
the window on. So an event is let through only if the window that ends with it has room, and any
interval of that length has at most the events of the window that ends with its last one.
-/

open List

/-- The hits count the events of a window, and no interval of its length has too many. -/
structure Window (width limit clock : Nat) (hits sent : List Nat) : Prop where
  /-- The hits are in order, and none is ahead of the clock. -/
  ordered : (hits ++ [clock]).Pairwise (· ≤ ·)
  /-- From any start on that the window has not passed, there are as many hits as events. -/
  tracks : ∀ start, clock ≤ start + width →
    hits.countP (start ≤ ·) = sent.countP (start ≤ ·)
  /-- There are no more hits than the limit. -/
  length : hits.length ≤ limit
  /-- There are no more events than the limit in any interval of the width. -/
  bounded : ∀ start, sent.countP (fun t => start ≤ t ∧ t ≤ start + width) ≤ limit

variable {width limit clock now : Nat} {hits sent : List Nat}

theorem Window.nil (width limit : Nat) : Window width limit 0 [] [] :=
  ⟨pairwise_singleton .., fun _ _ => rfl, Nat.zero_le _, fun _ => Nat.zero_le _⟩

theorem Window.later (h : Window width limit clock hits sent) (hle : clock ≤ now) :
    Window width limit now hits sent := by
  obtain ⟨hord, -, hclk⟩ := pairwise_append.mp h.ordered
  refine ⟨pairwise_append.mpr ⟨hord, pairwise_singleton .., fun t ht u hu => ?_⟩,
    fun start hst => h.tracks start (hle.trans hst), h.length, h.bounded⟩
  rw [mem_singleton.mp hu]
  exact (hclk t ht clock (mem_singleton_self _)).trans hle

theorem Window.retain (h : Window width limit clock hits sent) (hle : clock ≤ now) :
    Window width limit now (hits.filter (now - width ≤ ·)) sent := by
  have hsub : hits.filter (now - width ≤ ·) ++ [now] <+ hits ++ [now] :=
    filter_sublist.append_right _
  refine ⟨(h.later hle).ordered.sublist hsub, fun start hst => ?_,
    (length_filter_le _ _).trans h.length, h.bounded⟩
  rw [← h.tracks start (hle.trans hst), countP_filter]
  refine countP_congr fun t _ => ?_
  simp only [Bool.and_eq_true, decide_eq_true_eq]
  omega

theorem Window.push (h : Window width limit now hits sent) (hrm : hits.length < limit) :
    Window width limit now (hits ++ [now]) (now :: sent) := by
  have htr : ∀ start, now ≤ start + width →
      (hits ++ [now]).countP (start ≤ ·) = (now :: sent).countP (start ≤ ·) := by
    intro start hst
    rw [countP_append, h.tracks start hst, countP_cons, countP_cons, countP_nil, Nat.zero_add]
  have hlen : (hits ++ [now]).length ≤ limit := by
    rw [length_append]
    exact hrm
  have hord : (hits ++ [now] ++ [now]).Pairwise (· ≤ ·) := by
    refine pairwise_append.mpr ⟨h.ordered, pairwise_singleton .., fun t ht u hu => ?_⟩
    rw [mem_singleton.mp hu]
    rcases mem_append.mp ht with ht | ht
    · exact (pairwise_append.mp h.ordered).2.2 t ht now (mem_singleton_self _)
    · exact (mem_singleton.mp ht).le
  refine ⟨hord, htr, hlen, fun start => ?_⟩
  by_cases hend : now ≤ start + width
  · calc (now :: sent).countP (fun t => start ≤ t ∧ t ≤ start + width)
        ≤ (now :: sent).countP (start ≤ ·) :=
          countP_mono_left fun t _ ht => decide_eq_true (of_decide_eq_true ht).1
      _ = (hits ++ [now]).countP (start ≤ ·) := (htr start hend).symm
      _ ≤ limit := countP_le_length.trans hlen
  · rw [countP_cons, if_neg (by simp [hend])]
    exact h.bounded start

/-- The hits that are left are the events of the window that ends now. -/
theorem Window.retained_length (h : Window width limit clock hits sent) (hle : clock ≤ now) :
    (hits.filter (now - width ≤ ·)).length = sent.countP (now - width ≤ ·) := by
  rw [← countP_eq_length_filter, h.tracks]
  omega

theorem countP_split (now width : Nat) (l : List Nat) :
    l.countP (now - width ≤ ·) = l.countP (now + 1 - width ≤ ·) + l.countP (· + width = now) := by
  induction l with
  | nil => rfl
  | cons t l ih =>
    simp only [countP_cons, ih, decide_eq_true_eq]
    split_ifs <;> omega

/-- An event that is just as old as the window is wide is the oldest hit that is left. -/
theorem Window.exists_width_iff {oldest : Nat} (h : Window width limit now (oldest :: hits) sent)
    (hold : now - width ≤ oldest) : (∃ t ∈ sent, t + width = now) ↔ oldest + width = now := by
  have hpos : ∀ l : List Nat, (∃ t ∈ l, t + width = now) ↔ 0 < l.countP (· + width = now) := by
    intro l
    simp [countP_pos_iff]
  have hsame : (oldest :: hits).countP (· + width = now) = sent.countP (· + width = now) := by
    have hall := h.tracks (now - width) (by omega)
    have hlate := h.tracks (now + 1 - width) (by omega)
    have hhits := countP_split now width (oldest :: hits)
    have hsent := countP_split now width sent
    omega
  rw [hpos, ← hsame, ← hpos]
  refine ⟨fun hex => ?_, fun heq => ⟨oldest, .head _, heq⟩⟩
  obtain ⟨t, ht, heq⟩ := hex
  have hle : oldest ≤ t := by
    rcases mem_cons.mp ht with rfl | ht
    · exact le_rfl
    · exact (pairwise_cons.mp (pairwise_append.mp h.ordered).1).1 t ht
  omega
