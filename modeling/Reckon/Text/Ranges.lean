/-!
# Text — Ranges

Sets of code points as ascending lists of closed ranges.  Because the ranges ascend, the search
finds exactly the members (`CodeRanges.covers_iff`).
-/

namespace Reckon

/-- Every range begins at `least` or above, none is empty, and each ends below the next. -/
def ascendsFrom (least : Nat) : List (Nat × Nat) → Bool
  | [] => true
  | (first, last) :: rest => least ≤ first && first ≤ last && ascendsFrom (last + 1) rest

/-- A set of code points: its ranges in ascending order, each as its first and last member. -/
structure CodeRanges where
  ranges : List (Nat × Nat)
  ascends : ascendsFrom 0 ranges = true := by decide +kernel

namespace CodeRanges

/-- The number lies in one of the ranges.  They ascend, so the search ends at the first that begins
above `n`. -/
def search (n : Nat) : List (Nat × Nat) → Bool
  | [] => false
  | (first, last) :: rest => if n < first then false else n ≤ last || search n rest

/-- The number is a member of the set. -/
def covers (s : CodeRanges) (n : Nat) : Bool := search n s.ranges

theorem le_of_ascendsFrom {least : Nat} {rs : List (Nat × Nat)}
    (h : ascendsFrom least rs = true) {r : Nat × Nat} (hr : r ∈ rs) : least ≤ r.1 := by
  induction rs generalizing least with
  | nil => cases hr
  | cons s rest ih =>
      obtain ⟨first, last⟩ := s
      simp only [ascendsFrom, Bool.and_eq_true, decide_eq_true_eq] at h
      obtain ⟨⟨h₁, h₂⟩, h₃⟩ := h
      rcases List.mem_cons.1 hr with rfl | hr
      · exact h₁
      · exact Nat.le_trans (Nat.le_succ_of_le (Nat.le_trans h₁ h₂)) (ih h₃ hr)

theorem search_iff {least : Nat} {rs : List (Nat × Nat)} (h : ascendsFrom least rs = true)
    (n : Nat) : search n rs = true ↔ ∃ r ∈ rs, r.1 ≤ n ∧ n ≤ r.2 := by
  induction rs generalizing least with
  | nil => simp [search]
  | cons s rest ih =>
      obtain ⟨first, last⟩ := s
      simp only [ascendsFrom, Bool.and_eq_true, decide_eq_true_eq] at h
      obtain ⟨⟨h₁, h₂⟩, h₃⟩ := h
      simp only [search, List.mem_cons, exists_eq_or_imp]
      split
      · next hn =>
          refine ⟨fun h => absurd h Bool.false_ne_true, ?_⟩
          rintro (⟨hf, -⟩ | ⟨r, hr, hf, -⟩)
          · exact absurd hf (Nat.not_le.2 hn)
          · exact absurd (Nat.le_trans (le_of_ascendsFrom h₃ hr) hf) (by omega)
      · next hn => simp [ih h₃, Nat.not_lt.1 hn]

/-- The search finds the members of the set. -/
theorem covers_iff (s : CodeRanges) (n : Nat) :
    s.covers n = true ↔ ∃ r ∈ s.ranges, r.1 ≤ n ∧ n ≤ r.2 :=
  search_iff s.ascends n

end CodeRanges

end Reckon
