import Mathlib.Data.List.Dedup

/-!
# Which of two elements comes first in a list

`l.idxOf a` is where `a` first occurs in `l`. Which of two elements comes first does not change
when the list is filtered by a test both pass, nor when a part holding neither is dropped from the
front.
-/

namespace List

variable {α : Type*} [DecidableEq α] {a b : α}

theorem idxOf_filter_lt_idxOf_filter {p : α → Bool} (ha : p a = true) (hb : p b = true) :
    ∀ l : List α, (l.filter p).idxOf a < (l.filter p).idxOf b ↔ l.idxOf a < l.idxOf b
  | [] => by simp
  | c :: l => by
    have ih := idxOf_filter_lt_idxOf_filter ha hb l
    by_cases hc : p c = true
    · rw [filter_cons_of_pos hc]
      simp only [idxOf_cons, cond_eq_ite, beq_iff_eq]
      split_ifs <;> omega
    · have hca : c ≠ a := by
        rintro rfl
        exact hc ha
      have hcb : c ≠ b := by
        rintro rfl
        exact hc hb
      rw [filter_cons_of_neg hc, idxOf_cons_ne _ hca, idxOf_cons_ne _ hcb, ih]
      omega

theorem idxOf_lt_idxOf_append_left {front l : List α} (ha : a ∉ front) (hb : b ∉ front) :
    (front ++ l).idxOf a < (front ++ l).idxOf b ↔ l.idxOf a < l.idxOf b := by
  rw [idxOf_append_of_notMem ha, idxOf_append_of_notMem hb]
  omega

/-- What a front part holds comes before what it does not. -/
theorem idxOf_lt_idxOf_of_front {front l : List α} (ha : a ∈ front) (hb : b ∉ front) :
    (front ++ l).idxOf a < (front ++ l).idxOf b := by
  rw [idxOf_append_of_mem ha, idxOf_append_of_notMem hb]
  have := idxOf_lt_length_of_mem ha
  omega

theorem idxOf_le_idxOf_append (l l' : List α) : l.idxOf a ≤ (l ++ l').idxOf a := by
  by_cases ha : a ∈ l
  · exact Nat.le_of_eq (idxOf_append_of_mem ha).symm
  · rw [idxOf_append_of_notMem ha, idxOf_of_notMem ha]
    omega

end List
