import Mathlib.Data.List.Basic

/-!
# Splitting a sorted list

A test that, once passed, every later element of a sorted list passes too splits the list in two:
a front that fails it and a rest that passes it.
-/

namespace List

variable {α : Type*}

theorem exists_split_of_pairwise {r : α → α → Prop} {p : α → Prop}
    (hp : ∀ a b, r a b → p a → p b) :
    ∀ {l : List α}, l.Pairwise r →
      ∃ front rest, l = front ++ rest ∧ (∀ a ∈ front, ¬ p a) ∧ ∀ a ∈ rest, p a
  | [], _ => ⟨[], [], rfl, by simp, by simp⟩
  | a :: l, h => by
    rw [pairwise_cons] at h
    by_cases ha : p a
    · refine ⟨[], a :: l, rfl, by simp, ?_⟩
      rw [forall_mem_cons]
      exact ⟨ha, fun b hb => hp a b (h.1 b hb) ha⟩
    · obtain ⟨front, rest, rfl, hfront, hrest⟩ := exists_split_of_pairwise hp h.2
      refine ⟨a :: front, rest, rfl, ?_, hrest⟩
      rw [forall_mem_cons]
      exact ⟨ha, hfront⟩

end List
