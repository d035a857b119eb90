import TokenKit.Lib.StepMachine

/-!
# Endless schedules

A schedule is an endless sequence of events, along which a machine passes through the states
`after` each number of them. To show that a goal is reached, name in every state the step that
helps, and a measure that no step raises. A step that helps lowers the measure; any other one lowers
it as well or leaves the helpful step what it was. If what helps is always done some time, the goal
is reached (`exists_of_fair`).
-/

namespace StepMachine

variable {σ ε : Type*} (step : σ → ε → σ) (s : σ) (schedule : ℕ → ε)

def after : ℕ → σ
  | 0 => s
  | k + 1 => step (after k) (schedule k)

variable {step s schedule}

theorem after_of_le {P : σ → Prop} (hstep : ∀ s e, P s → P (step s e)) {k k' : ℕ} (hle : k ≤ k')
    (h : P (after step s schedule k)) : P (after step s schedule k') := by
  induction hle with
  | refl => exact h
  | step _ ih => exact hstep _ _ ih

/-- Goals that are kept once they are reached, and each of which is, all hold from some point on. -/
theorem exists_forall_of_le {P : ℕ → σ → Prop} (hstep : ∀ i s e, P i s → P i (step s e)) {n : ℕ}
    (h : ∀ i < n, ∃ k, P i (after step s schedule k)) :
    ∃ k, ∀ k', k ≤ k' → ∀ i < n, P i (after step s schedule k') := by
  induction n with
  | zero => exact ⟨0, fun k' _ i hi => absurd hi (Nat.not_lt_zero i)⟩
  | succ n ih =>
    obtain ⟨k₁, h₁⟩ := ih fun i hi => h i (Nat.lt_succ_of_lt hi)
    obtain ⟨k₂, h₂⟩ := h n (Nat.lt_succ_self n)
    refine ⟨k₁ + k₂, fun k' hle i hi => ?_⟩
    rcases Nat.lt_succ_iff_lt_or_eq.1 hi with hi | rfl
    · exact h₁ k' (by omega) i hi
    · exact after_of_le (hstep i) (by omega) h₂

theorem exists_of_fair {ι : Type*} {P : σ → Prop} (m : σ → ℕ) (helpful : σ → ι)
    (helps : ι → σ → ε → Prop)
    (hstep : ∀ k, ¬ P (after step s schedule k) →
      m (after step s schedule (k + 1)) < m (after step s schedule k)
        ∨ m (after step s schedule (k + 1)) = m (after step s schedule k)
          ∧ helpful (after step s schedule (k + 1)) = helpful (after step s schedule k)
          ∧ ¬ helps (helpful (after step s schedule k)) (after step s schedule k) (schedule k))
    (hfair : ∀ k, ¬ P (after step s schedule k) → ∃ k', k ≤ k'
      ∧ helps (helpful (after step s schedule k)) (after step s schedule k') (schedule k')) :
    ∃ k, P (after step s schedule k) := by
  by_contra hnever
  have hnever : ∀ k, ¬ P (after step s schedule k) := fun k h => hnever ⟨k, h⟩
  have hlower : ∀ k, ∃ k', m (after step s schedule k') < m (after step s schedule k) := by
    intro k
    by_contra hnone
    -- nothing lowers the measure from here on, so the helpful step stays the same
    have hsame : ∀ d, m (after step s schedule (k + d)) = m (after step s schedule k)
        ∧ helpful (after step s schedule (k + d)) = helpful (after step s schedule k) := by
      intro d
      induction d with
      | zero => exact ⟨rfl, rfl⟩
      | succ d ih =>
        rcases hstep (k + d) (hnever _) with hlt | ⟨hm, hhelpful, -⟩
        · exact absurd ⟨k + d + 1, by rw [← ih.1]; exact hlt⟩ hnone
        · exact ⟨hm.trans ih.1, hhelpful.trans ih.2⟩
    obtain ⟨k', hle, hhelps⟩ := hfair k (hnever k)
    obtain ⟨d, rfl⟩ := Nat.exists_eq_add_of_le hle
    rcases hstep (k + d) (hnever _) with hlt | ⟨-, -, hnot⟩
    · exact hnone ⟨k + d + 1, by rw [← (hsame d).1]; exact hlt⟩
    · rw [(hsame d).2] at hnot
      exact hnot hhelps
  have hno : ∀ n k, m (after step s schedule k) ≠ n := by
    intro n
    induction n using Nat.strongRecOn with
    | ind n ih =>
      rintro k rfl
      obtain ⟨k', hlt⟩ := hlower k
      exact ih _ hlt k' rfl
  exact hno _ 0 rfl

/-- In a schedule that repeats after `n` events, each of them comes up again and again. -/
theorem exists_ge_mod_eq {n i : ℕ} (hi : i < n) (k : ℕ) : ∃ k', k ≤ k' ∧ k' % n = i := by
  refine ⟨n * k + i, ?_, by rw [Nat.mul_add_mod, Nat.mod_eq_of_lt hi]⟩
  have := Nat.le_mul_of_pos_left k (Nat.lt_of_le_of_lt (Nat.zero_le i) hi)
  omega

end StepMachine
