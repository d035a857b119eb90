import Mathlib.Tactic.TypeStar

/-!
# Results that can fail

When a computation built from others succeeds, each part of it that was run did. When it fails, it
failed with the error of the first part that did (`mapM_eq_error`).
-/

universe u

namespace Except

variable {ε ε' α β : Type u}

theorem ok_of_mapError {f : ε → ε'} {x : Except ε α} {a : α} :
    x.mapError f = .ok a ↔ x = .ok a := by
  rcases x with e | b
  · exact ⟨fun h => (by cases h), fun h => (by cases h)⟩
  · exact ⟨fun h => congrArg _ (ok.inj h), fun h => congrArg _ (ok.inj h)⟩

theorem ok_of_map {f : α → β} {x : Except ε α} {b : β} :
    x.map f = .ok b ↔ ∃ a, x = .ok a ∧ f a = b := by
  rcases x with _ | _ <;> simp [Except.map]

theorem ok_of_bind {x : Except ε α} {f : α → Except ε β} {b : β} :
    x >>= f = .ok b ↔ ∃ a, x = .ok a ∧ f a = .ok b := by
  rcases x with _ | _ <;> simp [bind, Except.bind]

theorem error_of_bind {x : Except ε α} {f : α → Except ε β} {e : ε} :
    x >>= f = .error e ↔ x = .error e ∨ ∃ a, x = .ok a ∧ f a = .error e := by
  rcases x with _ | _ <;> simp [bind, Except.bind]

theorem toOption_eq_none {x : Except ε α} : x.toOption = none ↔ ∀ a, x ≠ .ok a := by
  rcases x with _ | _ <;> simp [Except.toOption]

/-- The error, if there is one. -/
def errorOf : Except ε α → Option ε
  | .ok _ => none
  | .error e => some e

theorem errorOf_eq_some {x : Except ε α} {e : ε} : x.errorOf = some e ↔ x = .error e := by
  rcases x with _ | _ <;> simp [errorOf]

theorem errorOf_eq_none {x : Except ε α} : x.errorOf = none ↔ ∃ a, x = .ok a := by
  rcases x with _ | _ <;> simp [errorOf]

theorem mapM_eq_error {f : α → Except ε β} {e : ε} : ∀ {xs : List α},
    xs.mapM f = .error e ↔ xs.findSome? (fun x => (f x).errorOf) = some e
  | [] => by simp [pure, Except.pure]
  | x :: xs => by
    rw [List.mapM_cons, error_of_bind, List.findSome?_cons]
    rcases hx : f x with e' | b
    · simp [errorOf]
    · have hrest : (xs.mapM f >>= fun bs => pure (b :: bs)) = .error e ↔ xs.mapM f = .error e := by
        rw [error_of_bind]
        simp [pure, Except.pure]
      simp only [reduceCtorEq, false_or, ok.injEq, exists_eq_left', hrest, errorOf]
      exact mapM_eq_error

end Except
