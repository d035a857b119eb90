import TokenKit.Lib.Results
import Mathlib.Data.List.Forall2

/-!
# Lists that agree pointwise

`mapM` of a function that can fail succeeds when the function does on every element, and its result
is then pointwise the elements' results (`mapM_eq_ok`). Of two lists that are pointwise related, the
first elements to pass a test that the relation respects are related too (`Forall₂.find?_rel`), and
if one has an element that passes, the other has (`Forall₂.exists_iff`).
-/

universe u

namespace List

theorem mapM_eq_ok {ε α β : Type u} {f : α → Except ε β} : ∀ {l : List α} {l' : List β},
    l.mapM f = .ok l' ↔ Forall₂ (fun a b => f a = .ok b) l l'
  | [], l' => by
    rw [mapM_nil, forall₂_nil_left_iff]
    exact ⟨fun h => (Except.ok.inj h).symm, fun h => congrArg Except.ok h.symm⟩
  | a :: l, l' => by
    rw [mapM_cons, Except.ok_of_bind]
    simp only [Except.ok_of_bind, forall₂_cons_left_iff, mapM_eq_ok]
    constructor
    · rintro ⟨b, hb, bs, hbs, h⟩
      exact ⟨b, bs, hb, hbs, (Except.ok.inj h).symm⟩
    · rintro ⟨b, bs, hb, hbs, rfl⟩
      exact ⟨b, hb, bs, hbs, rfl⟩

/-- Every element passes when there is a list of results. -/
theorem exists_forall₂_iff {α β : Type*} {R : α → β → Prop} : ∀ {l : List α},
    (∃ l', Forall₂ R l l') ↔ ∀ a ∈ l, ∃ b, R a b
  | [] => by simp
  | a :: l => by
    simp only [forall₂_cons_left_iff, forall_mem_cons, ← exists_forall₂_iff]
    constructor
    · rintro ⟨_, b, bs, hb, hbs, rfl⟩
      exact ⟨⟨b, hb⟩, bs, hbs⟩
    · rintro ⟨⟨b, hb⟩, bs, hbs⟩
      exact ⟨_, b, bs, hb, hbs, rfl⟩

theorem Forall₂.exists_iff {α β : Type*} {R : α → β → Prop} {P : α → Prop} {Q : β → Prop}
    (hPQ : ∀ a b, R a b → (P a ↔ Q b)) {l : List α} {l' : List β} (h : Forall₂ R l l') :
    (∃ a ∈ l, P a) ↔ ∃ b ∈ l', Q b := by
  induction h with
  | nil => simp
  | @cons a b l l' hab _ ih =>
    simp only [mem_cons, exists_eq_or_imp]
    rw [hPQ a b hab, ih]

theorem Forall₂.find?_rel {α β : Type*} {R : α → β → Prop} {p : α → Bool} {q : β → Bool}
    (hpq : ∀ a b, R a b → p a = q b) {l : List α} {l' : List β} (h : Forall₂ R l l') :
    Option.Rel R (l.find? p) (l'.find? q) := by
  induction h with
  | nil => exact .none
  | @cons a b l l' hab _ ih =>
    have := hpq a b hab
    rcases hq : q b with _ | _ <;> rw [hq] at this
    · rwa [find?_cons_of_neg (by simp [this]), find?_cons_of_neg (by simp [hq])]
    · rw [find?_cons_of_pos this, find?_cons_of_pos hq]
      exact .some hab

end List
