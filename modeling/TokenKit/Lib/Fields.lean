import Mathlib.Data.List.DropRight
import Mathlib.Data.List.Basic

/-!
# Fields of a text

A text of fields is split at a separator by `List.splitOn`. A field is read by trimming it, and a
field of two parts by cutting it where the first of its separators stands. Joining undoes both as
long as no part holds the separator and no field starts or ends in what is trimmed.
-/

namespace Fields

variable {α : Type*}

section Trim

variable {p : α → Bool} {l t front back : List α}

def trim (p : α → Bool) (l : List α) : List α := (l.dropWhile p).rdropWhile p

/-- Neither the start nor the end of `l` is trimmed. -/
def Trimmed (p : α → Bool) (l : List α) : Prop := trim p l = l

theorem trim_append_left (h : ∀ a ∈ front, p a) : trim p (front ++ l) = trim p l := by
  unfold trim
  rw [List.dropWhile_append_of_pos h]

theorem rdropWhile_append_right (h : ∀ b ∈ back, p b) :
    (l ++ back).rdropWhile p = l.rdropWhile p := by
  unfold List.rdropWhile
  rw [List.reverse_append, List.dropWhile_append_of_pos (by simpa using h)]

theorem trim_append_right (h : ∀ b ∈ back, p b) : trim p (l ++ back) = trim p l := by
  unfold trim
  rw [List.dropWhile_append]
  split_ifs with hl
  · rw [List.isEmpty_iff.1 hl, List.dropWhile_eq_nil_iff.2 h]
  · rw [rdropWhile_append_right h]

/-- What is trimmed away stood at the two ends. -/
theorem exists_eq_append_trim (p : α → Bool) (l : List α) :
    ∃ front back, (∀ a ∈ front, p a) ∧ (∀ b ∈ back, p b) ∧ l = front ++ trim p l ++ back := by
  refine ⟨l.takeWhile p, (l.dropWhile p).rtakeWhile p, fun a ha => List.mem_takeWhile_imp ha,
    fun b hb => List.mem_rtakeWhile_imp hb, ?_⟩
  unfold trim
  rw [List.append_assoc, List.rdropWhile_append_rtakeWhile, List.takeWhile_append_dropWhile]

theorem trimmed_trim (p : α → Bool) (l : List α) : Trimmed p (trim p l) := by
  obtain ⟨front, back, hfront, hback, hl⟩ := exists_eq_append_trim p l
  have htrim : trim p l = trim p (trim p l) := by
    conv_lhs => rw [hl]
    rw [trim_append_right hback, trim_append_left hfront]
  exact htrim.symm

theorem trim_eq_iff : trim p l = t ↔ Trimmed p t
    ∧ ∃ front back, (∀ a ∈ front, p a) ∧ (∀ b ∈ back, p b) ∧ l = front ++ t ++ back := by
  constructor
  · rintro rfl
    exact ⟨trimmed_trim p l, exists_eq_append_trim p l⟩
  · rintro ⟨ht, front, back, hfront, hback, rfl⟩
    rw [trim_append_right hback, trim_append_left hfront]
    exact ht

theorem trimmed_of_forall_not (h : ∀ a ∈ l, ¬p a) : Trimmed p l := by
  have hdrop : l.dropWhile p = l :=
    List.dropWhile_eq_self_iff.2 fun hl => h _ (List.getElem_mem hl)
  unfold Trimmed trim
  rw [hdrop]
  exact List.rdropWhile_eq_self_iff.2 fun hl => h _ (List.getLast_mem hl)

theorem mem_of_mem_trim {a : α} (h : a ∈ trim p l) : a ∈ l := by
  obtain ⟨front, back, -, -, hl⟩ := exists_eq_append_trim p l
  rw [hl]
  simp [h]

end Trim

section Separators

variable [BEq α] {a : α} {l : List α}

def cut (a : α) (l : List α) : List α × List α :=
  (l.takeWhile (· != a), (l.dropWhile (· != a)).tail)

theorem cut_append_cons [LawfulBEq α] (h : a ∉ l) (m : List α) : cut a (l ++ a :: m) = (l, m) := by
  have hl : ∀ b ∈ l, (b != a) = true := by
    intro b hb
    have hne : b ≠ a := fun heq => h (heq ▸ hb)
    simpa using hne
  unfold cut
  rw [List.takeWhile_append_of_pos hl, List.dropWhile_append_of_pos hl]
  simp

theorem notMem_cut [LawfulBEq α] (a : α) (l : List α) : a ∉ (cut a l).1 := by
  intro h
  have hne := List.mem_takeWhile_imp h
  simp at hne

theorem length_splitOn (a : α) : ∀ l : List α, (l.splitOn a).length = l.count a + 1
  | [] => by simp
  | b :: l => by
    rw [List.splitOn_cons_eq_if_modifyHead, List.count_cons]
    have ih := length_splitOn a l
    split_ifs <;> simp [ih]

end Separators

end Fields
