import Mathlib.Data.List.Nodup

/-!
# Lists of named values

A list of pairs in which no name occurs twice is a finite map: what it holds under a name is what
`List.lookup` finds, and filtering it by a name leaves at most that pair. Where some elements have a
name and no two have the same, the first of a name is the only one (`List.find?_of_distinct`).
-/

namespace List

variable {α β : Type*} [DecidableEq α] {a : α} {b : β}

theorem lookup_cons_of_ne {x : α × β} {l : List (α × β)} (h : a ≠ x.1) :
    (x :: l).lookup a = l.lookup a := by
  rw [lookup_cons, beq_eq_false_iff_ne.2 h]

theorem lookup_of_mem {l : List (α × β)} (hnd : (l.map Prod.fst).Nodup) (h : (a, b) ∈ l) :
    l.lookup a = some b := by
  obtain ⟨front, rest, rfl⟩ := append_of_mem h
  rw [lookup_eq_some_iff]
  refine ⟨front, rest, rfl, fun p hp => ?_⟩
  rw [map_append, nodup_append] at hnd
  exact bne_iff_ne.2 fun heq => hnd.2.2 p.1 (mem_map_of_mem hp) a (by simp) heq.symm

theorem lookup_of_notMem {l : List (α × β)} (h : a ∉ l.map Prod.fst) : l.lookup a = none := by
  rw [lookup_eq_none_iff]
  refine fun p hp => bne_iff_ne.2 ?_
  rintro rfl
  exact h (mem_map_of_mem hp)

theorem notMem_of_lookup {l : List (α × β)} (h : l.lookup a = none) : a ∉ l.map Prod.fst := by
  intro hmem
  obtain ⟨x, hx, rfl⟩ := mem_map.1 hmem
  exact bne_iff_ne.1 (lookup_eq_none_iff.1 h x hx) rfl

theorem filter_fst_eq {l : List (α × β)} (hnd : (l.map Prod.fst).Nodup) :
    l.filter (fun x => x.1 = a) = (l.lookup a).toList.map (Prod.mk a) := by
  induction l with
  | nil => rfl
  | cons x l ih =>
    rw [map_cons, nodup_cons] at hnd
    by_cases hx : x.1 = a
    · subst hx
      rw [filter_cons_of_pos (by simp), ih hnd.2, lookup_of_notMem hnd.1, lookup_cons_self]
      rfl
    · rw [filter_cons_of_neg (by simpa using hx), ih hnd.2, lookup_cons_of_ne (Ne.symm hx)]

/-- The only pair of a name is what is found under it. -/
theorem lookup_of_filter_eq : ∀ {l : List (α × β)}, l.filter (fun x => x.1 = a) = [(a, b)] →
    l.lookup a = some b
  | [], h => by cases h
  | x :: l, h => by
    by_cases hx : x.1 = a
    · rw [filter_cons_of_pos (by simpa using hx)] at h
      rw [(cons.inj h).1, lookup_cons_self]
    · rw [filter_cons_of_neg (by simpa using hx)] at h
      rw [lookup_cons_of_ne (Ne.symm hx)]
      exact lookup_of_filter_eq h

theorem lookup_filter_ne (l : List (α × β)) (a b : α) :
    (l.filter fun x => x.1 ≠ a).lookup b = if b = a then none else l.lookup b := by
  induction l with
  | nil => simp
  | cons x l ih =>
    by_cases hx : x.1 = a
    · rw [filter_cons_of_neg (by simpa using hx), ih]
      split_ifs with hb
      · rfl
      · rw [lookup_cons_of_ne (hx ▸ hb)]
    · rw [filter_cons_of_pos (by simpa using hx)]
      by_cases hb : b = x.1
      · subst hb
        rw [lookup_cons_self, lookup_cons_self, if_neg hx]
      · rw [lookup_cons_of_ne hb, lookup_cons_of_ne hb, ih]

theorem find?_of_distinct {γ : Type*} {f : γ → Option α} {c : γ} :
    ∀ {l : List γ}, (l.filterMap f).Nodup → c ∈ l → f c = some a →
      l.find? (fun x => f x = some a) = some c
  | [], _, h, _ => by simp at h
  | x :: l, hnd, h, hc => by
    by_cases hx : f x = some a
    · rw [filterMap_cons_some hx, nodup_cons] at hnd
      rw [find?_cons_of_pos (by simpa using hx)]
      rcases mem_cons.1 h with rfl | h
      · rfl
      · exact absurd (mem_filterMap.2 ⟨c, h, hc⟩) hnd.1
    · rw [find?_cons_of_neg (by simpa using hx)]
      refine find?_of_distinct ?_ ((mem_cons.1 h).resolve_left ?_) hc
      · exact hnd.sublist ((sublist_cons_self x l).filterMap f)
      · rintro rfl
        exact hx hc

end List
