import Mathlib.Data.List.AList
import Mathlib.Data.List.Perm.Basic

/-!
# Filtering and counting association lists

`AList.retain` keeps the bindings a test accepts, `AList.mapValues` changes the values, and
`AList.size` counts the bindings. An association list whose keys are those of a duplicate-free list
has that list's length (`AList.size_eq_length`). What is read of a fold whose steps override what
was read before is what the last such step wrote (`List.read_foldl`).
-/

universe u v

theorem List.read_foldl {σ α β : Type*} {step : σ → α → σ} {read : σ → Option β}
    {write : α → Option β} (h : ∀ s a, read (step s a) = (write a).or (read s)) :
    ∀ (l : List α) (s : σ), read (l.foldl step s) = (l.filterMap write).getLast?.or (read s)
  | [], _ => rfl
  | a :: l, s => by
    rw [foldl_cons, read_foldl h l, h]
    rcases hwrite : write a with _ | b
    · rw [filterMap_cons_none hwrite, Option.none_or]
    · rw [filterMap_cons_some hwrite, getLast?_cons]
      rcases (l.filterMap write).getLast? with _ | _ <;> rfl

namespace AList

variable {α : Type u} {β : α → Type v} [DecidableEq α]

/-- The bindings that pass the test. -/
def retain (p : ∀ a, β a → Bool) (s : AList β) : AList β where
  entries := s.entries.filter fun x => p x.1 x.2
  nodupKeys := s.nodupKeys.sublist List.filter_sublist

def mapValues {γ δ : Type v} (f : γ → δ) (s : AList fun _ : α => γ) : AList fun _ : α => δ where
  entries := s.entries.map fun x => ⟨x.1, f x.2⟩
  nodupKeys := by
    have h : (s.entries.map fun x => (⟨x.1, f x.2⟩ : Sigma fun _ : α => δ)).keys = s.entries.keys :=
      List.map_map
    unfold List.NodupKeys
    rw [h]
    exact s.nodupKeys

def size (s : AList β) : ℕ := s.keys.length

theorem lookup_retain_eq_some {p : ∀ a, β a → Bool} {s : AList β} {a : α} {b : β a} :
    (s.retain p).lookup a = some b ↔ s.lookup a = some b ∧ p a b = true := by
  have hs : s.lookup a = some b ↔ (⟨a, b⟩ : Sigma β) ∈ s.entries :=
    mem_lookup_iff
  have hr : (s.retain p).lookup a = some b ↔ (⟨a, b⟩ : Sigma β) ∈ (s.retain p).entries :=
    mem_lookup_iff
  rw [hr, hs]
  simp [retain]

omit [DecidableEq α] in
/-- Of two tests in a row, the second of which implies the first, only the second counts. -/
theorem retain_retain_of_imp {p q : ∀ a, β a → Bool} (s : AList β)
    (h : ∀ a b, q a b = true → p a b = true) : (s.retain p).retain q = s.retain q := by
  refine AList.ext ?_
  simp only [retain, List.filter_filter]
  refine List.filter_congr fun x _ => ?_
  rcases hq : q x.1 x.2 with _ | _
  · exact Bool.false_and _
  · rw [Bool.true_and, h x.1 x.2 hq]

theorem lookup_mapValues {γ δ : Type v} (f : γ → δ) (s : AList fun _ : α => γ) (a : α) :
    (s.mapValues f).lookup a = (s.lookup a).map f := by
  refine Option.ext fun d => ?_
  have hs : ∀ c, s.lookup a = some c ↔ (⟨a, c⟩ : Sigma fun _ : α => γ) ∈ s.entries :=
    fun _ => mem_lookup_iff
  have hm : (s.mapValues f).lookup a = some d
      ↔ (⟨a, d⟩ : Sigma fun _ : α => δ) ∈ (s.mapValues f).entries := mem_lookup_iff
  rw [hm, Option.map_eq_some_iff]
  simp only [hs, mapValues, List.mem_map]
  constructor
  · rintro ⟨x, hx, h⟩
    cases h
    exact ⟨x.2, hx, rfl⟩
  · rintro ⟨c, hc, rfl⟩
    exact ⟨_, hc, rfl⟩

theorem mem_iff_exists_lookup {s : AList β} {a : α} : a ∈ s ↔ ∃ b, s.lookup a = some b := by
  rw [← lookup_isSome, Option.isSome_iff_exists]

theorem mem_of_lookup {s : AList β} {a : α} {b : β a} (h : s.lookup a = some b) : a ∈ s :=
  mem_iff_exists_lookup.2 ⟨b, h⟩

theorem erase_of_notMem {s : AList β} {a : α} (h : a ∉ s) : s.erase a = s :=
  AList.ext (List.kerase_of_notMem_keys h)

theorem size_erase_of_mem {s : AList β} {a : α} (h : a ∈ s) : (s.erase a).size + 1 = s.size := by
  unfold size
  rw [keys_erase, List.length_erase_of_mem (mem_keys.1 h)]
  have := List.length_pos_of_mem (mem_keys.1 h)
  omega

theorem size_erase_le (s : AList β) (a : α) : (s.erase a).size ≤ s.size := by
  unfold size
  rw [keys_erase]
  exact List.length_erase_le

theorem size_insert_of_mem {s : AList β} {a : α} (b : β a) (h : a ∈ s) :
    (s.insert a b).size = s.size := by
  have := size_erase_of_mem h
  simp only [size, keys_insert, keys_erase, List.length_cons] at this ⊢
  omega

theorem size_insert_of_notMem {s : AList β} {a : α} (b : β a) (h : a ∉ s) :
    (s.insert a b).size = s.size + 1 := by
  simp only [size, keys_insert, List.length_cons]
  rw [List.erase_of_not_mem (mem_keys.not.1 h)]

theorem size_insert_le (s : AList β) (a : α) (b : β a) : (s.insert a b).size ≤ s.size + 1 := by
  by_cases h : a ∈ s
  · rw [size_insert_of_mem b h]
    omega
  · rw [size_insert_of_notMem b h]

omit [DecidableEq α] in
theorem size_retain_le (p : ∀ a, β a → Bool) (s : AList β) : (s.retain p).size ≤ s.size := by
  simp only [size, keys, retain, List.keys, List.length_map]
  exact List.length_filter_le _ _

omit [DecidableEq α] in
/-- An association list with the keys of a duplicate-free list has that list's length. -/
theorem size_eq_length {s : AList β} {l : List α} (hl : l.Nodup) (h : ∀ a, a ∈ s ↔ a ∈ l) :
    s.size = l.length :=
  ((List.perm_ext_iff_of_nodup s.keys_nodup hl).2 fun a => mem_keys.symm.trans (h a)).length_eq

end AList
