import TokenKit.RevocationLog
import Mathlib.Order.Basic
import Mathlib.Order.Nat
import Mathlib.Tactic.Common

/-!
# What each section does to a store

A sweep keeps the live entries and their slots (`lookup_sweepExpired`). An eviction pops slots off
the front of the queue and removes what they name, until there is room or no slot is left
(`evictOldestTo_spec`). Every stored `jti` has a slot (`Covered`), in any order of the sections, so
an eviction makes room.
-/

namespace TokenKit

theorem Live.anti {ttl : Option ℕ} {now now' t : ℕ} (h : Live ttl now' t)
    (hle : now ≤ now') : Live ttl now t := by
  intro d hd
  have := h d hd
  omega

theorem Live.mono {ttl : Option ℕ} {now t t' : ℕ} (h : Live ttl now t)
    (hle : t ≤ t') : Live ttl now t' := by
  intro d hd
  have := h d hd
  omega

namespace InMemoryInner

variable {inner : InMemoryInner} {ttl : Option ℕ} {now t : ℕ} {jti : String}
  {cap : ℕ}

/-- Every stored `jti` has a slot in the queue. -/
def Covered (inner : InMemoryInner) : Prop := ∀ jti ∈ inner.entries, jti ∈ inner.order

/-! ## The sweep -/

theorem lookup_sweepExpired :
    (inner.sweepExpired ttl now).entries.lookup jti = some t
      ↔ inner.entries.lookup jti = some t ∧ Live ttl now t := by
  rcases ttl with _ | d
  · simp [sweepExpired, Live]
  · simp [sweepExpired, AList.lookup_retain_eq_some, Live]

theorem mem_sweepExpired :
    jti ∈ (inner.sweepExpired ttl now).entries
      ↔ ∃ t, inner.entries.lookup jti = some t ∧ Live ttl now t := by
  simp only [AList.mem_iff_exists_lookup, lookup_sweepExpired]

theorem mem_of_mem_sweepExpired (h : jti ∈ (inner.sweepExpired ttl now).entries) :
    jti ∈ inner.entries := by
  obtain ⟨t, ht, -⟩ := mem_sweepExpired.1 h
  exact AList.mem_of_lookup ht

theorem order_sweepExpired (inner : InMemoryInner) (d now : ℕ) :
    (inner.sweepExpired (some d) now).order
      = inner.order.filter fun jti => jti ∈ (inner.sweepExpired (some d) now).entries := rfl

/-- The sweep filters the queue, by a test that every entry it keeps passes. -/
theorem sweepExpired_order (inner : InMemoryInner) (ttl : Option ℕ) (now : ℕ) :
    ∃ p : String → Bool, (inner.sweepExpired ttl now).order = inner.order.filter p
      ∧ ∀ jti ∈ (inner.sweepExpired ttl now).entries, p jti = true := by
  rcases ttl with _ | d
  · exact ⟨fun _ => true, by simp [sweepExpired], fun _ _ => rfl⟩
  · exact ⟨fun jti => jti ∈ (inner.sweepExpired (some d) now).entries,
      order_sweepExpired inner d now, by simp⟩

theorem sweepExpired_sublist : (inner.sweepExpired ttl now).order.Sublist inner.order := by
  obtain ⟨p, hp, -⟩ := sweepExpired_order inner ttl now
  rw [hp]
  exact List.filter_sublist

theorem size_sweepExpired_le : (inner.sweepExpired ttl now).entries.size ≤ inner.entries.size := by
  rcases ttl with _ | d
  · exact le_rfl
  · exact AList.size_retain_le _ _

theorem Covered.sweepExpired (h : Covered inner) (ttl : Option ℕ) (now : ℕ) :
    Covered (inner.sweepExpired ttl now) := by
  obtain ⟨p, hp, hall⟩ := sweepExpired_order inner ttl now
  intro jti hj
  rw [hp, List.mem_filter]
  exact ⟨h jti (mem_of_mem_sweepExpired hj), hall jti hj⟩

/-! ## The eviction -/

theorem evictLoop_of_lt {entries : AList fun _ : String => ℕ} (h : entries.size < cap)
    (order : List String) : evictLoop cap entries order = ⟨entries, order⟩ := by
  rcases order with _ | ⟨oldest, order⟩
  · rfl
  · rw [evictLoop, if_neg (by omega)]

theorem evictLoop_spec (cap : ℕ) :
    ∀ (order : List String) (entries : AList fun _ : String => ℕ),
      ∃ popped, order = popped ++ (evictLoop cap entries order).order
        ∧ (∀ jti, (evictLoop cap entries order).entries.lookup jti
            = if jti ∈ popped then none else entries.lookup jti)
        ∧ ((evictLoop cap entries order).entries.size < cap
            ∨ (evictLoop cap entries order).order = [])
  | [], entries => ⟨[], rfl, by simp [evictLoop], .inr rfl⟩
  | oldest :: order, entries => by
    rw [evictLoop]
    split_ifs with hfull
    · obtain ⟨popped, horder, hlook, hend⟩ := evictLoop_spec cap order (entries.erase oldest)
      refine ⟨oldest :: popped, by rw [List.cons_append, ← horder], fun jti => ?_, hend⟩
      rw [hlook]
      by_cases hj : jti = oldest
      · subst hj
        simp
      · simp [AList.lookup_erase_ne hj, hj]
    · exact ⟨[], rfl, by simp, .inl (not_le.1 hfull)⟩

/-- An eviction pops slots off the front of the queue, removes what they name, and stops with room
or with no slot left. -/
theorem evictOldestTo_spec (inner : InMemoryInner) (cap : ℕ) :
    ∃ popped, inner.order = popped ++ (inner.evictOldestTo cap).order
      ∧ (∀ jti, (inner.evictOldestTo cap).entries.lookup jti
          = if jti ∈ popped then none else inner.entries.lookup jti)
      ∧ ((inner.evictOldestTo cap).entries.size < cap
          ∨ (inner.evictOldestTo cap).order = []) :=
  evictLoop_spec cap inner.order inner.entries

theorem lookup_of_lookup_evictOldestTo
    (h : (inner.evictOldestTo cap).entries.lookup jti = some t) :
    inner.entries.lookup jti = some t := by
  obtain ⟨popped, -, hlook, -⟩ := evictOldestTo_spec inner cap
  rw [hlook] at h
  split_ifs at h
  exact h

theorem mem_of_mem_evictOldestTo (h : jti ∈ (inner.evictOldestTo cap).entries) :
    jti ∈ inner.entries := by
  obtain ⟨t, ht⟩ := AList.mem_iff_exists_lookup.1 h
  exact AList.mem_of_lookup (lookup_of_lookup_evictOldestTo ht)

theorem size_evictLoop_le (cap : ℕ) :
    ∀ (order : List String) (entries : AList fun _ : String => ℕ),
      (evictLoop cap entries order).entries.size ≤ entries.size
  | [], entries => le_rfl
  | oldest :: order, entries => by
    rw [evictLoop]
    split_ifs
    · exact (size_evictLoop_le cap order _).trans (AList.size_erase_le entries oldest)
    · exact le_rfl

theorem size_evictOldestTo_le : (inner.evictOldestTo cap).entries.size ≤ inner.entries.size :=
  size_evictLoop_le cap inner.order inner.entries

theorem evictOldestTo_of_lt (h : inner.entries.size < cap) : inner.evictOldestTo cap = inner :=
  evictLoop_of_lt h inner.order

theorem Covered.evictOldestTo (h : Covered inner) (cap : ℕ) :
    Covered (inner.evictOldestTo cap) := by
  obtain ⟨popped, horder, hlook, -⟩ := evictOldestTo_spec inner cap
  intro jti hj
  have hin := h jti (mem_of_mem_evictOldestTo hj)
  rw [horder, List.mem_append] at hin
  rcases hin with hpop | hin
  · obtain ⟨t, ht⟩ := AList.mem_iff_exists_lookup.1 hj
    rw [hlook, if_pos hpop] at ht
    cases ht
  · exact hin

theorem Covered.size_evictOldestTo_lt (h : Covered inner) (hcap : 0 < cap) :
    (inner.evictOldestTo cap).entries.size < cap := by
  obtain ⟨popped, -, -, hend⟩ := evictOldestTo_spec inner cap
  rcases hend with hlt | hnil
  · exact hlt
  · have hno : ∀ jti, jti ∉ (inner.evictOldestTo cap).entries := by
      intro jti hj
      have := h.evictOldestTo cap jti hj
      rw [hnil] at this
      exact List.not_mem_nil this
    have : (inner.evictOldestTo cap).entries.size = ([] : List String).length :=
      AList.size_eq_length List.nodup_nil fun jti => by simp [hno jti]
    simpa [this] using hcap

/-- From a store that is exactly full, an eviction removes one entry, the one whose slot comes
first, and the stale slots before it. -/
theorem evictLoop_of_full {entries : AList fun _ : String => ℕ} {victim : String}
    {order : List String} (hfull : entries.size = cap) (hv : victim ∈ entries) :
    ∀ stale : List String, (∀ jti ∈ stale, jti ∉ entries) →
      evictLoop cap entries (stale ++ victim :: order) = ⟨entries.erase victim, order⟩
  | [], _ => by
    have := AList.size_erase_of_mem hv
    rw [List.nil_append, evictLoop, if_pos (by omega), evictLoop_of_lt (by omega)]
  | jti :: stale, h => by
    rw [List.cons_append, evictLoop, if_pos (by omega),
      AList.erase_of_notMem (h jti List.mem_cons_self)]
    exact evictLoop_of_full hfull hv stale fun j hj => h j (List.mem_cons_of_mem _ hj)

theorem evictOldestTo_of_full {victim : String} {order : List String}
    (horder : inner.order = victim :: order) (hfull : inner.entries.size = cap)
    (hv : victim ∈ inner.entries) :
    inner.evictOldestTo cap = ⟨inner.entries.erase victim, order⟩ := by
  rw [evictOldestTo, horder]
  exact evictLoop_of_full hfull hv [] (by simp)

/-- The stored `jti` whose slot comes first in the queue. -/
def foremost (inner : InMemoryInner) : Option String :=
  inner.order.find? fun jti => jti ∈ inner.entries

theorem mem_of_foremost {victim : String} (h : inner.foremost = some victim) :
    victim ∈ inner.entries := by
  simpa using List.find?_some h

theorem Covered.exists_foremost (h : Covered inner) (hpos : 0 < inner.entries.size) :
    ∃ victim, inner.foremost = some victim := by
  obtain ⟨jti, hj⟩ := List.exists_mem_of_length_pos hpos
  have hsome : inner.foremost.isSome := by
    rw [foremost, List.find?_isSome]
    exact ⟨jti, h jti hj, decide_eq_true (AList.mem_keys.2 hj)⟩
  exact Option.isSome_iff_exists.1 hsome

theorem entries_evictOldestTo_of_full {victim : String} (hfull : inner.entries.size = cap)
    (hv : inner.foremost = some victim) :
    (inner.evictOldestTo cap).entries = inner.entries.erase victim := by
  obtain ⟨hmem, stale, order, horder, hstale⟩ := List.find?_eq_some_iff_append.1 hv
  simp only [decide_eq_true_eq, Bool.not_eq_eq_eq_not, Bool.not_true, decide_eq_false_iff_not]
    at hmem hstale
  rw [evictOldestTo, horder, evictLoop_of_full hfull hmem stale hstale]

end InMemoryInner

namespace InMemoryRevocationStore

open InMemoryInner

variable {store : InMemoryRevocationStore} {now t : ℕ} {jti : String}

theorem isRevoked_iff :
    store.isRevoked jti now = true
      ↔ ∃ t, store.inner.entries.lookup jti = some t ∧ Live store.ttl now t := by
  unfold isRevoked
  rcases store.inner.entries.lookup jti with _ | inserted
  · simp
  · rcases store.ttl with _ | d
    · simp [Live]
    · simp [Live]

theorem isRevoked_iff_mem_sweepExpired :
    store.isRevoked jti now = true
      ↔ jti ∈ (store.inner.sweepExpired store.ttl now).entries := by
  rw [isRevoked_iff, mem_sweepExpired]

theorem covered_withLimits (maxEntries : ℕ) (ttl : Option ℕ) :
    Covered (withLimits maxEntries ttl).inner := by
  intro jti hj
  exact absurd hj (AList.notMem_empty jti)

theorem covered_len (h : Covered store.inner) (now : ℕ) :
    Covered (store.len now).2.inner :=
  h.sweepExpired store.ttl now

theorem covered_makeRoom (h : Covered store.inner) (now : ℕ) :
    Covered (store.makeRoom now).inner :=
  (h.sweepExpired store.ttl now).evictOldestTo store.maxEntries

theorem covered_insertRevoked (h : Covered store.inner) (jti : String) (now : ℕ) :
    Covered (store.insertRevoked jti now).inner := by
  intro j hj
  simp only [insertRevoked, AList.mem_insert, List.mem_append, List.mem_singleton] at hj ⊢
  rcases hj with rfl | hj
  · exact .inr rfl
  · exact .inl (h j hj)

theorem size_makeRoom_lt (h : Covered store.inner) (now : ℕ) :
    (store.makeRoom now).inner.entries.size < store.maxEntries :=
  (h.sweepExpired store.ttl now).size_evictOldestTo_lt store.maxEntries_pos

end InMemoryRevocationStore

end TokenKit
