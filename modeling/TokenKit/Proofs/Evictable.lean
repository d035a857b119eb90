import TokenKit.Proofs.Capacity

/-!
# Every stored entry can be evicted

However the sections of any number of calls interleave, every stored `jti` has a slot in the queue
(`covered_sectionStep`). So the loop of an eviction finds a slot as long as there is an entry to
remove, and never gives up on a full store (`evictable`).
-/

namespace TokenKit

open StepMachine InMemoryInner InMemoryRevocationStore

/-! ## How the loop ends -/

namespace InMemoryInner

/-- A loop that ends by its `break` leaves the store full. -/
theorem le_size_of_evictBreaks (cap : ℕ) :
    ∀ (order : List String) (entries : AList fun _ : String => ℕ),
      evictBreaks cap entries order = true → cap ≤ (evictLoop cap entries order).entries.size
  | [], entries, h => of_decide_eq_true h
  | oldest :: order, entries, h => by
    rw [evictBreaks] at h
    rw [evictLoop]
    split_ifs at h ⊢
    exact le_size_of_evictBreaks cap order (entries.erase oldest) h

theorem Covered.evictBreaks_eq_false {inner : InMemoryInner} {cap : ℕ} (h : Covered inner)
    (hcap : 0 < cap) : evictBreaks cap inner.entries inner.order = false := by
  by_contra hbreaks
  rw [Bool.not_eq_false] at hbreaks
  have hfull : cap ≤ (inner.evictOldestTo cap).entries.size :=
    le_size_of_evictBreaks cap inner.order inner.entries hbreaks
  have hroom := h.size_evictOldestTo_lt hcap
  omega

end InMemoryInner

/-! ## The sections -/

section Sections

variable {jtis : ℕ → String}

theorem covered_sectionStep (w : SharedStore) (e : Section) (h : Covered w.store.inner) :
    Covered (sectionStep jtis w e).store.inner := by
  cases e with
  | revoke c =>
    simp only [sectionStep]
    split
    · exact covered_makeRoom h w.now
    · exact covered_insertRevoked h (jtis c) w.now
    · exact h
  | isRevoked jti => exact h
  | len => exact covered_len h w.now
  | isEmpty => exact covered_len h w.now
  | tick d => exact h

theorem covered_of_sections (maxEntries : ℕ) (ttl : Option ℕ) (now : ℕ) (jtis : ℕ → String)
    (es : List Section) :
    Covered (run (sectionStep jtis) (freshShared maxEntries ttl now) es).store.inner :=
  run_inv (sectionStep jtis) (P := fun w => Covered w.store.inner) covered_sectionStep es
    (covered_withLimits maxEntries ttl)

theorem maxEntries_of_sections (maxEntries : ℕ) (ttl : Option ℕ) (now : ℕ) (jtis : ℕ → String)
    (es : List Section) :
    (run (sectionStep jtis) (freshShared maxEntries ttl now) es).store.maxEntries
      = max maxEntries 1 :=
  run_inv (sectionStep jtis) (P := fun w => w.store.maxEntries = max maxEntries 1)
    (fun w e h => (maxEntries_sectionStep w e).trans h) es rfl

/-- In every state that the sections of concurrent calls reach, each stored `jti` is in the queue,
and a `makeRoom` leaves fewer entries than the cap without running out of slots. -/
theorem evictable (maxEntries : ℕ) (ttl : Option ℕ) (now : ℕ) (jtis : ℕ → String)
    (es : List Section) :
    let w := run (sectionStep jtis) (freshShared maxEntries ttl now) es
    (∀ jti ∈ w.store.inner.entries, jti ∈ w.store.inner.order)
      ∧ (w.store.makeRoom w.now).inner.entries.size < max maxEntries 1
      ∧ w.store.makeRoomBreaks w.now = false := by
  intro w
  have hcov : Covered w.store.inner := covered_of_sections maxEntries ttl now jtis es
  have hmax : w.store.maxEntries = max maxEntries 1 :=
    maxEntries_of_sections maxEntries ttl now jtis es
  refine ⟨hcov, hmax ▸ size_makeRoom_lt hcov w.now, ?_⟩
  exact (hcov.sweepExpired w.store.ttl w.now).evictBreaks_eq_false w.store.maxEntries_pos

end Sections

end TokenKit
