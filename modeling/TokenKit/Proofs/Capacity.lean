import TokenKit.Proofs.Store

/-!
# The capacity

A `makeRoom` leaves fewer entries than the cap, so calls that do not overlap never store more than
the cap (`size_le_of_calls`). Between the two sections of a `revoke` the lock is free, and another
call can take the room: the bound holds along an interleaving exactly when every insertion still
finds room (`capacity_iff`).
-/

namespace TokenKit

open StepMachine InMemoryInner InMemoryRevocationStore

/-! ## What the calls keep -/

section Calls

variable {maxEntries : ℕ} {ttl : Option ℕ} {now : ℕ}

@[simp] theorem maxEntries_callStep (w : StoreWorld) (c : StoreCall) :
    (callStep w c).store.maxEntries = w.store.maxEntries := by
  cases c <;> rfl

@[simp] theorem ttl_callStep (w : StoreWorld) (c : StoreCall) :
    (callStep w c).store.ttl = w.store.ttl := by
  cases c <;> rfl

theorem now_le_callStep (w : StoreWorld) (c : StoreCall) : w.now ≤ (callStep w c).now := by
  cases c <;> simp [callStep]

theorem maxEntries_of_calls (maxEntries : ℕ) (ttl : Option ℕ) (now : ℕ) (cs : List StoreCall) :
    (run callStep (freshStore maxEntries ttl now) cs).store.maxEntries = max maxEntries 1 :=
  run_inv callStep (P := fun w => w.store.maxEntries = max maxEntries 1)
    (fun w c h => (maxEntries_callStep w c).trans h) cs rfl

theorem ttl_of_calls (maxEntries : ℕ) (ttl : Option ℕ) (now : ℕ) (cs : List StoreCall) :
    (run callStep (freshStore maxEntries ttl now) cs).store.ttl = ttl :=
  run_inv callStep (P := fun w => w.store.ttl = ttl)
    (fun w c h => (ttl_callStep w c).trans h) cs rfl

theorem covered_callStep (w : StoreWorld) (c : StoreCall) (h : Covered w.store.inner) :
    Covered (callStep w c).store.inner := by
  cases c with
  | revoke jti lag => exact covered_insertRevoked (covered_makeRoom h w.now) jti _
  | isRevoked jti => exact h
  | len => exact covered_len h w.now
  | isEmpty => exact covered_len h w.now
  | tick d => exact h

theorem covered_of_calls (maxEntries : ℕ) (ttl : Option ℕ) (now : ℕ) (cs : List StoreCall) :
    Covered (run callStep (freshStore maxEntries ttl now) cs).store.inner :=
  run_inv callStep (P := fun w => Covered w.store.inner) covered_callStep cs
    (covered_withLimits maxEntries ttl)

theorem size_callStep_le (w : StoreWorld) (c : StoreCall) (hcov : Covered w.store.inner)
    (h : w.store.inner.entries.size ≤ w.store.maxEntries) :
    (callStep w c).store.inner.entries.size ≤ (callStep w c).store.maxEntries := by
  cases c with
  | revoke jti lag =>
    have hroom := size_makeRoom_lt hcov w.now
    have hins := AList.size_insert_le (w.store.makeRoom w.now).inner.entries jti (w.now + lag)
    exact hins.trans hroom
  | isRevoked jti => exact h
  | len => exact size_sweepExpired_le.trans h
  | isEmpty => exact size_sweepExpired_le.trans h
  | tick d => exact h

theorem size_le_of_calls (maxEntries : ℕ) (ttl : Option ℕ) (now : ℕ) (cs : List StoreCall) :
    (run callStep (freshStore maxEntries ttl now) cs).store.inner.entries.size
      ≤ max maxEntries 1 := by
  have h : Covered (run callStep (freshStore maxEntries ttl now) cs).store.inner
      ∧ (run callStep (freshStore maxEntries ttl now) cs).store.inner.entries.size
        ≤ (run callStep (freshStore maxEntries ttl now) cs).store.maxEntries :=
    run_inv callStep
      (P := fun w => Covered w.store.inner ∧ w.store.inner.entries.size ≤ w.store.maxEntries)
      (fun w c h => ⟨covered_callStep w c h.1, size_callStep_le w c h.1 h.2⟩) cs
      ⟨covered_withLimits maxEntries ttl, Nat.zero_le _⟩
  rw [maxEntries_of_calls] at h
  exact h.2

end Calls

/-! ## What the sections keep -/

section Sections

variable {jtis : ℕ → String}

@[simp] theorem maxEntries_sectionStep (w : SharedStore) (e : Section) :
    (sectionStep jtis w e).store.maxEntries = w.store.maxEntries := by
  cases e with
  | revoke c =>
    simp only [sectionStep]
    split <;> rfl
  | _ => rfl

/-- An insertion finds room: its `jti` is stored already, or the store is below the cap. -/
def InsertFindsRoom (jtis : ℕ → String) (w : SharedStore) : Section → Prop
  | .revoke c => w.pc c = .roomMade →
      jtis c ∈ w.store.inner.entries ∨ w.store.inner.entries.size < w.store.maxEntries
  | _ => True

theorem size_makeRoom_le (store : InMemoryRevocationStore) (now : ℕ) :
    (store.makeRoom now).inner.entries.size ≤ store.inner.entries.size :=
  size_evictOldestTo_le.trans size_sweepExpired_le

theorem size_sectionStep_iff (w : SharedStore) (e : Section)
    (h : w.store.inner.entries.size ≤ w.store.maxEntries) :
    (sectionStep jtis w e).store.inner.entries.size ≤ w.store.maxEntries
      ↔ InsertFindsRoom jtis w e := by
  cases e with
  | revoke c =>
    simp only [sectionStep, InsertFindsRoom]
    split
    · rename_i hpc
      exact iff_of_true ((size_makeRoom_le w.store w.now).trans h) (by simp [hpc])
    · rename_i hpc
      simp only [hpc, forall_const]
      by_cases hmem : jtis c ∈ w.store.inner.entries
      · have hsize := AList.size_insert_of_mem w.now hmem
        exact iff_of_true (hsize.le.trans h) (.inl hmem)
      · have hsize := AList.size_insert_of_notMem w.now hmem
        simp only [insertRevoked, hsize, hmem, false_or, Nat.succ_le_iff]
    · rename_i hpc
      exact iff_of_true h (by simp [hpc])
  | isRevoked jti => exact iff_of_true h trivial
  | len => exact iff_of_true (size_sweepExpired_le.trans h) trivial
  | isEmpty => exact iff_of_true (size_sweepExpired_le.trans h) trivial
  | tick d => exact iff_of_true h trivial

/-- Overlapping calls stay within the cap exactly when every insertion finds the room that its
own `makeRoom` made still free. -/
theorem capacity_iff (maxEntries : ℕ) (ttl : Option ℕ) (now : ℕ) (jtis : ℕ → String)
    (es : List Section) :
    (∀ w ∈ visited (sectionStep jtis) (freshShared maxEntries ttl now) es,
        w.store.inner.entries.size ≤ max maxEntries 1)
      ↔ ∀ x ∈ taken (sectionStep jtis) (freshShared maxEntries ttl now) es,
        InsertFindsRoom jtis x.1 x.2 := by
  refine forall_visited_iff (sectionStep jtis)
    (I := fun w => w.store.maxEntries = max maxEntries 1)
    (fun w e h _ => (maxEntries_sectionStep w e).trans h) (fun w e hI h => ?_) es rfl
    (Nat.zero_le _)
  rw [← hI] at h ⊢
  exact size_sectionStep_iff w e h

/-- Two calls that both make room before either inserts leave a store of cap one with two
entries. -/
theorem overlapping_calls_exceed_cap :
    ¬ ∀ w ∈ visited (sectionStep fun c => if c = 0 then "a" else "b") (freshShared 1 none 0)
        [.revoke 0, .revoke 1, .revoke 0, .revoke 1],
      w.store.inner.entries.size ≤ max 1 1 := by
  decide

end Sections

end TokenKit
