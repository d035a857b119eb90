import TokenKit.Proofs.Capacity

/-!
# Revoking again

`revoke` makes room before it looks whether its `jti` is stored. On a full store that evicts the
entry whose slot comes first, and un-revokes it unless it is the one being revoked.
-/

namespace TokenKit

open StepMachine InMemoryInner InMemoryRevocationStore

/-- Revoking `jti` at once leaves every other answer as it is. -/
def RepeatHarmless (w : StoreWorld) (jti : String) : Prop :=
  ∀ k, k ≠ jti → (w.store.revoke jti w.now w.now).isRevoked k w.now = w.store.isRevoked k w.now

/-- The store holds fewer live entries than its cap, or `jti` is the live entry whose slot comes
first. -/
def RoomOrForemost (w : StoreWorld) (jti : String) : Prop :=
  (w.store.inner.sweepExpired w.store.ttl w.now).entries.size < w.store.maxEntries
    ∨ (w.store.inner.sweepExpired w.store.ttl w.now).foremost = some jti

section

variable {store : InMemoryRevocationStore} {now : ℕ} {jti k : String}

theorem isRevoked_revoke_iff (hk : k ≠ jti) :
    (store.revoke jti now now).isRevoked k now = true
      ↔ k ∈ (store.makeRoom now).inner.entries := by
  rw [isRevoked_iff, AList.mem_iff_exists_lookup]
  have hlook : (store.revoke jti now now).inner.entries.lookup k
      = (store.makeRoom now).inner.entries.lookup k := AList.lookup_insert_ne hk
  rw [hlook]
  refine ⟨fun ⟨t, ht, _⟩ => ⟨t, ht⟩, fun ⟨t, ht⟩ => ⟨t, ht, ?_⟩⟩
  exact (lookup_sweepExpired.1 (lookup_of_lookup_evictOldestTo ht)).2

theorem repeatHarmless_iff_kept {w : StoreWorld} :
    RepeatHarmless w jti ↔ ∀ k, k ≠ jti → (k ∈ (w.store.makeRoom w.now).inner.entries
      ↔ k ∈ (w.store.inner.sweepExpired w.store.ttl w.now).entries) := by
  refine forall_congr' fun k => forall_congr' fun hk => ?_
  rw [Bool.eq_iff_iff, isRevoked_revoke_iff hk, isRevoked_iff_mem_sweepExpired]

end

/-- In any state that calls reach, revoking a `jti`, stored already or not, changes no other answer
exactly when there is room or what the eviction removes is that `jti` itself. -/
theorem repeated_revoke_harmless_iff (maxEntries : ℕ) (ttl : Option ℕ) (now : ℕ)
    (cs : List StoreCall) (jti : String) :
    RepeatHarmless (run callStep (freshStore maxEntries ttl now) cs) jti
      ↔ RoomOrForemost (run callStep (freshStore maxEntries ttl now) cs) jti := by
  have hcap := size_le_of_calls maxEntries ttl now cs
  rw [← maxEntries_of_calls maxEntries ttl now cs] at hcap
  have hcov := covered_of_calls maxEntries ttl now cs
  generalize run callStep (freshStore maxEntries ttl now) cs = w at hcap hcov
  set live := w.store.inner.sweepExpired w.store.ttl w.now with hlive
  have hle : live.entries.size ≤ w.store.maxEntries := size_sweepExpired_le.trans hcap
  rw [repeatHarmless_iff_kept, RoomOrForemost, ← hlive]
  rcases hle.lt_or_eq with hlt | hfull
  · refine iff_of_true (fun k _ => ?_) (.inl hlt)
    rw [makeRoom, ← hlive, evictOldestTo_of_lt hlt]
  · have hpos : 0 < live.entries.size := by
      rw [hfull]
      exact w.store.maxEntries_pos
    obtain ⟨victim, hv⟩ := (hcov.sweepExpired w.store.ttl w.now).exists_foremost hpos
    rw [← hlive] at hv
    have hroom : (w.store.makeRoom w.now).inner.entries = live.entries.erase victim :=
      entries_evictOldestTo_of_full hfull hv
    have hmem : victim ∈ live.entries := mem_of_foremost hv
    simp only [hroom, AList.mem_erase, hfull, lt_irrefl, false_or, hv, Option.some.injEq]
    constructor
    · intro h
      by_contra hne
      exact ((h victim hne).2 hmem).1 rfl
    · rintro rfl k hk
      simp [hk]

/-- On a full store, revoking the newest `jti` again un-revokes the oldest. -/
theorem repeated_revoke_evicts_another :
    (run callStep (freshStore 2 none 0) [.revoke "a" 0, .revoke "b" 0]).store.isRevoked "b" 0 = true
      ∧ ¬ RepeatHarmless
        (run callStep (freshStore 2 none 0) [.revoke "a" 0, .revoke "b" 0]) "b" := by
  refine ⟨by decide, fun h => ?_⟩
  exact absurd (h "a" (by decide)) (by decide)

end TokenKit
