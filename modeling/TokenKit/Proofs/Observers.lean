import TokenKit.Proofs.Store

/-!
# Looking at a store

`len` and `isEmpty` sweep, so they write to the map and the queue. A later sweep drops all that an
earlier one did (`sweepExpired_sweepExpired`), and every call sees the store as a sweep at its
instant leaves it. So what can be told of two stores is told by their sweeps from now on
(`SweptAlike`), which a look leaves as they are, and no look changes another call's answer
(`observers_neutral`).
-/

namespace TokenKit

open StepMachine InMemoryInner InMemoryRevocationStore

/-! ## A sweep after a sweep -/

theorem sweepExpired_sweepExpired (inner : InMemoryInner) (ttl : Option ℕ) {now now' : ℕ}
    (h : now ≤ now') :
    (inner.sweepExpired ttl now).sweepExpired ttl now' = inner.sweepExpired ttl now' := by
  rcases ttl with _ | d
  · rfl
  have hentries : ((inner.sweepExpired (some d) now).sweepExpired (some d) now').entries
      = (inner.sweepExpired (some d) now').entries := by
    refine AList.retain_retain_of_imp (p := fun _ inserted => now - inserted < d)
      (q := fun _ inserted => now' - inserted < d) inner.entries fun jti inserted hlive => ?_
    rw [decide_eq_true_eq] at hlive ⊢
    omega
  have horder : ((inner.sweepExpired (some d) now).sweepExpired (some d) now').order
      = (inner.sweepExpired (some d) now').order := by
    rw [order_sweepExpired, order_sweepExpired, order_sweepExpired, hentries, List.filter_filter]
    refine List.filter_congr fun jti _ => ?_
    -- what is live at the later instant was live at the earlier one
    rw [Bool.eq_iff_iff, Bool.and_eq_true, decide_eq_true_eq, decide_eq_true_eq,
      and_iff_left_iff_imp]
    intro hmem
    rw [← hentries] at hmem
    exact mem_of_mem_sweepExpired hmem
  exact congrArg₂ InMemoryInner.mk hentries horder

/-! ## Stores that cannot be told apart -/

/-- Two stores with the same limits, which any sweep from now on leaves the same. -/
structure SweptAlike (w v : StoreWorld) : Prop where
  now : w.now = v.now
  maxEntries : w.store.maxEntries = v.store.maxEntries
  ttl : w.store.ttl = v.store.ttl
  swept : ∀ now, w.now ≤ now →
    w.store.inner.sweepExpired w.store.ttl now = v.store.inner.sweepExpired v.store.ttl now

section

variable {w v : StoreWorld}

theorem SweptAlike.refl (w : StoreWorld) : SweptAlike w w := ⟨rfl, rfl, rfl, fun _ _ => rfl⟩

theorem SweptAlike.symm (h : SweptAlike w v) : SweptAlike v w :=
  ⟨h.now.symm, h.maxEntries.symm, h.ttl.symm, fun now hle => (h.swept now (h.now ▸ hle)).symm⟩

theorem SweptAlike.sweep_left (h : SweptAlike w v) :
    SweptAlike ⟨(w.store.len w.now).2, w.now⟩ v where
  now := h.now
  maxEntries := h.maxEntries
  ttl := h.ttl
  swept now hle := (sweepExpired_sweepExpired _ _ hle).trans (h.swept now hle)

theorem SweptAlike.sweep (h : SweptAlike w v) :
    SweptAlike ⟨(w.store.len w.now).2, w.now⟩ ⟨(v.store.len v.now).2, v.now⟩ :=
  h.sweep_left.symm.sweep_left.symm

/-- `revoke` sweeps first, and so leaves the same store. -/
theorem SweptAlike.revoke (h : SweptAlike w v) (jti : String) (lag : ℕ) :
    callStep w (.revoke jti lag) = callStep v (.revoke jti lag) := by
  have hswept := h.swept w.now le_rfl
  obtain ⟨⟨inner, maxEntries, ttl, hpos⟩, now⟩ := w
  obtain ⟨⟨inner', maxEntries', ttl', hpos'⟩, now'⟩ := v
  obtain ⟨rfl, rfl, rfl, -⟩ := h
  simp only at hswept
  simp only [callStep, InMemoryRevocationStore.revoke, makeRoom, hswept]

theorem SweptAlike.step (h : SweptAlike w v) (c : StoreCall) :
    SweptAlike (callStep w c) (callStep v c) := by
  cases c with
  | revoke jti lag =>
    rw [h.revoke jti lag]
    exact .refl _
  | isRevoked jti => exact h
  | len => exact h.sweep
  | isEmpty => exact h.sweep
  | tick d =>
    refine ⟨congrArg (· + d) h.now, h.maxEntries, h.ttl, fun now hle => h.swept now ?_⟩
    exact (Nat.le_add_right _ _).trans hle

theorem SweptAlike.observe (h : SweptAlike w v) (o : Observer) :
    SweptAlike (callStep w o.call) v := by
  cases o with
  | isRevoked jti => exact h
  | len => exact h.sweep_left
  | isEmpty => exact h.sweep_left

theorem SweptAlike.isRevoked (h : SweptAlike w v) (jti : String) :
    w.store.isRevoked jti w.now = v.store.isRevoked jti v.now := by
  rw [Bool.eq_iff_iff, isRevoked_iff_mem_sweepExpired, isRevoked_iff_mem_sweepExpired,
    h.swept w.now le_rfl, h.now]

theorem SweptAlike.len (h : SweptAlike w v) :
    (w.store.len w.now).1 = (v.store.len v.now).1 := by
  have hlen : ∀ store : InMemoryRevocationStore, ∀ now,
      (store.len now).1 = (store.inner.sweepExpired store.ttl now).entries.size := fun _ _ => rfl
  rw [hlen, hlen, h.swept w.now le_rfl, h.now]

theorem SweptAlike.answer (h : SweptAlike w v) (c : StoreCall) :
    callAnswer w c = callAnswer v c := by
  cases c with
  | revoke jti lag => rfl
  | isRevoked jti => exact congrArg (fun b => some (StoreAnswer.isRevoked b)) (h.isRevoked jti)
  | len => exact congrArg (fun n => some (StoreAnswer.len n)) h.len
  | isEmpty => exact congrArg (fun n => some (StoreAnswer.isEmpty (n == 0))) h.len
  | tick d => rfl

end

/-! ## What a look tells -/

/-- `len` counts the `jti`s that read as revoked at its instant. -/
theorem len_eq_length (store : InMemoryRevocationStore) (now : ℕ) :
    ∃ revoked : List String, revoked.Nodup
      ∧ (∀ jti, jti ∈ revoked ↔ store.isRevoked jti now = true)
      ∧ (store.len now).1 = revoked.length := by
  refine ⟨(store.inner.sweepExpired store.ttl now).entries.keys, AList.keys_nodup _,
    fun jti => ?_, rfl⟩
  rw [isRevoked_iff_mem_sweepExpired, AList.mem_keys]

/-- Calls that only look change no answer of the calls they are made among, and in every state that
calls reach `len` counts the `jti`s that read as revoked. -/
theorem observers_neutral (maxEntries : ℕ) (ttl : Option ℕ) (now : ℕ) :
    (∀ cs : List (StoreCall ⊕ Observer),
      ownOutputs callStep Observer.call callAnswer (freshStore maxEntries ttl now) cs
        = outputs callStep callAnswer (freshStore maxEntries ttl now) (own cs))
    ∧ ∀ cs : List StoreCall, ∃ revoked : List String, revoked.Nodup
      ∧ (∀ jti, jti ∈ revoked
        ↔ (run callStep (freshStore maxEntries ttl now) cs).store.isRevoked jti
          (run callStep (freshStore maxEntries ttl now) cs).now = true)
      ∧ ((run callStep (freshStore maxEntries ttl now) cs).store.len
          (run callStep (freshStore maxEntries ttl now) cs).now).1 = revoked.length := by
  refine ⟨fun cs => ?_, fun cs => len_eq_length _ _⟩
  exact ownOutputs_eq callStep (R := SweptAlike) (fun _ _ c h => h.answer c)
    (fun _ _ c h => h.step c) (fun _ _ o h => h.observe o) cs (.refl _)

end TokenKit
