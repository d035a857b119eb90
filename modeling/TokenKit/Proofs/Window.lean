import TokenKit.Proofs.Capacity
import TokenKit.Lib.SortedSplit
import Mathlib.Data.List.Induction

/-!
# A bounded store is a window on the log

As long as no `jti` is revoked twice, what is stored is the tail of the log of all revocations:
the queue lists it and the map dates it (`Stores`). A sweep drops a front of it, since insertion
times increase along the log, and an eviction its first entry. Behind the tail the log holds only
entries that are past their time to live, or that have as many entries after them as the cap
(`WindowOf`), so the store answers as the log does (`isRevoked_iff_recent`).
-/

namespace TokenKit

open StepMachine InMemoryInner InMemoryRevocationStore

namespace InMemoryInner

variable {inner : InMemoryInner} {cap : ℕ} {window : List (String × ℕ)}

/-- The queue lists the window and the map dates it. -/
structure Stores (inner : InMemoryInner) (window : List (String × ℕ)) : Prop where
  order : inner.order = window.map Prod.fst
  lookup : ∀ jti t, inner.entries.lookup jti = some t ↔ (jti, t) ∈ window
  nodup : (window.map Prod.fst).Nodup

theorem Stores.mem_iff (h : Stores inner window) {jti : String} :
    jti ∈ inner.entries ↔ jti ∈ window.map Prod.fst := by
  simp [AList.mem_iff_exists_lookup, h.lookup]

theorem Stores.size (h : Stores inner window) : inner.entries.size = window.length := by
  rw [AList.size_eq_length h.nodup fun jti => h.mem_iff, List.length_map]

theorem Stores.sweepExpired (h : Stores inner window) (ttl : Option ℕ) (now : ℕ)
    (hsort : window.Pairwise fun x y => x.2 ≤ y.2) :
    ∃ expired live, window = expired ++ live ∧ (∀ x ∈ expired, ¬ Live ttl now x.2)
      ∧ Stores (inner.sweepExpired ttl now) live := by
  obtain ⟨expired, live, rfl, hexp, hlive⟩ := List.exists_split_of_pairwise
    (p := fun x : String × ℕ => Live ttl now x.2) (fun _ _ hle hx => hx.mono hle) hsort
  have hlook : ∀ jti t, (inner.sweepExpired ttl now).entries.lookup jti = some t
      ↔ (jti, t) ∈ live := by
    intro jti t
    rw [lookup_sweepExpired, h.lookup, List.mem_append]
    constructor
    · rintro ⟨hx | hx, hl⟩
      · exact absurd hl (hexp _ hx)
      · exact hx
    · intro hx
      exact ⟨.inr hx, hlive _ hx⟩
  have hnd := h.nodup
  rw [List.map_append, List.nodup_append] at hnd
  refine ⟨expired, live, rfl, hexp, ?_, hlook, hnd.2.1⟩
  rcases ttl with _ | d
  · -- without a time to live nothing has expired
    have hnil : expired = [] := by
      rw [List.eq_nil_iff_forall_not_mem]
      exact fun x hx => hexp x hx fun d hd => by cases hd
    subst hnil
    exact h.order
  · have hmem : ∀ jti, jti ∈ (inner.sweepExpired (some d) now).entries
        ↔ jti ∈ live.map Prod.fst := by
      simp [AList.mem_iff_exists_lookup, hlook]
    rw [order_sweepExpired, h.order, List.map_append, List.filter_append,
      List.filter_eq_nil_iff.2, List.filter_eq_self.2, List.nil_append]
    · intro jti hj
      exact decide_eq_true ((hmem jti).2 hj)
    · intro jti hj hin
      exact hnd.2.2 jti hj jti ((hmem jti).1 (of_decide_eq_true hin)) rfl

theorem Stores.evictOldestTo_of_full {x : String × ℕ} (h : Stores inner (x :: window))
    (hfull : (x :: window).length = cap) : Stores (inner.evictOldestTo cap) window := by
  have hx : x.1 ∈ inner.entries := h.mem_iff.2 (by simp)
  have hev : inner.evictOldestTo cap = ⟨inner.entries.erase x.1, window.map Prod.fst⟩ :=
    InMemoryInner.evictOldestTo_of_full h.order (h.size.trans hfull) hx
  have hnd := List.nodup_cons.1 h.nodup
  refine ⟨by rw [hev], fun jti t => ?_, hnd.2⟩
  rw [hev]
  by_cases hj : jti = x.1
  · subst hj
    rw [AList.lookup_erase]
    exact iff_of_false (by simp) fun hin => hnd.1 (List.mem_map.2 ⟨(x.1, t), hin, rfl⟩)
  · rw [AList.lookup_erase_ne hj, h.lookup, List.mem_cons]
    refine or_iff_right ?_
    rintro rfl
    exact hj rfl

theorem Stores.insertRevoked (store : InMemoryRevocationStore) {window : List (String × ℕ)}
    (h : Stores store.inner window) {jti : String} (hnew : jti ∉ window.map Prod.fst) (now : ℕ) :
    Stores (store.insertRevoked jti now).inner (window ++ [(jti, now)]) := by
  refine ⟨?_, fun j t => ?_, ?_⟩
  · simp [InMemoryRevocationStore.insertRevoked, h.order]
  · simp only [InMemoryRevocationStore.insertRevoked, List.mem_append, List.mem_singleton]
    by_cases hj : j = jti
    · subst hj
      rw [AList.lookup_insert, Option.some.injEq]
      constructor
      · rintro rfl
        exact .inr rfl
      · rintro (hin | heq)
        · exact absurd (List.mem_map_of_mem hin) hnew
        · exact (Prod.mk.inj heq).2.symm
    · rw [AList.lookup_insert_ne hj, h.lookup]
      refine (or_iff_left ?_).symm
      rintro heq
      exact hj (Prod.mk.inj heq).1
  · rw [List.map_append, List.nodup_append]
    refine ⟨h.nodup, by simp, fun a ha b hb => ?_⟩
    rw [List.map_singleton, List.mem_singleton] at hb
    subst hb
    rintro rfl
    exact hnew ha

end InMemoryInner

/-! ## The simulation -/

/-- What is stored is the tail of the log after `dropped`; an entry was dropped because it had
expired or because the tail had reached the cap. -/
structure WindowOf (w : StoreWorld) (a : RevocationLog) (dropped window : List (String × ℕ)) :
    Prop where
  now : w.now = a.now
  log : a.log = dropped ++ window
  stores : Stores w.store.inner window
  length_le : window.length ≤ w.store.maxEntries
  why : (∀ x ∈ dropped, ¬ Live w.store.ttl w.now x.2) ∨ window.length = w.store.maxEntries
  past : ∀ x ∈ a.log, x.2 ≤ w.now
  sorted : a.log.Pairwise fun x y => x.2 ≤ y.2

theorem windowOf_fresh (maxEntries : ℕ) (ttl : Option ℕ) (now : ℕ) :
    WindowOf (freshStore maxEntries ttl now) ⟨[], now⟩ [] [] where
  now := rfl
  log := rfl
  stores := ⟨rfl, by simp [freshStore, withLimits], List.nodup_nil⟩
  length_le := Nat.zero_le _
  why := .inl (by simp)
  past := by simp
  sorted := .nil

theorem WindowOf.sweep {w : StoreWorld} {a : RevocationLog} {dropped window : List (String × ℕ)}
    (h : WindowOf w a dropped window) :
    ∃ dropped' window', WindowOf ⟨(w.store.len w.now).2, w.now⟩ a dropped' window' := by
  have hsort := h.sorted
  rw [h.log, List.pairwise_append] at hsort
  obtain ⟨expired, live, hsplit, hexp, hst⟩ :=
    h.stores.sweepExpired w.store.ttl w.now hsort.2.1
  subst hsplit
  refine ⟨dropped ++ expired, live, h.now, by rw [h.log, List.append_assoc], hst, ?_, ?_,
    h.past, h.sorted⟩
  · have := h.length_le
    rw [List.length_append] at this
    exact (Nat.le_add_left _ _).trans this
  · rcases expired with _ | ⟨e, expired⟩
    · rw [List.append_nil]
      exact h.why
    · -- an entry that expired now, after which everything dropped earlier has expired too
      refine .inl fun x hx hl => ?_
      rcases List.mem_append.1 hx with hx | hx
      · exact hexp e List.mem_cons_self
          (hl.mono (hsort.2.2 x hx e (by simp)))
      · exact hexp x hx hl

theorem WindowOf.tick {w : StoreWorld} {a : RevocationLog} {dropped window : List (String × ℕ)}
    (h : WindowOf w a dropped window) (d : ℕ) :
    WindowOf ⟨w.store, w.now + d⟩ ⟨a.log, a.now + d⟩ dropped window where
  now := by rw [h.now]
  log := h.log
  stores := h.stores
  length_le := h.length_le
  why := h.why.imp_left fun hexp x hx hl => hexp x hx (hl.anti (Nat.le_add_right _ _))
  past := fun x hx => (h.past x hx).trans (Nat.le_add_right _ _)
  sorted := h.sorted

theorem WindowOf.past_concat {w : StoreWorld} {a : RevocationLog}
    {dropped window : List (String × ℕ)} (h : WindowOf w a dropped window) (jti : String)
    (lag : ℕ) : ∀ x ∈ a.log ++ [(jti, a.now + lag)], x.2 ≤ w.now + lag := by
  intro x hx
  rw [List.mem_append, List.mem_singleton] at hx
  rcases hx with hx | rfl
  · exact (h.past x hx).trans (Nat.le_add_right _ _)
  · exact (congrArg (· + lag) h.now).ge

theorem WindowOf.sorted_concat {w : StoreWorld} {a : RevocationLog}
    {dropped window : List (String × ℕ)} (h : WindowOf w a dropped window) (jti : String)
    (lag : ℕ) : (a.log ++ [(jti, a.now + lag)]).Pairwise fun x y => x.2 ≤ y.2 := by
  rw [List.pairwise_append]
  refine ⟨h.sorted, List.pairwise_singleton _ _, fun x hx y hy => ?_⟩
  rw [List.mem_singleton] at hy
  subst hy
  have := h.past x hx
  have := h.now
  simp only
  omega

theorem WindowOf.notMem_window {w : StoreWorld} {a : RevocationLog}
    {dropped window : List (String × ℕ)} (h : WindowOf w a dropped window) {jti : String}
    (hnew : jti ∉ a.log.map Prod.fst) : jti ∉ window.map Prod.fst := by
  intro hin
  refine hnew ?_
  rw [h.log, List.map_append]
  exact List.mem_append_right _ hin

/-- With room, nothing is evicted and the window grows. -/
theorem WindowOf.insert_of_room {w : StoreWorld} {a : RevocationLog}
    {dropped window : List (String × ℕ)} (h : WindowOf w a dropped window) {jti : String}
    (hnew : jti ∉ a.log.map Prod.fst) (lag : ℕ) (hlt : window.length < w.store.maxEntries) :
    WindowOf
      ⟨({ w.store with inner := w.store.inner.evictOldestTo w.store.maxEntries } :
        InMemoryRevocationStore).insertRevoked jti (w.now + lag), w.now + lag⟩
      ⟨a.log ++ [(jti, a.now + lag)], a.now + lag⟩ dropped (window ++ [(jti, w.now + lag)]) := by
  have hev : w.store.inner.evictOldestTo w.store.maxEntries = w.store.inner :=
    evictOldestTo_of_lt (by rwa [h.stores.size])
  refine ⟨by rw [h.now], ?_, ?_, ?_, ?_, h.past_concat jti lag, h.sorted_concat jti lag⟩
  · rw [h.log, h.now, List.append_assoc]
  · rw [hev]
    exact Stores.insertRevoked _ h.stores (h.notMem_window hnew) _
  · rw [List.length_append, List.length_singleton]
    exact hlt
  · refine .inl fun x hx hl => ?_
    rcases h.why with hexp | hfull
    · exact hexp x hx (hl.anti (Nat.le_add_right _ _))
    · exact absurd hfull hlt.ne

/-- A full store drops the first entry of its window. -/
theorem WindowOf.insert_of_full {w : StoreWorld} {a : RevocationLog} {x : String × ℕ}
    {dropped window : List (String × ℕ)} (h : WindowOf w a dropped (x :: window)) {jti : String}
    (hnew : jti ∉ a.log.map Prod.fst) (lag : ℕ)
    (hfull : (x :: window).length = w.store.maxEntries) :
    WindowOf
      ⟨({ w.store with inner := w.store.inner.evictOldestTo w.store.maxEntries } :
        InMemoryRevocationStore).insertRevoked jti (w.now + lag), w.now + lag⟩
      ⟨a.log ++ [(jti, a.now + lag)], a.now + lag⟩ (dropped ++ [x])
      (window ++ [(jti, w.now + lag)]) := by
  have hst := h.stores.evictOldestTo_of_full hfull
  have hnew' : jti ∉ window.map Prod.fst := fun hin =>
    h.notMem_window hnew (List.mem_cons_of_mem _ hin)
  refine ⟨by rw [h.now], ?_, ?_, ?_, ?_, h.past_concat jti lag, h.sorted_concat jti lag⟩
  · rw [h.log, h.now]
    simp
  · exact Stores.insertRevoked
      { w.store with inner := w.store.inner.evictOldestTo w.store.maxEntries } hst hnew' _
  · rw [List.length_append, List.length_singleton]
    exact hfull.le
  · refine .inr ?_
    rw [List.length_append, List.length_singleton]
    exact hfull

/-- From a swept store, the eviction and the insertion of a new `jti` move the window on. -/
theorem WindowOf.evict_insert {w : StoreWorld} {a : RevocationLog}
    {dropped window : List (String × ℕ)} (h : WindowOf w a dropped window) {jti : String}
    (hnew : jti ∉ a.log.map Prod.fst) (lag : ℕ) :
    ∃ dropped' window', WindowOf
      ⟨({ w.store with inner := w.store.inner.evictOldestTo w.store.maxEntries } :
        InMemoryRevocationStore).insertRevoked jti (w.now + lag), w.now + lag⟩
      ⟨a.log ++ [(jti, a.now + lag)], a.now + lag⟩ dropped' window' := by
  rcases h.length_le.lt_or_eq with hlt | hfull
  · exact ⟨_, _, h.insert_of_room hnew lag hlt⟩
  · rcases window with _ | ⟨x, window⟩
    · exact absurd hfull.symm w.store.maxEntries_pos.ne'
    · exact ⟨_, _, h.insert_of_full hnew lag hfull⟩

theorem windowOf_callStep {w : StoreWorld} {a : RevocationLog}
    {dropped window : List (String × ℕ)} (h : WindowOf w a dropped window) (c : StoreCall)
    (hnd : ((logStep a c).log.map Prod.fst).Nodup) :
    ∃ dropped' window', WindowOf (callStep w c) (logStep a c) dropped' window' := by
  cases c with
  | revoke jti lag =>
    have hnew : jti ∉ a.log.map Prod.fst := by
      simp only [logStep, List.map_append, List.map_singleton, List.nodup_append] at hnd
      exact fun hin => hnd.2.2 jti hin jti (by simp) rfl
    obtain ⟨dropped', window', h'⟩ := h.sweep
    exact h'.evict_insert hnew lag
  | isRevoked jti => exact ⟨dropped, window, h⟩
  | len => exact h.sweep
  | isEmpty => exact h.sweep
  | tick d => exact ⟨dropped, window, h.tick d⟩

theorem log_prefix_logStep (a : RevocationLog) (c : StoreCall) : a.log <+: (logStep a c).log := by
  cases c <;> simp [logStep]

theorem windowOf_calls (maxEntries : ℕ) (ttl : Option ℕ) (now : ℕ) (cs : List StoreCall)
    (hnd : ((run logStep ⟨[], now⟩ cs).log.map Prod.fst).Nodup) :
    ∃ dropped window, WindowOf (run callStep (freshStore maxEntries ttl now) cs)
      (run logStep ⟨[], now⟩ cs) dropped window := by
  induction cs using List.reverseRecOn with
  | nil => exact ⟨[], [], windowOf_fresh maxEntries ttl now⟩
  | append_singleton cs c ih =>
    rw [run_concat] at hnd ⊢
    rw [run_concat]
    have hpre := (log_prefix_logStep (run logStep ⟨[], now⟩ cs) c).map Prod.fst
    obtain ⟨dropped, window, h⟩ := ih (hpre.sublist.nodup hnd)
    exact windowOf_callStep h c hnd

theorem WindowOf.isRevoked_iff {w : StoreWorld} {a : RevocationLog}
    {dropped window : List (String × ℕ)} (h : WindowOf w a dropped window) (jti : String) :
    w.store.isRevoked jti w.now = true ↔ a.Revoked w.store.maxEntries w.store.ttl jti := by
  rw [InMemoryRevocationStore.isRevoked_iff]
  constructor
  · rintro ⟨t, ht, hl⟩
    obtain ⟨before, after, hsplit⟩ := List.append_of_mem ((h.stores.lookup jti t).1 ht)
    refine ⟨dropped ++ before, t, after, ?_, h.now ▸ hl, ?_⟩
    · rw [h.log, hsplit, List.append_assoc]
    · have := h.length_le
      rw [hsplit, List.length_append, List.length_cons] at this
      omega
  · rintro ⟨before, t, after, hlog, hl, hlen⟩
    rw [← h.now] at hl
    refine ⟨t, (h.stores.lookup jti t).2 ?_, hl⟩
    rw [h.log] at hlog
    rcases List.append_eq_append_iff.1 hlog with ⟨mid, rfl, hwin⟩ | ⟨mid, rfl, hwin⟩
    · rw [hwin]
      simp
    · rcases mid with _ | ⟨x, mid⟩
      · rw [List.nil_append] at hwin
        rw [← hwin]
        exact List.mem_cons_self
      · -- a dropped entry is past its time or past the cap
        obtain ⟨rfl, rfl⟩ := List.cons.inj hwin
        exfalso
        rcases h.why with hexp | hfull
        · exact hexp (jti, t) (by simp) hl
        · have hlen' : (mid ++ window).length < w.store.maxEntries := hlen
          rw [List.length_append] at hlen'
          omega

/-- With every `jti` revoked at most once, a `jti` reads as revoked exactly when it was revoked
within the time to live and fewer than the cap of revocations were made after it. -/
theorem isRevoked_iff_recent (maxEntries : ℕ) (ttl : Option ℕ) (now : ℕ) (cs : List StoreCall)
    (hdistinct : ((run logStep ⟨[], now⟩ cs).log.map Prod.fst).Nodup) (jti : String) :
    (run callStep (freshStore maxEntries ttl now) cs).store.isRevoked jti
        (run callStep (freshStore maxEntries ttl now) cs).now = true
      ↔ ∃ before t after, (run logStep ⟨[], now⟩ cs).log = before ++ (jti, t) :: after
        ∧ Live ttl (run callStep (freshStore maxEntries ttl now) cs).now t
        ∧ after.length < max maxEntries 1 := by
  obtain ⟨dropped, window, h⟩ := windowOf_calls maxEntries ttl now cs hdistinct
  rw [h.isRevoked_iff, RevocationLog.Revoked, maxEntries_of_calls, ttl_of_calls, ← h.now]

/-- Three revocations, the first two of which are ten nanoseconds old or older at the end. -/
def threeRevoked : List StoreCall :=
  [.revoke "a" 0, .revoke "b" 1, .tick 8, .revoke "c" 0, .tick 2]

/-- The second one would still be there but for its expiry. -/
theorem isRevoked_iff_recent_three :
    ((run callStep (freshStore 2 (some 10) 0) threeRevoked).store.isRevoked "c"
        (run callStep (freshStore 2 (some 10) 0) threeRevoked).now = true
      ↔ ∃ before t after, (run logStep ⟨[], 0⟩ threeRevoked).log = before ++ ("c", t) :: after
        ∧ Live (some 10) 11 t ∧ after.length < 2)
    ∧ ((run callStep (freshStore 2 (some 10) 0) threeRevoked).store.isRevoked "b"
        (run callStep (freshStore 2 (some 10) 0) threeRevoked).now = true
      ↔ ∃ before t after, (run logStep ⟨[], 0⟩ threeRevoked).log = before ++ ("b", t) :: after
        ∧ Live (some 10) 11 t ∧ after.length < 2) :=
  ⟨isRevoked_iff_recent 2 (some 10) 0 threeRevoked (by decide) "c",
    isRevoked_iff_recent 2 (some 10) 0 threeRevoked (by decide) "b"⟩

end TokenKit
