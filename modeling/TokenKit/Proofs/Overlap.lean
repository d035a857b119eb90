import TokenKit.Proofs.Evictable
import TokenKit.Proofs.Window
import Mathlib.Data.Set.Card

/-!
# A store under overlapping calls

With every `jti` revoked by one call, what is stored is still the tail of the log of all insertions
(`Remembers`), however the sections interleave. The section that makes room cuts the tail to less
than the cap, and several may do so before any of them inserts. So a store answers as the log does
(`isRevoked_overlapping_iff`): the last insertions, one fewer than the cap, are never forgotten, and
as many calls as there are between their sections can take the store past its cap
(`overshoot_bounded`), so it keeps within the cap where no two are there at once
(`capacity_of_apart`).
-/

namespace TokenKit

open StepMachine InMemoryInner InMemoryRevocationStore

/-! ## Evictions from any tail -/

namespace InMemoryInner

variable {cap : ℕ}

/-- An eviction cuts the front of what is stored, down to one less than the cap. -/
theorem Stores.evictOldestTo : ∀ {window : List (String × ℕ)} {state : InMemoryInner},
    Stores state window →
      Stores (state.evictOldestTo cap) (window.drop (window.length + 1 - cap))
  | [], state, h => by
    have horder : state.order = [] := h.order
    rw [List.drop_nil, InMemoryInner.evictOldestTo, horder]
    exact ⟨rfl, h.lookup, List.nodup_nil⟩
  | x :: window, state, h => by
    by_cases hfull : cap ≤ (x :: window).length
    · have horder : state.order = x.1 :: window.map Prod.fst := h.order
      have hnd := List.nodup_cons.1 h.nodup
      have hrest : Stores ⟨state.entries.erase x.1, window.map Prod.fst⟩ window := by
        refine ⟨rfl, fun jti t => ?_, hnd.2⟩
        by_cases hj : jti = x.1
        · subst hj
          rw [AList.lookup_erase]
          exact iff_of_false (by simp) fun hin => hnd.1 (List.mem_map.2 ⟨(x.1, t), hin, rfl⟩)
        · rw [AList.lookup_erase_ne hj, h.lookup, List.mem_cons]
          refine or_iff_right ?_
          rintro rfl
          exact hj rfl
      have hstep : state.evictOldestTo cap
          = InMemoryInner.evictOldestTo ⟨state.entries.erase x.1, window.map Prod.fst⟩ cap := by
        rw [InMemoryInner.evictOldestTo, horder, evictLoop, if_pos (h.size ▸ hfull)]
        rfl
      have hdrop : (x :: window).drop ((x :: window).length + 1 - cap)
          = window.drop (window.length + 1 - cap) := by
        rw [List.length_cons] at hfull ⊢
        rw [show window.length + 1 + 1 - cap = (window.length + 1 - cap) + 1 by omega,
          List.drop_succ_cons]
      rw [hstep, hdrop]
      exact hrest.evictOldestTo
    · have hroom : (x :: window).length + 1 - cap = 0 := by omega
      rw [hroom, List.drop_zero, evictOldestTo_of_lt (by rw [h.size]; omega)]
      exact h

end InMemoryInner

/-! ## The simulation -/

/-- What is stored is the tail of the log after `dropped`; of what was dropped, everything that is
not forgotten has expired. -/
structure Remembers (jtis : ℕ → String) (w : SharedStore) (a : SharedLog)
    (dropped window : List (String × ℕ)) : Prop where
  now : w.now = a.now
  pc : w.pc = a.pc
  log : a.log = dropped ++ window
  stores : Stores w.store.inner window
  forgotten_le : a.forgotten ≤ dropped.length
  expired : ∀ x ∈ dropped.drop a.forgotten, ¬ Live w.store.ttl w.now x.2
  past : ∀ x ∈ a.log, x.2 ≤ w.now
  sorted : a.log.Pairwise fun x y => x.2 ≤ y.2
  callers : ∀ x ∈ a.log, ∃ c, a.pc c = .returned ∧ x.1 = jtis c

section Simulation

variable {jtis : ℕ → String} {w : SharedStore} {a : SharedLog}
  {dropped window : List (String × ℕ)}

theorem remembers_fresh (maxEntries : ℕ) (ttl : Option ℕ) (now : ℕ) :
    Remembers jtis (freshShared maxEntries ttl now) (freshLog now) [] [] where
  now := rfl
  pc := rfl
  log := rfl
  stores := ⟨rfl, by simp [freshShared, withLimits], List.nodup_nil⟩
  forgotten_le := le_rfl
  expired := by simp
  past := by simp [freshLog]
  sorted := .nil
  callers := by simp [freshLog]

theorem Remembers.sweep (h : Remembers jtis w a dropped window) :
    ∃ dropped' window', Remembers jtis { w with store := (w.store.len w.now).2 } a dropped'
      window' := by
  have hsort := h.sorted
  rw [h.log, List.pairwise_append] at hsort
  obtain ⟨expired, live, hsplit, hexp, hst⟩ :=
    h.stores.sweepExpired w.store.ttl w.now hsort.2.1
  subst hsplit
  refine ⟨dropped ++ expired, live, h.now, h.pc, by rw [h.log, List.append_assoc], hst, ?_, ?_,
    h.past, h.sorted, h.callers⟩
  · rw [List.length_append]
    exact h.forgotten_le.trans (Nat.le_add_right _ _)
  · intro x hx
    rw [List.drop_append_of_le_length h.forgotten_le, List.mem_append] at hx
    rcases hx with hx | hx
    · exact h.expired x hx
    · exact hexp x hx

/-- From a swept store, the section that makes room forgets all but one less than the cap. -/
theorem Remembers.evict (h : Remembers jtis w a dropped window) {c : ℕ}
    (hpc : a.pc c = .started) :
    ∃ dropped' window', Remembers jtis
      ⟨{ w.store with inner := w.store.inner.evictOldestTo w.store.maxEntries }, w.now,
        Function.update w.pc c .roomMade⟩
      (sharedLogStep w.store.maxEntries jtis a (.revoke c)) dropped' window' := by
  have hstep : sharedLogStep w.store.maxEntries jtis a (.revoke c)
      = { a with
          forgotten := max a.forgotten (a.log.length + 1 - w.store.maxEntries)
          pc := Function.update a.pc c .roomMade } := by
    simp only [sharedLogStep, hpc]
  set cut := window.length + 1 - w.store.maxEntries with hcut
  have hlen : a.log.length = dropped.length + window.length := by
    rw [h.log, List.length_append]
  have hle := h.forgotten_le
  have hpos := w.store.maxEntries_pos
  rw [hstep]
  refine ⟨dropped ++ window.take cut, window.drop cut, h.now, congrArg (Function.update · c _) h.pc,
    ?_, h.stores.evictOldestTo, ?_, ?_, h.past, h.sorted, ?_⟩
  · show a.log = _
    rw [h.log, List.append_assoc, List.take_append_drop]
  · show max a.forgotten (a.log.length + 1 - w.store.maxEntries) ≤ _
    rw [List.length_append, List.length_take]
    omega
  · intro x hx
    have hx : x ∈ (dropped ++ window.take cut).drop
        (max a.forgotten (a.log.length + 1 - w.store.maxEntries)) := hx
    by_cases hcut0 : cut = 0
    · -- nothing is evicted, and what is forgotten now had expired
      rw [hcut0, List.take_zero, List.append_nil] at hx
      exact h.expired x ((List.drop_sublist_drop_left _ (le_max_left _ _)).subset hx)
    · -- everything dropped is forgotten
      rw [List.drop_eq_nil_of_le] at hx
      · cases hx
      · rw [List.length_append, List.length_take]
        omega
  · intro x hx
    obtain ⟨c', hreturned, hjti⟩ := h.callers x hx
    refine ⟨c', ?_, hjti⟩
    show Function.update a.pc c .roomMade c' = .returned
    rw [Function.update_of_ne]
    · exact hreturned
    · rintro rfl
      rw [hpc] at hreturned
      cases hreturned

theorem Remembers.insert (h : Remembers jtis w a dropped window)
    (hdistinct : Function.Injective jtis) {c : ℕ} (hpc : a.pc c = .roomMade) :
    Remembers jtis
      ⟨w.store.insertRevoked (jtis c) w.now, w.now, Function.update w.pc c .returned⟩
      (sharedLogStep w.store.maxEntries jtis a (.revoke c)) dropped
      (window ++ [(jtis c, w.now)]) := by
  have hstep : sharedLogStep w.store.maxEntries jtis a (.revoke c)
      = { a with
          log := a.log ++ [(jtis c, a.now)]
          pc := Function.update a.pc c .returned } := by
    simp only [sharedLogStep, hpc]
  have hnew : jtis c ∉ window.map Prod.fst := by
    intro hin
    obtain ⟨x, hx, hjti⟩ := List.mem_map.1 hin
    obtain ⟨c', hreturned, hjti'⟩ := h.callers x (h.log ▸ List.mem_append_right _ hx)
    obtain rfl : c' = c := hdistinct (hjti'.symm.trans hjti)
    rw [hpc] at hreturned
    cases hreturned
  rw [hstep]
  refine ⟨h.now, congrArg (Function.update · c _) h.pc, ?_, h.stores.insertRevoked _ hnew _,
    h.forgotten_le, h.expired, ?_, ?_, ?_⟩
  · show a.log ++ [(jtis c, a.now)] = _
    rw [h.log, h.now, List.append_assoc]
  · intro x hx
    have hx : x ∈ a.log ++ [(jtis c, a.now)] := hx
    rcases List.mem_append.1 hx with hold | hlast
    · exact h.past x hold
    · rw [List.mem_singleton.1 hlast]
      exact h.now.ge
  · show (a.log ++ [(jtis c, a.now)]).Pairwise fun x y => x.2 ≤ y.2
    rw [List.pairwise_append]
    refine ⟨h.sorted, List.pairwise_singleton _ _, fun x hx y hy => ?_⟩
    rw [List.mem_singleton.1 hy]
    exact h.now ▸ h.past x hx
  · intro x hx
    have hx : x ∈ a.log ++ [(jtis c, a.now)] := hx
    rcases List.mem_append.1 hx with hold | hlast
    · obtain ⟨c', hreturned, hjti⟩ := h.callers x hold
      refine ⟨c', ?_, hjti⟩
      show Function.update a.pc c .returned c' = .returned
      rw [Function.update_apply]
      split_ifs
      · rfl
      · exact hreturned
    · rw [List.mem_singleton.1 hlast]
      exact ⟨c, Function.update_self _ _ _, rfl⟩

theorem Remembers.tick (h : Remembers jtis w a dropped window) (d : ℕ) :
    Remembers jtis { w with now := w.now + d } { a with now := a.now + d } dropped window where
  now := congrArg (· + d) h.now
  pc := h.pc
  log := h.log
  stores := h.stores
  forgotten_le := h.forgotten_le
  expired x hx hl := h.expired x hx (hl.anti (Nat.le_add_right _ _))
  past x hx := (h.past x hx).trans (Nat.le_add_right _ _)
  sorted := h.sorted
  callers := h.callers

theorem remembers_step (hdistinct : Function.Injective jtis)
    (h : Remembers jtis w a dropped window) (e : Section) :
    ∃ dropped' window', Remembers jtis (sectionStep jtis w e)
      (sharedLogStep w.store.maxEntries jtis a e) dropped' window' := by
  cases e with
  | revoke c =>
    rcases hpc : a.pc c with _ | _ | _
    · have hstep : sectionStep jtis w (.revoke c)
          = ⟨w.store.makeRoom w.now, w.now, Function.update w.pc c .roomMade⟩ := by
        simp only [sectionStep, h.pc, hpc]
      rw [hstep]
      obtain ⟨dropped', window', hswept⟩ := h.sweep
      exact hswept.evict hpc
    · have hstep : sectionStep jtis w (.revoke c)
          = ⟨w.store.insertRevoked (jtis c) w.now, w.now, Function.update w.pc c .returned⟩ := by
        simp only [sectionStep, h.pc, hpc]
      rw [hstep]
      exact ⟨_, _, h.insert hdistinct hpc⟩
    · have hstep : sectionStep jtis w (.revoke c) = w := by
        simp only [sectionStep, h.pc, hpc]
      have hlog : sharedLogStep w.store.maxEntries jtis a (.revoke c) = a := by
        simp only [sharedLogStep, hpc]
      rw [hstep, hlog]
      exact ⟨_, _, h⟩
  | isRevoked jti => exact ⟨_, _, h⟩
  | len => exact h.sweep
  | isEmpty => exact h.sweep
  | tick d => exact ⟨_, _, h.tick d⟩

theorem remembers_run (hdistinct : Function.Injective jtis) (maxEntries : ℕ) (ttl : Option ℕ)
    (now : ℕ) (es : List Section) :
    ∃ dropped window, Remembers jtis
      (run (sectionStep jtis) (freshShared maxEntries ttl now) es)
      (run (sharedLogStep (max maxEntries 1) jtis) (freshLog now) es) dropped window := by
  induction es using List.reverseRecOn with
  | nil => exact ⟨[], [], remembers_fresh maxEntries ttl now⟩
  | append_singleton es e ih =>
    obtain ⟨dropped, window, h⟩ := ih
    have hstep := remembers_step hdistinct h e
    rw [maxEntries_of_sections] at hstep
    rw [run_concat, run_concat]
    exact hstep

theorem Remembers.isRevoked_iff (h : Remembers jtis w a dropped window) (jti : String) :
    w.store.isRevoked jti w.now = true ↔ a.Revoked w.store.ttl jti := by
  rw [InMemoryRevocationStore.isRevoked_iff, SharedLog.Revoked, h.log,
    List.drop_append_of_le_length h.forgotten_le, ← h.now]
  refine exists_congr fun t => ?_
  rw [h.stores.lookup, List.mem_append]
  constructor
  · rintro ⟨hmem, hl⟩
    exact ⟨.inr hmem, hl⟩
  · rintro ⟨hmem | hmem, hl⟩
    · exact absurd hl (h.expired _ hmem)
    · exact ⟨hmem, hl⟩

/-- A live entry with fewer than the cap less one behind it is found. -/
theorem Remembers.isRevoked_of_recent (h : Remembers jtis w a dropped window) {cap : ℕ}
    (hforgotten : a.forgotten ≤ a.log.length + 1 - cap) {before after : List (String × ℕ)}
    {jti : String} {t : ℕ} (hlog : a.log = before ++ (jti, t) :: after)
    (hlen : after.length + 1 < cap) (hl : Live w.store.ttl w.now t) :
    w.store.isRevoked jti w.now = true := by
  refine (h.isRevoked_iff jti).2 ⟨t, ?_, h.now ▸ hl⟩
  have hbefore : a.forgotten ≤ before.length := by
    rw [hlog, List.length_append, List.length_cons] at hforgotten
    omega
  rw [hlog, List.drop_append_of_le_length hbefore]
  exact List.mem_append_right _ List.mem_cons_self

theorem ttl_of_sections (maxEntries : ℕ) (ttl : Option ℕ) (now : ℕ) (jtis : ℕ → String)
    (es : List Section) :
    (run (sectionStep jtis) (freshShared maxEntries ttl now) es).store.ttl = ttl := by
  refine run_inv (sectionStep jtis) (P := fun w => w.store.ttl = ttl) (fun w e h => ?_) es rfl
  cases e with
  | revoke c =>
    simp only [sectionStep]
    split <;> exact h
  | _ => exact h

/-- The abstract store never forgets one of the last insertions, one fewer than the cap. -/
theorem forgotten_le_of_sections (cap now : ℕ) (es : List Section) :
    (run (sharedLogStep cap jtis) (freshLog now) es).forgotten
      ≤ (run (sharedLogStep cap jtis) (freshLog now) es).log.length + 1 - cap := by
  refine run_inv (sharedLogStep cap jtis) (P := fun a => a.forgotten ≤ a.log.length + 1 - cap)
    (fun a e h => ?_) es (by simp [freshLog])
  cases e with
  | revoke c =>
    simp only [sharedLogStep]
    split
    · show max a.forgotten (a.log.length + 1 - cap) ≤ a.log.length + 1 - cap
      omega
    · show a.forgotten ≤ (a.log ++ [(jtis c, a.now)]).length + 1 - cap
      rw [List.length_append]
      omega
    · exact h
  | _ => exact h

end Simulation

/-- With every `jti` revoked by one call only, a store answers under any overlap of the calls as the
log of their insertions does; in particular a live entry with fewer than the cap less one behind it
is always found. -/
theorem isRevoked_overlapping_iff (maxEntries : ℕ) (ttl : Option ℕ) (now : ℕ) (jtis : ℕ → String)
    (hdistinct : Function.Injective jtis) (es : List Section) :
    let w := run (sectionStep jtis) (freshShared maxEntries ttl now) es
    let a := run (sharedLogStep (max maxEntries 1) jtis) (freshLog now) es
    (∀ jti, w.store.isRevoked jti w.now = true ↔ a.Revoked ttl jti)
      ∧ ∀ before jti t after, a.log = before ++ (jti, t) :: after →
        after.length + 1 < max maxEntries 1 → Live ttl w.now t →
          w.store.isRevoked jti w.now = true := by
  intro w a
  obtain ⟨dropped, window, h⟩ := remembers_run hdistinct maxEntries ttl now es
  have hiff : ∀ jti, w.store.isRevoked jti w.now = true ↔ a.Revoked ttl jti := by
    intro jti
    rw [h.isRevoked_iff jti, ttl_of_sections]
  refine ⟨hiff, fun before jti t after hlog hlen hl => ?_⟩
  have hl : Live w.store.ttl w.now t := by
    rw [ttl_of_sections]
    exact hl
  exact h.isRevoked_of_recent (forgotten_le_of_sections _ now es) hlog hlen hl

/-- The calls are named by how many letters their `jti` has. -/
def lettersOf (c : ℕ) : String := String.ofList (List.replicate c 'a')

theorem lettersOf_injective : Function.Injective lettersOf := by
  intro c c' h
  have h := congrArg (fun s : String => s.toList.length) h
  simpa [lettersOf] using h

/-- Two calls that overlap take a store of cap one to two entries, and neither is forgotten. -/
theorem isRevoked_overlapping_iff_two :
    (run (sectionStep lettersOf) (freshShared 1 none 0)
        [.revoke 0, .revoke 1, .revoke 0, .revoke 1]).store.isRevoked (lettersOf 0) 0 = true
      ↔ (run (sharedLogStep (max 1 1) lettersOf) (freshLog 0)
        [.revoke 0, .revoke 1, .revoke 0, .revoke 1]).Revoked none (lettersOf 0) :=
  (isRevoked_overlapping_iff 1 none 0 lettersOf lettersOf_injective
    [.revoke 0, .revoke 1, .revoke 0, .revoke 1]).1 (lettersOf 0)

/-! ## The overshoot -/

/-- The calls between their two sections. -/
def between (w : SharedStore) : Set ℕ := {c | w.pc c = .roomMade}

section Overshoot

variable {jtis : ℕ → String} {w : SharedStore} {c : ℕ}

theorem between_update_of_roomMade (hpc : w.pc c = .roomMade) (store : InMemoryRevocationStore) :
    (between ⟨store, w.now, Function.update w.pc c .returned⟩).encard + 1
      = (between w).encard := by
  have hsplit : between ⟨store, w.now, Function.update w.pc c .returned⟩
      = between w \ {c} := by
    ext c'
    simp only [between, Set.mem_ofPred_eq, Set.mem_sdiff, Set.mem_singleton_iff,
      Function.update_apply]
    split_ifs with hc <;> simp [hc]
  rw [hsplit]
  exact Set.encard_sdiff_singleton_add_one hpc

/-- Every stored `jti` has a slot, and the entries and the calls that have room for another one are
together at most one less than the cap, and `n` more. -/
structure Within (cap n : ℕ) (w : SharedStore) : Prop where
  covered : Covered w.store.inner
  maxEntries : w.store.maxEntries = cap
  size : (w.store.inner.entries.size : ℕ∞) + (between w).encard ≤ (cap - 1 : ℕ) + n

theorem within_step {cap n : ℕ} (h : Within cap n w) (e : Section)
    (hn : (between (sectionStep jtis w e)).encard ≤ n) : Within cap n (sectionStep jtis w e) := by
  refine ⟨covered_sectionStep w e h.covered, (maxEntries_sectionStep w e).trans h.maxEntries, ?_⟩
  have hsize := h.size
  cases e with
  | revoke c =>
    rcases hpc : w.pc c with _ | _ | _
    · -- whatever was stored, there is room now
      have hroom : (sectionStep jtis w (.revoke c)).store.inner.entries.size ≤ cap - 1 := by
        have := size_makeRoom_lt h.covered w.now
        simp only [sectionStep, hpc]
        have := h.maxEntries
        omega
      exact add_le_add (Nat.cast_le.2 hroom) hn
    · have hbetween := between_update_of_roomMade hpc (w.store.insertRevoked (jtis c) w.now)
      have hinsert : (w.store.insertRevoked (jtis c) w.now).inner.entries.size
          ≤ w.store.inner.entries.size + 1 := AList.size_insert_le _ _ _
      simp only [sectionStep, hpc]
      calc (((w.store.insertRevoked (jtis c) w.now).inner.entries.size : ℕ) : ℕ∞)
            + (between ⟨w.store.insertRevoked (jtis c) w.now, w.now,
              Function.update w.pc c .returned⟩).encard
          ≤ ((w.store.inner.entries.size + 1 : ℕ) : ℕ∞)
            + (between ⟨w.store.insertRevoked (jtis c) w.now, w.now,
              Function.update w.pc c .returned⟩).encard :=
            add_le_add (Nat.cast_le.2 hinsert) le_rfl
        _ = w.store.inner.entries.size + (between w).encard := by
            rw [← hbetween, Nat.cast_add, Nat.cast_one, add_assoc, add_comm 1]
        _ ≤ (cap - 1 : ℕ) + n := hsize
    · have hstep : sectionStep jtis w (.revoke c) = w := by simp only [sectionStep, hpc]
      rw [hstep]
      exact hsize
  | isRevoked jti => exact hsize
  | len => exact le_trans (add_le_add (Nat.cast_le.2 size_sweepExpired_le) le_rfl) hsize
  | isEmpty => exact le_trans (add_le_add (Nat.cast_le.2 size_sweepExpired_le) le_rfl) hsize
  | tick d => exact hsize

theorem Within.size_le {cap n : ℕ} (h : Within cap n w) :
    w.store.inner.entries.size ≤ cap - 1 + n := by
  have hsize := le_trans le_self_add h.size
  exact_mod_cast hsize

theorem within_visited {maxEntries n : ℕ} {ttl : Option ℕ} {now : ℕ} {es : List Section}
    (hn : ∀ w ∈ visited (sectionStep jtis) (freshShared maxEntries ttl now) es,
      (between w).encard ≤ n) :
    ∀ w ∈ visited (sectionStep jtis) (freshShared maxEntries ttl now) es,
      Within (max maxEntries 1) n w := by
  have hstart : Within (max maxEntries 1) n (freshShared maxEntries ttl now) := by
    refine ⟨covered_withLimits maxEntries ttl, rfl, ?_⟩
    have hnone : between (freshShared maxEntries ttl now) = ∅ := by
      ext c
      simp [between, freshShared]
    rw [hnone, Set.encard_empty]
    exact zero_le
  exact forall_visited_of_taken _ hstart
    fun x hx h => within_step h x.2 (hn _ (step_mem_visited _ hx))

end Overshoot

/-- Where no two calls are between their sections at once, the store never holds more than its
cap. -/
theorem capacity_of_apart (maxEntries : ℕ) (ttl : Option ℕ) (now : ℕ) (jtis : ℕ → String)
    (es : List Section)
    (hapart : ∀ w ∈ visited (sectionStep jtis) (freshShared maxEntries ttl now) es,
      (between w).Subsingleton) :
    ∀ w ∈ visited (sectionStep jtis) (freshShared maxEntries ttl now) es,
      w.store.inner.entries.size ≤ max maxEntries 1 := by
  intro w hw
  have hwithin : Within (max maxEntries 1) 1 w :=
    within_visited (fun w hw => Set.encard_le_one_iff_subsingleton.2 (hapart w hw)) w hw
  have hsize := hwithin.size_le
  omega

/-- Where at most `n` calls are ever between their two sections, the store holds at most `n - 1`
entries more than its cap. -/
theorem overshoot_bounded (maxEntries n : ℕ) (ttl : Option ℕ) (now : ℕ) (jtis : ℕ → String)
    (es : List Section)
    (hn : ∀ w ∈ visited (sectionStep jtis) (freshShared maxEntries ttl now) es,
      (between w).encard ≤ n) :
    ∀ w ∈ visited (sectionStep jtis) (freshShared maxEntries ttl now) es,
      w.store.inner.entries.size ≤ max maxEntries 1 - 1 + n :=
  fun w hw => (within_visited hn w hw).size_le

/-- Both calls are between their sections when the second has made room. -/
theorem overshoot_bounded_two :
    (run (sectionStep lettersOf) (freshShared 1 none 0)
        [.revoke 0, .revoke 1, .revoke 0, .revoke 1]).store.inner.entries.size
      ≤ max 1 1 - 1 + 2 := by
  refine overshoot_bounded 1 2 none 0 lettersOf _ (fun w hw => ?_) _ (run_mem_visited _ _ _)
  have hsub : between w ⊆ {0, 1} := by
    intro c hc
    simp only [visited, List.mem_cons, List.not_mem_nil, or_false] at hw
    rcases hw with rfl | rfl | rfl | rfl | rfl <;>
      simp [between, sectionStep, freshShared, Function.update_apply] at hc <;> grind
  exact le_trans (Set.encard_le_encard hsub) (le_of_eq (Set.encard_pair zero_ne_one))

end TokenKit
