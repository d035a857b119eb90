import TokenKit.Proofs.Capacity
import TokenKit.Lib.FirstSlot

/-!
# The queue

A repeated revocation refreshes the entry of its `jti` and queues a second slot for it, which takes
a place in the queue that no entry needs. As long as the queue is within the cap every slot is of a
stored `jti` (`NoStale`), so there are as many entries as different slots, and a full queue means a
full map exactly when it holds no `jti` twice. Only then does an eviction free a slot for the next
revocation (`order_bounded_iff`).

The eviction goes by first slots. It is oldest first as long as the first slots of the stored
`jti`s are in the order of their insertion times (`InOrder`), which a revocation breaks only by
refreshing a `jti` past an older one queued behind it (`evicts_oldest_first`).
-/

namespace TokenKit

open StepMachine InMemoryInner InMemoryRevocationStore

namespace InMemoryInner

variable {inner : InMemoryInner} {ttl : Option ℕ} {now : ℕ} {cap : ℕ}

/-! ## A queue within the cap -/

/-- Every slot is of a stored `jti`. -/
def NoStale (inner : InMemoryInner) : Prop := ∀ jti ∈ inner.order, jti ∈ inner.entries

theorem NoStale.sweepExpired (h : NoStale inner) (ttl : Option ℕ) (now : ℕ) :
    NoStale (inner.sweepExpired ttl now) := by
  rcases ttl with _ | d
  · exact h
  · intro jti hj
    exact of_decide_eq_true (List.mem_filter.1 hj).2

theorem size_eq_dedup (hcov : Covered inner) (h : NoStale inner) :
    inner.entries.size = inner.order.dedup.length := by
  refine AList.size_eq_length (List.nodup_dedup _) fun jti => ?_
  rw [List.mem_dedup]
  exact ⟨hcov jti, h jti⟩

theorem size_lt_of_repeat (hcov : Covered inner) (h : NoStale inner)
    (hle : inner.order.length ≤ cap) (hrepeat : inner.order.length < cap ∨ ¬ inner.order.Nodup) :
    inner.entries.size < cap := by
  rw [size_eq_dedup hcov h]
  have hsub := List.dedup_sublist inner.order
  rcases hrepeat with hlt | hdup
  · exact hsub.length_le.trans_lt hlt
  · refine lt_of_lt_of_le (lt_of_le_of_ne hsub.length_le fun heq => hdup ?_) hle
    rw [← hsub.eq_of_length heq]
    exact List.nodup_dedup _

theorem evictOldestTo_of_nodup (hcov : Covered inner) (h : NoStale inner) {victim : String}
    {order : List String} (horder : inner.order = victim :: order) (hnd : inner.order.Nodup)
    (hfull : inner.order.length = cap) :
    inner.evictOldestTo cap = ⟨inner.entries.erase victim, order⟩ := by
  have hsize : inner.entries.size = cap := by
    rw [size_eq_dedup hcov h, hnd.dedup, hfull]
  exact evictOldestTo_of_full horder hsize (h victim (by simp [horder]))

theorem NoStale.evictOldestTo (h : NoStale inner) (hcov : Covered inner) (hcap : 0 < cap)
    (hle : inner.order.length ≤ cap) : NoStale (inner.evictOldestTo cap) := by
  by_cases hfull : inner.order.length = cap ∧ inner.order.Nodup
  · obtain ⟨victim, order, horder⟩ := List.exists_cons_of_length_pos (hfull.1 ▸ hcap)
    rw [evictOldestTo_of_nodup hcov h horder hfull.2 hfull.1]
    intro jti hj
    have hnd := hfull.2
    rw [horder, List.nodup_cons] at hnd
    refine AList.mem_erase.2 ⟨?_, h jti (by simp [horder, hj])⟩
    rintro rfl
    exact hnd.1 hj
  · rw [evictOldestTo_of_lt (size_lt_of_repeat hcov h hle ?_)]
    · exact h
    · by_contra hno
      push Not at hno
      exact hfull ⟨hle.antisymm hno.1, hno.2⟩

theorem length_order_sweepExpired_le :
    (inner.sweepExpired ttl now).order.length ≤ inner.order.length :=
  sweepExpired_sublist.length_le

/-- An eviction leaves a place for one more slot exactly when there was one or no `jti` is queued
twice. -/
theorem length_order_evictOldestTo_iff (hcov : Covered inner) (h : NoStale inner) (hcap : 0 < cap)
    (hle : inner.order.length ≤ cap) : (inner.evictOldestTo cap).order.length < cap
      ↔ inner.order.length < cap ∨ inner.order.Nodup := by
  by_cases hlt : inner.order.length < cap
  · rw [evictOldestTo_of_lt (size_lt_of_repeat hcov h hle (.inl hlt))]
    exact iff_of_true hlt (.inl hlt)
  have hfull : inner.order.length = cap := hle.antisymm (not_lt.1 hlt)
  by_cases hnd : inner.order.Nodup
  · obtain ⟨victim, order, horder⟩ := List.exists_cons_of_length_pos (hfull ▸ hcap)
    rw [evictOldestTo_of_nodup hcov h horder hnd hfull]
    refine iff_of_true ?_ (.inr hnd)
    rw [← hfull, horder]
    exact Nat.lt_succ_self _
  · rw [evictOldestTo_of_lt (size_lt_of_repeat hcov h hle (.inr hnd))]
    exact iff_of_false hlt (by simp [hlt, hnd])

/-! ## First slots in the order of insertion -/

/-- Of two stored `jti`s, the one whose first slot comes first is no younger. -/
def InOrder (inner : InMemoryInner) : Prop :=
  ∀ a b ta tb, inner.entries.lookup a = some ta → inner.entries.lookup b = some tb →
    inner.order.idxOf a < inner.order.idxOf b → ta ≤ tb

theorem InOrder.sweepExpired (h : InOrder inner) (ttl : Option ℕ) (now : ℕ) :
    InOrder (inner.sweepExpired ttl now) := by
  obtain ⟨p, hp, hall⟩ := sweepExpired_order inner ttl now
  intro a b ta tb ha hb hlt
  rw [hp, List.idxOf_filter_lt_idxOf_filter (hall a (AList.mem_of_lookup ha))
    (hall b (AList.mem_of_lookup hb))] at hlt
  exact h a b ta tb (lookup_sweepExpired.1 ha).1 (lookup_sweepExpired.1 hb).1 hlt

theorem InOrder.evictOldestTo (h : InOrder inner) (cap : ℕ) :
    InOrder (inner.evictOldestTo cap) := by
  obtain ⟨popped, horder, hlook, -⟩ := evictOldestTo_spec inner cap
  intro a b ta tb ha hb hlt
  rw [hlook] at ha hb
  split_ifs at ha hb with hpa hpb
  refine h a b ta tb ha hb ?_
  rw [horder, List.idxOf_lt_idxOf_append_left hpa hpb]
  exact hlt

/-- From a store whose first slots are in order, no entry an eviction removes is younger than one
it leaves. -/
theorem InOrder.evicted_le_kept (h : InOrder inner) {a b : String} {ta tb : ℕ}
    (ha : inner.entries.lookup a = some ta)
    (hout : a ∉ (inner.evictOldestTo cap).entries)
    (hb : (inner.evictOldestTo cap).entries.lookup b = some tb) : ta ≤ tb := by
  obtain ⟨popped, horder, hlook, -⟩ := evictOldestTo_spec inner cap
  have hpa : a ∈ popped := by
    by_contra hpa
    exact hout (AList.mem_of_lookup ((hlook a).trans (by rw [if_neg hpa, ha])))
  rw [hlook] at hb
  split_ifs at hb with hpb
  refine h a b ta tb ha hb ?_
  rw [horder]
  exact List.idxOf_lt_idxOf_of_front hpa hpb

end InMemoryInner

/-! ## The length of the queue -/

section Length

/-- A revocation finds, once the expired entries are swept, a free place in the queue, or no `jti`
queued twice. -/
def FreeOrNoRepeat (w : StoreWorld) : StoreCall → Prop
  | .revoke _ _ =>
    (w.store.inner.sweepExpired w.store.ttl w.now).order.length < w.store.maxEntries
      ∨ (w.store.inner.sweepExpired w.store.ttl w.now).order.Nodup
  | _ => True

theorem noStale_withLimits (maxEntries : ℕ) (ttl : Option ℕ) :
    NoStale (withLimits maxEntries ttl).inner := by
  intro jti hj
  cases hj

theorem noStale_callStep (w : StoreWorld) (c : StoreCall) (hcov : Covered w.store.inner)
    (h : NoStale w.store.inner) (hle : w.store.inner.order.length ≤ w.store.maxEntries) :
    NoStale (callStep w c).store.inner := by
  cases c with
  | revoke jti lag =>
    have hroom : NoStale (w.store.makeRoom w.now).inner :=
      (h.sweepExpired w.store.ttl w.now).evictOldestTo (hcov.sweepExpired w.store.ttl w.now)
        w.store.maxEntries_pos (length_order_sweepExpired_le.trans hle)
    intro j hj
    simp only [callStep, revoke, insertRevoked, List.mem_append, List.mem_singleton,
      AList.mem_insert] at hj ⊢
    exact hj.symm.imp_right (hroom j)
  | isRevoked jti => exact h
  | len => exact h.sweepExpired w.store.ttl w.now
  | isEmpty => exact h.sweepExpired w.store.ttl w.now
  | tick d => exact h

theorem length_order_callStep_iff (w : StoreWorld) (c : StoreCall)
    (hcov : Covered w.store.inner) (hns : NoStale w.store.inner)
    (h : w.store.inner.order.length ≤ w.store.maxEntries) :
    (callStep w c).store.inner.order.length ≤ w.store.maxEntries ↔ FreeOrNoRepeat w c := by
  cases c with
  | revoke jti lag =>
    have hlen : (callStep w (.revoke jti lag)).store.inner.order.length
        = (w.store.makeRoom w.now).inner.order.length + 1 := by
      simp [callStep, revoke, insertRevoked]
    rw [hlen, Nat.succ_le_iff]
    exact length_order_evictOldestTo_iff (hcov.sweepExpired w.store.ttl w.now)
      (hns.sweepExpired w.store.ttl w.now) w.store.maxEntries_pos
      (length_order_sweepExpired_le.trans h)
  | isRevoked jti => exact iff_of_true h trivial
  | len => exact iff_of_true (length_order_sweepExpired_le.trans h) trivial
  | isEmpty => exact iff_of_true (length_order_sweepExpired_le.trans h) trivial
  | tick d => exact iff_of_true h trivial

/-- The queue stays within the cap exactly when every revocation finds a free place in it, or no
`jti` queued twice. -/
theorem order_bounded_iff (maxEntries : ℕ) (ttl : Option ℕ) (now : ℕ) (cs : List StoreCall) :
    (∀ w ∈ visited callStep (freshStore maxEntries ttl now) cs,
        w.store.inner.order.length ≤ max maxEntries 1)
      ↔ ∀ x ∈ taken callStep (freshStore maxEntries ttl now) cs, FreeOrNoRepeat x.1 x.2 := by
  refine forall_visited_iff callStep
    (I := fun w => w.store.maxEntries = max maxEntries 1 ∧ Covered w.store.inner
      ∧ NoStale w.store.inner) (fun w c hI h => ?_) (fun w c hI h => ?_) cs ?_ (Nat.zero_le _)
  · obtain ⟨hmax, hcov, hns⟩ := hI
    rw [← hmax] at h
    exact ⟨(maxEntries_callStep w c).trans hmax, covered_callStep w c hcov,
      noStale_callStep w c hcov hns h⟩
  · obtain ⟨hmax, hcov, hns⟩ := hI
    rw [← hmax] at h ⊢
    exact length_order_callStep_iff w c hcov hns h
  · exact ⟨rfl, covered_withLimits maxEntries ttl, noStale_withLimits maxEntries ttl⟩

/-- One `jti` revoked three times fills the queue of a store of cap two past its cap. -/
theorem repeated_revocation_grows_queue :
    ¬ ∀ w ∈ visited callStep (freshStore 2 none 0)
        [.revoke "same" 0, .revoke "same" 0, .revoke "same" 0],
      w.store.inner.order.length ≤ max 2 1 := by
  decide

end Length

/-! ## Oldest first -/

section OldestFirst

/-- No entry that a `makeRoom` at `now` evicts is younger than one it leaves. -/
def EvictsOldestFirst (store : InMemoryRevocationStore) (now : ℕ) : Prop :=
  ∀ evicted kept t t',
    (store.inner.sweepExpired store.ttl now).entries.lookup evicted = some t →
    evicted ∉ (store.makeRoom now).inner.entries →
    (store.makeRoom now).inner.entries.lookup kept = some t' → t ≤ t'

/-- A revocation refreshes no `jti` past an older one: once it has made room, what is stored and
first queued behind the `jti` is no older than the new insertion time. -/
def RefreshKeepsOrder (w : StoreWorld) : StoreCall → Prop
  | .revoke jti lag =>
    let room := (w.store.makeRoom w.now).inner
    ∀ other ∈ room.order, ∀ t ∈ room.entries.lookup other,
      room.order.idxOf jti < room.order.idxOf other → w.now + lag ≤ t
  | _ => True

instance (w : StoreWorld) : (c : StoreCall) → Decidable (RefreshKeepsOrder w c)
  | .revoke jti lag =>
    inferInstanceAs (Decidable (∀ other ∈ (w.store.makeRoom w.now).inner.order,
      ∀ t ∈ (w.store.makeRoom w.now).inner.entries.lookup other,
        (w.store.makeRoom w.now).inner.order.idxOf jti
          < (w.store.makeRoom w.now).inner.order.idxOf other → w.now + lag ≤ t))
  | .isRevoked _ => isTrue trivial
  | .len => isTrue trivial
  | .isEmpty => isTrue trivial
  | .tick _ => isTrue trivial

/-- Nothing stored was inserted after `now`. -/
def NotAfter (now : ℕ) (inner : InMemoryInner) : Prop :=
  ∀ jti t, inner.entries.lookup jti = some t → t ≤ now

theorem notAfter_withLimits (maxEntries : ℕ) (ttl : Option ℕ) (now : ℕ) :
    NotAfter now (withLimits maxEntries ttl).inner := by
  intro jti t h
  rw [withLimits, AList.lookup_empty] at h
  cases h

theorem inOrder_withLimits (maxEntries : ℕ) (ttl : Option ℕ) :
    InOrder (withLimits maxEntries ttl).inner := by
  intro a b ta tb h
  rw [withLimits, AList.lookup_empty] at h
  cases h

theorem lookup_of_lookup_makeRoom {store : InMemoryRevocationStore} {now t : ℕ} {jti : String}
    (h : (store.makeRoom now).inner.entries.lookup jti = some t) :
    store.inner.entries.lookup jti = some t :=
  (lookup_sweepExpired.1 (lookup_of_lookup_evictOldestTo h)).1

theorem notAfter_callStep (w : StoreWorld) (c : StoreCall) (h : NotAfter w.now w.store.inner) :
    NotAfter (callStep w c).now (callStep w c).store.inner := by
  cases c with
  | revoke jti lag =>
    intro j t hj
    simp only [callStep, revoke, insertRevoked] at hj ⊢
    by_cases hjj : j = jti
    · subst hjj
      rw [AList.lookup_insert] at hj
      simp only [Option.some.injEq] at hj
      omega
    · rw [AList.lookup_insert_ne hjj] at hj
      have := h j t (lookup_of_lookup_makeRoom hj)
      omega
  | isRevoked jti => exact h
  | len => exact fun j t hj => h j t (lookup_sweepExpired.1 hj).1
  | isEmpty => exact fun j t hj => h j t (lookup_sweepExpired.1 hj).1
  | tick d =>
    intro j t hj
    have := h j t hj
    simp only [callStep]
    omega

theorem inOrder_revoke {w : StoreWorld} {jti : String} {lag : ℕ} (hcov : Covered w.store.inner)
    (hpast : NotAfter w.now w.store.inner) (hroom : InOrder (w.store.makeRoom w.now).inner)
    (hc : RefreshKeepsOrder w (.revoke jti lag)) :
    InOrder (callStep w (.revoke jti lag)).store.inner := by
  have hcov' := covered_makeRoom hcov w.now
  intro a b ta tb ha hb hlt
  simp only [callStep, revoke, insertRevoked] at ha hb hlt
  by_cases hbj : b = jti
  · -- the new entry is the youngest
    subst hbj
    rw [AList.lookup_insert, Option.some.injEq] at hb
    by_cases hab : a = b
    · subst hab
      omega
    · rw [AList.lookup_insert_ne hab] at ha
      have := hpast a ta (lookup_of_lookup_makeRoom ha)
      omega
  rw [AList.lookup_insert_ne hbj] at hb
  have hbmem := hcov' b (AList.mem_of_lookup hb)
  rw [List.idxOf_append_of_mem hbmem] at hlt
  have hlt' := (List.idxOf_le_idxOf_append _ [jti]).trans_lt hlt
  by_cases haj : a = jti
  · -- a refreshed entry, which keeps its first slot
    subst haj
    rw [AList.lookup_insert, Option.some.injEq] at ha
    subst ha
    exact hc b hbmem tb hb hlt'
  · rw [AList.lookup_insert_ne haj] at ha
    exact hroom a b ta tb ha hb hlt'

theorem inOrder_callStep_iff (w : StoreWorld) (c : StoreCall) (hcov : Covered w.store.inner)
    (hpast : NotAfter w.now w.store.inner) (h : InOrder w.store.inner) :
    InOrder (callStep w c).store.inner ↔ RefreshKeepsOrder w c := by
  cases c with
  | revoke jti lag =>
    have hroom : InOrder (w.store.makeRoom w.now).inner :=
      (h.sweepExpired w.store.ttl w.now).evictOldestTo w.store.maxEntries
    refine ⟨fun hafter other hother t ht hlt => ?_, inOrder_revoke hcov hpast hroom⟩
    have hne : other ≠ jti := by
      rintro rfl
      exact lt_irrefl _ hlt
    have hjti : jti ∈ (w.store.makeRoom w.now).inner.order :=
      List.idxOf_lt_length_iff.1 (hlt.trans_le List.idxOf_le_length)
    refine hafter jti other (w.now + lag) t ?_ ?_ ?_
    · exact AList.lookup_insert _
    · exact (AList.lookup_insert_ne hne).trans ht
    · simp only [callStep, revoke, insertRevoked]
      rwa [List.idxOf_append_of_mem hjti, List.idxOf_append_of_mem hother]
  | isRevoked jti => exact iff_of_true h trivial
  | len => exact iff_of_true (h.sweepExpired w.store.ttl w.now) trivial
  | isEmpty => exact iff_of_true (h.sweepExpired w.store.ttl w.now) trivial
  | tick d => exact iff_of_true h trivial

/-- Along calls of which none refreshes a `jti` past an older one queued behind it, an eviction
never removes an entry younger than one it leaves. -/
theorem evicts_oldest_first (maxEntries : ℕ) (ttl : Option ℕ) (now : ℕ) (cs : List StoreCall)
    (h : ∀ x ∈ taken callStep (freshStore maxEntries ttl now) cs, RefreshKeepsOrder x.1 x.2) :
    ∀ w ∈ visited callStep (freshStore maxEntries ttl now) cs,
      EvictsOldestFirst w.store w.now := by
  have hinv : ∀ w ∈ visited callStep (freshStore maxEntries ttl now) cs,
      Covered w.store.inner ∧ NotAfter w.now w.store.inner ∧ InOrder w.store.inner :=
    forall_visited_of_taken callStep ⟨covered_withLimits maxEntries ttl,
        notAfter_withLimits maxEntries ttl now, inOrder_withLimits maxEntries ttl⟩
      fun x hx hI => ⟨covered_callStep x.1 x.2 hI.1, notAfter_callStep x.1 x.2 hI.2.1,
        (inOrder_callStep_iff x.1 x.2 hI.1 hI.2.1 hI.2.2).2 (h x hx)⟩
  intro w hw
  obtain ⟨-, -, hord⟩ := hinv w hw
  intro evicted kept t t' hev hout hkept
  exact (hord.sweepExpired w.store.ttl w.now).evicted_le_kept hev hout hkept

theorem evicts_oldest_first_distinct :
    "a" ∉ (run callStep (freshStore 2 none 0)
        [.revoke "a" 0, .tick 1, .revoke "b" 0, .tick 1, .revoke "c" 0]).store.inner.entries ∧
      ∀ w ∈ visited callStep (freshStore 2 none 0)
        [.revoke "a" 0, .tick 1, .revoke "b" 0, .tick 1, .revoke "c" 0],
        EvictsOldestFirst w.store w.now :=
  ⟨by decide, evicts_oldest_first 2 none 0 _ (by decide)⟩

/-- A `jti` revoked again keeps its place in the queue: it is evicted while an older one stays. -/
theorem refreshed_entry_evicted_first :
    ¬ ∀ w ∈ visited callStep (freshStore 3 none 0)
        [.revoke "a" 0, .tick 1, .revoke "b" 0, .tick 1, .revoke "a" 0, .revoke "c" 0],
      EvictsOldestFirst w.store w.now := by
  intro h
  have := h _ (run_mem_visited callStep _ _) "a" "b" 2 1 (by decide) (by decide) (by decide)
  omega

end OldestFirst

end TokenKit
