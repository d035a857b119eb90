import TokenKit.Lib.Schedule
import Mathlib.Algebra.Order.BigOperators.Group.Finset
import Mathlib.Logic.Function.Basic

/-!
# Calls that are dropped

In a machine of calls an event is the doing of one call, or of none. Whoever has made a call can
drop it before it is over: from then on the call does nothing, and what it holds is released.
`dropStep` is the machine with these drops among its events.

A run with drops is compared with one without by matching each of its events with some events of the
other one (`exists_chunks`). That a call is over some time, or dropped, is shown like any goal along
an endless schedule, by a measure and what helps; a drop lowers the measure whatever else it changes
(`exists_gone_of_fair`).
-/

namespace StepMachine

/-- A machine of calls: whose doing an event is, which calls are over, and what becomes of a state
when a call lets go of it. -/
structure CallMachine (σ ε : Type*) where
  step : σ → ε → σ
  caller : ε → Option ℕ
  finished : σ → ℕ → Bool
  release : σ → ℕ → σ

structure Dropping (σ : Type*) where
  world : σ
  dropped : ℕ → Bool

inductive DropEvent (ε : Type*) where
  | event (e : ε)
  | drop (c : ℕ)

/-- The growth of one list, event by event, is matched by that of another. -/
theorem exists_chunks {ε ε' : Type*} {R : List ε → List ε' → Prop} (hnil : R [] [])
    (hstep : ∀ es es' e, R es es' → ∃ fs, R (es ++ [e]) (es' ++ fs)) (es : List ε) :
    ∃ chunks : List (List ε'), chunks.length = es.length
      ∧ ∀ k, k ≤ es.length → R (es.take k) (chunks.take k).flatten := by
  induction es using List.reverseRecOn with
  | nil => exact ⟨[], rfl, fun k _ => by simpa using hnil⟩
  | append_singleton es e ih =>
    obtain ⟨chunks, hlength, hchunks⟩ := ih
    have hall : R es chunks.flatten := by
      have h := hchunks es.length le_rfl
      rwa [List.take_length, ← hlength, List.take_length] at h
    obtain ⟨fs, hfs⟩ := hstep es chunks.flatten e hall
    refine ⟨chunks ++ [fs], by simp [hlength], fun k hk => ?_⟩
    rcases Nat.lt_or_ge es.length k with hlt | hle
    · have hes : (es ++ [e]).length ≤ k := by
        rw [List.length_append]
        exact hlt
      have hcs : (chunks ++ [fs]).length ≤ k := by
        rw [List.length_append, hlength]
        exact hlt
      rw [List.take_of_length_le hes, List.take_of_length_le hcs]
      simpa using hfs
    · rw [List.take_append_of_le_length hle, List.take_append_of_le_length (hlength ▸ hle)]
      exact hchunks k hle

variable {σ ε : Type*} (m : CallMachine σ ε)

namespace CallMachine

def dropStep (w : Dropping σ) : DropEvent ε → Dropping σ
  | .event e => if (m.caller e).any w.dropped then w else { w with world := m.step w.world e }
  | .drop c =>
    if w.dropped c || m.finished w.world c then w
    else { world := m.release w.world c, dropped := Function.update w.dropped c true }

def dropCaller : DropEvent ε → Option ℕ
  | .event e => m.caller e
  | .drop c => some c

/-- The call is dropped or over. -/
def Gone (w : Dropping σ) (c : ℕ) : Prop := w.dropped c = true ∨ m.finished w.world c = true

variable {m} {w : Dropping σ} {e : ε} {c : ℕ}

theorem dropStep_event (h : ∀ c, m.caller e = some c → w.dropped c = false) :
    m.dropStep w (.event e) = { w with world := m.step w.world e } := by
  rcases hcaller : m.caller e with _ | c
  · simp [dropStep, hcaller]
  · simp [dropStep, hcaller, h c hcaller]

theorem dropStep_event_of_dropped (hcaller : m.caller e = some c) (h : w.dropped c = true) :
    m.dropStep w (.event e) = w := by
  simp [dropStep, hcaller, h]

theorem dropStep_drop (h : ¬ m.Gone w c) : m.dropStep w (.drop c)
    = { world := m.release w.world c, dropped := Function.update w.dropped c true } :=
  if_neg (by simpa [Gone] using h)

theorem dropStep_drop_of_gone (h : m.Gone w c) : m.dropStep w (.drop c) = w :=
  if_pos (by simpa [Gone] using h)

/-- An event is taken as it is, or its call has been dropped. -/
theorem dropStep_event_cases (m : CallMachine σ ε) (w : Dropping σ) (e : ε) :
    ((∀ c, m.caller e = some c → w.dropped c = false)
        ∧ m.dropStep w (.event e) = { w with world := m.step w.world e })
      ∨ (∃ c, m.caller e = some c ∧ w.dropped c = true) ∧ m.dropStep w (.event e) = w := by
  by_cases h : ∀ c, m.caller e = some c → w.dropped c = false
  · exact .inl ⟨h, dropStep_event h⟩
  · push Not at h
    obtain ⟨c, hcaller, hdropped⟩ := h
    have hdropped : w.dropped c = true := by simpa using hdropped
    exact .inr ⟨⟨c, hcaller, hdropped⟩, dropStep_event_of_dropped hcaller hdropped⟩

/-- What the machine's own steps keep, and releases, is kept with drops among the events. -/
theorem inv_dropStep {P : Dropping σ → Prop}
    (hevent : ∀ w e, (∀ c, m.caller e = some c → w.dropped c = false) → P w →
      P { w with world := m.step w.world e })
    (hdrop : ∀ w c, ¬ m.Gone w c → P w →
      P { world := m.release w.world c, dropped := Function.update w.dropped c true })
    (w : Dropping σ) (e : DropEvent ε) (h : P w) : P (m.dropStep w e) := by
  rcases e with e | c
  · rcases m.dropStep_event_cases w e with ⟨hown, heq⟩ | ⟨-, heq⟩
    · exact heq ▸ hevent w e hown h
    · exact heq.symm ▸ h
  · by_cases hgone : m.Gone w c
    · exact (dropStep_drop_of_gone hgone).symm ▸ h
    · exact dropStep_drop hgone ▸ hdrop w c hgone h

/-- A call that is dropped or over stays so, where one that is over stays over. -/
theorem gone_dropStep (hstep : ∀ s e, m.finished s c = true → m.finished (m.step s e) c = true)
    (hrelease : ∀ s c', c' ≠ c → m.finished s c = true → m.finished (m.release s c') c = true)
    (w : Dropping σ) (e : DropEvent ε) (h : m.Gone w c) : m.Gone (m.dropStep w e) c := by
  refine inv_dropStep (P := fun w => m.Gone w c) (fun w e _ h => ?_) (fun w c' hc' h => ?_) w e h
  · exact h.imp id (hstep w.world e)
  · by_cases hc : c' = c
    · exact absurd (hc ▸ h) hc'
    · refine h.imp (fun hdropped => ?_) (hrelease w.world c' hc)
      simpa [Function.update_of_ne (Ne.symm hc)] using hdropped

end CallMachine

/-! ## Endless schedules with drops -/

section Endless

open CallMachine

variable {m} {w₀ : Dropping σ} {schedule : ℕ → DropEvent ε} {n c : ℕ}

/-- What only the doing of a call could change stays as it is where the call is not made. -/
theorem after_of_not_made {P : σ → Prop}
    (hstep : ∀ s e, m.caller e ≠ some c → P s → P (m.step s e))
    (hrelease : ∀ s c', c' ≠ c → P s → P (m.release s c'))
    (hmade : ∀ k, m.dropCaller (schedule k) ≠ some c) (h : P w₀.world) (k : ℕ) :
    P (after m.dropStep w₀ schedule k).world := by
  induction k with
  | zero => exact h
  | succ k ih =>
    have hnot : m.dropCaller (schedule k) ≠ some c := hmade k
    rw [after]
    generalize after m.dropStep w₀ schedule k = w at ih ⊢
    rcases hevent : schedule k with e | c' <;> rw [hevent] at hnot
    · rcases m.dropStep_event_cases w e with ⟨-, heq⟩ | ⟨-, heq⟩ <;> rw [heq]
      · exact hstep w.world e hnot ih
      · exact ih
    · by_cases hgone : m.Gone w c'
      · rwa [dropStep_drop_of_gone hgone]
      · rw [dropStep_drop hgone]
        exact hrelease w.world c' (fun hc => hnot (congrArg some hc)) ih

/-- What a call has before it, if it is not dropped. -/
def toGo (rank : σ → ℕ → ℕ) (w : Dropping σ) (c : ℕ) : ℕ :=
  if w.dropped c then 0 else rank w.world c + 1

theorem toGo_le {rank : σ → ℕ → ℕ} {w : Dropping σ} {s : σ}
    (h : ∀ c, rank s c ≤ rank w.world c) (c : ℕ) :
    toGo rank { w with world := s } c ≤ toGo rank w c := by
  have := h c
  simp only [toGo]
  split_ifs <;> omega

theorem sum_toGo_lt {rank : σ → ℕ → ℕ} {w w' : Dropping σ}
    (hle : ∀ c, toGo rank w' c ≤ toGo rank w c) (hc : c < n)
    (hlt : toGo rank w' c < toGo rank w c) :
    ∑ c ∈ Finset.range n, toGo rank w' c < ∑ c ∈ Finset.range n, toGo rank w c :=
  Finset.sum_lt_sum (fun c' _ => hle c') ⟨c, Finset.mem_range.2 hc, hlt⟩

theorem sum_toGo_drop_lt {rank : σ → ℕ → ℕ} {w : Dropping σ} (hc : c < n)
    (hrelease : ∀ c', c' ≠ c → rank (m.release w.world c) c' ≤ rank w.world c')
    (hdropped : w.dropped c = false) :
    ∑ c' ∈ Finset.range n, toGo rank
        { world := m.release w.world c, dropped := Function.update w.dropped c true } c'
      < ∑ c' ∈ Finset.range n, toGo rank w c' := by
  refine sum_toGo_lt (fun c' => ?_) hc ?_
  · unfold toGo
    by_cases hc' : c' = c
    · simp [hc']
    · have := hrelease c' hc'
      simp only [Function.update_of_ne hc']
      split_ifs <;> omega
  · simp [toGo, hdropped]

/-- What a call waits for comes about, or the call whose doing it is gets dropped. -/
def Helps {κ : Type*} (comes : ℕ × κ → σ → ε → Prop) (i : ℕ × κ) (w : Dropping σ)
    (e : DropEvent ε) : Prop :=
  (∃ e', e = .event e' ∧ comes i w.world e') ∨ e = .drop i.1

/-- A call is dropped some time or over, where in every state it waits for something of a call that
is neither, and that comes about some time or that call is dropped. -/
theorem exists_gone_of_fair {κ : Type*} {I : Dropping σ → Prop} (rank : σ → ℕ → ℕ)
    (waits : σ → ℕ × κ) (comes : ℕ × κ → σ → ε → Prop)
    (hI : ∀ k, I (after m.dropStep w₀ schedule k))
    (hn : ∀ k c, m.dropCaller (schedule k) = some c → c < n)
    (hcaller : ∀ i s e, comes i s e → m.caller e = some i.1)
    (hwaits : ∀ w, I w → ¬ m.Gone w c → ¬ m.Gone w (waits w.world).1)
    (hstep : ∀ w e, I w → ¬ m.Gone w c →
      ((∀ c, rank (m.step w.world e) c = rank w.world c)
          ∧ waits (m.step w.world e) = waits w.world ∧ ¬ comes (waits w.world) w.world e)
        ∨ (∃ c, m.caller e = some c ∧ rank (m.step w.world e) c < rank w.world c)
          ∧ ∀ c, rank (m.step w.world e) c ≤ rank w.world c)
    (hrelease : ∀ s c c', c' ≠ c → rank (m.release s c) c' ≤ rank s c')
    (hfair : ∀ k, ¬ m.Gone (after m.dropStep w₀ schedule k) c → ∃ k', k ≤ k'
      ∧ Helps comes (waits (after m.dropStep w₀ schedule k).world) (after m.dropStep w₀ schedule k')
        (schedule k')) :
    ∃ k, m.Gone (after m.dropStep w₀ schedule k) c := by
  refine exists_of_fair (P := fun w => m.Gone w c) (fun w => ∑ c ∈ Finset.range n, toGo rank w c)
    (fun w => waits w.world) (Helps comes) (fun k hgone => ?_) hfair
  have hcallers : ∀ c, m.dropCaller (schedule k) = some c → c < n := hn k
  have hinv : I (after m.dropStep w₀ schedule k) := hI k
  show ∑ c ∈ Finset.range n, toGo rank
      (m.dropStep (after m.dropStep w₀ schedule k) (schedule k)) c < _ ∨ _
  rw [after]
  generalize after m.dropStep w₀ schedule k = w at hgone hinv ⊢
  generalize schedule k = e at hcallers ⊢
  rcases e with e | c'
  · rcases m.dropStep_event_cases w e with ⟨hown, heq⟩ | ⟨⟨c', hc', hdropped⟩, heq⟩
    · rw [heq]
      rcases hstep w e hinv hgone with ⟨hrank, hsame, hnot⟩ | ⟨⟨c', hc', hlt⟩, hle⟩
      · refine .inr ⟨?_, hsame, ?_⟩
        · refine Finset.sum_congr rfl fun c _ => ?_
          simp only [toGo, hrank]
        · rintro (⟨e', he, hcomes⟩ | he)
          · cases he
            exact hnot hcomes
          · cases he
      · refine .inl (sum_toGo_lt (toGo_le hle) (hcallers c' hc') ?_)
        simp only [toGo, hown c' hc']
        simpa using hlt
    · rw [heq]
      refine .inr ⟨rfl, rfl, ?_⟩
      rintro (⟨e', he, hcomes⟩ | he)
      · cases he
        obtain rfl : c' = (waits w.world).1 :=
          Option.some.inj (hc'.symm.trans (hcaller _ _ _ hcomes))
        exact hwaits w hinv hgone (.inl hdropped)
      · cases he
  · by_cases hgone' : m.Gone w c'
    · rw [dropStep_drop_of_gone hgone']
      refine .inr ⟨rfl, rfl, ?_⟩
      rintro (⟨e', he, -⟩ | he)
      · cases he
      · cases he
        exact hwaits w hinv hgone hgone'
    · rw [dropStep_drop hgone']
      refine .inl (sum_toGo_drop_lt (hcallers c' rfl) (hrelease w.world c') ?_)
      simpa using fun h => hgone' (.inl h)

end Endless

end StepMachine
