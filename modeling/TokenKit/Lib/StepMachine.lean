import Mathlib.Data.List.Basic

/-!
# Machines that step on events

A machine is a step function on states and events. A run from `s` reads a list of events; it
passes through the states `visited`, and its `taken` steps are the events each with the state it
finds.

An invariant is proved of one step and carried along a run by `run_inv`, or by
`forall_visited_of_taken` where only the steps the run takes keep it. When a step keeps `P` exactly
under a condition on the state it finds, `forall_visited_iff` turns "`P` holds in every state
visited" into "the condition holds at every step taken".

What holds at the end of a run and not at its start was brought about by a step of it
(`exists_step_of_run`). A measure that no step of a run raises bounds how many of them lower it, and
a family of such measures tells the steps apart that take one of them past a bound
(`nodup_filterMap_taken`).

Two machines in a relation that their steps keep and under which they answer alike give the same
answers along a run (`outputs_eq`). Extra events among a machine's own change none of its answers to
its own when they keep such a relation on one side (`ownOutputs_eq`).
-/

namespace StepMachine

variable {σ ε : Type*} (step : σ → ε → σ)

def run (s : σ) (es : List ε) : σ := es.foldl step s

def visited : σ → List ε → List σ
  | s, [] => [s]
  | s, e :: es => s :: visited (step s e) es

def taken : σ → List ε → List (σ × ε)
  | _, [] => []
  | s, e :: es => (s, e) :: taken (step s e) es

@[simp] theorem run_nil (s : σ) : run step s [] = s := rfl

@[simp] theorem run_cons (s : σ) (e : ε) (es : List ε) :
    run step s (e :: es) = run step (step s e) es := rfl

theorem run_append (s : σ) (es es' : List ε) :
    run step s (es ++ es') = run step (run step s es) es' := List.foldl_append

theorem run_concat (s : σ) (es : List ε) (e : ε) :
    run step s (es ++ [e]) = step (run step s es) e := by
  rw [run_append, run_cons, run_nil]

theorem mem_visited {t : σ} : ∀ {s : σ} {es : List ε},
    t ∈ visited step s es ↔ ∃ es₁ es₂, es = es₁ ++ es₂ ∧ t = run step s es₁
  | s, [] => by simp [visited]
  | s, e :: es => by
    simp only [visited, List.mem_cons, mem_visited]
    constructor
    · rintro (rfl | ⟨es₁, es₂, rfl, rfl⟩)
      · exact ⟨[], e :: es, rfl, rfl⟩
      · exact ⟨e :: es₁, es₂, rfl, rfl⟩
    · rintro ⟨es₁, es₂, h, rfl⟩
      rcases es₁ with _ | ⟨e', es₁⟩
      · exact .inl rfl
      · obtain ⟨rfl, rfl⟩ := List.cons.inj h
        exact .inr ⟨es₁, es₂, rfl, rfl⟩

theorem run_mem_visited (s : σ) (es : List ε) : run step s es ∈ visited step s es :=
  (mem_visited step).2 ⟨es, [], by simp, rfl⟩

theorem mem_taken {x : σ × ε} : ∀ {s : σ} {es : List ε},
    x ∈ taken step s es ↔ ∃ es₁ es₂, es = es₁ ++ x.2 :: es₂ ∧ x.1 = run step s es₁
  | s, [] => by simp [taken]
  | s, e :: es => by
    simp only [taken, List.mem_cons, mem_taken]
    constructor
    · rintro (rfl | ⟨es₁, es₂, rfl, h⟩)
      · exact ⟨[], es, rfl, rfl⟩
      · exact ⟨e :: es₁, es₂, rfl, h⟩
    · rintro ⟨es₁, es₂, h, hx⟩
      rcases es₁ with _ | ⟨e', es₁⟩
      · obtain ⟨rfl, rfl⟩ := List.cons.inj h
        exact .inl (Prod.ext hx rfl)
      · obtain ⟨rfl, rfl⟩ := List.cons.inj h
        exact .inr ⟨es₁, es₂, rfl, hx⟩

theorem step_mem_visited {x : σ × ε} {s : σ} {es : List ε} (h : x ∈ taken step s es) :
    step x.1 x.2 ∈ visited step s es := by
  obtain ⟨es₁, es₂, rfl, hx⟩ := (mem_taken step).1 h
  exact (mem_visited step).2 ⟨es₁ ++ [x.2], es₂, by simp, by rw [run_concat, hx]⟩

theorem taken_append : ∀ (s : σ) (es es' : List ε),
    taken step s (es ++ es') = taken step s es ++ taken step (run step s es) es'
  | _, [], _ => rfl
  | s, e :: es, es' => by
    rw [List.cons_append, taken, taken, List.cons_append, run_cons, taken_append]

theorem mem_taken_append_cons {x : σ × ε} {s : σ} {es : List ε} {e : ε} {es' : List ε} :
    x ∈ taken step s (es ++ e :: es') ↔ x ∈ taken step s es ∨ x = (run step s es, e)
      ∨ x ∈ taken step (step (run step s es) e) es' := by
  rw [taken_append, List.mem_append, taken, List.mem_cons]

theorem filterMap_taken_cons {α : Type*} (f : σ × ε → Option α) (s : σ) (e : ε) (es : List ε) :
    (taken step s (e :: es)).filterMap f
      = (f (s, e)).toList ++ (taken step (step s e) es).filterMap f := by
  rw [taken, List.filterMap_cons]
  rcases f (s, e) with _ | a <;> rfl

/-- Of two steps a run takes, they are the same or one comes after the other. -/
theorem taken_trichotomy {x y : σ × ε} {s : σ} {es : List ε} (hx : x ∈ taken step s es)
    (hy : y ∈ taken step s es) : x = y ∨ (∃ es', y.1 = run step (step x.1 x.2) es')
      ∨ ∃ es', x.1 = run step (step y.1 y.2) es' := by
  obtain ⟨es₁, es₂, h, hx⟩ := (mem_taken step).1 hx
  obtain ⟨es₁', es₂', h', hy⟩ := (mem_taken step).1 hy
  rcases List.append_eq_append_iff.1 (h.symm.trans h') with ⟨d, rfl, hd⟩ | ⟨d, rfl, hd⟩
  · rcases d with _ | ⟨e, d⟩
    · rw [List.append_nil] at hy
      exact .inl (Prod.ext (hx.trans hy.symm) (List.cons.inj hd).1)
    · obtain ⟨rfl, -⟩ := List.cons.inj hd
      exact .inr (.inl ⟨d, by rw [hy, run_append, ← hx, run_cons]⟩)
  · rcases d with _ | ⟨e, d⟩
    · rw [List.append_nil] at hx
      exact .inl (Prod.ext (hx.trans hy.symm) (List.cons.inj hd).1.symm)
    · obtain ⟨rfl, -⟩ := List.cons.inj hd
      exact .inr (.inr ⟨d, by rw [hx, run_append, ← hy, run_cons]⟩)

theorem run_inv {P : σ → Prop} (hstep : ∀ s e, P s → P (step s e)) :
    ∀ {s : σ} (es : List ε), P s → P (run step s es)
  | _, [], h => h
  | _, e :: es, h => run_inv hstep es (hstep _ e h)

/-- An invariant that the steps the run takes keep holds in every state it visits. -/
theorem forall_visited_of_taken {P : σ → Prop} : ∀ {s : σ} {es : List ε}, P s →
    (∀ x ∈ taken step s es, P x.1 → P (step x.1 x.2)) → ∀ t ∈ visited step s es, P t
  | s, [], h, _ => by simp [visited, h]
  | s, e :: es, h, hstep => by
    have he : P (step s e) := hstep (s, e) (by simp [taken]) h
    rw [visited, List.forall_mem_cons]
    exact ⟨h, forall_visited_of_taken he fun x hx => hstep x (by simp [taken, hx])⟩

/-- Where, in the states `I` describes, a step keeps `P` exactly under `C`, the run stays in `P`
exactly when `C` holds at each of its steps. -/
theorem forall_visited_iff {I P : σ → Prop} {C : σ → ε → Prop}
    (hI : ∀ s e, I s → P s → I (step s e)) (hC : ∀ s e, I s → P s → (P (step s e) ↔ C s e)) :
    ∀ {s : σ} (es : List ε), I s → P s →
      ((∀ t ∈ visited step s es, P t) ↔ ∀ x ∈ taken step s es, C x.1 x.2)
  | s, [], _, h => by simp [visited, taken, h]
  | s, e :: es, hi, h => by
    simp only [visited, taken, List.forall_mem_cons, h, true_and]
    constructor
    · intro hv
      have hP : P (step s e) := hv _ (by cases es <;> simp [visited])
      exact ⟨(hC s e hi h).1 hP, (forall_visited_iff hI hC es (hI s e hi h) hP).1 hv⟩
    · rintro ⟨hc, ht⟩
      have hP : P (step s e) := (hC s e hi h).2 hc
      exact (forall_visited_iff hI hC es (hI s e hi h) hP).2 ht

theorem exists_step_of_run {P : σ → Prop} : ∀ {s : σ} (es : List ε), ¬ P s → P (run step s es) →
    ∃ es₁ e es₂, es = es₁ ++ e :: es₂ ∧ ¬ P (run step s es₁) ∧ P (step (run step s es₁) e)
  | _, [], h0, h => absurd h h0
  | s, e :: es, h0, h => by
    by_cases he : P (step s e)
    · exact ⟨[], e, es, rfl, h0, he⟩
    · obtain ⟨es₁, e', es₂, rfl, h1, h2⟩ := exists_step_of_run es he h
      exact ⟨e :: es₁, e', es₂, rfl, h1, h2⟩

/-- A measure that no step of a run raises bounds how often the run lowers it. -/
theorem length_le_of_sublist_taken {m : σ → ℕ} :
    ∀ {s : σ} {es : List ε} {steps : List (σ × ε)}, steps.Sublist (taken step s es) →
      (∀ x ∈ taken step s es, m (step x.1 x.2) ≤ m x.1) →
      (∀ x ∈ steps, m (step x.1 x.2) < m x.1) → steps.length ≤ m s
  | s, [], steps, h, _, _ => by
    rw [List.sublist_nil.1 h]
    exact Nat.zero_le _
  | s, e :: es, steps, h, hle, hdown => by
    rw [taken, List.forall_mem_cons] at hle
    have hs : m (step s e) ≤ m s := hle.1
    cases h with
    | cons _ h =>
      have := length_le_of_sublist_taken h hle.2 hdown
      omega
    | cons_cons _ h =>
      rw [List.forall_mem_cons] at hdown
      have := length_le_of_sublist_taken h hle.2 hdown.2
      have hs' : m (step s e) < m s := hdown.1
      rw [List.length_cons]
      omega

/-- The steps that take one index's measure past a bound are of different indices, and of indices
whose measure was past it at the start. -/
theorem nodup_filterMap_taken {ι : Type*} {f : σ × ε → Option ι} {m : ι → σ → ℕ} {n : ℕ}
    (hle : ∀ s e i, m i (step s e) ≤ m i s)
    (hcross : ∀ s e i, f (s, e) = some i → n < m i s ∧ m i (step s e) ≤ n) :
    ∀ (s : σ) (es : List ε), ((taken step s es).filterMap f).Nodup
      ∧ ∀ i ∈ (taken step s es).filterMap f, n < m i s
  | s, [] => by simp [taken]
  | s, e :: es => by
    obtain ⟨hnodup, hmem⟩ := nodup_filterMap_taken hle hcross (step s e) es
    have hlater : ∀ i ∈ (taken step (step s e) es).filterMap f, n < m i s :=
      fun i hi => Nat.lt_of_lt_of_le (hmem i hi) (hle s e i)
    rw [filterMap_taken_cons]
    rcases hf : f (s, e) with _ | i
    · exact ⟨hnodup, hlater⟩
    · obtain ⟨hbefore, hafter⟩ := hcross s e i hf
      refine ⟨List.nodup_cons.2 ⟨fun hi => ?_, hnodup⟩, List.forall_mem_cons.2 ⟨hbefore, hlater⟩⟩
      have := hmem i hi
      omega

/-- What the machine answers at the steps of the run that have an answer. -/
def outputs {α : Type*} (out : σ → ε → Option α) (s : σ) (es : List ε) : List α :=
  (taken step s es).filterMap fun x => out x.1 x.2

theorem outputs_eq {τ α : Type*} {step' : τ → ε → τ} {R : σ → τ → Prop} {C : σ → ε → Prop}
    {out : σ → ε → Option α} {out' : τ → ε → Option α}
    (hout : ∀ s t e, R s t → out s e = out' t e)
    (hstep : ∀ s t e, C s e → R s t → R (step s e) (step' t e)) :
    ∀ {s : σ} {t : τ} (es : List ε), R s t → (∀ x ∈ taken step s es, C x.1 x.2) →
      outputs step out s es = outputs step' out' t es
  | _, _, [], _, _ => rfl
  | s, t, e :: es, h, hC => by
    rw [taken, List.forall_mem_cons] at hC
    have ih := outputs_eq hout hstep es (hstep s t e hC.1 h) hC.2
    unfold outputs at ih ⊢
    rw [taken, taken, List.filterMap_cons, List.filterMap_cons, hout s t e h, ih]

/-! ## Extra events -/

section Extra

variable {α δ : Type*}

/-- The events of a list that are not extra. -/
def own : List (ε ⊕ δ) → List ε
  | [] => []
  | .inl e :: es => e :: own es
  | .inr _ :: es => own es

/-- What the machine answers at its own events among extra ones. -/
def ownOutputs (extra : δ → ε) (out : σ → ε → Option α) : σ → List (ε ⊕ δ) → List α
  | _, [] => []
  | s, .inl e :: es => (out s e).toList ++ ownOutputs extra out (step s e) es
  | s, .inr d :: es => ownOutputs extra out (step s (extra d)) es

theorem outputs_cons (out : σ → ε → Option α) (s : σ) (e : ε) (es : List ε) :
    outputs step out s (e :: es) = (out s e).toList ++ outputs step out (step s e) es := by
  unfold outputs
  rw [taken, List.filterMap_cons]
  rcases out s e with _ | a <;> rfl

theorem ownOutputs_eq {extra : δ → ε} {out : σ → ε → Option α} {R : σ → σ → Prop}
    (hout : ∀ s t e, R s t → out s e = out t e)
    (hstep : ∀ s t e, R s t → R (step s e) (step t e))
    (hextra : ∀ s t d, R s t → R (step s (extra d)) t) :
    ∀ {s t : σ} (es : List (ε ⊕ δ)), R s t →
      ownOutputs step extra out s es = outputs step out t (own es)
  | _, _, [], _ => rfl
  | s, t, .inl e :: es, h => by
    rw [ownOutputs, own, outputs_cons, hout s t e h,
      ownOutputs_eq hout hstep hextra es (hstep s t e h)]
  | s, t, .inr d :: es, h => by
    rw [ownOutputs, own, ownOutputs_eq hout hstep hextra es (hextra s t d h)]

end Extra

end StepMachine
