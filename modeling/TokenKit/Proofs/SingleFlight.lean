import TokenKit.Proofs.Lookups

/-!
# Single flight

When calls only look up, the refresh lock is held by the one call that is between taking it and the
end of its refresh (`OneHolder`), so there is never more than one fetch in flight. From the moment a
fetch has succeeded until the interval is over, whoever takes the lock and makes its check finds the
document recent: the run makes no other fetch, and these look-ups answer from that document
(`Settled`). A look-up that takes the lock in time but checks too late fetches again
(`late_check_fetches_again`).
-/

namespace TokenKit

open StepMachine JwksWorld

section Holders

variable {B : Backend} {T : Type}

/-- The call has made its request and is not done with the response. -/
def InFlight (w : JwksWorld B T) (c : ℕ) : Prop :=
  w.pc c = .fetching ∨ ∃ keys, w.pc c = .installing keys

/-- The call takes the refresh lock in this step. -/
def TakesLock (x : JwksWorld B T × JwksEvent B) (c : ℕ) : Prop :=
  x.2 = .step c ∧ x.1.pc c = .waiting ∧ x.1.refreshLock = none

/-- Past taking the refresh lock and before the end of the refresh. -/
def Holding (pc : JwksPc B T) : Prop := 2 ≤ stage pc ∧ stage pc ≤ 4

def OneHolder (w : JwksWorld B T) : Prop := ∀ c, Holding (w.pc c) ↔ w.refreshLock = some c

theorem InFlight.stage {w : JwksWorld B T} {c : ℕ} (h : InFlight w c) :
    3 ≤ stage (w.pc c) ∧ stage (w.pc c) ≤ 4 := by
  rcases h with h | ⟨keys, h⟩ <;> simp [h, TokenKit.stage]

theorem inFlight_iff {w : JwksWorld B T} {c : ℕ} :
    InFlight w c ↔ 3 ≤ stage (w.pc c) ∧ stage (w.pc c) ≤ 4 := by
  refine ⟨InFlight.stage, fun h => ?_⟩
  unfold InFlight
  rcases hpc : w.pc c with _ | _ | _ | _ | keys | _ | answer <;> simp_all [TokenKit.stage]

theorem InFlight.holding {w : JwksWorld B T} {c : ℕ} (h : InFlight w c) : Holding (w.pc c) :=
  ⟨le_trans (by omega) h.stage.1, h.stage.2⟩

theorem OneHolder.eq {w : JwksWorld B T} (h : OneHolder w) {c c' : ℕ} (hc : Holding (w.pc c))
    (hc' : Holding (w.pc c')) : c = c' :=
  Option.some.inj (((h c).1 hc).symm.trans ((h c').1 hc'))

/-- A call that does not touch the lock and does not cross its bounds keeps it as it is. -/
theorem OneHolder.goto {w : JwksWorld B T} (h : OneHolder w) {c : ℕ} {pc : JwksPc B T}
    (hsame : Holding pc ↔ Holding (w.pc c)) : OneHolder (w.goto c pc) := by
  intro c'
  rw [goto_pc, goto_refreshLock]
  split_ifs with hc
  · rw [hsame, hc]
    exact h c
  · exact h c'

/-- The holder lets go of the lock as it crosses the end. -/
theorem OneHolder.release {w w' : JwksWorld B T} (h : OneHolder w) {c : ℕ} {pc : JwksPc B T}
    (hholds : Holding (w.pc c)) (hpc : ¬ Holding pc) (hw : w'.pc = w.pc)
    (hlock : w'.refreshLock = none) : OneHolder (w'.goto c pc) := by
  intro c'
  rw [goto_pc, goto_refreshLock, hlock, hw]
  split_ifs with hc
  · simp [hpc]
  · simp only [iff_false]
    exact fun hc' => hc (h.eq hc' hholds)

/-- The cache holds the installation, the requests are these, and no fetch is in flight. -/
structure Settled (i : Install B) (fetches : List (ℕ × ℕ)) (w : JwksWorld B T) : Prop where
  state : w.state = i.cached
  time_le : i.time ≤ w.now
  fetches : w.fetches = fetches
  quiet : ∀ c, ¬ InFlight w c

/-- A call that checks does so within the interval. -/
def ChecksWithin (interval : ℕ) (i : Install B) (w : JwksWorld B T) (e : JwksEvent B) : Prop :=
  ∀ c, e = .step c → w.pc c = .checking → w.now < i.time + interval

theorem Settled.not_mayFetch {cache : JwksCache B} {calls : ℕ → JwksCall B} {w : JwksWorld B T}
    {i : Install B} {fetches : List (ℕ × ℕ)} {c : ℕ}
    (hlookups : ∀ c, ∃ look, calls c = .lookup look) (h : Settled i fetches w)
    (hcheck : ChecksWithin cache.minRefreshInterval i w (.step c)) :
    ¬ MayFetch cache calls w c := by
  intro hmay
  obtain ⟨hpc, hstale⟩ := hmay.checking hlookups
  have hnow := hcheck c rfl hpc
  have htime := h.time_le
  have hage : cache.minRefreshInterval ≤ w.now - i.time :=
    le_of_stale hstale (congrArg CachedKeys.fetchedAt h.state)
  omega

theorem Settled.installOf_eq_none {w : JwksWorld B T} {i : Install B} {fetches : List (ℕ × ℕ)}
    (h : Settled i fetches w) (e : JwksEvent B) : installOf (w, e) = none := by
  rcases hinst : installOf (w, e) with _ | j
  · rfl
  · obtain ⟨-, hpc, -⟩ := installOf_eq_some.1 hinst
    exact absurd (.inr ⟨j.keys, hpc⟩) (h.quiet j.call)

theorem OneHolder.not_takesLock {x : JwksWorld B T × JwksEvent B} (h : OneHolder x.1) {leader : ℕ}
    (hleader : InFlight x.1 leader) (c : ℕ) : ¬ TakesLock x c := by
  rintro ⟨-, -, hlock⟩
  have hheld := (h leader).1 hleader.holding
  rw [hlock] at hheld
  cases hheld

end Holders

section Steps

variable {B : Backend} {T : Type} [DeserializeOwned T] {cache : JwksCache B} {boot : ℕ}
  {calls : ℕ → JwksCall B} {w w' : JwksWorld B T} {e : JwksEvent B}

theorem OneHolder.refreshReturned (h : OneHolder w) {c : ℕ} {v : JwksWorld B T}
    (hholds : Holding (w.pc c)) (hw : v.pc = w.pc)
    (hlookups : ∀ c, ∃ look, calls c = .lookup look) (result : Except JwtError Unit) :
    OneHolder (v.refreshReturned boot c (calls c) result) := by
  obtain ⟨look, hlook⟩ := hlookups c
  rw [refreshReturned_eq, hlook]
  refine h.release hholds (fun hpc => ?_) hw rfl
  have := stage_pcAfterRefresh boot v (.lookup look) result
  have := hpc.2
  omega

theorem oneHolder_move (hlookups : ∀ c, ∃ look, calls c = .lookup look) (h : OneHolder w)
    (hmove : Move cache boot calls w e w') : OneHolder w' := by
  cases hmove with
  | tick d => exact h
  | idle c _ => exact h
  | unheard c outcome _ => exact h
  | hit c look want cached hcall hpc => exact h.goto (by simp [hpc, Holding, stage])
  | refused c look err hcall hpc => exact h.goto (by simp [hpc, Holding, stage])
  | wait c look hcall hpc => exact h.goto (by simp [hpc, Holding, stage])
  | again c look hcall hpc => exact h.goto (by simp [hpc, Holding, stage])
  | parsed c outcome keys hpc hkeys => exact h.goto (by simp [hpc, Holding, stage])
  | acquire c hpc hlock =>
    intro c'
    rw [goto_pc, goto_refreshLock]
    split_ifs with hc
    · simp [hc, Holding, stage]
    · have hnone : ¬ Holding (w.pc c') := by simp [h c', hlock]
      simp [hnone, Ne.symm hc]
  | skip c hpc hfresh =>
    exact h.refreshReturned (by simp [hpc, Holding, stage]) rfl hlookups _
  | noUrl c err hurl hmay =>
    have hpc := (hmay.checking hlookups).1
    exact h.refreshReturned (by simp [hpc, Holding, stage]) rfl hlookups _
  | failed c outcome err hpc hkeys =>
    exact h.refreshReturned (by simp [hpc, Holding, stage]) rfl hlookups _
  | install c keys hpc =>
    exact h.refreshReturned (c := c) (v := { w with state := ⟨keys, some w.now⟩ })
      (by simp [hpc, Holding, stage]) rfl hlookups _
  | request c hurl hmay =>
    have hpc := (hmay.checking hlookups).1
    have h : OneHolder { w with fetches := w.fetches ++ [(c, w.now)] } := h
    exact h.goto (by simp [hpc, Holding, stage])

/-- While a fetch is in flight no other one starts. -/
theorem fetches_of_inFlight (hlookups : ∀ c, ∃ look, calls c = .lookup look) (h : OneHolder w)
    {leader : ℕ} (hleader : InFlight w leader) (hmove : Move cache boot calls w e w') :
    w'.fetches = w.fetches := by
  rcases hmove.fetches with hsame | ⟨c, -, -, hmay, -⟩
  · exact hsame
  · have hchecking := (hmay.checking hlookups).1
    have hstage := hleader.stage
    obtain rfl : c = leader :=
      h.eq (by simp [hchecking, Holding, stage]) hleader.holding
    simp [hchecking, stage] at hstage

theorem settled_move {i : Install B} {fetches : List (ℕ × ℕ)}
    (hlookups : ∀ c, ∃ look, calls c = .lookup look)
    (hcheck : ChecksWithin cache.minRefreshInterval i w e) (h : Settled i fetches w)
    (hmove : Move cache boot calls w e w') : Settled i fetches w' where
  state := by
    rw [hmove.state, h.installOf_eq_none]
    exact h.state
  time_le := le_trans h.time_le hmove.now_le
  fetches := by
    rcases hmove.fetches with hsame | ⟨c, rfl, -, hmay, -⟩
    · rw [hsame, h.fetches]
    · exact absurd hmay (h.not_mayFetch hlookups hcheck)
  quiet c := by
    intro hflight
    rcases hmove.advance c with hpc | hadv
    · exact h.quiet c (by unfold InFlight at hflight ⊢; rwa [hpc] at hflight)
    · rcases hflight with hpc | ⟨keys, hpc⟩ <;> rw [hpc] at hadv
      · cases hadv with
        | request hmay => exact h.not_mayFetch hlookups hcheck hmay
      · cases hadv with
        | parsed outcome keys hfetching hkeys => exact h.quiet c (.inl hfetching)

/-- While the cache is settled, a call that has taken the lock returns from its second look-up
only. -/
theorem Settled.looking_of_returned {i : Install B} {fetches : List (ℕ × ℕ)} {c : ℕ}
    {answer : JwksAnswer B T} (hlookups : ∀ c, ∃ look, calls c = .lookup look)
    (hcheck : ChecksWithin cache.minRefreshInterval i w e) (h : Settled i fetches w)
    (hmove : Move cache boot calls w e w') (hstage : 2 ≤ stage (w.pc c))
    (hbefore : w.pc c ≠ .returned answer) (hafter : w'.pc c = .returned answer) :
    e = .step c ∧ w.pc c = .looking := by
  by_cases hc : e.caller = some c
  · cases hmove with
    | tick d => exact absurd hafter hbefore
    | idle c' _ => exact absurd hafter hbefore
    | unheard c' outcome _ => exact absurd hafter hbefore
    | hit c' look want cached hcall hpc | refused c' look err hcall hpc | wait c' look hcall hpc
    | acquire c' hpc =>
      obtain rfl := Option.some.inj hc
      simp [hpc, stage] at hstage
    | skip c' hpc hfresh =>
      obtain rfl := Option.some.inj hc
      obtain ⟨look, hlook⟩ := hlookups c'
      rw [refreshReturned_eq, goto_pc_self, hlook] at hafter
      cases hafter
    | noUrl c' err hurl hmay | request c' hurl hmay =>
      exact absurd hmay (h.not_mayFetch hlookups hcheck)
    | parsed c' outcome keys hpc hkeys | failed c' outcome err hpc hkeys =>
      exact absurd (.inl hpc) (h.quiet c')
    | install c' keys hpc => exact absurd (.inr ⟨keys, hpc⟩) (h.quiet c')
    | again c' look hcall hpc =>
      obtain rfl := Option.some.inj hc
      exact ⟨rfl, hpc⟩
  · exact absurd (hmove.pc_of_ne hc ▸ hafter) hbefore

end Steps

section Runs

variable {B : Backend} {T : Type} [DeserializeOwned T] {cache : JwksCache B} {boot : ℕ}
  {calls : ℕ → JwksCall B} {now : ℕ}

theorem oneHolder_run (hlookups : ∀ c, ∃ look, calls c = .lookup look) {w : JwksWorld B T}
    (h : OneHolder w) (es : List (JwksEvent B)) :
    OneHolder (run (jwksStep cache boot calls) w es) :=
  run_inv _ (P := fun w : JwksWorld B T => OneHolder w)
    (fun w e h => oneHolder_move hlookups h (move_jwksStep w e)) es h

theorem oneHolder_jwksRun (hlookups : ∀ c, ∃ look, calls c = .lookup look)
    (es : List (JwksEvent B)) : OneHolder (jwksRun (T := T) cache boot calls now es) :=
  oneHolder_run hlookups (fun c => by simp [freshCache, Holding, stage]) es

theorem fetchedAt_le_now (es : List (JwksEvent B)) (hnone : cache.state.fetchedAt = none) :
    ∀ t ∈ (jwksRun (T := T) cache boot calls now es).state.fetchedAt,
      t ≤ (jwksRun (T := T) cache boot calls now es).now := by
  refine run_inv _ (P := fun w : JwksWorld B T => ∀ t ∈ w.state.fetchedAt, t ≤ w.now)
    (fun w e h t ht => ?_) es (fun t ht => ?_)
  · have hmove : Move cache boot calls w e _ := move_jwksStep w e
    rw [hmove.state] at ht
    rcases hinst : installOf (w, e) with _ | i <;> rw [hinst] at ht
    · exact le_trans (h t ht) hmove.now_le
    · obtain rfl : i.time = t := Option.some.inj ht
      rw [(installOf_eq_some.1 hinst).2.2]
      exact hmove.now_le
  · have ht : t ∈ cache.state.fetchedAt := ht
    rw [hnone] at ht
    cases ht

/-- A call in flight at both ends of a stretch is in flight all along it, and no fetch starts. -/
theorem fetches_run_of_inFlight (hlookups : ∀ c, ∃ look, calls c = .lookup look)
    {w : JwksWorld B T} (h : OneHolder w) {leader : ℕ} {es : List (JwksEvent B)}
    (hstart : InFlight w leader) (hend : InFlight (run (jwksStep cache boot calls) w es) leader) :
    (∀ x ∈ taken (jwksStep cache boot calls) w es, InFlight x.1 leader)
      ∧ (run (jwksStep cache boot calls) w es).fetches = w.fetches := by
  have hflight : ∀ x ∈ taken (jwksStep cache boot calls) w es,
      OneHolder x.1 ∧ InFlight x.1 leader := by
    intro x hx
    obtain ⟨es₁, es₂, rfl, hx1⟩ := (mem_taken _).1 hx
    rw [run_append, ← hx1] at hend
    have hbefore : stage (w.pc leader) ≤ stage (x.1.pc leader) := hx1 ▸ stage_run_le w es₁ leader
    have hafter : stage (x.1.pc leader)
        ≤ stage ((run (jwksStep cache boot calls) x.1 (x.2 :: es₂)).pc leader) :=
      stage_run_le x.1 (x.2 :: es₂) leader
    exact ⟨hx1 ▸ oneHolder_run hlookups h es₁, inFlight_iff.2
      ⟨le_trans hstart.stage.1 hbefore, le_trans hafter hend.stage.2⟩⟩
  refine ⟨fun x hx => (hflight x hx).2, ?_⟩
  refine forall_visited_of_taken _ (P := fun v : JwksWorld B T => v.fetches = w.fetches) rfl
    (fun x hx hsame => ?_) _ (run_mem_visited _ w es)
  rw [fetches_of_inFlight hlookups (hflight x hx).1 (hflight x hx).2 (move_jwksStep x.1 x.2), hsame]

/-- The leader's installation settles the cache. -/
theorem settled_of_install (hlookups : ∀ c, ∃ look, calls c = .lookup look) {w : JwksWorld B T}
    (h : OneHolder w) {i : Install B} (hpc : w.pc i.call = .installing i.keys)
    (htime : i.time = w.now) :
    Settled i w.fetches (jwksStep cache boot calls w (.step i.call))
      ∧ (jwksStep cache boot calls w (.step i.call)).pc i.call = .looking := by
  have hmove : Move cache boot calls w (.step i.call) _ := move_jwksStep w _
  have hflight : InFlight w i.call := .inr ⟨_, hpc⟩
  have hlooking : (jwksStep cache boot calls w (.step i.call)).pc i.call = .looking := by
    obtain ⟨look, hlook⟩ := hlookups i.call
    simp only [jwksStep, callSection, hpc, refreshReturned_eq, goto_pc_self, hlook, pcAfterRefresh]
  refine ⟨⟨?_, ?_, fetches_of_inFlight hlookups h hflight hmove, fun c hc => ?_⟩, hlooking⟩
  · rw [hmove.state, installOf_eq_some.2 ⟨rfl, hpc, htime⟩]
    rfl
  · rw [htime]
    exact hmove.now_le
  · by_cases hcall : c = i.call
    · rw [hcall, inFlight_iff, hlooking] at hc
      simp [stage] at hc
    · have hsame := hmove.pc_of_ne (c := c) (fun h => hcall (Option.some.inj h).symm)
      rw [inFlight_iff, hsame] at hc
      exact hcall (h.eq (inFlight_iff.2 hc).holding hflight.holding)

theorem settled_run (hlookups : ∀ c, ∃ look, calls c = .lookup look) {i : Install B}
    {fetches : List (ℕ × ℕ)} {w : JwksWorld B T} {es : List (JwksEvent B)}
    (hcheck : ∀ x ∈ taken (jwksStep cache boot calls) w es,
      ChecksWithin cache.minRefreshInterval i x.1 x.2) (h : Settled i fetches w) :
    ∀ v ∈ visited (jwksStep cache boot calls) w es, Settled i fetches v :=
  forall_visited_of_taken _ h fun x hx hsettled =>
    settled_move hlookups (hcheck x hx) hsettled (move_jwksStep x.1 x.2)

/-- The call answered from the installation: it looked again while the cache held it, and
returned. -/
def AnswersFrom (cache : JwksCache B) (boot : ℕ) (calls : ℕ → JwksCall B)
    (steps : List (JwksWorld B T × JwksEvent B)) (i : Install B) (c : ℕ)
    (answer : JwksAnswer B T) : Prop :=
  ∃ x ∈ steps, x.2 = .step c ∧ x.1.pc c = .looking ∧ x.1.state = i.cached
    ∧ (jwksStep cache boot calls x.1 x.2).pc c = .returned answer

theorem answersFrom_of_settled (hlookups : ∀ c, ∃ look, calls c = .lookup look) {i : Install B}
    {fetches : List (ℕ × ℕ)} {w : JwksWorld B T} {es : List (JwksEvent B)} {c : ℕ}
    {answer : JwksAnswer B T} (h : Settled i fetches w)
    (hcheck : ∀ x ∈ taken (jwksStep cache boot calls) w es,
      ChecksWithin cache.minRefreshInterval i x.1 x.2)
    (hstage : 2 ≤ stage (w.pc c)) (hbefore : w.pc c ≠ .returned answer)
    (hret : (run (jwksStep cache boot calls) w es).pc c = .returned answer) :
    AnswersFrom cache boot calls (taken (jwksStep cache boot calls) w es) i c answer := by
  obtain ⟨es₁, e, es₂, rfl, hbefore, hafter⟩ := exists_step_of_run (jwksStep cache boot calls)
    (P := fun w => w.pc c = .returned answer) es hbefore hret
  have hmem : (run (jwksStep cache boot calls) w es₁, e)
      ∈ taken (jwksStep cache boot calls) w (es₁ ++ e :: es₂) :=
    (mem_taken _).2 ⟨es₁, es₂, rfl, rfl⟩
  have hsettled := settled_run hlookups hcheck h _ ((mem_visited _).2 ⟨es₁, e :: es₂, rfl, rfl⟩)
  obtain ⟨he, hlooking⟩ := hsettled.looking_of_returned hlookups (hcheck _ hmem)
    (move_jwksStep _ e) (le_trans hstage (stage_run_le w es₁ c)) hbefore hafter
  exact ⟨_, hmem, he, hlooking, hsettled.state, hafter⟩

theorem AnswersFrom.mono {steps steps' : List (JwksWorld B T × JwksEvent B)} {i : Install B}
    {c : ℕ} {answer : JwksAnswer B T} (h : AnswersFrom cache boot calls steps i c answer)
    (hsub : steps ⊆ steps') : AnswersFrom cache boot calls steps' i c answer := by
  obtain ⟨x, hx, hlast⟩ := h
  exact ⟨x, hsub hx, hlast⟩

theorem TakesLock.checking {x : JwksWorld B T × JwksEvent B} {c : ℕ} (h : TakesLock x c) :
    (jwksStep cache boot calls x.1 x.2).pc c = .checking := by
  obtain ⟨w, e⟩ := x
  obtain ⟨he, hwaiting, hlock⟩ := h
  simp only at he hwaiting hlock
  simp only [he, jwksStep, callSection, hwaiting, hlock, Option.isNone_none, if_true, goto_pc_self]

theorem answersFrom_of_takesLock (hlookups : ∀ c, ∃ look, calls c = .lookup look) {i : Install B}
    {fetches : List (ℕ × ℕ)} {w : JwksWorld B T} {es : List (JwksEvent B)} {c : ℕ}
    {answer : JwksAnswer B T} (h : Settled i fetches w)
    (hcheck : ∀ x ∈ taken (jwksStep cache boot calls) w es,
      ChecksWithin cache.minRefreshInterval i x.1 x.2)
    {x : JwksWorld B T × JwksEvent B} (hx : x ∈ taken (jwksStep cache boot calls) w es)
    (htakes : TakesLock x c)
    (hret : (run (jwksStep cache boot calls) w es).pc c = .returned answer) :
    AnswersFrom cache boot calls (taken (jwksStep cache boot calls) w es) i c answer := by
  obtain ⟨es₁, es₂, rfl, hx1⟩ := (mem_taken _).1 hx
  have hsettled := settled_run hlookups hcheck h _
    ((mem_visited _).2 ⟨es₁ ++ [x.2], es₂, by simp, rfl⟩)
  have hsub : ∀ y ∈ taken (jwksStep cache boot calls) (jwksStep cache boot calls x.1 x.2) es₂,
      y ∈ taken (jwksStep cache boot calls) w (es₁ ++ x.2 :: es₂) := fun y hy =>
    (mem_taken_append_cons _).2 (.inr (.inr (hx1 ▸ hy)))
  have hchecking : (jwksStep cache boot calls x.1 x.2).pc c = .checking := htakes.checking
  rw [run_concat, ← hx1] at hsettled
  rw [run_append, run_cons, ← hx1] at hret
  refine (answersFrom_of_settled hlookups hsettled (fun y hy => hcheck y (hsub y hy)) ?_ ?_
    hret).mono hsub
  · rw [hchecking]
    simp [stage]
  · rw [hchecking]
    simp

/-- A leader's fetch that succeeds is the only one, and serves whoever takes the lock after, as long
as the checks come within the interval. -/
theorem burst (hlookups : ∀ c, ∃ look, calls c = .lookup look) {w : JwksWorld B T}
    (h : OneHolder w) {i : Install B} {es : List (JwksEvent B)} (hleader : InFlight w i.call)
    (hi : i ∈ history (taken (jwksStep cache boot calls) w es))
    (hcheck : ∀ x ∈ taken (jwksStep cache boot calls) w es,
      ChecksWithin cache.minRefreshInterval i x.1 x.2) :
    (run (jwksStep cache boot calls) w es).fetches = w.fetches
      ∧ ∀ c answer, (c = i.call ∨ ∃ x ∈ taken (jwksStep cache boot calls) w es, TakesLock x c) →
        (run (jwksStep cache boot calls) w es).pc c = .returned answer →
          AnswersFrom cache boot calls (taken (jwksStep cache boot calls) w es) i c answer := by
  obtain ⟨es₁, es₂, rfl, hpc, htime⟩ := mem_history.1 hi
  have hinstalling : InFlight (run (jwksStep cache boot calls) w es₁) i.call := .inr ⟨_, hpc⟩
  have hone : OneHolder (run (jwksStep cache boot calls) w es₁) := oneHolder_run hlookups h es₁
  obtain ⟨hflight, hsame⟩ := fetches_run_of_inFlight hlookups h hleader hinstalling
  obtain ⟨hsettled, hlooking⟩ : _ ∧ (jwksStep cache boot calls
      (run (jwksStep cache boot calls) w es₁) (.step i.call)).pc i.call = .looking :=
    settled_of_install hlookups hone hpc htime
  have hsub : ∀ x ∈ taken (jwksStep cache boot calls) (jwksStep cache boot calls
      (run (jwksStep cache boot calls) w es₁) (.step i.call)) es₂,
      x ∈ taken (jwksStep cache boot calls) w (es₁ ++ .step i.call :: es₂) := fun x hx =>
    (mem_taken_append_cons _).2 (.inr (.inr hx))
  have hrest := fun x hx => hcheck x (hsub x hx)
  rw [run_append, run_cons]
  refine ⟨(settled_run hlookups hrest hsettled _ (run_mem_visited _ _ _)).fetches.trans hsame,
    fun c answer hc hret => ?_⟩
  rcases hc with rfl | ⟨x, hx, htakes⟩
  · refine (answersFrom_of_settled hlookups hsettled hrest ?_ ?_ hret).mono hsub
    · rw [hlooking]
      simp [stage]
    · rw [hlooking]
      simp
  · -- The leader holds the lock up to its installation, so the others take it after.
    rcases (mem_taken_append_cons _).1 hx with hx | rfl | hx
    · obtain ⟨es₃, -, -, hx1⟩ := (mem_taken _).1 hx
      have hone : OneHolder x.1 := hx1 ▸ oneHolder_run hlookups h es₃
      exact absurd htakes (hone.not_takesLock (hflight x hx) c)
    · exact absurd htakes (hone.not_takesLock hinstalling c)
    · exact (answersFrom_of_takesLock hlookups hsettled hrest hx htakes hret).mono hsub

/-- A fetch starts an interval after the last one that succeeded was done. -/
theorem interval_le_of_fetch (hlookups : ∀ c, ∃ look, calls c = .lookup look)
    (hnone : cache.state.fetchedAt = none) {es : List (JwksEvent B)} {e : JwksEvent B}
    (hfetch : (jwksRun (T := T) cache boot calls now (es ++ [e])).fetches
      ≠ (jwksRun (T := T) cache boot calls now es).fetches) {i : Install B}
    (hi : i ∈ (history (jwksSteps (T := T) cache boot calls now es)).getLast?) :
    i.time + cache.minRefreshInterval ≤ (jwksRun (T := T) cache boot calls now es).now := by
  rw [jwksRun_concat] at hfetch
  have hmove : Move cache boot calls (jwksRun (T := T) cache boot calls now es) e _ :=
    move_jwksStep _ e
  obtain ⟨c, -, -, hmay, -⟩ := hmove.fetches.resolve_left hfetch
  obtain ⟨-, hstale⟩ := hmay.checking hlookups
  have hfetched := congrArg CachedKeys.fetchedAt (state_of_getLast? hi)
  have hle := fetchedAt_le_now es hnone i.time hfetched
  have hage : cache.minRefreshInterval
      ≤ (jwksRun (T := T) cache boot calls now es).now - i.time := le_of_stale hstale hfetched
  omega

end Runs

/-- When calls only look up: at most one fetch is in flight; none starts within the interval after
the last success; and when a leader's fetch succeeds and every check made after it started is made
within the interval after its success, it is the one fetch, and the leader and whoever takes the
lock after answer from its document. -/
theorem single_flight {B : Backend} {T : Type} [DeserializeOwned T] (url : String)
    (ttl interval boot : ℕ) (calls : ℕ → JwksCall B)
    (hlookups : ∀ c, ∃ look, calls c = .lookup look) (now : ℕ) (es : List (JwksEvent B)) :
    (∀ w ∈ visited (jwksStep (urlCache url ttl interval) boot calls)
        (freshCache (urlCache url ttl interval) now : JwksWorld B T) es,
        ∀ c c', InFlight w c → InFlight w c' → c = c')
      ∧ (∀ es₁ e es₂, es = es₁ ++ e :: es₂ →
          (jwksRun (T := T) (urlCache url ttl interval) boot calls now (es₁ ++ [e])).fetches
            ≠ (jwksRun (T := T) (urlCache url ttl interval) boot calls now es₁).fetches →
          ∀ i ∈ (history
            (jwksSteps (T := T) (urlCache url ttl interval) boot calls now es₁)).getLast?,
            i.time + interval
              ≤ (jwksRun (T := T) (urlCache url ttl interval) boot calls now es₁).now)
      ∧ ∀ es₀ leader es₁, es = es₀ ++ .step leader :: es₁ →
          (jwksRun (T := T) (urlCache url ttl interval) boot calls now
              (es₀ ++ [.step leader])).fetches
            ≠ (jwksRun (T := T) (urlCache url ttl interval) boot calls now es₀).fetches →
          ∀ i ∈ history (taken (jwksStep (urlCache url ttl interval) boot calls)
              (jwksRun (T := T) (urlCache url ttl interval) boot calls now
                (es₀ ++ [.step leader])) es₁),
            i.call = leader →
            (∀ x ∈ taken (jwksStep (urlCache url ttl interval) boot calls)
                (jwksRun (T := T) (urlCache url ttl interval) boot calls now
                  (es₀ ++ [.step leader])) es₁, ChecksWithin interval i x.1 x.2) →
            (jwksRun (T := T) (urlCache url ttl interval) boot calls now es).fetches
                = (jwksRun (T := T) (urlCache url ttl interval) boot calls now es₀).fetches
                  ++ [(leader,
                    (jwksRun (T := T) (urlCache url ttl interval) boot calls now es₀).now)]
              ∧ ∀ c answer, (c = leader
                  ∨ ∃ x ∈ taken (jwksStep (urlCache url ttl interval) boot calls)
                      (jwksRun (T := T) (urlCache url ttl interval) boot calls now
                        (es₀ ++ [.step leader])) es₁, TakesLock x c) →
                (jwksRun (T := T) (urlCache url ttl interval) boot calls now es).pc c
                  = .returned answer →
                AnswersFrom (urlCache url ttl interval) boot calls
                  (jwksSteps (urlCache url ttl interval) boot calls now es) i c answer := by
  refine ⟨?_, ?_, ?_⟩
  · intro w hw c c' hc hc'
    obtain ⟨es₁, -, -, rfl⟩ := (mem_visited _).1 hw
    have hone : OneHolder (jwksRun (T := T) (urlCache url ttl interval) boot calls now es₁) :=
      oneHolder_jwksRun hlookups es₁
    exact hone.eq hc.holding hc'.holding
  · rintro es₁ e es₂ rfl hfetch i hi
    exact interval_le_of_fetch hlookups rfl hfetch hi
  · rintro es₀ leader es₁ rfl hfetch i hi rfl hcheck
    have hmove : Move (urlCache url ttl interval) boot calls
        (jwksRun (T := T) (urlCache url ttl interval) boot calls now es₀) (.step i.call)
        (jwksRun (T := T) (urlCache url ttl interval) boot calls now (es₀ ++ [.step i.call])) := by
      rw [jwksRun_concat]
      exact move_jwksStep _ _
    obtain ⟨c, hc, -, -, hfetches, hfetching⟩ := hmove.fetches.resolve_left hfetch
    obtain rfl := JwksEvent.step.inj hc
    have hrun : jwksRun (T := T) (urlCache url ttl interval) boot calls now
          (es₀ ++ .step i.call :: es₁)
        = run (jwksStep (urlCache url ttl interval) boot calls)
          (jwksRun (urlCache url ttl interval) boot calls now (es₀ ++ [.step i.call])) es₁ := by
      rw [jwksRun_append, run_cons, jwksRun_concat]
    have hsub : ∀ x ∈ taken (jwksStep (urlCache url ttl interval) boot calls)
        (jwksRun (T := T) (urlCache url ttl interval) boot calls now (es₀ ++ [.step i.call])) es₁,
        x ∈ jwksSteps (urlCache url ttl interval) boot calls now (es₀ ++ .step i.call :: es₁) := by
      rw [jwksRun_concat]
      exact fun x hx => (mem_taken_append_cons _).2 (.inr (.inr hx))
    obtain ⟨hsame, hanswers⟩ :=
      burst hlookups (oneHolder_jwksRun hlookups _) (.inl hfetching) hi hcheck
    rw [hrun]
    exact ⟨hsame.trans hfetches, fun c answer hc hret => (hanswers c answer hc hret).mono hsub⟩

/-- A second look-up waits for the first one's fetch, and checks nine seconds after it. -/
def coalesced : List (JwksEvent transparentBackend) :=
  [.step 0, .step 1, .step 0] ++ .step 0 :: [.respond 0 (.document rsaSet), .step 0,
    .tick (9 * 10 ^ 9), .step 1, .step 1, .step 1]

def leaderInstall : Install transparentBackend :=
  ⟨0, AList.insert "k" ⟨.der [1], some .RS256⟩ ∅, 0⟩

theorem single_flight_coalesced :
    (jwksRun (T := StandardClaims) (issuerCache DEFAULT_TTL DEFAULT_MIN_REFRESH_INTERVAL) 0
        kidLookup 0 coalesced).fetches = [(0, 0)]
      ∧ ∀ answer, (jwksRun (T := StandardClaims)
          (issuerCache DEFAULT_TTL DEFAULT_MIN_REFRESH_INTERVAL) 0 kidLookup 0 coalesced).pc 1
            = .returned answer →
        AnswersFrom (issuerCache DEFAULT_TTL DEFAULT_MIN_REFRESH_INTERVAL) 0 kidLookup
          (jwksSteps (issuerCache DEFAULT_TTL DEFAULT_MIN_REFRESH_INTERVAL) 0 kidLookup 0 coalesced)
          leaderInstall 1 answer := by
  obtain ⟨-, -, hburst⟩ := single_flight (T := StandardClaims)
    (issuerCache DEFAULT_TTL DEFAULT_MIN_REFRESH_INTERVAL).url DEFAULT_TTL
    DEFAULT_MIN_REFRESH_INTERVAL 0 kidLookup (fun _ => ⟨_, rfl⟩) 0 coalesced
  obtain ⟨hfetches, hanswers⟩ := hburst [.step 0, .step 1, .step 0] 0 _ rfl (by decide)
    leaderInstall (mem_history.2 ⟨[.respond 0 (.document rsaSet)], _, rfl, rfl, rfl⟩) rfl (by
      simp only [taken, List.forall_mem_cons]
      exact ⟨fun c _ _ => by decide, fun c _ _ => by decide, fun c _ _ => by decide,
        fun c _ _ => by decide, fun c _ _ => by decide, fun c _ _ => by decide, by simp⟩)
  refine ⟨hfetches, fun answer hret => hanswers 1 answer (.inr ?_) hret⟩
  exact ⟨(run _ _ [.respond 0 (.document rsaSet), .step 0, .tick (9 * 10 ^ 9)], .step 1),
    (mem_taken _).2 ⟨_, _, rfl, rfl⟩, rfl, rfl, rfl⟩

/-- Another look-up takes the lock as soon as the leader is done, and checks an interval later. -/
def lateCheck : List (JwksEvent transparentBackend) :=
  [.step 0, .step 1, .step 0, .step 0, .respond 0 (.document rsaSet), .step 0, .step 1,
    .tick DEFAULT_MIN_REFRESH_INTERVAL, .step 1]

theorem late_check_fetches_again :
    (∀ c, ∃ look, kidLookup c = .lookup look)
      ∧ (history (jwksSteps (T := StandardClaims)
          (issuerCache DEFAULT_TTL DEFAULT_MIN_REFRESH_INTERVAL) 0 kidLookup 0 lateCheck)).map
            (fun i => (i.call, i.time)) = [(0, 0)]
      ∧ (∀ x ∈ jwksSteps (T := StandardClaims)
          (issuerCache DEFAULT_TTL DEFAULT_MIN_REFRESH_INTERVAL) 0 kidLookup 0 lateCheck,
          ∀ c, TakesLock x c → x.1.now < 0 + DEFAULT_MIN_REFRESH_INTERVAL)
      ∧ (jwksRun (T := StandardClaims)
          (issuerCache DEFAULT_TTL DEFAULT_MIN_REFRESH_INTERVAL) 0 kidLookup 0
          lateCheck).fetches = [(0, 0), (1, DEFAULT_MIN_REFRESH_INTERVAL)] := by
  refine ⟨fun c => ⟨_, rfl⟩, rfl, ?_, rfl⟩
  simp only [jwksSteps, lateCheck, taken, List.forall_mem_cons]
  refine ⟨?_, ?_, ?_, ?_, ?_, ?_, ?_, ?_, ?_, by simp⟩
  case refine_9 =>
    rintro c ⟨he, hpc, -⟩
    obtain rfl := JwksEvent.step.inj he
    cases hpc
  all_goals exact fun c _ => by decide

end TokenKit
