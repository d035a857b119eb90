import TokenKit.Proofs.Lookups
import Mathlib.Data.List.Induction

/-!
# What a forced refresh does

A forced refresh makes one request, unless there is no URL. It returns the failure of the response,
and has installed nothing; or it returns nothing wrong, and has installed the keys of the response,
once (`forced_refresh_exact`). Neither look-ups nor other forced refreshes, which may be under way
all along, change any of this (`ForcedAt`).
-/

namespace TokenKit

open StepMachine JwksWorld

variable {B : Backend} {T : Type}

/-! ## The account of a call -/

/-- The requests of the call. -/
def requestsBy (w : JwksWorld B T) (c : ℕ) : List (ℕ × ℕ) := w.fetches.filter fun f => f.1 = c

/-- The installations of the call. -/
def installsBy (installs : List (Install B)) (c : ℕ) : List (Install B) :=
  installs.filter fun i => i.call = c

/-- The outcome is that of the call's request. -/
def Hears (steps : List (JwksWorld B T × JwksEvent B)) (c : ℕ) (outcome : FetchOutcome B) : Prop :=
  ∃ x ∈ steps, x.2 = .respond c outcome ∧ x.1.pc c = .fetching

/-- How a forced refresh ends, with its requests, its installations and what it heard. -/
inductive ForcedEnd (cache : JwksCache B) (c : ℕ) (requests : List (ℕ × ℕ))
    (installs : List (Install B)) (hears : FetchOutcome B → Prop) :
    Except JwtError Unit → Prop where
  | noUrl (hurl : cache.url.isEmpty = true) (hrequests : requests = [])
    (hinstalls : installs = []) :
    ForcedEnd cache c requests installs hears
      (.error (.jwks "no JWKS URL configured (static key set)"))
  | failed (hurl : cache.url.isEmpty = false) (sentAt : ℕ) (hrequests : requests = [(c, sentAt)])
    (outcome : FetchOutcome B) (hhears : hears outcome) (e : JwtError)
    (hkeys : keysOfResponse B cache.url outcome = .error e) (hinstalls : installs = []) :
    ForcedEnd cache c requests installs hears (.error e)
  | installed (hurl : cache.url.isEmpty = false) (sentAt : ℕ) (hrequests : requests = [(c, sentAt)])
    (outcome : FetchOutcome B) (hhears : hears outcome)
    (keys : AList fun _ : String => CachedKey B)
    (hkeys : keysOfResponse B cache.url outcome = .ok keys) (time : ℕ)
    (hinstalls : installs = [⟨c, keys, time⟩]) :
    ForcedEnd cache c requests installs hears (.ok ())

/-- What holds of a forced refresh where it is. -/
def ForcedAt (cache : JwksCache B) (c : ℕ) (requests : List (ℕ × ℕ)) (installs : List (Install B))
    (hears : FetchOutcome B → Prop) : JwksPc B T → Prop
  | .started => requests = [] ∧ installs = []
  | .fetching => cache.url.isEmpty = false ∧ (∃ sentAt, requests = [(c, sentAt)]) ∧ installs = []
  | .installing keys => cache.url.isEmpty = false ∧ (∃ sentAt, requests = [(c, sentAt)])
    ∧ installs = [] ∧ ∃ outcome, hears outcome ∧ keysOfResponse B cache.url outcome = .ok keys
  | .returned answer => ∃ result, answer = .refreshed result
    ∧ ForcedEnd cache c requests installs hears result
  | _ => False

section Accounts

variable {cache : JwksCache B} {w : JwksWorld B T} {e : JwksEvent B} {c : ℕ}
  {requests : List (ℕ × ℕ)} {installs : List (Install B)} {hears hears' : FetchOutcome B → Prop}

theorem ForcedEnd.mono {result : Except JwtError Unit}
    (h : ForcedEnd cache c requests installs hears result)
    (hhears : ∀ outcome, hears outcome → hears' outcome) :
    ForcedEnd cache c requests installs hears' result := by
  cases h with
  | noUrl hurl hrequests hinstalls => exact .noUrl hurl hrequests hinstalls
  | failed hurl sentAt hrequests outcome hheard e hkeys hinstalls =>
    exact .failed hurl sentAt hrequests outcome (hhears _ hheard) e hkeys hinstalls
  | installed hurl sentAt hrequests outcome hheard keys hkeys time hinstalls =>
    exact .installed hurl sentAt hrequests outcome (hhears _ hheard) keys hkeys time hinstalls

theorem ForcedAt.mono {pc : JwksPc B T} (h : ForcedAt cache c requests installs hears pc)
    (hhears : ∀ outcome, hears outcome → hears' outcome) :
    ForcedAt cache c requests installs hears' pc := by
  cases pc with
  | installing keys =>
    obtain ⟨hurl, hrequests, hinstalls, outcome, hheard, hkeys⟩ := h
    exact ⟨hurl, hrequests, hinstalls, outcome, hhears _ hheard, hkeys⟩
  | returned answer =>
    obtain ⟨result, hanswer, hend⟩ := h
    exact ⟨result, hanswer, hend.mono hhears⟩
  | _ => exact h

/-- A step that is not about the call is in none of its accounts. -/
theorem installsBy_of_ne (hc : e.caller ≠ some c) :
    installsBy (installOf (w, e)).toList c = [] := by
  rcases hinstall : installOf (w, e) with _ | i
  · rfl
  · obtain ⟨hstep, -⟩ := installOf_eq_some.1 hinstall
    have hstep : e = .step i.call := hstep
    subst hstep
    have hne : i.call ≠ c := fun h => hc (congrArg some h)
    simp [installsBy, hne]

theorem requestsBy_goto (pc : JwksPc B T) : requestsBy (w.goto c pc) c = requestsBy w c := rfl

end Accounts

/-! ## Steps -/

section Steps

variable [DeserializeOwned T] {cache : JwksCache B} {boot : ℕ} {calls : ℕ → JwksCall B}
  {now : ℕ} {w : JwksWorld B T} {e : JwksEvent B} {c : ℕ} {installs : List (Install B)}
  {hears hears' : FetchOutcome B → Prop}

theorem requestsBy_of_ne (hc : e.caller ≠ some c) :
    requestsBy (jwksStep cache boot calls w e) c = requestsBy w c := by
  have hmove : Move cache boot calls w e (jwksStep cache boot calls w e) := move_jwksStep w e
  unfold requestsBy
  rcases hmove.fetches with hsame | ⟨c', rfl, -, -, hfetches, -⟩
  · rw [hsame]
  · have hne : c' ≠ c := fun h => hc (congrArg some h)
    rw [hfetches, List.filter_append, List.filter_singleton]
    simp [hne]

/-- The call's section does nothing. -/
theorem ForcedAt.same (h : ForcedAt cache c (requestsBy w c) installs hears (w.pc c))
    (hhears : ∀ outcome, hears outcome → hears' outcome)
    (hstep : jwksStep cache boot calls w e = w) (hinstall : installOf (w, e) = none) :
    ForcedAt cache c (requestsBy (jwksStep cache boot calls w e) c)
      (installs ++ installsBy (installOf (w, e)).toList c) hears'
      ((jwksStep cache boot calls w e).pc c) := by
  rw [hstep, hinstall, Option.toList_none, installsBy, List.filter_nil, List.append_nil]
  exact h.mono hhears

theorem ForcedAt.turn (hforced : calls c = .refresh)
    (h : ForcedAt cache c (requestsBy w c) installs hears (w.pc c))
    (hhears : ∀ outcome, hears outcome → hears' outcome) :
    ForcedAt cache c (requestsBy (jwksStep cache boot calls w (.step c)) c)
      (installs ++ installsBy (installOf (w, .step c)).toList c) hears'
      ((jwksStep cache boot calls w (.step c)).pc c) := by
  rcases hpc : w.pc c with _ | _ | _ | _ | keys | _ | answer
  case started =>
    have hinstall : installOf (w, .step c) = none := by simp [installOf, hpc]
    rw [hpc] at h
    obtain ⟨hrequests, hinstalls⟩ := h
    rw [hinstall, Option.toList_none, installsBy, List.filter_nil, List.append_nil]
    by_cases hurl : cache.url.isEmpty = true
    · have hstep : jwksStep cache boot calls w (.step c) = w.goto c (.returned (.refreshed
          (.error (.jwks "no JWKS URL configured (static key set)")))) := by
        simp [jwksStep, callSection, hpc, hforced, start, JwksWorld.refresh, hurl,
          JwksWorld.refreshReturned]
      rw [hstep, requestsBy_goto, goto_pc_self]
      exact ⟨_, rfl, .noUrl hurl hrequests hinstalls⟩
    · have hstep : jwksStep cache boot calls w (.step c)
          = { w with fetches := w.fetches ++ [(c, w.now)] }.goto c .fetching := by
        simp [jwksStep, callSection, hpc, hforced, start, JwksWorld.refresh, hurl]
      rw [hstep, goto_pc_self]
      refine ⟨by simpa using hurl, ⟨w.now, ?_⟩, hinstalls⟩
      have happend : requestsBy ({ w with fetches := w.fetches ++ [(c, w.now)] }.goto c .fetching) c
          = requestsBy w c ++ [(c, w.now)] := by
        simp [requestsBy]
      rw [happend, hrequests, List.nil_append]
  case installing keys =>
    have hinstall : installOf (w, .step c) = some ⟨c, keys, w.now⟩ := by simp [installOf, hpc]
    have hstep : jwksStep cache boot calls w (.step c)
        = { w with state := ⟨keys, some w.now⟩ }.goto c (.returned (.refreshed (.ok ()))) := by
      simp [jwksStep, callSection, hpc, hforced, JwksWorld.refreshReturned]
    rw [hpc] at h
    obtain ⟨hurl, ⟨sentAt, hrequests⟩, hinstalls, outcome, hheard, hkeys⟩ := h
    rw [hinstall, hstep, goto_pc_self]
    refine ⟨_, rfl, .installed hurl sentAt hrequests outcome (hhears _ hheard) keys hkeys w.now ?_⟩
    simp [hinstalls, installsBy]
  case waiting | checking | looking =>
    rw [hpc] at h
    exact h.elim
  case fetching | returned =>
    exact h.same hhears (by simp [jwksStep, callSection, hpc]) (by simp [installOf, hpc])

theorem ForcedAt.response (hforced : calls c = .refresh)
    (h : ForcedAt cache c (requestsBy w c) installs hears (w.pc c))
    (hhears : ∀ outcome, hears outcome → hears' outcome) {outcome : FetchOutcome B}
    (hheard : w.pc c = .fetching → hears' outcome) :
    ForcedAt cache c (requestsBy (jwksStep cache boot calls w (.respond c outcome)) c) installs
      hears' ((jwksStep cache boot calls w (.respond c outcome)).pc c) := by
  by_cases hpc : w.pc c = .fetching
  · rw [hpc] at h
    obtain ⟨hurl, ⟨sentAt, hrequests⟩, hinstalls⟩ := h
    rcases hkeys : keysOfResponse B cache.url outcome with err | keys
    · have hstep : jwksStep cache boot calls w (.respond c outcome)
          = w.goto c (.returned (.refreshed (.error err))) := by
        simp [jwksStep, JwksWorld.respond, hpc, hkeys, hforced, JwksWorld.refreshReturned]
      rw [hstep, requestsBy_goto, goto_pc_self]
      exact ⟨_, rfl, .failed hurl sentAt hrequests outcome (hheard hpc) err hkeys hinstalls⟩
    · have hstep : jwksStep cache boot calls w (.respond c outcome)
          = w.goto c (.installing keys) := by
        simp [jwksStep, JwksWorld.respond, hpc, hkeys]
      rw [hstep, requestsBy_goto, goto_pc_self]
      exact ⟨hurl, ⟨sentAt, hrequests⟩, hinstalls, outcome, hheard hpc, hkeys⟩
  · have hstep : jwksStep cache boot calls w (.respond c outcome) = w := by
      rcases hw : w.pc c with _ | _ | _ | _ | keys | _ | answer
      case fetching => exact absurd hw hpc
      all_goals simp [jwksStep, JwksWorld.respond, hw]
    rw [hstep]
    exact h.mono hhears

/-- Each step keeps the account of a forced refresh. -/
theorem forcedAt_jwksStep (hforced : calls c = .refresh)
    (h : ForcedAt cache c (requestsBy w c) installs hears (w.pc c))
    (hhears : ∀ outcome, hears outcome → hears' outcome)
    (hheard : ∀ outcome, e = .respond c outcome → w.pc c = .fetching → hears' outcome) :
    ForcedAt cache c (requestsBy (jwksStep cache boot calls w e) c)
      (installs ++ installsBy (installOf (w, e)).toList c) hears'
      ((jwksStep cache boot calls w e).pc c) := by
  by_cases hc : e.caller = some c
  · rcases e with c' | ⟨c', outcome⟩ | d
    · obtain rfl := Option.some.inj hc
      exact h.turn hforced hhears
    · obtain rfl := Option.some.inj hc
      rw [installOf, Option.toList_none, installsBy, List.filter_nil, List.append_nil]
      exact h.response hforced hhears fun hpc => hheard outcome rfl hpc
    · cases hc
  · have hmove : Move cache boot calls w e (jwksStep cache boot calls w e) := move_jwksStep w e
    rw [hmove.pc_of_ne hc, requestsBy_of_ne hc, installsBy_of_ne hc, List.append_nil]
    exact h.mono hhears

/-! ## Runs -/

theorem forcedAt_run (hforced : calls c = .refresh) (es : List (JwksEvent B)) :
    ForcedAt cache c (requestsBy (jwksRun (T := T) cache boot calls now es) c)
      (installsBy (history (jwksSteps (T := T) cache boot calls now es)) c)
      (Hears (jwksSteps (T := T) cache boot calls now es) c)
      ((jwksRun (T := T) cache boot calls now es).pc c) := by
  induction es using List.reverseRecOn with
  | nil => exact ⟨rfl, rfl⟩
  | append_singleton es e ih =>
    have hsteps : jwksSteps (T := T) cache boot calls now (es ++ [e])
        = jwksSteps cache boot calls now es ++ [(jwksRun cache boot calls now es, e)] :=
      taken_append _ _ es [e]
    have hinstalls : installsBy (history (jwksSteps (T := T) cache boot calls now (es ++ [e]))) c
        = installsBy (history (jwksSteps (T := T) cache boot calls now es)) c
          ++ installsBy (installOf (jwksRun (T := T) cache boot calls now es, e)).toList c := by
      rw [hsteps, history_append, history_cons]
      unfold installsBy
      rw [List.filter_append]
      simp [history]
    rw [hinstalls, jwksRun_concat]
    refine forcedAt_jwksStep hforced ih (fun outcome h => ?_) fun outcome he hpc => ?_
    · obtain ⟨x, hx, hheard⟩ := h
      exact ⟨x, by rw [hsteps]; exact List.mem_append_left _ hx, hheard⟩
    · exact ⟨(jwksRun cache boot calls now es, e), by rw [hsteps]; simp, he, hpc⟩

/-- A forced refresh that has returned made one request, unless there is no URL, and returns what
came of its own response: the failure of it, with nothing installed, or nothing wrong, with its keys
installed once. -/
theorem forced_refresh_exact (cache : JwksCache B) (boot : ℕ) (calls : ℕ → JwksCall B) (now : ℕ)
    (es : List (JwksEvent B)) (c : ℕ) (hforced : calls c = .refresh) (answer : JwksAnswer B T)
    (hret : (jwksRun cache boot calls now es).pc c = .returned answer) :
    ∃ result, answer = .refreshed result
      ∧ ForcedEnd cache c (requestsBy (jwksRun (T := T) cache boot calls now es) c)
        (installsBy (history (jwksSteps (T := T) cache boot calls now es)) c)
        (Hears (jwksSteps (T := T) cache boot calls now es) c) result := by
  have hrun : ForcedAt cache c (requestsBy (jwksRun (T := T) cache boot calls now es) c)
      (installsBy (history (jwksSteps (T := T) cache boot calls now es)) c)
      (Hears (jwksSteps (T := T) cache boot calls now es) c)
      ((jwksRun (T := T) cache boot calls now es).pc c) := forcedAt_run hforced es
  rw [hret] at hrun
  exact hrun

end Steps

/-- Two refreshes are forced at once; the response to the second is lost. -/
def forcedTwice : List (JwksEvent transparentBackend) :=
  [.step 0, .step 1, .respond 1 (.sendFailed "timed out"), .respond 0 (.document rsaSet), .step 0]

theorem forced_refresh_exact_twice : ∃ result,
    (.refreshed (.ok ()) : JwksAnswer transparentBackend StandardClaims) = .refreshed result
      ∧ ForcedEnd (issuerCache 600 10) 0
        (requestsBy (jwksRun (T := StandardClaims) (issuerCache 600 10) 0 (fun _ => .refresh) 0
          forcedTwice) 0)
        (installsBy (history (jwksSteps (T := StandardClaims) (issuerCache 600 10) 0
          (fun _ => .refresh) 0 forcedTwice)) 0)
        (Hears (jwksSteps (T := StandardClaims) (issuerCache 600 10) 0 (fun _ => .refresh) 0
          forcedTwice) 0) result :=
  forced_refresh_exact (issuerCache 600 10) 0 (fun _ => .refresh) 0 forcedTwice 0 rfl _ rfl

end TokenKit
