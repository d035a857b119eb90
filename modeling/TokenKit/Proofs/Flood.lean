import TokenKit.Proofs.Lookups

/-!
# The least interval between fetches

The interval is counted from the last installation, so it keeps the automatic path from fetching
again after a fetch that succeeded. After one that failed nothing does: the next look-up fetches at
once (`failing_endpoint_flooded`). The fetches of a run are an interval apart exactly when its
look-ups leave that time after a failed fetch of their own accord (`fetches_apart_iff`).
-/

namespace TokenKit

open StepMachine JwksWorld

section

variable {B : Backend} {T : Type}

/-- No document was installed since the last fetch started. -/
def LastFetchFailed (w : JwksWorld B T) (startedAt : ℕ) : Prop :=
  (∃ c, w.fetches.getLast? = some (c, startedAt)) ∧ ∀ t ∈ w.state.fetchedAt, t < startedAt

/-- A look-up that holds the refresh lock and finds no recent document comes an interval after the
start of the last fetch, if that failed. -/
def BacksOff (interval : ℕ) (w : JwksWorld B T) (e : JwksEvent B) : Prop :=
  ∀ c, e = .step c → w.pc c = .checking → isFresh w.now w.state.fetchedAt interval = false →
    ∀ startedAt, LastFetchFailed w startedAt → startedAt + interval ≤ w.now

def FetchesApart (interval : ℕ) (w : JwksWorld B T) : Prop :=
  w.fetches.Pairwise fun a b => a.2 + interval ≤ b.2

theorem fetchesApart_concat {interval : ℕ} {w w' : JwksWorld B T} {c : ℕ}
    (happend : w'.fetches = w.fetches ++ [(c, w.now)]) (h : FetchesApart interval w) :
    FetchesApart interval w' ↔ ∀ f ∈ w.fetches.getLast?, f.2 + interval ≤ w.now := by
  unfold FetchesApart at h ⊢
  rw [happend, List.pairwise_append]
  constructor
  · rintro ⟨-, -, hall⟩ f hf
    exact hall f (List.mem_of_getLast? hf) _ (List.mem_singleton_self _)
  · intro hlast
    refine ⟨h, List.pairwise_singleton _ _, fun f hf b hb => ?_⟩
    obtain rfl := List.mem_singleton.1 hb
    rcases List.eq_nil_or_concat w.fetches with hnil | ⟨fs, g, hfs⟩
    · rw [hnil] at hf
      cases hf
    · have hg : g.2 + interval ≤ w.now := hlast g (by rw [hfs]; simp)
      rw [hfs, List.concat_eq_append] at hf h
      rcases List.mem_append.1 hf with hf | hf
      · have := (List.pairwise_append.1 h).2.2 f hf g (List.mem_singleton_self _)
        omega
      · rwa [List.mem_singleton.1 hf]

end

variable {B : Backend} {T : Type} [DeserializeOwned T] {cache : JwksCache B} {boot : ℕ}
  {calls : ℕ → JwksCall B} {w w' : JwksWorld B T} {e : JwksEvent B}

theorem Move.fetches_of_checking {c : ℕ} (hmove : Move cache boot calls w (.step c) w')
    (hpc : w.pc c = .checking)
    (hstale : isFresh w.now w.state.fetchedAt cache.minRefreshInterval = false)
    (hurl : cache.url.isEmpty = false) : w'.fetches = w.fetches ++ [(c, w.now)] := by
  cases hmove with
  | idle c h =>
    rcases h with ⟨h, -⟩ | h | ⟨h, -⟩ | ⟨answer, h⟩ <;> cases hpc.symm.trans h
  | request c hurl h => rfl
  | noUrl c err hurl' h => cases hurl.symm.trans hurl'
  | skip c hpc' hfresh => cases hstale.symm.trans hfresh
  | hit c look want cached hcall hpc' | refused c look err hcall hpc' | wait c look hcall hpc'
  | acquire c hpc' | install c keys hpc' | again c look hcall hpc' => cases hpc.symm.trans hpc'

theorem fetchesApart_move (hlookups : ∀ c, ∃ look, calls c = .lookup look)
    (hinterval : 0 < cache.minRefreshInterval)
    (hnone : cache.url.isEmpty = true → w.fetches = [])
    (h : FetchesApart cache.minRefreshInterval w) (hmove : Move cache boot calls w e w') :
    FetchesApart cache.minRefreshInterval w' ↔ BacksOff cache.minRefreshInterval w e := by
  rcases hmove.fetches with hsame | ⟨c, rfl, -, hmay, happend, -⟩
  · have hback : BacksOff cache.minRefreshInterval w e := by
      rintro c rfl hpc hstale startedAt ⟨⟨c', hlast⟩, -⟩
      rcases hurl : cache.url.isEmpty
      · have happend := hmove.fetches_of_checking hpc hstale hurl
        rw [hsame] at happend
        simp at happend
      · rw [hnone hurl] at hlast
        cases hlast
    unfold FetchesApart at h ⊢
    rw [hsame]
    exact iff_of_true h hback
  · obtain ⟨hpc, hstale⟩ := hmay.checking hlookups
    rw [fetchesApart_concat happend h]
    constructor
    · rintro hlast c' - - - startedAt ⟨⟨c'', hget⟩, -⟩
      exact hlast _ hget
    · intro hback f hf
      by_cases hfailed : ∀ t ∈ w.state.fetchedAt, t < f.2
      · exact hback c rfl hpc hstale f.2 ⟨⟨f.1, hf⟩, hfailed⟩
      · -- A fetch that succeeded installed no earlier than it started.
        simp only [not_forall, not_lt] at hfailed
        obtain ⟨t, ht, hle⟩ := hfailed
        have hage := le_of_stale hstale ht
        omega

theorem Move.fetches_of_no_url (hmove : Move cache boot calls w e w')
    (h : cache.url.isEmpty = true → w.fetches = []) :
    cache.url.isEmpty = true → w'.fetches = [] := by
  intro hempty
  rcases hmove.fetches with hsame | ⟨c, -, hurl, -⟩
  · rw [hsame]
    exact h hempty
  · cases hurl.symm.trans hempty

/-- When calls only look up, any two fetches start an interval apart exactly when every look-up that
comes to fetch after a failed fetch comes an interval after its start. -/
theorem fetches_apart_iff (url : String) (ttl interval boot : ℕ) (hinterval : 0 < interval)
    (calls : ℕ → JwksCall B) (hlookups : ∀ c, ∃ look, calls c = .lookup look) (now : ℕ)
    (es : List (JwksEvent B)) :
    (∀ w ∈ visited (jwksStep (urlCache url ttl interval) boot calls)
        (freshCache (urlCache url ttl interval) now : JwksWorld B T) es, FetchesApart interval w)
      ↔ ∀ x ∈ jwksSteps (T := T) (urlCache url ttl interval) boot calls now es,
          BacksOff interval x.1 x.2 :=
  forall_visited_iff _
    (I := fun w : JwksWorld B T =>
      (urlCache (B := B) url ttl interval).url.isEmpty = true → w.fetches = [])
    (fun w e hnone _ => (move_jwksStep w e).fetches_of_no_url hnone)
    (fun w e hnone h => fetchesApart_move hlookups hinterval hnone h (move_jwksStep w e))
    es (fun _ => rfl) List.Pairwise.nil

/-- An endpoint that answers an error, and a second look-up that comes ten seconds after. -/
def backedOff : List (JwksEvent transparentBackend) :=
  [.step 0, .step 0, .step 0, .respond 0 (.errorStatus "503 Service Unavailable"),
    .tick DEFAULT_MIN_REFRESH_INTERVAL, .step 1, .step 1, .step 1]

theorem fetches_apart_iff_backedOff :
    (∀ w ∈ visited (jwksStep (issuerCache DEFAULT_TTL DEFAULT_MIN_REFRESH_INTERVAL) 0 kidLookup)
        (freshCache (issuerCache DEFAULT_TTL DEFAULT_MIN_REFRESH_INTERVAL) 0 :
          JwksWorld transparentBackend StandardClaims) backedOff,
        FetchesApart DEFAULT_MIN_REFRESH_INTERVAL w)
      ↔ ∀ x ∈ jwksSteps (T := StandardClaims)
          (issuerCache DEFAULT_TTL DEFAULT_MIN_REFRESH_INTERVAL) 0 kidLookup 0 backedOff,
          BacksOff DEFAULT_MIN_REFRESH_INTERVAL x.1 x.2 :=
  fetches_apart_iff _ DEFAULT_TTL DEFAULT_MIN_REFRESH_INTERVAL 0 (by decide) kidLookup
    (fun _ => ⟨_, rfl⟩) 0 backedOff

/-- Two look-ups, and an endpoint that cannot be reached: the second fetches as soon as the first
has failed. -/
def unreachable : List (JwksEvent transparentBackend) :=
  [.step 0, .step 0, .step 0, .step 1, .respond 0 (.sendFailed "connection refused"), .step 1,
    .step 1]

theorem failing_endpoint_flooded :
    (∀ c, ∃ look, kidLookup c = .lookup look)
      ∧ (jwksRun (T := StandardClaims) (issuerCache DEFAULT_TTL DEFAULT_MIN_REFRESH_INTERVAL) 0
          kidLookup 0 unreachable).fetches = [(0, 0), (1, 0)]
      ∧ ¬ ∀ w ∈ visited (jwksStep (issuerCache DEFAULT_TTL DEFAULT_MIN_REFRESH_INTERVAL) 0
          kidLookup) (freshCache (issuerCache DEFAULT_TTL DEFAULT_MIN_REFRESH_INTERVAL) 0 :
            JwksWorld transparentBackend StandardClaims) unreachable,
        FetchesApart DEFAULT_MIN_REFRESH_INTERVAL w := by
  have hfetches : (jwksRun (T := StandardClaims)
      (issuerCache DEFAULT_TTL DEFAULT_MIN_REFRESH_INTERVAL) 0 kidLookup 0 unreachable).fetches
        = [(0, 0), (1, 0)] := rfl
  refine ⟨fun c => ⟨_, rfl⟩, hfetches, fun h => ?_⟩
  have hapart := h _ (run_mem_visited _ _ _)
  unfold FetchesApart at hapart
  rw [← jwksRun, hfetches] at hapart
  simp [DEFAULT_MIN_REFRESH_INTERVAL] at hapart

end TokenKit
