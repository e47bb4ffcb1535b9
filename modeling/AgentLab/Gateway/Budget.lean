import Mathlib.Order.Bounds.Basic
import AgentLab.Gateway.Chat
import AgentLab.Gateway.Prepared

/-!
# The context budget

`limit` against its purpose: of all values of `max_tokens` that the profile and the client allow and
that fit into the context behind the prompt, the backend gets the largest. The profile's rules
between fields and the check of the client's value make it positive.
-/

namespace AgentLab.Gateway

open Python Config

variable {rt : Runtime} {p : ℤ} {requested : Option ℤ} {limits : Limits}

/-- The answers that fit: within the profile's limit, the context and the client's wish. -/
def fits (p : ℤ) (requested : Option ℤ) (maxOutputTokens maxContext : ℤ) : Set ℤ :=
  {m | m ≤ maxOutputTokens ∧ p + m ≤ maxContext ∧ ∀ n, requested = some n → m ≤ n}

theorem limit_error_iff {e : ApiError} :
    limit p requested limits = .error e ↔
      limits.maxContext - limits.minOutputTokens < p ∧ e = contextLengthExceeded p limits := by
  unfold limit
  dsimp only
  split_ifs with h
  · simp [h, eq_comm]
  · cases requested <;> simp [h]

/-- `limit` returns the largest value that fits. -/
theorem limit_isGreatest {m : ℤ} (h : limit p requested limits = .ok m) :
    IsGreatest (fits p requested limits.maxOutputTokens limits.maxContext) m := by
  unfold limit at h
  dsimp only at h
  split_ifs at h
  cases requested with
  | none =>
    rw [← Except.ok.inj h]
    refine ⟨⟨min_le_left _ _, ?_, nofun⟩, fun k ⟨hmax, hfit, _⟩ => le_min hmax (by omega)⟩
    have := min_le_right limits.maxOutputTokens (limits.maxContext - p)
    omega
  | some n =>
    rw [← Except.ok.inj h]
    refine ⟨⟨?_, ?_, ?_⟩, fun k ⟨hmax, hfit, hn⟩ => le_min (hn n rfl) (le_min hmax (by omega))⟩
    · exact (min_le_right _ _).trans (min_le_left _ _)
    · have := (min_le_right n _).trans (min_le_right limits.maxOutputTokens (limits.maxContext - p))
      omega
    · rintro _ ⟨⟩
      exact min_le_left _ _

/-- The client's own limit: the first of the two fields that it set. -/
def clientMaxTokens (body : Dict Json) : Option ℤ :=
  match (given body (str "max_completion_tokens")).or (given body (str "max_tokens")) with
  | some (.int n) => some n
  | _ => none

theorem readRequested_ok {body : Dict Json} {names : List Str}
    (h : readRequested body names = .ok requested) :
    names.findSome? (given body) = requested.map .int ∧ ∀ n, requested = some n → 1 ≤ n := by
  induction names with
  | nil => cases h; exact ⟨rfl, nofun⟩
  | cons name names ih =>
    unfold readRequested at h
    rw [List.findSome?_cons]
    unfold given
    split at h
    · next hnull => rw [hnull]; exact ih h
    · next n hn =>
      split_ifs at h with hpos
      · cases h
      · cases h
        rw [hn]
        refine ⟨rfl, ?_⟩
        rintro _ ⟨⟩
        omega
    · cases h

theorem PreparedFrom.requested_eq {rules : Rules} {body : Dict Json} {prepared : Prepared}
    (h : PreparedFrom rt rules body prepared) :
    prepared.requestedMaxTokens = clientMaxTokens body ∧
      ∀ n, clientMaxTokens body = some n → 1 ≤ n := by
  obtain ⟨hfind, hpos⟩ := readRequested_ok h.requested
  have hor : (given body (str "max_completion_tokens")).or (given body (str "max_tokens")) =
      prepared.requestedMaxTokens.map .int := by
    rw [← hfind]
    cases hg : given body (str "max_completion_tokens") <;>
      cases hg' : given body (str "max_tokens") <;> simp [hg, hg']
  have heq : clientMaxTokens body = prepared.requestedMaxTokens := by
    unfold clientMaxTokens
    rw [hor]
    cases prepared.requestedMaxTokens <;> rfl
  exact ⟨heq.symm, fun n hn => hpos n (heq ▸ hn)⟩

/-- **The context budget.** With the rules of an accepted profile and an accepted body, a prompt is
refused with `context_length_exceeded` exactly when it leaves less than `min_output_tokens` of the
context, and otherwise `max_tokens` in the forwarded body is the largest value that fits. -/
theorem limit_budget {py : Texts} {name path : String} {data : List (String × Toml)}
    {profile : Profile} {template : Str} {value : Json} {prepared : Prepared}
    (hprofile : parseProfile py name path data = .ok profile)
    (hprepare : prepare rt value (rulesFor rt profile template) = .ok prepared) (tokens : ℕ) :
    ∃ body, value = .obj body ∧
    let limited := limit tokens prepared.requestedMaxTokens (rulesFor rt profile template).limits
    ((∃ e, limited = .error e ∧ e.code = some (str "context_length_exceeded")) ↔
      profile.gateway.maxContext - profile.gateway.minOutputTokens < tokens) ∧
    ((tokens : ℤ) ≤ profile.gateway.maxContext - profile.gateway.minOutputTokens →
      ∃ m, limited = .ok m ∧
        getD (forwarded prepared m) (str "max_tokens") = .int m ∧
        IsGreatest (fits tokens (clientMaxTokens body) profile.gateway.maxOutputTokens
          profile.gateway.maxContext) m ∧
        1 ≤ m ∧
        ((∀ n, clientMaxTokens body = some n → profile.gateway.minOutputTokens ≤ n) →
          profile.gateway.minOutputTokens ≤ m)) := by
  obtain ⟨hvalid, hrules⟩ := parseProfile_ok hprofile
  obtain ⟨body, rfl, hfrom⟩ := prepare_ok hprepare
  obtain ⟨hrequested, hpos⟩ := hfrom.requested_eq
  refine ⟨body, rfl, ?_, fun hle => ?_⟩
  · constructor
    · rintro ⟨e, he, -⟩
      exact (limit_error_iff.1 he).1
    · intro hlt
      exact ⟨_, limit_error_iff.2 ⟨hlt, rfl⟩, rfl⟩
  · have hok : ∃ m, limit tokens prepared.requestedMaxTokens (rulesFor rt profile template).limits =
        .ok m := by
      cases hl : limit tokens prepared.requestedMaxTokens (rulesFor rt profile template).limits with
      | ok m => exact ⟨m, rfl⟩
      | error e => exact absurd (limit_error_iff.1 hl).1 (not_lt.2 hle)
    obtain ⟨m, hm⟩ := hok
    have hgreatest := limit_isGreatest hm
    have hone := hvalid.minOutputTokens
    have hmin := hrules.minOutput
    -- whatever the client asked for, one token and the guaranteed minimum up to its wish fit
    have hfit : ∀ k, k ≤ profile.gateway.minOutputTokens →
        (∀ n, clientMaxTokens body = some n → k ≤ n) → k ≤ m := by
      intro k hk hkn
      refine hgreatest.2 ⟨hk.trans hmin, ?_, by rw [hrequested]; exact hkn⟩
      show (tokens : ℤ) + k ≤ profile.gateway.maxContext
      omega
    refine ⟨m, hm, ?_, hrequested ▸ hgreatest, hfit 1 hone hpos, hfit _ le_rfl⟩
    unfold getD forwarded
    rw [Dict.get?_set_self]
    rfl

/-- A prompt of 7936 tokens is the longest that fits the 8192 of `ci-tiny`. -/
theorem limit_budget_ciTiny : ∃ prepared,
    prepare .plain effortRequest (rulesFor .plain ciTinyProfile effortTemplate) = .ok prepared ∧
    ∃ m, limit (7936 : ℕ) prepared.requestedMaxTokens
        (rulesFor .plain ciTinyProfile effortTemplate).limits = .ok m ∧
      getD (forwarded prepared m) (str "max_tokens") = .int m ∧ 1 ≤ m := by
  obtain ⟨prepared, hprepare⟩ := prepare_effortRequest
  obtain ⟨_, -, -, h⟩ := limit_budget parseProfile_ciTiny hprepare 7936
  obtain ⟨m, hm, hforward, -, hone, -⟩ := h (by decide)
  exact ⟨prepared, hprepare, m, hm, hforward, hone⟩

end AgentLab.Gateway
