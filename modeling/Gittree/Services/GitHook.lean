import Gittree.Core.GitReceive
import Gittree.Core.RepoPath

/-!
# The pre-receive hook

`services/git-hook/src/lib.rs`, `evaluate_pre_receive`: the repository is read from its path, the
state is fetched only when some ref lies outside `refs/nostr/`, and the updates are judged by
`evaluateUpdates`.  The state service is a function that answers for a key and an identifier.

* `evaluatePreReceive_eq_accept`: what the hook accepts, for a fetcher with a fixed answer;
* `push_decision_exact`: how the three levels of the decision relate.
-/

namespace Gittree

open Rust

/-- The errors of `HookServiceError` that `evaluate_pre_receive` can answer. -/
inductive HookServiceError
  | core (message : String)
  | state (message : String)
  deriving DecidableEq, Repr

/-- `StateFetcher::latest_state`. -/
abbrev StateFetcher := String → String → Except HookServiceError (Option RepoState)

/-- `needs_state` of `evaluate_pre_receive`. -/
def needsState (updates : List RefUpdate) : Bool :=
  updates.any fun update => !isNostrNamespace update.refName

/-- The state that `evaluate_pre_receive` judges by. -/
def fetchState (fetcher : StateFetcher) (repo : RepoPath) (updates : List RefUpdate) :
    Except HookServiceError (Option RepoState) :=
  if needsState updates then fetcher repo.pubkey repo.identifier else .ok none

/-- `evaluate_pre_receive`; an inner `none` is a panic. -/
def evaluatePreReceive (b : Bech32) (fetcher : StateFetcher) (repoPath : String)
    (updates : List RefUpdate) : Except HookServiceError (Option UpdateDecision) := do
  let repo ← (parseRepoPath b repoPath).mapError fun err => .core err.display
  let state ← fetchState fetcher repo updates
  return evaluateUpdates updates state

/-- The fetcher that answers `state` for every repository. -/
def fixedAnswer (state : Option RepoState) : StateFetcher := fun _ _ => .ok state

theorem needsState_eq_false {updates : List RefUpdate} :
    needsState updates = false ↔ ∀ update ∈ updates, isNostrNamespace update.refName = true := by
  simp [needsState]

/-- Under `refs/nostr/` the state is not looked at. -/
theorem evaluateRefUpdate_nostr {update : RefUpdate} (state state' : Option RepoState)
    (h : isNostrNamespace update.refName = true) :
    evaluateRefUpdate update state = evaluateRefUpdate update state' := by
  unfold evaluateRefUpdate
  rw [h, if_pos rfl, if_pos rfl]

theorem validIfGiven_of_accepted {update : RefUpdate} {state : Option RepoState}
    (hn : isNostrNamespace update.refName = false)
    (h : evaluateRefUpdate update state = some .accept) : ValidIfGiven state := by
  obtain ⟨s, rfl, hs, -⟩ := (evaluateRefUpdate_of_not_nostr hn).1 h
  intro s' hs'
  cases hs'
  exact hs

/-- With a fixed answer the hook accepts exactly the lists of accepted updates: where the state is
not fetched it does not matter, and elsewhere it is validated before the first update. -/
theorem evaluatePreReceive_eq_accept {b : Bech32} {path : String} {repo : RepoPath}
    (hp : parseRepoPath b path = .ok repo) (updates : List RefUpdate) (state : Option RepoState) :
    evaluatePreReceive b (fixedAnswer state) path updates = .ok (some .accept) ↔
      ∀ update ∈ updates, evaluateRefUpdate update state = some .accept := by
  unfold evaluatePreReceive fetchState
  simp only [Result.bind_eq_ok, Result.pure_eq_ok, Result.mapError_eq_ok, hp, Except.ok.injEq,
    exists_eq_left']
  cases hn : needsState updates with
  | false =>
    simp only [Bool.false_eq_true, if_false, Except.ok.injEq, exists_eq_left',
      evaluateUpdates_eq_accept, ValidIfGiven, Option.mem_def, reduceCtorEq, false_implies,
      implies_true, true_and]
    refine forall₂_congr fun update hu => ?_
    rw [evaluateRefUpdate_nostr none state (needsState_eq_false.1 hn update hu)]
  | true =>
    simp only [if_true, fixedAnswer, Except.ok.injEq, exists_eq_left', evaluateUpdates_eq_accept,
      and_iff_right_iff_imp]
    intro h
    obtain ⟨update, hu, hx⟩ := List.any_eq_true.1 hn
    exact validIfGiven_of_accepted (by simpa using hx) (h update hu)

/-- The three levels of the decision.  `evaluateUpdates` asks for every update and, whatever the
updates are, for a valid state when one is given; an accepted update lies in `refs/nostr/` or
agrees with a valid state, where a value that is not symbolic is a commit; and the hook differs from
`evaluateUpdates` only where it does not fetch the state it would have found invalid. -/
theorem push_decision_exact :
    (∀ (updates : List RefUpdate) (state : Option RepoState),
      evaluateUpdates updates state = some .accept ↔
        ValidIfGiven state ∧
          ∀ update ∈ updates, evaluateRefUpdate update state = some .accept) ∧
    (∀ (updates : List RefUpdate) (state : Option RepoState),
      evaluateUpdates updates state = some .accept → ∀ update ∈ updates,
        (∃ id, update.refName = "refs/nostr/" ++ id ∧ Str.isHexLen id 64 = true) ∨
        ∃ s, state = some s ∧ s.validate = .ok () ∧ Supported update.refName ∧
          assignedValue s update.refName = some update.newRev ∧
          (Str.startsWith update.newRev "ref: refs/" = false →
            Str.isHexLen update.newRev 40 = true)) ∧
    (∀ (b : Bech32) (path : String) (repo : RepoPath), parseRepoPath b path = .ok repo →
      ∀ (updates : List RefUpdate) (state : Option RepoState),
        (evaluatePreReceive b (fixedAnswer state) path updates = .ok (some .accept) ↔
          ∀ update ∈ updates, evaluateRefUpdate update state = some .accept) ∧
        (ValidIfGiven state ∨
            (∃ update ∈ updates, isNostrNamespace update.refName = false) →
          (evaluatePreReceive b (fixedAnswer state) path updates = .ok (some .accept) ↔
            evaluateUpdates updates state = some .accept))) := by
  refine ⟨fun _ _ => evaluateUpdates_eq_accept, ?_, ?_⟩
  · intro updates state h update hu
    have ha := (evaluateUpdates_eq_accept.1 h).2 update hu
    rcases evaluateRefUpdate_eq_accept.1 ha with hn | ⟨-, s, hs, hv, hsup, hval⟩
    · exact Or.inl (isNostrRefName_iff.1 hn)
    · refine Or.inr ⟨s, hs, hv, hsup, hval, fun hplain => ?_⟩
      exact (isHexLen_of_assignedValue hv hval).resolve_right
        (by rw [hplain]; exact Bool.false_ne_true)
  · intro b path repo hp updates state
    have hacc := evaluatePreReceive_eq_accept hp updates state
    refine ⟨hacc, fun hgate => ?_⟩
    rw [hacc, evaluateUpdates_eq_accept, iff_and_self]
    intro hall
    rcases hgate with hv | ⟨update, hu, hn⟩
    · exact hv
    · exact validIfGiven_of_accepted hn (hall update hu)

/-! ### A push on a sample repository -/

/-- The path of a repository of `sampleKey`. -/
def sampleRepoPath : String := "/srv/" ++ sampleNpub ++ "/repo.git"

/-- The commit used by the tests of `git_receive.rs`. -/
def sampleCommit : String := "0123456789abcdef0123456789abcdef01234567"

/-- A state with a branch and a symbolic `HEAD`. -/
def sampleState : RepoState where
  identifier := "repo"
  state := ((∅ : Map String).insert "refs/heads/main" sampleCommit).insert "HEAD"
    "ref: refs/heads/main"

/-- The same state without its `HEAD`, which `validate` refuses. -/
def headlessState : RepoState where
  identifier := "repo"
  state := (∅ : Map String).insert "refs/heads/main" sampleCommit

/-- A push of an event ref. -/
def nostrUpdate : RefUpdate where
  oldRev := "0000000000000000000000000000000000000000"
  newRev := sampleCommit
  refName := "refs/nostr/" ++ Hex.encode sampleKey

/-- A push of the branch of `sampleState`. -/
def mainUpdate : RefUpdate where
  oldRev := "0000000000000000000000000000000000000000"
  newRev := sampleCommit
  refName := "refs/heads/main"

theorem push_decision_exact_sample :
    parseRepoPath sampleBech32 sampleRepoPath = .ok ⟨sampleNpub, "repo", Hex.encode sampleKey⟩ ∧
      evaluateUpdates [nostrUpdate, mainUpdate] (some sampleState) = some .accept ∧
      evaluatePreReceive sampleBech32 (fixedAnswer (some sampleState)) sampleRepoPath
        [nostrUpdate, mainUpdate] = .ok (some .accept) := by
  have hp : parseRepoPath sampleBech32 sampleRepoPath =
      .ok ⟨sampleNpub, "repo", Hex.encode sampleKey⟩ := by decide +kernel
  have ha : evaluateUpdates [nostrUpdate, mainUpdate] (some sampleState) = some .accept := by
    decide +kernel
  have hook := push_decision_exact.2.2 sampleBech32 sampleRepoPath _ hp
    [nostrUpdate, mainUpdate] (some sampleState)
  refine ⟨hp, ha, (hook.2 (Or.inr ⟨mainUpdate, ?_, ?_⟩)).2 ha⟩
  · simp
  · decide +kernel

/-- An invalid state makes `evaluateUpdates` refuse a push that `evaluateRefUpdate` and the hook
accept. -/
theorem headless_push_refused :
    (∀ update ∈ [nostrUpdate], evaluateRefUpdate update (some headlessState) = some .accept) ∧
      evaluateUpdates [nostrUpdate] (some headlessState) =
        some (.reject "invalid repo state: missing required field: HEAD") ∧
      evaluatePreReceive sampleBech32 (fixedAnswer (some headlessState)) sampleRepoPath
        [nostrUpdate] = .ok (some .accept) := by
  decide +kernel

end Gittree
