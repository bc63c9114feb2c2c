import Gittree.Core.Nip34

/-!
# Judging a push

`crates/core/src/git_receive.rs` with `git_refs.rs` and `refs.rs`: whether one ref update, and a
list of them, is allowed by the repository state.  A `none` decision is a Rust panic: the rejection
text of a mismatch cuts both revisions at seven bytes, which may fall inside a character.

* `evaluateRefUpdate_eq_accept`: exactly the updates that are accepted;
* `evaluateUpdates_eq_accept`: a list is accepted when the given state, if any, is valid and every
  update is accepted.
-/

namespace Gittree

open Rust

/-- `RefUpdate`. -/
structure RefUpdate where
  oldRev : String
  newRev : String
  refName : String
  deriving DecidableEq, Repr

/-- `UpdateDecision`. -/
inductive UpdateDecision
  | accept
  | reject (reason : String)
  deriving DecidableEq, Repr

/-- `StateRefMatch`. -/
inductive StateRefMatch
  | hit
  | missing
  | mismatch (expected : String)
  | unsupported
  deriving DecidableEq, Repr

def isBranchRef (name : String) : Bool := Str.startsWith name "refs/heads/"
def isTagRef (name : String) : Bool := Str.startsWith name "refs/tags/"
def isPrBranchRef (name : String) : Bool := Str.startsWith name "refs/heads/pr/"
def isHeadRef (name : String) : Bool := name == "HEAD"

/-- The test at the head of `evaluate_ref_update`. -/
def isNostrNamespace (name : String) : Bool := Str.startsWith name "refs/nostr/"

/-- `parse_nostr_ref`. -/
def parseNostrRef (name : String) : Except CoreError String := do
  let eventId ← Result.okOr (Str.stripPrefix name "refs/nostr/") (.invalidField "nostr_ref" name)
  Result.ensure (Str.isHexLen eventId 64 = true) (.invalidField "nostr_ref" name)
  return eventId

/-- `is_nostr_ref_name`. -/
def isNostrRefName (name : String) : Bool := (Result.toOption (parseNostrRef name)).isSome

/-- `resolve_ref_value`: one symbolic step is followed. -/
def resolveRefValue (value : String) (state : Map String) : Option String :=
  match Str.stripPrefix value "ref: " with
  | some target => state[target]?
  | none => some value

/-- `match_state_ref`. -/
def matchStateRef (refName newRev : String) (state : RepoState) : StateRefMatch :=
  if !isBranchRef refName && !isTagRef refName && !isHeadRef refName then .unsupported
  else
    match state.state[refName]? with
    | none => .missing
    | some expected =>
      match resolveRefValue expected state.state with
      | some value => if value = newRev then .hit else .mismatch value
      | none => .missing

/-- `short_hash`; `none` is a panic. -/
def shortHash (value : String) : Option String := Str.getTo value (min (Str.len value) 7)

/-- `evaluate_ref_update`; `none` is a panic. -/
def evaluateRefUpdate (update : RefUpdate) (state : Option RepoState) : Option UpdateDecision :=
  if isNostrNamespace update.refName then
    if isNostrRefName update.refName then some .accept
    else some (.reject "refs/nostr/<event-id> must use a valid event id")
  else
    match state with
    | none => some (.reject "state event not available; cannot validate non-nostr refs")
    | some state =>
      match state.validate with
      | .error err => some (.reject ("invalid repo state: " ++ err.display))
      | .ok () =>
        if isPrBranchRef update.refName then
          some (.reject "refs/heads/pr/* must be pushed via nostr")
        else
          match matchStateRef update.refName update.newRev state with
          | .hit => some .accept
          | .missing => some (.reject (update.refName ++ " not found in nostr state event"))
          | .mismatch expected => do
            let new ← shortHash update.newRev
            let expected ← shortHash expected
            return .reject ("cannot push " ++ update.refName ++ " to " ++ new ++
              " as nostr state event is at " ++ expected)
          | .unsupported => some (.reject ("unsupported ref " ++ update.refName))

/-- The loop of `evaluate_updates`: the first decision that is not an acceptance ends it. -/
def evaluateEach (state : Option RepoState) : List RefUpdate → Option UpdateDecision
  | [] => some .accept
  | update :: rest =>
    match evaluateRefUpdate update state with
    | some .accept => evaluateEach state rest
    | decision => decision

/-- `evaluate_updates`; `none` is a panic. -/
def evaluateUpdates (updates : List RefUpdate) (state : Option RepoState) :
    Option UpdateDecision :=
  match state with
  | none => evaluateEach none updates
  | some s =>
    match s.validate with
    | .error err => some (.reject ("invalid repo state: " ++ err.display))
    | .ok () => evaluateEach (some s) updates

/-! ### What is accepted -/

/-- A state that is given is valid. -/
def ValidIfGiven (state : Option RepoState) : Prop := ∀ s ∈ state, s.validate = .ok ()

/-- The refs that a state can allow: `HEAD`, tags, and branches outside `refs/heads/pr/`. -/
def Supported (name : String) : Prop :=
  isPrBranchRef name = false ∧ (isBranchRef name = true ∨ isTagRef name = true ∨ name = "HEAD")

/-- The value that a state assigns to a ref. -/
def assignedValue (state : RepoState) (name : String) : Option String :=
  state.state[name]?.bind fun value => resolveRefValue value state.state

theorem isNostrRefName_iff {name : String} :
    isNostrRefName name = true ↔ ∃ id, name = "refs/nostr/" ++ id ∧ Str.isHexLen id 64 = true := by
  unfold isNostrRefName
  rw [Option.isSome_iff_exists]
  simp only [Result.toOption_eq_some, parseNostrRef, Result.bind_eq_ok, Result.okOr_eq_ok,
    Result.ensure_eq_ok, Result.pure_eq_ok, Str.stripPrefix_eq_some, exists_const]
  constructor
  · rintro ⟨-, id, hid, hx, -⟩
    exact ⟨id, hid, hx⟩
  · rintro ⟨id, hid, hx⟩
    exact ⟨id, id, hid, hx, rfl⟩

theorem isNostrNamespace_of_isNostrRefName {name : String} (h : isNostrRefName name = true) :
    isNostrNamespace name = true := by
  obtain ⟨id, hid, -⟩ := isNostrRefName_iff.1 h
  exact Str.startsWith_iff.2 ⟨id, hid⟩

theorem matchStateRef_eq_hit {name newRev : String} {state : RepoState} :
    matchStateRef name newRev state = .hit ↔
      (isBranchRef name = true ∨ isTagRef name = true ∨ name = "HEAD") ∧
        assignedValue state name = some newRev := by
  unfold matchStateRef assignedValue
  by_cases hs : isBranchRef name = true ∨ isTagRef name = true ∨ name = "HEAD"
  · have : (!isBranchRef name && !isTagRef name && !isHeadRef name) = false := by
      rcases hs with h | h | h <;> simp [h, isHeadRef]
    rw [if_neg (by simp [this])]
    simp only [hs, true_and]
    cases state.state[name]? with
    | none => simp
    | some expected =>
      simp only [Option.bind_some]
      cases resolveRefValue expected state.state with
      | none => simp
      | some value =>
        simp only [Option.some.injEq]
        split_ifs with hv <;> simp [hv]
  · have : (!isBranchRef name && !isTagRef name && !isHeadRef name) = true := by
      push Not at hs
      simp [hs, isHeadRef]
    rw [if_pos this]
    simp [hs]

/-- One update outside `refs/nostr/` is accepted when the state is valid, supports the ref and
assigns it the new revision. -/
theorem evaluateRefUpdate_of_not_nostr {update : RefUpdate} {state : Option RepoState}
    (h : isNostrNamespace update.refName = false) :
    evaluateRefUpdate update state = some .accept ↔
      ∃ s, state = some s ∧ s.validate = .ok () ∧ Supported update.refName ∧
        assignedValue s update.refName = some update.newRev := by
  unfold evaluateRefUpdate Supported
  rw [h, if_neg (by simp)]
  cases state with
  | none => simp
  | some s =>
    simp only [Option.some.injEq, exists_eq_left']
    cases hv : s.validate with
    | error err => simp
    | ok u =>
      simp only [true_and]
      cases hp : isPrBranchRef update.refName with
      | true => simp
      | false =>
        rw [if_neg (by simp), eq_self_iff_true, true_and, ← matchStateRef_eq_hit]
        cases hm : matchStateRef update.refName update.newRev s with
        | hit => simp
        | missing => simp
        | unsupported => simp
        | mismatch expected =>
          simp only [reduceCtorEq, iff_false]
          intro hc
          obtain ⟨new, -, hc⟩ := Option.bind_eq_some_iff.1 hc
          obtain ⟨old, -, hc⟩ := Option.bind_eq_some_iff.1 hc
          cases hc

/-- Exactly the updates that are accepted. -/
theorem evaluateRefUpdate_eq_accept {update : RefUpdate} {state : Option RepoState} :
    evaluateRefUpdate update state = some .accept ↔
      isNostrRefName update.refName = true ∨
        isNostrNamespace update.refName = false ∧
          ∃ s, state = some s ∧ s.validate = .ok () ∧ Supported update.refName ∧
            assignedValue s update.refName = some update.newRev := by
  cases hn : isNostrNamespace update.refName with
  | false =>
    have : isNostrRefName update.refName = false := by
      rw [Bool.eq_false_iff]
      intro h
      rw [isNostrNamespace_of_isNostrRefName h] at hn
      cases hn
    rw [evaluateRefUpdate_of_not_nostr hn, this]
    simp
  | true =>
    unfold evaluateRefUpdate
    rw [hn, if_pos rfl]
    split_ifs with h <;> simp [h]

theorem evaluateEach_eq_accept {state : Option RepoState} {updates : List RefUpdate} :
    evaluateEach state updates = some .accept ↔
      ∀ update ∈ updates, evaluateRefUpdate update state = some .accept := by
  induction updates with
  | nil => simp [evaluateEach]
  | cons update rest ih =>
    rw [evaluateEach, List.forall_mem_cons, ← ih]
    split
    · rename_i h
      simp [h]
    · rename_i h
      constructor
      · intro he
        exact absurd he (h ·)
      · rintro ⟨he, -⟩
        exact absurd he (h ·)

/-- A list of updates is accepted when the given state, if any, is valid and every update is
accepted. -/
theorem evaluateUpdates_eq_accept {updates : List RefUpdate} {state : Option RepoState} :
    evaluateUpdates updates state = some .accept ↔
      ValidIfGiven state ∧ ∀ update ∈ updates, evaluateRefUpdate update state = some .accept := by
  unfold evaluateUpdates ValidIfGiven
  cases state with
  | none => simp [evaluateEach_eq_accept]
  | some s =>
    cases hv : s.validate with
    | error err => simp [hv]
    | ok u => simp [hv, evaluateEach_eq_accept]

/-- The value a valid state assigns is a commit, unless it is itself symbolic. -/
theorem isHexLen_of_assignedValue {s : RepoState} (h : s.validate = .ok ()) {name value : String}
    (hv : assignedValue s name = some value) :
    Str.isHexLen value 40 = true ∨ Str.startsWith value "ref: refs/" = true := by
  obtain ⟨entry, he, hr⟩ := Option.bind_eq_some_iff.1 hv
  have hentry := (RepoState.entry_of_validate h he).2
  unfold resolveRefValue at hr
  have hvalue : isStateValue value = true := by
    cases hp : Str.stripPrefix entry "ref: " with
    | none =>
      rw [hp] at hr
      cases hr
      exact hentry
    | some target =>
      rw [hp] at hr
      exact (RepoState.entry_of_validate h hr).2
  simpa [isStateValue] using hvalue

end Gittree
