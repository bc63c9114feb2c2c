import Gittree.Services.GitHook

/-!
# The input of the pre-receive hook

`parse_updates` of `services/git-hook/src/lib.rs` reads the updates from the text that `git` writes to
the hook, one in a line, and `evaluate_pre_receive` judges them.  Nothing is asked of the revisions that
the text names, and the text of a rejection cuts them after seven bytes.

* `parseUpdates_eq_ok`: the texts that name updates, and `parseUpdates_isSome`: none is beyond reading;
* `preReceive_isSome_iff`: the inputs on which the hook returns.
-/

namespace Gittree

open Rust

/-- `RefUpdate` of the hook. -/
structure HookUpdate where
  old : String
  new : String
  reference : String
  deriving DecidableEq, Repr

/-- The error of `HookError` that `parse_updates` can answer. -/
inductive HookError
  | invalidLine (line : String)
  deriving DecidableEq, Repr

/-- The errors of the hook: `HookServiceError::Parse` and those of `evaluate_pre_receive`. -/
inductive HookRunError
  | parse (error : HookError)
  | service (error : HookServiceError)
  deriving DecidableEq, Repr

/-- The loop of `parse_updates`; an outer `none` is a panic, of a line without a first part. -/
def parseLines : List String → Option (Except HookError (List HookUpdate))
  | [] => some (.ok [])
  | line :: rest =>
    if Str.trim line = "" then parseLines rest
    else
      match Str.splitWhitespace (Str.trim line) with
      | [] => none
      | [_] => some (.error (.invalidLine (Str.trim line)))
      | [_, _] => some (.error (.invalidLine (Str.trim line)))
      | old :: new :: reference :: _ =>
        (parseLines rest).map fun updates => updates.map (⟨old, new, reference⟩ :: ·)

/-- `parse_updates`. -/
def parseUpdates (input : String) : Option (Except HookError (List HookUpdate)) :=
  parseLines (Str.lines input)

/-- `core_updates` of `evaluate_pre_receive`. -/
def HookUpdate.toCore (update : HookUpdate) : RefUpdate where
  oldRev := update.old
  newRev := update.new
  refName := update.reference

/-- `parse_updates` and then `evaluate_pre_receive`; `none` is a panic. -/
def preReceive (b : Bech32) (fetcher : StateFetcher) (repoPath input : String) :
    Option (Except HookRunError UpdateDecision) :=
  (parseUpdates input).bind fun parsed =>
    match parsed with
    | .error err => some (.error (.parse err))
    | .ok updates =>
      match evaluatePreReceive b fetcher repoPath (updates.map HookUpdate.toCore) with
      | .error err => some (.error (.service err))
      | .ok decision => decision.map .ok

/-! ### Reading the updates -/

/-- The lines that are read. -/
def hookLines (input : String) : List String :=
  ((Str.lines input).map Str.trim).filter fun line => line ≠ ""

/-- The first three parts of a line are an update. -/
def ReadsUpdate (line : String) (update : HookUpdate) : Prop :=
  ∃ more, Str.splitWhitespace line = update.old :: update.new :: update.reference :: more

theorem parseLines_isSome (lines : List String) : (parseLines lines).isSome := by
  induction lines with
  | nil => rfl
  | cons line rest ih =>
    rw [parseLines]
    split_ifs with hblank
    · exact ih
    · split
      · -- a line that is not blank has a part
        rename_i hparts
        rw [Str.splitWhitespace_eq_nil_iff, Str.trim_trim] at hparts
        exact absurd hparts hblank
      · rfl
      · rfl
      · rw [Option.isSome_map]
        exact ih

/-- The texts that are read, and what is read from them. -/
theorem parseLines_eq_ok {lines : List String} {updates : List HookUpdate} :
    parseLines lines = some (.ok updates) ↔
      List.Forall₂ ReadsUpdate ((lines.map Str.trim).filter fun line => line ≠ "") updates := by
  induction lines generalizing updates with
  | nil =>
    rw [parseLines, List.map_nil, List.filter_nil, List.forall₂_nil_left_iff, Option.some.injEq,
      Except.ok.injEq, eq_comm]
  | cons line rest ih =>
    rw [parseLines, List.map_cons, List.filter_cons]
    split_ifs with hblank hkept hkept
    · simp [hblank] at hkept
    · exact ih
    · rw [List.forall₂_cons_left_iff]
      split
      · rename_i hparts
        simp [ReadsUpdate, hparts]
      · rename_i hparts
        simp [ReadsUpdate, hparts]
      · rename_i hparts
        simp [ReadsUpdate, hparts]
      · rename_i old new reference more hparts
        constructor
        · intro h
          obtain ⟨parsed, hparsed, hmap⟩ := Option.map_eq_some_iff.1 h
          obtain ⟨later, rfl, rfl⟩ := Result.map_eq_ok.1 hmap
          exact ⟨_, later, ⟨more, hparts⟩, ih.1 hparsed, rfl⟩
        · rintro ⟨update, later, ⟨more', hnames⟩, hlater, rfl⟩
          rw [hparts] at hnames
          simp only [List.cons.injEq] at hnames
          obtain ⟨rfl, rfl, rfl, -⟩ := hnames
          rw [ih.2 hlater]
          rfl
    · simp [hblank] at hkept

/-- Every text is read or refused. -/
theorem parseUpdates_isSome (input : String) : (parseUpdates input).isSome :=
  parseLines_isSome (Str.lines input)

theorem parseUpdates_eq_ok {input : String} {updates : List HookUpdate} :
    parseUpdates input = some (.ok updates) ↔ List.Forall₂ ReadsUpdate (hookLines input) updates :=
  parseLines_eq_ok

/-! ### Abbreviated revisions -/

/-- A text of at most seven bytes, or whose first seven bytes are whole characters. -/
def WholeStart (value : String) : Prop :=
  Str.len value ≤ 7 ∨ ∃ first rest, value = first ++ rest ∧ Str.len first = 7

theorem shortHash_isSome_iff {value : String} : (shortHash value).isSome ↔ WholeStart value := by
  unfold shortHash WholeStart
  rw [Option.isSome_iff_exists]
  constructor
  · rintro ⟨first, hfirst⟩
    obtain ⟨hlen, rest, rfl⟩ := Str.getTo_eq_some.1 hfirst
    rcases le_total (Str.len (first ++ rest)) 7 with hle | hge
    · exact .inl hle
    · rw [min_eq_right hge] at hlen
      exact .inr ⟨first, rest, rfl, hlen⟩
  · rintro (hle | ⟨first, rest, rfl, hlen⟩)
    · refine ⟨value, Str.getTo_eq_some.2 ⟨(min_eq_left hle).symm, "", ?_⟩⟩
      rw [String.append_empty]
    · have hge : 7 ≤ Str.len (first ++ rest) := by
        rw [Str.len_append, hlen]
        exact Nat.le_add_right 7 _
      exact ⟨first, Str.getTo_eq_some.2 ⟨by rw [min_eq_right hge, hlen], rest, rfl⟩⟩

/-- A text that starts with seven hexadecimal digits. -/
theorem wholeStart_of_isHexLen {value : String} {n : ℕ} (h : Str.isHexLen value n = true)
    (hn : 7 ≤ n) : WholeStart value := by
  obtain ⟨hlength, hdigits⟩ := Str.isHexLen_iff.1 h
  refine .inr ⟨String.ofList (value.toList.take 7), String.ofList (value.toList.drop 7), ?_, ?_⟩
  · rw [← String.ofList_append, List.take_append_drop, String.ofList_toList]
  · rw [Str.len_eq_length_of_hex]
    · rw [String.toList_ofList, List.length_take, hlength, min_eq_left hn]
    · rw [String.toList_ofList, List.all_eq_true]
      exact fun c hc => hdigits c (List.mem_of_mem_take hc)

/-- What a valid state expects is never cut inside a character. -/
theorem wholeStart_of_assignedValue {s : RepoState} (h : s.validate = .ok ()) {name value : String}
    (hvalue : assignedValue s name = some value) : WholeStart value := by
  rcases isHexLen_of_assignedValue h hvalue with hcommit | hrefs
  · exact wholeStart_of_isHexLen hcommit (by omega)
  · obtain ⟨rest, rfl⟩ := Str.startsWith_iff.1 hrefs
    refine .inr ⟨"ref: re", "fs/" ++ rest, ?_, by decide⟩
    rw [← String.append_assoc]
    rfl

/-! ### Where the hook stops -/

/-- The state names another revision than the update, and this cannot be abbreviated. -/
structure Cut (s : RepoState) (update : RefUpdate) : Prop where
  outside : isNostrNamespace update.refName = false
  supported : Supported update.refName
  differs : ∃ expected, assignedValue s update.refName = some expected ∧ expected ≠ update.newRev
  inside : ¬ WholeStart update.newRev

/-- An event ref, or a ref that the state assigns the revision of the update. -/
def Agrees (s : RepoState) (update : RefUpdate) : Prop :=
  isNostrRefName update.refName = true ∨
    isNostrNamespace update.refName = false ∧ Supported update.refName ∧
      assignedValue s update.refName = some update.newRev

theorem matchStateRef_eq_mismatch {name newRev expected : String} {state : RepoState} :
    matchStateRef name newRev state = .mismatch expected ↔
      (isBranchRef name = true ∨ isTagRef name = true ∨ name = "HEAD") ∧
        assignedValue state name = some expected ∧ expected ≠ newRev := by
  have hsupported : (!isBranchRef name && !isTagRef name && !isHeadRef name) = true ↔
      ¬ (isBranchRef name = true ∨ isTagRef name = true ∨ name = "HEAD") := by
    simp only [Bool.and_eq_true, Bool.not_eq_true', not_or, Bool.not_eq_true, isHeadRef,
      beq_eq_false_iff_ne, and_assoc]
  unfold matchStateRef assignedValue
  by_cases h : isBranchRef name = true ∨ isTagRef name = true ∨ name = "HEAD"
  · rw [if_neg (hsupported.not.2 (not_not.2 h))]
    simp only [h, true_and]
    cases state.state[name]? with
    | none => simp
    | some entry =>
      rw [Option.bind_some]
      simp only
      cases resolveRefValue entry state.state with
      | none => simp
      | some value =>
        simp only [Option.some.injEq]
        split_ifs with hvalue
        · subst hvalue
          simp only [false_iff, not_and, not_not]
          exact Eq.symm
        · simp only [StateRefMatch.mismatch.injEq]
          constructor
          · rintro rfl
            exact ⟨rfl, hvalue⟩
          · exact And.left
  · rw [if_pos (hsupported.2 h)]
    simp [h]

/-- The judgement of an update panics where it cannot abbreviate the revision. -/
theorem evaluateRefUpdate_eq_none {s : RepoState} (h : s.validate = .ok ()) {update : RefUpdate} :
    evaluateRefUpdate update (some s) = none ↔ Cut s update := by
  unfold evaluateRefUpdate
  cases hnostr : isNostrNamespace update.refName with
  | true =>
    rw [if_pos rfl]
    constructor
    · intro hnone
      split_ifs at hnone
    · intro hcut
      rw [hcut.outside] at hnostr
      cases hnostr
  | false =>
    rw [if_neg (by decide)]
    simp only [h]
    cases hpull : isPrBranchRef update.refName with
    | true =>
      rw [if_pos rfl]
      constructor
      · intro hnone
        cases hnone
      · intro hcut
        rw [hcut.supported.1] at hpull
        cases hpull
    | false =>
      rw [if_neg (by decide)]
      have hcut : Cut s update ↔ (∃ expected,
          matchStateRef update.refName update.newRev s = .mismatch expected) ∧
            ¬ WholeStart update.newRev := by
        simp only [matchStateRef_eq_mismatch, exists_and_left]
        constructor
        · rintro ⟨-, hsupported, hdiffers, hinside⟩
          exact ⟨⟨hsupported.2, hdiffers⟩, hinside⟩
        · rintro ⟨⟨hsupported, hdiffers⟩, hinside⟩
          exact ⟨hnostr, ⟨hpull, hsupported⟩, hdiffers, hinside⟩
      rw [hcut]
      cases hmatch : matchStateRef update.refName update.newRev s with
      | hit => simp
      | missing => simp
      | unsupported => simp
      | mismatch expected =>
        have hexpected : WholeStart expected :=
          wholeStart_of_assignedValue h (matchStateRef_eq_mismatch.1 hmatch).2.1
        obtain ⟨old, hold⟩ := Option.isSome_iff_exists.1 (shortHash_isSome_iff.2 hexpected)
        simp only [← shortHash_isSome_iff, hold]
        cases shortHash update.newRev <;> simp

/-- The loop panics at the first update that does not agree with the state. -/
theorem evaluateEach_eq_none {s : RepoState} (h : s.validate = .ok ()) {updates : List RefUpdate} :
    evaluateEach (some s) updates = none ↔
      ∃ before update after, updates = before ++ update :: after ∧
        (∀ earlier ∈ before, Agrees s earlier) ∧ Cut s update := by
  have hagrees : ∀ update, evaluateRefUpdate update (some s) = some .accept ↔ Agrees s update := by
    intro update
    rw [evaluateRefUpdate_eq_accept]
    refine or_congr_right (and_congr_right fun _ => ?_)
    constructor
    · rintro ⟨s', hs', -, hassigned⟩
      cases hs'
      exact hassigned
    · exact fun hassigned => ⟨s, rfl, h, hassigned⟩
  induction updates with
  | nil => simp [evaluateEach]
  | cons update rest ih =>
    rw [evaluateEach]
    split
    · rename_i haccept
      constructor
      · intro hnone
        obtain ⟨before, stopped, after, rfl, hbefore, hcut⟩ := ih.1 hnone
        refine ⟨update :: before, stopped, after, rfl, ?_, hcut⟩
        exact List.forall_mem_cons.2 ⟨(hagrees update).1 haccept, hbefore⟩
      · rintro ⟨before, stopped, after, hsplit, hbefore, hcut⟩
        cases before with
        | nil =>
          obtain ⟨rfl, rfl⟩ := List.cons.inj hsplit
          rw [(evaluateRefUpdate_eq_none h).2 hcut] at haccept
          cases haccept
        | cons first before =>
          obtain ⟨rfl, rfl⟩ := List.cons.inj hsplit
          exact ih.2 ⟨before, stopped, after, rfl, (List.forall_mem_cons.1 hbefore).2, hcut⟩
    · rename_i hrefused
      constructor
      · intro hnone
        exact ⟨[], update, rest, rfl, List.forall_mem_nil _, (evaluateRefUpdate_eq_none h).1 hnone⟩
      · rintro ⟨before, stopped, after, hsplit, hbefore, hcut⟩
        cases before with
        | nil =>
          obtain ⟨rfl, rfl⟩ := List.cons.inj hsplit
          exact (evaluateRefUpdate_eq_none h).2 hcut
        | cons first before =>
          obtain ⟨rfl, rfl⟩ := List.cons.inj hsplit
          exact absurd ((hagrees update).2 (hbefore update List.mem_cons_self)) hrefused

theorem evaluateUpdates_eq_none {state : Option RepoState} {updates : List RefUpdate} :
    evaluateUpdates updates state = none ↔ ∃ s, state = some s ∧ s.validate = .ok () ∧
      ∃ before update after, updates = before ++ update :: after ∧
        (∀ earlier ∈ before, Agrees s earlier) ∧ Cut s update := by
  unfold evaluateUpdates
  cases state with
  | none =>
    have hanswers : evaluateEach none updates ≠ none := by
      induction updates with
      | nil => simp [evaluateEach]
      | cons update rest ih =>
        rw [evaluateEach]
        split
        · exact ih
        · unfold evaluateRefUpdate
          split_ifs <;> simp
    simp [hanswers]
  | some s =>
    simp only [Option.some.injEq, exists_eq_left']
    cases hvalid : s.validate with
    | error err => simp
    | ok u =>
      simp only [true_and]
      exact evaluateEach_eq_none hvalid

/-- The text names updates, the repository has a valid state, and the first update that does not agree
with it is one whose revision cannot be abbreviated. -/
def CutsCharacter (b : Bech32) (fetcher : StateFetcher) (repoPath input : String) : Prop :=
  ∃ updates repo s, List.Forall₂ ReadsUpdate (hookLines input) updates ∧
    parseRepoPath b repoPath = .ok repo ∧ fetcher repo.pubkey repo.identifier = .ok (some s) ∧
      s.validate = .ok () ∧ ∃ before update after,
        updates.map HookUpdate.toCore = before ++ update :: after ∧
          (∀ earlier ∈ before, Agrees s earlier) ∧ Cut s update

/-- The hook panics in the text of a rejection and nowhere else. -/
theorem evaluatePreReceive_eq_none {b : Bech32} {fetcher : StateFetcher} {repoPath : String}
    {updates : List RefUpdate} : evaluatePreReceive b fetcher repoPath updates = .ok none ↔
      ∃ repo s, parseRepoPath b repoPath = .ok repo ∧
        fetcher repo.pubkey repo.identifier = .ok (some s) ∧ s.validate = .ok () ∧
          ∃ before update after, updates = before ++ update :: after ∧
            (∀ earlier ∈ before, Agrees s earlier) ∧ Cut s update := by
  unfold evaluatePreReceive fetchState
  simp only [Result.bind_eq_ok, Result.pure_eq_ok, Result.mapError_eq_ok, evaluateUpdates_eq_none]
  constructor
  · rintro ⟨repo, hrepo, state, hstate, s, rfl, hvalid, hcut⟩
    split_ifs at hstate
    · exact ⟨repo, s, hrepo, hstate, hvalid, hcut⟩
    · cases hstate
  · rintro ⟨repo, s, hrepo, hstate, hvalid, hcut⟩
    refine ⟨repo, hrepo, some s, ?_, s, rfl, hvalid, hcut⟩
    obtain ⟨before, update, after, rfl, -, hcut⟩ := hcut
    -- a cut update lies outside `refs/nostr/`, so that the state is asked for
    rw [if_pos, hstate]
    unfold needsState
    rw [List.any_eq_true]
    exact ⟨update, List.mem_append_right _ List.mem_cons_self, by rw [hcut.outside]; rfl⟩

/-- The inputs on which the hook returns. -/
theorem preReceive_isSome_iff (b : Bech32) (fetcher : StateFetcher) (repoPath input : String) :
    (preReceive b fetcher repoPath input).isSome ↔ ¬ CutsCharacter b fetcher repoPath input := by
  rw [← not_iff_not, not_not, Option.not_isSome_iff_eq_none]
  obtain ⟨parsed, hparsed⟩ := Option.isSome_iff_exists.1 (parseUpdates_isSome input)
  unfold preReceive CutsCharacter
  rw [hparsed, Option.bind_some]
  cases parsed with
  | error err =>
    constructor
    · intro hnone
      cases hnone
    · rintro ⟨updates, -, -, hnames, -⟩
      rw [← parseUpdates_eq_ok, hparsed] at hnames
      cases hnames
  | ok updates =>
    have hpanic : (match evaluatePreReceive b fetcher repoPath (updates.map HookUpdate.toCore) with
        | .error err => some (.error (.service err))
        | .ok decision => decision.map .ok : Option (Except HookRunError UpdateDecision)) = none ↔
        evaluatePreReceive b fetcher repoPath (updates.map HookUpdate.toCore) = .ok none := by
      cases evaluatePreReceive b fetcher repoPath (updates.map HookUpdate.toCore) with
      | error err => simp
      | ok decision => simp
    rw [hpanic, evaluatePreReceive_eq_none]
    constructor
    · rintro ⟨repo, s, hcut⟩
      exact ⟨updates, repo, s, parseUpdates_eq_ok.1 hparsed, hcut⟩
    · rintro ⟨named, repo, s, hnames, hcut⟩
      rw [← parseUpdates_eq_ok, hparsed] at hnames
      cases hnames
      exact ⟨repo, s, hcut⟩

/-- A revision of eight bytes whose seventh is inside a character. -/
theorem preReceive_wide_revision :
    preReceive sampleBech32 (fixedAnswer (some sampleState)) sampleRepoPath
      "old éééé refs/heads/main" = none := by
  decide +kernel

end Gittree
