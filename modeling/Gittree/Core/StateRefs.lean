import Gittree.Core.GitReceive
import Mathlib.Logic.Relation

/-!
# Resolving the refs of a state

`RepoState::head_commit` of `crates/core/src/nip34.rs` and `match_state_ref` of
`crates/core/src/git_refs.rs` follow one symbolic step.  `RepoState::validate` asks of a symbolic value
no more than that it names something under `refs/`, and follows only that of `HEAD`.

* `alwaysResolves_iff`: the valid states whose refs all resolve.
-/

namespace Gittree

open Rust

/-! ### Names and values of a valid state -/

/-- The names of a state are not in the namespace of events. -/
theorem isNostrNamespace_of_isStateRef {name : String} (h : isStateRef name = true) :
    isNostrNamespace name = false := by
  rw [Bool.eq_false_iff]
  intro hnostr
  obtain ⟨rest, rfl⟩ := Str.startsWith_iff.1 hnostr
  unfold isStateRef at h
  simp only [Bool.and_eq_true, Bool.or_eq_true, beq_iff_eq] at h
  rcases h.1 with (hhead | hheads) | htags
  · have hchars := congrArg String.toList hhead
    simp at hchars
  · obtain ⟨more, heq⟩ := Str.startsWith_iff.1 hheads
    have hchars := congrArg String.toList heq
    simp at hchars
  · obtain ⟨more, heq⟩ := Str.startsWith_iff.1 htags
    have hchars := congrArg String.toList heq
    simp at hchars

/-- A push to a ref outside that namespace is accepted if the valid state assigns it the revision. -/
theorem accept_iff_of_validate {s : RepoState} (h : s.validate = .ok ()) {name : String}
    (hnostr : isNostrNamespace name = false) (oldRev newRev : String) :
    evaluateRefUpdate ⟨oldRev, newRev, name⟩ (some s) = some .accept ↔
      Supported name ∧ assignedValue s name = some newRev := by
  rw [@evaluateRefUpdate_of_not_nostr ⟨oldRev, newRev, name⟩ (some s) hnostr]
  constructor
  · rintro ⟨s', hs', -, hsupported, hassigned⟩
    cases hs'
    exact ⟨hsupported, hassigned⟩
  · rintro ⟨hsupported, hassigned⟩
    exact ⟨s, rfl, h, hsupported, hassigned⟩

/-- A commit starts with none of the other texts. -/
theorem startsWith_of_isHexLen {value p : String} {n : ℕ} (h : Str.isHexLen value n = true)
    (hp : p.toList.all Str.isAsciiHexdigit = false) : Str.startsWith value p = false := by
  rw [Bool.eq_false_iff]
  intro hstarts
  obtain ⟨rest, rfl⟩ := Str.startsWith_iff.1 hstarts
  have hall : p.toList.all Str.isAsciiHexdigit = true := by
    rw [List.all_eq_true]
    intro c hc
    refine (Str.isHexLen_iff.1 h).2 c ?_
    rw [String.toList_append]
    exact List.mem_append_left _ hc
  rw [hp] at hall
  cases hall

namespace RepoState

/-- The names of a state that is not empty include `HEAD`. -/
theorem head_of_validate {s : RepoState} (h : s.validate = .ok ()) (hne : s.state ≠ ∅) :
    ∃ value, s.state["HEAD"]? = some value := by
  unfold validate at h
  simp only [Result.bind_eq_ok, Result.ensure_eq_ok] at h
  obtain ⟨-, -, -, -, -, hhead, -⟩ := h
  refine Map.mem_iff.1 (hhead.resolve_left fun hempty => hne ?_)
  exact Std.ExtTreeMap.isEmpty_iff.1 hempty

/-- The names of a valid state are outside the namespace of events. -/
theorem isNostrNamespace_of_mem {s : RepoState} (h : s.validate = .ok ()) {name : String}
    (hname : name ∈ s.state) : isNostrNamespace name = false := by
  obtain ⟨value, hvalue⟩ := Map.mem_iff.1 hname
  exact isNostrNamespace_of_isStateRef (entry_of_validate h hvalue).1

/-! ### Chains -/

/-- `head_commit`. -/
def headCommit (s : RepoState) : Option String :=
  match s.state["HEAD"]? with
  | none => none
  | some head =>
    match parseHeadRef head with
    | some target => s.state[target]?
    | none => if Str.isHexLen head 40 then some head else none

/-- The value of a ref is symbolic and names another. -/
def Leads (s : RepoState) (name target : String) : Prop :=
  s.state[name]? = some ("ref: " ++ target)

/-- The symbolic values from a ref on lead to a commit. -/
def Resolves (s : RepoState) (name commit : String) : Prop :=
  Str.isHexLen commit 40 = true ∧
    ∃ last, Relation.ReflTransGen s.Leads name last ∧ s.state[last]? = some commit

/-- Every ref resolves, `HEAD` does so in `head_commit`, and outside `refs/heads/pr/` exactly a push of
the commit is accepted. -/
structure AlwaysResolves (s : RepoState) : Prop where
  refs : ∀ name ∈ s.state, ∃ commit, s.Resolves name commit
  head : s.state ≠ ∅ → ∃ commit, s.headCommit = some commit ∧ s.Resolves "HEAD" commit
  pushes : ∀ name ∈ s.state, isPrBranchRef name = false → ∃ commit, s.Resolves name commit ∧
    ∀ oldRev newRev, evaluateRefUpdate ⟨oldRev, newRev, name⟩ (some s) = some .accept ↔
      newRev = commit

/-- A chain of symbolic values that ends in a ref of the state. -/
def Ends (s : RepoState) (name : String) : Prop :=
  ∃ last value, Relation.ReflTransGen s.Leads name last ∧ s.state[last]? = some value ∧
    Str.startsWith value "ref: " = false

/-- The names under `refs/tags` are under `refs/tags/`.  Outside `refs/heads/pr/` a symbolic value
names a ref of the state that carries a commit; under it the symbolic values lead neither out of the
state nor round in it. -/
structure Resolvable (s : RepoState) : Prop where
  tags : ∀ name ∈ s.state, Str.startsWith name "refs/tags" = true →
    Str.startsWith name "refs/tags/" = true
  direct : ∀ name target, isPrBranchRef name = false → s.Leads name target →
    ∃ value, s.state[target]? = some value ∧ Str.startsWith value "ref: " = false
  pulls : ∀ name ∈ s.state, isPrBranchRef name = true → s.Ends name

section Valid

variable {s : RepoState} {name value : String}

/-- A value that is not symbolic is a commit. -/
theorem isHexLen_iff_of_validate (h : s.validate = .ok ()) (hvalue : s.state[name]? = some value) :
    Str.isHexLen value 40 = true ↔ Str.startsWith value "ref: " = false := by
  constructor
  · exact fun hcommit => startsWith_of_isHexLen hcommit (by decide)
  · intro hsymbolic
    have hentry := (entry_of_validate h hvalue).2
    unfold isStateValue at hentry
    rw [Bool.or_eq_true] at hentry
    refine hentry.resolve_right fun hrefs => ?_
    obtain ⟨rest, rfl⟩ := Str.startsWith_iff.1 hrefs
    rw [Bool.eq_false_iff] at hsymbolic
    refine hsymbolic (Str.startsWith_iff.2 ⟨"refs/" ++ rest, ?_⟩)
    rw [← String.append_assoc]
    rfl

theorem ends_iff_of_validate (h : s.validate = .ok ()) :
    s.Ends name ↔ ∃ commit, s.Resolves name commit := by
  constructor
  · rintro ⟨last, value, hchain, hvalue, hsymbolic⟩
    exact ⟨value, (isHexLen_iff_of_validate h hvalue).2 hsymbolic, last, hchain, hvalue⟩
  · rintro ⟨commit, hcommit, last, hchain, hvalue⟩
    exact ⟨last, commit, hchain, hvalue, (isHexLen_iff_of_validate h hvalue).1 hcommit⟩

/-- The names of a valid state are supported when those under `refs/tags` are under `refs/tags/`. -/
theorem supported_iff (h : s.validate = .ok ()) (hvalue : s.state[name]? = some value)
    (hpull : isPrBranchRef name = false) : Supported name ↔
      (Str.startsWith name "refs/tags" = true → Str.startsWith name "refs/tags/" = true) := by
  have hentry := (entry_of_validate h hvalue).1
  unfold isStateRef at hentry
  simp only [Bool.and_eq_true, Bool.or_eq_true, beq_iff_eq] at hentry
  constructor
  · rintro ⟨-, hsupported⟩ htags
    obtain ⟨rest, hrest⟩ := Str.startsWith_iff.1 htags
    rcases hsupported with hbranch | htag | rfl
    · obtain ⟨more, hmore⟩ := Str.startsWith_iff.1 hbranch
      have hchars := congrArg String.toList (hrest.symm.trans hmore)
      simp at hchars
    · exact htag
    · have hchars := congrArg String.toList hrest
      simp at hchars
  · intro htags
    refine ⟨hpull, ?_⟩
    rcases hentry.1 with (hhead | hbranch) | htag
    · exact .inr (.inr hhead)
    · exact .inl hbranch
    · exact .inr (.inl (htags htag))

/-- A ref that is not symbolic is assigned its value. -/
theorem assignedValue_of_commit (hvalue : s.state[name]? = some value)
    (hsymbolic : Str.startsWith value "ref: " = false) : assignedValue s name = some value := by
  unfold assignedValue resolveRefValue
  rw [hvalue, Option.bind_some, Str.stripPrefix_eq_none.2 hsymbolic]

/-- A symbolic ref is assigned what its target carries. -/
theorem assignedValue_of_leads {target : String} (h : s.Leads name target) :
    assignedValue s name = s.state[target]? := by
  unfold assignedValue resolveRefValue
  rw [h, Option.bind_some, Str.stripPrefix_append]

/-- Outside `refs/heads/pr/` a ref of a resolvable state resolves in at most one step. -/
theorem Resolvable.assigned (hs : s.Resolvable) (h : s.validate = .ok ())
    (hvalue : s.state[name]? = some value) (hpull : isPrBranchRef name = false) :
    ∃ commit, assignedValue s name = some commit ∧ s.Resolves name commit := by
  by_cases hsymbolic : Str.startsWith value "ref: " = true
  · obtain ⟨target, rfl⟩ := Str.startsWith_iff.1 hsymbolic
    obtain ⟨commit, htarget, hcommit⟩ := hs.direct name target hpull hvalue
    refine ⟨commit, (assignedValue_of_leads hvalue).trans htarget,
      (isHexLen_iff_of_validate h htarget).2 hcommit, target, .single hvalue, htarget⟩
  · rw [Bool.not_eq_true] at hsymbolic
    exact ⟨value, assignedValue_of_commit hvalue hsymbolic,
      (isHexLen_iff_of_validate h hvalue).2 hsymbolic, name, .refl, hvalue⟩

/-- What is assigned to `HEAD` is the head commit. -/
theorem headCommit_of_assigned {commit : String} (hassigned : assignedValue s "HEAD" = some commit)
    (hcommit : Str.isHexLen commit 40 = true) :
    s.headCommit = some commit := by
  obtain ⟨value, hvalue, hresolved⟩ := Option.bind_eq_some_iff.1 hassigned
  unfold headCommit parseHeadRef
  unfold resolveRefValue at hresolved
  rw [hvalue]
  simp only
  cases hstrip : Str.stripPrefix value "ref: " with
  | some target =>
    rw [hstrip] at hresolved
    exact hresolved
  | none =>
    rw [hstrip] at hresolved
    cases hresolved
    have hrefs : Str.startsWith commit "refs/" = false :=
      startsWith_of_isHexLen hcommit (by decide)
    simp only [hrefs, Bool.false_eq_true, if_false, hcommit, if_true]

/-- All refs of a valid state resolve exactly if the state is resolvable. -/
theorem alwaysResolves_iff (h : s.validate = .ok ()) : s.AlwaysResolves ↔ s.Resolvable := by
  constructor
  · rintro ⟨hrefs, -, hpushes⟩
    have haccepted : ∀ name ∈ s.state, isPrBranchRef name = false → ∃ commit,
        Str.isHexLen commit 40 = true ∧ Supported name ∧ assignedValue s name = some commit := by
      intro name hname hpull
      obtain ⟨commit, ⟨hcommit, -⟩, hpush⟩ := hpushes name hname hpull
      have hnostr := isNostrNamespace_of_mem h hname
      obtain ⟨hsupported, hassigned⟩ :=
        (accept_iff_of_validate h hnostr "" commit).1 ((hpush "" commit).2 rfl)
      exact ⟨commit, hcommit, hsupported, hassigned⟩
    refine ⟨?_, ?_, fun name hname _ => (ends_iff_of_validate h).2 (hrefs name hname)⟩
    · intro name hname
      obtain ⟨value, hvalue⟩ := Map.mem_iff.1 hname
      cases hpull : isPrBranchRef name with
      | false =>
        obtain ⟨-, -, hsupported, -⟩ := haccepted name hname hpull
        exact (supported_iff h hvalue hpull).1 hsupported
      | true =>
        intro htags
        obtain ⟨rest, hrest⟩ := Str.startsWith_iff.1 htags
        obtain ⟨more, hmore⟩ := Str.startsWith_iff.1 hpull
        have hchars := congrArg String.toList (hrest.symm.trans hmore)
        simp at hchars
    · intro name target hpull hleads
      obtain ⟨commit, hcommit, -, hassigned⟩ := haccepted name (Map.mem_iff.2 ⟨_, hleads⟩) hpull
      rw [assignedValue_of_leads hleads] at hassigned
      exact ⟨commit, hassigned, (isHexLen_iff_of_validate h hassigned).1 hcommit⟩
  · intro hs
    have hpushes : ∀ name ∈ s.state, isPrBranchRef name = false → ∃ commit,
        assignedValue s name = some commit ∧ s.Resolves name commit := by
      intro name hname hpull
      obtain ⟨value, hvalue⟩ := Map.mem_iff.1 hname
      exact hs.assigned h hvalue hpull
    refine ⟨?_, ?_, ?_⟩
    · intro name hname
      cases hpull : isPrBranchRef name with
      | false =>
        obtain ⟨commit, -, hresolves⟩ := hpushes name hname hpull
        exact ⟨commit, hresolves⟩
      | true => exact (ends_iff_of_validate h).1 (hs.pulls name hname hpull)
    · intro hne
      have hhead := Map.mem_iff.2 (head_of_validate h hne)
      obtain ⟨commit, hassigned, hresolves⟩ := hpushes "HEAD" hhead (by decide)
      exact ⟨commit, headCommit_of_assigned hassigned hresolves.1, hresolves⟩
    · intro name hname hpull
      obtain ⟨value, hvalue⟩ := Map.mem_iff.1 hname
      obtain ⟨commit, hassigned, hresolves⟩ := hpushes name hname hpull
      refine ⟨commit, hresolves, fun oldRev newRev => ?_⟩
      rw [accept_iff_of_validate h (isNostrNamespace_of_mem h hname)]
      constructor
      · rintro ⟨-, hnew⟩
        exact Option.some.inj (hnew.symm.trans hassigned)
      · rintro rfl
        exact ⟨(supported_iff h hvalue hpull).2 (hs.tags name hname), hassigned⟩

end Valid

/-! ### A tag without a slash -/

/-- A commit. -/
def someCommit : String := "0123456789abcdef0123456789abcdef01234567"

/-- A branch that `HEAD` names. -/
def oneBranch : RepoState where
  identifier := "repo"
  state := ((∅ : Map String).insert "refs/heads/main" someCommit).insert "HEAD" "ref: refs/heads/main"

/-- The same with a name under `refs/tags` that is not that of a tag. -/
def strayTag : RepoState := { oneBranch with state := oneBranch.state.insert "refs/tagsX" someCommit }

theorem get_oneBranch {name value : String} (h : oneBranch.state[name]? = some value) :
    name = "HEAD" ∧ value = "ref: refs/heads/main" ∨
      name = "refs/heads/main" ∧ value = someCommit := by
  unfold oneBranch at h
  simp only [Map.get_insert, Std.ExtTreeMap.getElem?_empty] at h
  split_ifs at h with hhead hmain
  · exact .inl ⟨hhead.symm, (Option.some.inj h).symm⟩
  · exact .inr ⟨hmain.symm, (Option.some.inj h).symm⟩

theorem alwaysResolves_iff_oneBranch : oneBranch.AlwaysResolves := by
  have hvalid : oneBranch.validate = .ok () := by
    decide +kernel
  have hmain : oneBranch.state["refs/heads/main"]? = some someCommit := by
    decide +kernel
  refine (alwaysResolves_iff hvalid).2 ⟨?_, ?_, ?_⟩
  · intro name hname
    obtain ⟨value, hvalue⟩ := Map.mem_iff.1 hname
    rcases get_oneBranch hvalue with ⟨rfl, -⟩ | ⟨rfl, -⟩
    · decide
    · decide
  · intro name target _ hleads
    rcases get_oneBranch hleads with ⟨-, htarget⟩ | ⟨-, hcommit⟩
    · have hrefs : target = "refs/heads/main" :=
        Str.append_left_cancel (htarget.trans (by decide : _ = "ref: " ++ "refs/heads/main"))
      rw [hrefs]
      exact ⟨someCommit, hmain, by decide⟩
    · have hstarts : Str.startsWith someCommit "ref: " = true :=
        Str.startsWith_iff.2 ⟨target, hcommit.symm⟩
      exact absurd hstarts (by decide)
  · intro name hname hpull
    obtain ⟨value, hvalue⟩ := Map.mem_iff.1 hname
    rcases get_oneBranch hvalue with ⟨rfl, -⟩ | ⟨rfl, -⟩
    · exact absurd hpull (by decide)
    · exact absurd hpull (by decide)

/-- No push of the stray tag is accepted, although the state is valid. -/
theorem not_alwaysResolves_strayTag : strayTag.validate = .ok () ∧ ¬ strayTag.AlwaysResolves := by
  have hvalid : strayTag.validate = .ok () := by
    decide +kernel
  refine ⟨hvalid, fun hall => ?_⟩
  have htag : "refs/tagsX" ∈ strayTag.state := by
    decide +kernel
  obtain ⟨commit, -, hpush⟩ := hall.pushes "refs/tagsX" htag (by decide)
  obtain ⟨hsupported, -⟩ :=
    (accept_iff_of_validate hvalid (by decide) "" commit).1 ((hpush "" commit).2 rfl)
  rcases hsupported.2 with hbranch | htag | hhead
  · exact absurd hbranch (by decide)
  · exact absurd htag (by decide)
  · exact absurd hhead (by decide)

end RepoState
end Gittree
