import Gittree.Lib.Hex
import Gittree.Lib.Map
import Gittree.Lib.Result

/-!
# Repository announcements and repository states

`crates/core`: the error type, the tag helpers, and the two NIP-34 events that describe a
repository.  An announcement (kind 30617) is read from its tags one tag at a time, later `d`,
`name`, `description` and `r` tags overwriting earlier ones and the list tags accumulating without
repetitions.  A state (kind 30618) keeps the tags that name a ref and carry a commit or a symbolic
ref.

The iteration of `RepoState::validate` over its hash map is taken in key order; the order decides
only which of several errors is reported.
-/

namespace Gittree

open Rust

/-- `CoreError`. -/
inductive CoreError
  | missingField (field : String)
  | invalidField (field value : String)
  | invalidTag (tag value : String)
  deriving DecidableEq, Repr

/-- The `Display` text of a `CoreError`. -/
def CoreError.display : CoreError → String
  | .missingField field => "missing required field: " ++ field
  | .invalidField field value => "invalid field " ++ field ++ ": " ++ value
  | .invalidTag tag value => "invalid tag " ++ tag ++ ": " ++ value

/-- The tags of an event. -/
abbrev Tags := List (List String)

def kindGitRepoAnnouncement : ℕ := 30617
def kindGitRepoState : ℕ := 30618

/-! ### Tag helpers -/

/-- `push_unique`. -/
def pushUnique (target : List String) (value : String) : List String :=
  if value ∈ target then target else target ++ [value]

/-- `extend_unique`. -/
def extendUnique (target values : List String) : List String := values.foldl pushUnique target

/-- `join_tag_values`. -/
def joinTagValues (kind : String) (values : List String) : List String := kind :: values

theorem mem_pushUnique {target : List String} {value x : String} :
    x ∈ pushUnique target value ↔ x ∈ target ∨ x = value := by
  unfold pushUnique
  split_ifs with h
  · exact ⟨Or.inl, fun hx => hx.elim id fun hx => hx ▸ h⟩
  · simp

/-! ### Announcements -/

/-- `RepoAnnouncement`. -/
structure RepoAnnouncement where
  identifier : String
  name : Option String
  description : Option String
  rootCommit : Option String
  clone : List String
  web : List String
  relays : List String
  blossoms : List String
  hashtags : List String
  maintainers : List String
  deriving DecidableEq, Repr

namespace RepoAnnouncement

/-- The local variables of `from_tags`. -/
structure Draft where
  identifier : Option String := none
  name : Option String := none
  description : Option String := none
  rootCommit : Option String := none
  clone : List String := []
  web : List String := []
  relays : List String := []
  blossoms : List String := []
  hashtags : List String := []
  maintainers : List String := []
  deriving DecidableEq, Repr

/-- One iteration of the loop of `from_tags`. -/
def Draft.addTag (d : Draft) : List String → Draft
  | [] => d
  | t :: values =>
    if t = "d" then
      match values with
      | id :: _ => { d with identifier := some id }
      | [] => d
    else if t = "name" then
      match values with
      | value :: _ => { d with name := some value }
      | [] => d
    else if t = "description" then
      match values with
      | value :: _ => { d with description := some value }
      | [] => d
    else if t = "r" then
      match values with
      | [commit] => { d with rootCommit := some commit }
      | [commit, marker] => if marker = "euc" then { d with rootCommit := some commit } else d
      | _ => d
    else if t = "clone" then { d with clone := extendUnique d.clone values }
    else if t = "web" then { d with web := extendUnique d.web values }
    else if t = "relays" then { d with relays := extendUnique d.relays values }
    else if t = "blossoms" then { d with blossoms := extendUnique d.blossoms values }
    else if t = "maintainers" then { d with maintainers := extendUnique d.maintainers values }
    else if t = "t" then
      match values with
      | value :: _ => { d with hashtags := pushUnique d.hashtags value }
      | [] => d
    else d

/-- `RepoAnnouncement::from_tags`. -/
def fromTags (tags : Tags) : Except CoreError RepoAnnouncement :=
  let d := tags.foldl Draft.addTag {}
  match d.identifier with
  | none => .error (.missingField "d")
  | some identifier =>
    .ok
      { identifier
        name := d.name
        description := d.description
        rootCommit := d.rootCommit
        clone := d.clone
        web := d.web
        relays := d.relays
        blossoms := d.blossoms
        hashtags := d.hashtags
        maintainers := d.maintainers }

/-- An optional single-value tag. -/
def optionTag (kind : String) (value : Option String) (rest : List String) : Tags :=
  match value with
  | some value => [kind :: value :: rest]
  | none => []

/-- A list tag, left out when the list is empty. -/
def listTag (kind : String) (values : List String) : Tags :=
  if values.isEmpty then [] else [joinTagValues kind values]

/-- `RepoAnnouncement::to_tags`. -/
def toTags (a : RepoAnnouncement) : Tags :=
  [["d", a.identifier]] ++ optionTag "name" a.name [] ++
    optionTag "description" a.description [] ++ optionTag "r" a.rootCommit ["euc"] ++
    listTag "clone" a.clone ++ listTag "web" a.web ++ listTag "relays" a.relays ++
    listTag "blossoms" a.blossoms ++ listTag "maintainers" a.maintainers ++
    a.hashtags.map fun hashtag => ["t", hashtag]

/-- The first value of a list that fails a check, reported under its field. -/
def checkEach (ok : String → Bool) (field : String) (values : List String) :
    Except CoreError Unit :=
  match values.find? fun value => !ok value with
  | some value => .error (.invalidField field value)
  | none => .ok ()

/-- `RepoAnnouncement::validate`. -/
def validate (a : RepoAnnouncement) : Except CoreError Unit := do
  Result.ensure (Str.trim a.identifier ≠ "") (.missingField "d")
  checkEach (fun commit => Str.isHexLen commit 40) "r" a.rootCommit.toList
  Result.ensure (a.clone ≠ []) (.missingField "clone")
  checkEach (fun url => Str.trim url ≠ "") "clone" a.clone
  Result.ensure (a.relays ≠ []) (.missingField "relays")
  checkEach (fun relay => Str.trim relay ≠ "") "relays" a.relays
  checkEach (fun key => Str.isHexLen key 64) "maintainers" a.maintainers

@[simp] theorem checkEach_eq_ok {ok : String → Bool} {field : String} {values : List String}
    {u : Unit} : checkEach ok field values = .ok u ↔ ∀ value ∈ values, ok value = true := by
  unfold checkEach
  cases h : values.find? (fun value => !ok value) with
  | none =>
    rw [List.find?_eq_none] at h
    simpa using h
  | some value =>
    have hm := List.mem_of_find?_eq_some h
    have hv := List.find?_some h
    simp only [Bool.not_eq_eq_eq_not, Bool.not_true] at hv
    simp only [reduceCtorEq, false_iff, not_forall]
    exact ⟨value, hm, by simp [hv]⟩

/-- What a valid announcement is. -/
structure Valid (a : RepoAnnouncement) : Prop where
  identifier : Str.trim a.identifier ≠ ""
  rootCommit : ∀ commit ∈ a.rootCommit, Str.isHexLen commit 40 = true
  clone_ne : a.clone ≠ []
  clone : ∀ url ∈ a.clone, Str.trim url ≠ ""
  relays_ne : a.relays ≠ []
  relays : ∀ relay ∈ a.relays, Str.trim relay ≠ ""
  maintainers : ∀ key ∈ a.maintainers, Str.isHexLen key 64 = true

/-- `validate` accepts exactly the valid announcements. -/
theorem validate_eq_ok {a : RepoAnnouncement} : a.validate = .ok () ↔ a.Valid := by
  unfold validate
  simp only [Result.bind_eq_ok, Result.ensure_eq_ok, checkEach_eq_ok, exists_const,
    Option.mem_toList, decide_eq_true_eq]
  constructor
  · rintro ⟨h1, h2, h3, h4, h5, h6, h7⟩
    exact ⟨h1, h2, h3, h4, h5, h6, h7⟩
  · rintro ⟨h1, h2, h3, h4, h5, h6, h7⟩
    exact ⟨h1, h2, h3, h4, h5, h6, h7⟩

end RepoAnnouncement

/-! ### States -/

/-- `RepoState`. -/
structure RepoState where
  identifier : String
  state : Map String

/-- `is_state_ref`. -/
def isStateRef (name : String) : Bool :=
  (name == "HEAD" || Str.startsWith name "refs/heads/" || Str.startsWith name "refs/tags") &&
    !Str.endsWith name "^\x7b\x7d"

/-- `is_state_value`. -/
def isStateValue (value : String) : Bool :=
  Str.isHexLen value 40 || Str.startsWith value "ref: refs/"

/-- `parse_head_ref`. -/
def parseHeadRef (value : String) : Option String :=
  match Str.stripPrefix value "ref: " with
  | some rest => some rest
  | none => if Str.startsWith value "refs/" then some value else none

namespace RepoState

/-- One iteration of the loop of `from_tags`. -/
def addTag (d : Option String × Map String) : List String → Option String × Map String
  | name :: value :: _ =>
    if name = "d" then (some value, d.2)
    else if isStateRef name && isStateValue value then (d.1, d.2.insert name value)
    else d
  | _ => d

/-- `RepoState::from_tags`. -/
def fromTags (tags : Tags) : Except CoreError RepoState :=
  let d := tags.foldl addTag (none, ∅)
  match d.1 with
  | none => .error (.missingField "d")
  | some identifier => .ok { identifier, state := d.2 }

/-- `RepoState::to_tags`, which sorts the refs by name. -/
def toTags (s : RepoState) : Tags :=
  ["d", s.identifier] :: s.state.toList.map fun entry => [entry.1, entry.2]

/-- The check of one entry in `validate`. -/
def checkEntry (entry : String × String) : Except CoreError Unit := do
  Result.ensure (isStateRef entry.1 = true) (.invalidTag "state" entry.1)
  Result.ensure (isStateValue entry.2 = true) (.invalidTag "state" entry.2)

/-- The loop of `validate` over the entries. -/
def checkEntries : List (String × String) → Except CoreError Unit
  | [] => .ok ()
  | entry :: rest => do
    checkEntry entry
    checkEntries rest

/-- The check of the `HEAD` entry in `validate`. -/
def checkHead (s : RepoState) : Except CoreError Unit :=
  match s.state["HEAD"]? with
  | none => .ok ()
  | some head =>
    match parseHeadRef head with
    | none => .ok ()
    | some target => Result.ensure (target ∈ s.state) (.invalidTag "state" head)

/-- `RepoState::validate`. -/
def validate (s : RepoState) : Except CoreError Unit := do
  Result.ensure (Str.trim s.identifier ≠ "") (.missingField "d")
  checkEntries s.state.toList
  Result.ensure (s.state.isEmpty = true ∨ "HEAD" ∈ s.state) (.missingField "HEAD")
  checkHead s

theorem checkEntries_eq_ok {l : List (String × String)} {u : Unit} :
    checkEntries l = .ok u ↔
      ∀ entry ∈ l, isStateRef entry.1 = true ∧ isStateValue entry.2 = true := by
  induction l with
  | nil => simp [checkEntries]
  | cons entry rest ih =>
    simp only [checkEntries, checkEntry, Result.bind_eq_ok, Result.ensure_eq_ok, exists_const, ih,
      List.forall_mem_cons]

/-- Every entry of a state that `validate` accepts names a ref and carries a commit or a symbolic
ref. -/
theorem entry_of_validate {s : RepoState} (h : s.validate = .ok ()) {name value : String}
    (hv : s.state[name]? = some value) : isStateRef name = true ∧ isStateValue value = true := by
  unfold validate at h
  simp only [Result.bind_eq_ok, checkEntries_eq_ok] at h
  obtain ⟨-, -, -, h, -⟩ := h
  exact h (name, value) (Std.ExtTreeMap.mem_toList_iff_getElem?_eq_some.2 hv)

end RepoState
end Gittree
