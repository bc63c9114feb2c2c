import Gittree.Core.Nip34
import Gittree.Lib.Url

/-!
# NIP-34 events by kind

`crates/core/src/nip34_common.rs`, the event types of `nip34_patches.rs`, `nip34_proposals.rs`,
`nip34_issues.rs`, `nip34_status.rs` and `nip34_grasp_list.rs`, and `Nip34Event`, which reads an
event of any of the eight types from its kind and tags.

Each type is read tag by tag; a value read twice is kept once in the list fields and the last one
wins in the others, except for the root of a status, which must not change.
-/

namespace Gittree

open Rust
open RepoAnnouncement (optionTag listTag checkEach)

/-! ### Shared checks -/

/-- `RepoAddress`. -/
structure RepoAddress where
  pubkey : String
  identifier : String
  deriving DecidableEq, Repr

namespace RepoAddress

/-- `RepoAddress::new`. -/
def new (pubkey identifier : String) : Except CoreError RepoAddress := do
  Result.ensure (Str.isHexLen pubkey 64 = true ∧ identifier ≠ "")
    (.invalidField "a" ("30617:" ++ pubkey ++ ":" ++ identifier))
  return { pubkey, identifier }

/-- `RepoAddress::parse`: `splitn(4, ':')` gives three parts exactly when there are two colons. -/
def parse (value : String) : Except CoreError RepoAddress :=
  match Str.split value ':' with
  | [kind, pubkey, identifier] => do
    Result.ensure (kind = "30617" ∧ pubkey ≠ "" ∧ identifier ≠ "") (.invalidField "a" value)
    new pubkey identifier
  | _ => .error (.invalidField "a" value)

end RepoAddress

/-- `validate_repo_address`. -/
def validateRepoAddress (value : String) : Except CoreError Unit := do
  let _ ← RepoAddress.parse value

/-- `is_hex_hash`. -/
def isHexHash (value : String) : Bool := Str.isHexLen value 40 || Str.isHexLen value 64

/-- The check that a text is not blank. -/
def isText (value : String) : Bool := Str.trim value ≠ ""

/-- One tag for each value. -/
def eachTag (kind : String) (values : List String) : Tags := values.map fun value => [kind, value]

/-- `parse_e_tag`: the event and the marker of an `e` tag. -/
def parseETag (tag : List String) : Option (String × Option String) :=
  match tag with
  | t :: eventId :: _ => if t = "e" then some (eventId, tag[3]?) else none
  | _ => none

/-- An `e` tag with a marker. -/
def markedTag (eventId marker : String) : List String := ["e", eventId, "", marker]

/-! ### Patches -/

/-- `CommitterTag`. -/
structure CommitterTag where
  name : String
  email : String
  timestamp : ℤ
  timezoneMinutes : ℤ
  deriving DecidableEq, Repr

namespace CommitterTag

/-- `CommitterTag::from_tag`. -/
def fromTag (tag : List String) : Except CoreError CommitterTag :=
  let name := tag.getD 1 ""
  let email := tag.getD 2 ""
  match tag[3]?.bind (Str.parseSigned · (2 ^ 63)), tag[4]?.bind (Str.parseSigned · (2 ^ 31)) with
  | some timestamp, some timezoneMinutes =>
    if isText name && isText email then .ok { name, email, timestamp, timezoneMinutes }
    else .error (.invalidField "committer" (" ".intercalate tag))
  | _, _ => .error (.invalidField "committer" (" ".intercalate tag))

/-- `CommitterTag::to_tag`. -/
def toTag (c : CommitterTag) : List String :=
  ["committer", c.name, c.email, toString c.timestamp, toString c.timezoneMinutes]

end CommitterTag

/-- `Patch`. -/
structure Patch where
  repoAddress : String
  repoRefs : List String
  mentions : List String
  rootEvent : Option String
  replyEvent : Option String
  isRoot : Bool
  isRootRevision : Bool
  commit : Option String
  parentCommit : Option String
  commitPgpSig : Option String
  committer : Option CommitterTag
  deriving DecidableEq, Repr

namespace Patch

/-- A patch whose address has not been read yet. -/
def draft : Option String × Patch :=
  (none, ⟨"", [], [], none, none, false, false, none, none, none, none⟩)

/-- The tags of a patch with a value. -/
def addValue (p : Patch) (t value : String) (tag : List String) : Patch :=
  if t = "r" then { p with repoRefs := pushUnique p.repoRefs value }
  else if t = "p" then { p with mentions := pushUnique p.mentions value }
  else if t = "t" ∧ value = "root" then { p with isRoot := true }
  else if t = "t" ∧ value = "root-revision" then { p with isRootRevision := true }
  else if t = "commit" then { p with commit := some value }
  else if t = "parent-commit" then { p with parentCommit := some value }
  else if t = "commit-pgp-sig" then { p with commitPgpSig := some value }
  else
    match parseETag tag with
    | some (eventId, some "root") => { p with rootEvent := some eventId }
    | some (eventId, some "reply") => { p with replyEvent := some eventId }
    | _ => p

/-- One iteration of the loop of `from_tags`. -/
def addTag (d : Option String × Patch) (tag : List String) :
    Except CoreError (Option String × Patch) :=
  if tag.head? = some "committer" then do
    let committer ← CommitterTag.fromTag tag
    return (d.1, { d.2 with committer := some committer })
  else
    match tag with
    | t :: value :: _ =>
      if t = "a" then .ok (some value, d.2) else .ok (d.1, d.2.addValue t value tag)
    | _ => .ok d

/-- `Patch::from_tags`. -/
def fromTags (tags : Tags) : Except CoreError Patch := do
  let d ← tags.foldlM addTag draft
  let repoAddress ← Result.okOr d.1 (.missingField "a")
  return { d.2 with repoAddress }

/-- `Patch::to_tags`. -/
def toTags (p : Patch) : Tags :=
  [["a", p.repoAddress]] ++ eachTag "r" p.repoRefs ++ eachTag "p" p.mentions ++
    (if p.isRoot then [["t", "root"]] else []) ++
    (if p.isRootRevision then [["t", "root-revision"]] else []) ++
    optionTag "commit" p.commit [] ++ optionTag "parent-commit" p.parentCommit [] ++
    optionTag "commit-pgp-sig" p.commitPgpSig [] ++ optionTag "e" p.rootEvent ["", "root"] ++
    optionTag "e" p.replyEvent ["", "reply"] ++ p.committer.toList.map CommitterTag.toTag

/-- `Patch::validate`. -/
def validate (p : Patch) : Except CoreError Unit := do
  validateRepoAddress p.repoAddress
  Result.ensure (p.isRootRevision = true → p.isRoot = true)
    (.invalidField "t" "root-revision without root")
  checkEach (Str.isHexLen · 64) "e" p.rootEvent.toList
  checkEach (Str.isHexLen · 64) "e" p.replyEvent.toList
  checkEach isHexHash "r" p.repoRefs
  checkEach (Str.isHexLen · 64) "p" p.mentions
  checkEach isHexHash "commit" p.commit.toList
  checkEach isHexHash "parent-commit" p.parentCommit.toList

end Patch

/-! ### Pull requests -/

/-- `PullRequest`. -/
structure PullRequest where
  repoAddress : String
  repoRefs : List String
  mentions : List String
  subject : Option String
  labels : List String
  tipCommit : String
  clone : List String
  branchName : Option String
  revisionOf : Option String
  mergeBase : Option String
  deriving DecidableEq, Repr

namespace PullRequest

/-- The local variables of `from_tags`. -/
structure Draft where
  repoAddress : Option String := none
  repoRefs : List String := []
  mentions : List String := []
  subject : Option String := none
  labels : List String := []
  tipCommit : Option String := none
  clone : List String := []
  branchName : Option String := none
  revisionOf : Option String := none
  mergeBase : Option String := none

/-- One iteration of the loop of `from_tags`. -/
def Draft.addTag (d : Draft) : List String → Draft
  | t :: value :: rest =>
    if t = "a" then { d with repoAddress := some value }
    else if t = "r" then { d with repoRefs := pushUnique d.repoRefs value }
    else if t = "p" then { d with mentions := pushUnique d.mentions value }
    else if t = "subject" then { d with subject := some value }
    else if t = "t" then { d with labels := pushUnique d.labels value }
    else if t = "c" then { d with tipCommit := some value }
    else if t = "clone" then { d with clone := extendUnique d.clone (value :: rest) }
    else if t = "branch-name" then { d with branchName := some value }
    else if t = "e" then { d with revisionOf := some value }
    else if t = "merge-base" then { d with mergeBase := some value }
    else d
  | _ => d

/-- `PullRequest::from_tags`. -/
def fromTags (tags : Tags) : Except CoreError PullRequest := do
  let d := tags.foldl Draft.addTag {}
  let repoAddress ← Result.okOr d.repoAddress (.missingField "a")
  let tipCommit ← Result.okOr d.tipCommit (.missingField "c")
  return {
    repoAddress, tipCommit
    repoRefs := d.repoRefs
    mentions := d.mentions
    subject := d.subject
    labels := d.labels
    clone := d.clone
    branchName := d.branchName
    revisionOf := d.revisionOf
    mergeBase := d.mergeBase }

/-- `PullRequest::to_tags`. -/
def toTags (p : PullRequest) : Tags :=
  [["a", p.repoAddress]] ++ eachTag "r" p.repoRefs ++ eachTag "p" p.mentions ++
    optionTag "subject" p.subject [] ++ eachTag "t" p.labels ++ [["c", p.tipCommit]] ++
    listTag "clone" p.clone ++ optionTag "branch-name" p.branchName [] ++
    optionTag "e" p.revisionOf [] ++ optionTag "merge-base" p.mergeBase []

/-- `PullRequest::validate`. -/
def validate (p : PullRequest) : Except CoreError Unit := do
  validateRepoAddress p.repoAddress
  Result.ensure (isText p.tipCommit = true) (.missingField "c")
  checkEach isHexHash "c" [p.tipCommit]
  Result.ensure (p.clone ≠ []) (.missingField "clone")
  checkEach isText "clone" p.clone
  checkEach isHexHash "r" p.repoRefs
  checkEach (Str.isHexLen · 64) "p" p.mentions
  checkEach isText "subject" p.subject.toList
  checkEach isText "branch-name" p.branchName.toList
  checkEach (Str.isHexLen · 64) "e" p.revisionOf.toList
  checkEach isHexHash "merge-base" p.mergeBase.toList

end PullRequest

/-- `PullRequestUpdate`. -/
structure PullRequestUpdate where
  repoAddress : String
  repoRefs : List String
  mentions : List String
  rootEventId : String
  rootAuthor : String
  tipCommit : String
  clone : List String
  mergeBase : Option String
  deriving DecidableEq, Repr

namespace PullRequestUpdate

/-- The local variables of `from_tags`. -/
structure Draft where
  repoAddress : Option String := none
  repoRefs : List String := []
  mentions : List String := []
  rootEventId : Option String := none
  rootAuthor : Option String := none
  tipCommit : Option String := none
  clone : List String := []
  mergeBase : Option String := none

/-- One iteration of the loop of `from_tags`. -/
def Draft.addTag (d : Draft) : List String → Draft
  | t :: value :: rest =>
    if t = "a" then { d with repoAddress := some value }
    else if t = "r" then { d with repoRefs := pushUnique d.repoRefs value }
    else if t = "p" then { d with mentions := pushUnique d.mentions value }
    else if t = "E" then { d with rootEventId := some value }
    else if t = "P" then { d with rootAuthor := some value }
    else if t = "c" then { d with tipCommit := some value }
    else if t = "clone" then { d with clone := extendUnique d.clone (value :: rest) }
    else if t = "merge-base" then { d with mergeBase := some value }
    else d
  | _ => d

/-- `PullRequestUpdate::from_tags`. -/
def fromTags (tags : Tags) : Except CoreError PullRequestUpdate := do
  let d := tags.foldl Draft.addTag {}
  let repoAddress ← Result.okOr d.repoAddress (.missingField "a")
  let rootEventId ← Result.okOr d.rootEventId (.missingField "E")
  let rootAuthor ← Result.okOr d.rootAuthor (.missingField "P")
  let tipCommit ← Result.okOr d.tipCommit (.missingField "c")
  return {
    repoAddress, rootEventId, rootAuthor, tipCommit
    repoRefs := d.repoRefs
    mentions := d.mentions
    clone := d.clone
    mergeBase := d.mergeBase }

/-- `PullRequestUpdate::to_tags`. -/
def toTags (p : PullRequestUpdate) : Tags :=
  [["a", p.repoAddress]] ++ eachTag "r" p.repoRefs ++ eachTag "p" p.mentions ++
    [["E", p.rootEventId], ["P", p.rootAuthor], ["c", p.tipCommit]] ++ listTag "clone" p.clone ++
    optionTag "merge-base" p.mergeBase []

/-- `PullRequestUpdate::validate`. -/
def validate (p : PullRequestUpdate) : Except CoreError Unit := do
  validateRepoAddress p.repoAddress
  checkEach (Str.isHexLen · 64) "E" [p.rootEventId]
  checkEach (Str.isHexLen · 64) "P" [p.rootAuthor]
  checkEach isHexHash "c" [p.tipCommit]
  Result.ensure (p.clone ≠ []) (.missingField "clone")
  checkEach isText "clone" p.clone
  checkEach isHexHash "r" p.repoRefs
  checkEach (Str.isHexLen · 64) "p" p.mentions
  checkEach isHexHash "merge-base" p.mergeBase.toList

end PullRequestUpdate

/-! ### Issues -/

/-- `Issue`. -/
structure Issue where
  repoAddress : String
  mentions : List String
  subject : Option String
  labels : List String
  deriving DecidableEq, Repr

namespace Issue

/-- One iteration of the loop of `from_tags`; the address is kept apart until it is read. -/
def addTag (d : Option String × Issue) : List String → Option String × Issue
  | t :: value :: _ =>
    if t = "a" then (some value, d.2)
    else if t = "p" then (d.1, { d.2 with mentions := pushUnique d.2.mentions value })
    else if t = "subject" then (d.1, { d.2 with subject := some value })
    else if t = "t" then (d.1, { d.2 with labels := pushUnique d.2.labels value })
    else d
  | _ => d

/-- `Issue::from_tags`. -/
def fromTags (tags : Tags) : Except CoreError Issue := do
  let d := tags.foldl addTag (none, ⟨"", [], none, []⟩)
  let repoAddress ← Result.okOr d.1 (.missingField "a")
  return { d.2 with repoAddress }

/-- `Issue::to_tags`. -/
def toTags (i : Issue) : Tags :=
  [["a", i.repoAddress]] ++ eachTag "p" i.mentions ++ optionTag "subject" i.subject [] ++
    eachTag "t" i.labels

/-- `Issue::validate`. -/
def validate (i : Issue) : Except CoreError Unit := do
  validateRepoAddress i.repoAddress
  checkEach (Str.isHexLen · 64) "p" i.mentions
  checkEach isText "subject" i.subject.toList
  checkEach isText "t" i.labels

end Issue

/-! ### Status -/

/-- `StatusAppliedRef`. -/
structure StatusAppliedRef where
  eventId : String
  relay : String
  pubkey : String
  deriving DecidableEq, Repr

/-- `StatusEvent`. -/
structure StatusEvent where
  rootEvent : String
  replyEvents : List String
  mentions : List String
  repoAddress : Option String
  repoRefs : List String
  appliedRefs : List StatusAppliedRef
  mergeCommit : Option String
  appliedAsCommits : List String
  deriving DecidableEq, Repr

namespace StatusEvent

/-- `parse_q_tag`. -/
def parseQTag (tag : List String) : Except CoreError StatusAppliedRef :=
  match tag with
  | _ :: eventId :: relay :: pubkey :: _ => .ok { eventId, relay, pubkey }
  | _ => .error (.invalidField "q" (" ".intercalate tag))

/-- The `e` tags: the root is read once or repeated, replies accumulate. -/
def addEvent (d : Option String × StatusEvent) (eventId : String) (marker : Option String) :
    Except CoreError (Option String × StatusEvent) :=
  match marker with
  | some "root" => do
    Result.ensure (∀ existing ∈ d.1, existing = eventId) (.invalidTag "e" eventId)
    return (some eventId, d.2)
  | some "reply" => .ok (d.1, { d.2 with replyEvents := pushUnique d.2.replyEvents eventId })
  | _ => .ok d

/-- The other tags with a value. -/
def addValue (e : StatusEvent) (t value : String) (values : List String) : StatusEvent :=
  if t = "a" then { e with repoAddress := some value }
  else if t = "p" then { e with mentions := pushUnique e.mentions value }
  else if t = "r" then { e with repoRefs := pushUnique e.repoRefs value }
  else if t = "applied-as-commits" then
    { e with appliedAsCommits := extendUnique e.appliedAsCommits values }
  else if t = "merge-commit" then { e with mergeCommit := some value }
  else e

/-- One iteration of the loop of `from_tags`. -/
def addTag (d : Option String × StatusEvent) (tag : List String) :
    Except CoreError (Option String × StatusEvent) :=
  match parseETag tag with
  | some (eventId, marker) => addEvent d eventId marker
  | none =>
    if tag.head? = some "q" then do
      let applied ← parseQTag tag
      return (d.1, { d.2 with appliedRefs := d.2.appliedRefs ++ [applied] })
    else
      match tag with
      | t :: value :: rest => .ok (d.1, d.2.addValue t value (value :: rest))
      | _ => .ok d

/-- `StatusEvent::from_tags`. -/
def fromTags (tags : Tags) : Except CoreError StatusEvent := do
  let d ← tags.foldlM addTag (none, ⟨"", [], [], none, [], [], none, []⟩)
  let rootEvent ← Result.okOr d.1 (.missingField "e")
  return { d.2 with rootEvent }

/-- `StatusEvent::to_tags`. -/
def toTags (e : StatusEvent) : Tags :=
  [markedTag e.rootEvent "root"] ++ e.replyEvents.map (markedTag · "reply") ++
    eachTag "p" e.mentions ++ optionTag "a" e.repoAddress [] ++ eachTag "r" e.repoRefs ++
    (e.appliedRefs.map fun applied => ["q", applied.eventId, applied.relay, applied.pubkey]) ++
    optionTag "merge-commit" e.mergeCommit [] ++ listTag "applied-as-commits" e.appliedAsCommits

/-- The checks of the applied refs. -/
def checkApplied : List StatusAppliedRef → Except CoreError Unit
  | [] => .ok ()
  | applied :: rest => do
    checkEach (Str.isHexLen · 64) "q" [applied.eventId]
    checkEach (Str.isHexLen · 64) "q" [applied.pubkey]
    checkEach isText "q" [applied.relay]
    checkApplied rest

/-- `StatusEvent::validate`. -/
def validate (e : StatusEvent) : Except CoreError Unit := do
  checkEach (Str.isHexLen · 64) "e" [e.rootEvent]
  checkEach (Str.isHexLen · 64) "e" e.replyEvents
  checkEach (Str.isHexLen · 64) "p" e.mentions
  match e.repoAddress with
  | some address => validateRepoAddress address
  | none => .ok ()
  checkEach isHexHash "r" e.repoRefs
  checkApplied e.appliedRefs
  checkEach isHexHash "merge-commit" e.mergeCommit.toList
  checkEach isHexHash "applied-as-commits" e.appliedAsCommits

end StatusEvent

/-! ### Lists of servers -/

/-- `UserGraspList`. -/
structure UserGraspList where
  urls : List String
  deriving DecidableEq, Repr

namespace UserGraspList

/-- `UserGraspList::from_tags_lossy`. -/
def fromTagsLossy (tags : Tags) : UserGraspList where
  urls := tags.foldl (fun urls tag =>
    match tag with
    | t :: value :: _ => if t = "g" then pushUnique urls value else urls
    | _ => urls) []

/-- `UserGraspList::to_tags`. -/
def toTags (l : UserGraspList) : Tags := eachTag "g" l.urls

/-- `UserGraspList::validate`. -/
def validate (parseUrl : String → Option Url) (l : UserGraspList) : Except CoreError Unit :=
  checkEach (fun text => match parseUrl text with
    | some url => url.scheme == "ws" || url.scheme == "wss"
    | none => false) "g" l.urls

end UserGraspList

/-! ### Events of any kind -/

/-- `Nip34Event`. -/
inductive Nip34Event
  | repoAnnouncement (event : RepoAnnouncement)
  | repoState (event : RepoState)
  | patch (event : Patch)
  | pullRequest (event : PullRequest)
  | pullRequestUpdate (event : PullRequestUpdate)
  | issue (event : Issue)
  | status (kind : ℕ) (event : StatusEvent)
  | userGraspList (event : UserGraspList)

def kindGitPatch : ℕ := 1617
def kindGitPullRequest : ℕ := 1618
def kindGitPullRequestUpdate : ℕ := 1619
def kindGitIssue : ℕ := 1621
def kindUserGraspList : ℕ := 10317

/-- `is_status_kind`. -/
def isStatusKind (kind : ℕ) : Bool := kind ∈ [1630, 1631, 1632, 1633]

namespace Nip34Event

/-- `Nip34Event::parse`. -/
def parse (kind : ℕ) (tags : Tags) : Except CoreError Nip34Event :=
  if kind = kindGitRepoAnnouncement then (RepoAnnouncement.fromTags tags).map .repoAnnouncement
  else if kind = kindGitRepoState then (RepoState.fromTags tags).map .repoState
  else if kind = kindGitPatch then (Patch.fromTags tags).map .patch
  else if kind = kindGitPullRequest then (PullRequest.fromTags tags).map .pullRequest
  else if kind = kindGitPullRequestUpdate then
    (PullRequestUpdate.fromTags tags).map .pullRequestUpdate
  else if kind = kindGitIssue then (Issue.fromTags tags).map .issue
  else if isStatusKind kind then (StatusEvent.fromTags tags).map (.status kind)
  else if kind = kindUserGraspList then .ok (.userGraspList (UserGraspList.fromTagsLossy tags))
  else .error (.invalidField "kind" (toString kind))

/-- `Nip34Event::kind`. -/
def kind : Nip34Event → ℕ
  | .repoAnnouncement _ => kindGitRepoAnnouncement
  | .repoState _ => kindGitRepoState
  | .patch _ => kindGitPatch
  | .pullRequest _ => kindGitPullRequest
  | .pullRequestUpdate _ => kindGitPullRequestUpdate
  | .issue _ => kindGitIssue
  | .status kind _ => kind
  | .userGraspList _ => kindUserGraspList

/-- `Nip34Event::to_tags`. -/
def toTags : Nip34Event → Tags
  | .repoAnnouncement event => event.toTags
  | .repoState event => event.toTags
  | .patch event => event.toTags
  | .pullRequest event => event.toTags
  | .pullRequestUpdate event => event.toTags
  | .issue event => event.toTags
  | .status _ event => event.toTags
  | .userGraspList event => event.toTags

/-- `Nip34Event::validate`. -/
def validate (parseUrl : String → Option Url) : Nip34Event → Except CoreError Unit
  | .repoAnnouncement event => event.validate
  | .repoState event => event.validate
  | .patch event => event.validate
  | .pullRequest event => event.validate
  | .pullRequestUpdate event => event.validate
  | .issue event => event.validate
  | .status _ event => event.validate
  | .userGraspList event => event.validate parseUrl

/-- `Nip34Event::parse_validated`. -/
def parseValidated (parseUrl : String → Option Url) (kind : ℕ) (tags : Tags) :
    Except CoreError Nip34Event := do
  let event ← parse kind tags
  event.validate parseUrl
  return event

/-- An event is read as an announcement exactly when it has that kind and its tags are a valid
announcement. -/
theorem parseValidated_announcement {parseUrl : String → Option Url} {kind : ℕ} {tags : Tags}
    {a : RepoAnnouncement} :
    parseValidated parseUrl kind tags = .ok (.repoAnnouncement a) ↔
      kind = kindGitRepoAnnouncement ∧ RepoAnnouncement.fromTags tags = .ok a ∧ a.Valid := by
  have hparse : parse kind tags = .ok (.repoAnnouncement a) ↔
      kind = kindGitRepoAnnouncement ∧ RepoAnnouncement.fromTags tags = .ok a := by
    unfold parse
    split_ifs with h
    · simp [Result.map_eq_ok, h]
    all_goals simp [Result.map_eq_ok, h]
  unfold parseValidated
  simp only [Result.bind_eq_ok, Result.pure_eq_ok]
  constructor
  · rintro ⟨event, hevent, u, hvalid, rfl⟩
    obtain ⟨hkind, htags⟩ := hparse.1 hevent
    exact ⟨hkind, htags, RepoAnnouncement.validate_eq_ok.1 hvalid⟩
  · rintro ⟨hkind, htags, hvalid⟩
    exact ⟨_, hparse.2 ⟨hkind, htags⟩, (), RepoAnnouncement.validate_eq_ok.2 hvalid, rfl⟩

end Nip34Event
end Gittree
