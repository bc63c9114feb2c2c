import Gittree.Core.Nip34RoundTrip

/-!
# Events that pass validation

`Nip34Event::validate` judges an event before it is signed, and whoever receives it reads it with
`parse_validated`.  An event need not come from tags, and so its fields may hold what no tags carry: a
committer without a name, or a status of a kind that is not that of a status.

* `parseValidated_toTags_iff`: the valid events that are read as they were.
-/

namespace Gittree
namespace Nip34Event

open Rust

/-- The lists of an event hold no value twice. -/
def Distinct : Nip34Event → Prop
  | .repoAnnouncement event => (RepoAnnouncement.Draft.of event).Distinct
  | .repoState _ => True
  | .patch event => event.repoRefs.Nodup ∧ event.mentions.Nodup
  | .pullRequest event => (PullRequest.Draft.of event).Distinct
  | .pullRequestUpdate event => (PullRequestUpdate.Draft.of event).Distinct
  | .issue event => event.Distinct
  | .status _ event => event.Distinct
  | .userGraspList event => event.urls.Nodup

/-- The numbers of a committer are an `i64` and an `i32`. -/
def InRange : Nip34Event → Prop
  | .patch event => ∀ c ∈ event.committer,
      (-(2 ^ 63 : ℤ) ≤ c.timestamp ∧ c.timestamp < 2 ^ 63) ∧
        -(2 ^ 31 : ℤ) ≤ c.timezoneMinutes ∧ c.timezoneMinutes < 2 ^ 31
  | _ => True

/-- The committer of a patch has a name and an email address, and the kind of a status is one of the
four. -/
def Readable : Nip34Event → Prop
  | .patch event => ∀ c ∈ event.committer, isText c.name = true ∧ isText c.email = true
  | .status kind _ => isStatusKind kind = true
  | _ => True

/-- What is read is readable. -/
theorem readable_of_parse {k : ℕ} {tags : Tags} {e : Nip34Event} (h : parse k tags = .ok e) :
    e.Readable := by
  unfold parse at h
  split_ifs at h with h1 h2 h3 h4 h5 h6 h7 h8
  · obtain ⟨event, -, rfl⟩ := Result.map_eq_ok.1 h
    trivial
  · obtain ⟨event, -, rfl⟩ := Result.map_eq_ok.1 h
    trivial
  · obtain ⟨event, hevent, rfl⟩ := Result.map_eq_ok.1 h
    intro c hc
    have hreadable := (Patch.normal_of_fromTags hevent).committer c hc
    exact ⟨hreadable.name, hreadable.email⟩
  · obtain ⟨event, -, rfl⟩ := Result.map_eq_ok.1 h
    trivial
  · obtain ⟨event, -, rfl⟩ := Result.map_eq_ok.1 h
    trivial
  · obtain ⟨event, -, rfl⟩ := Result.map_eq_ok.1 h
    trivial
  · obtain ⟨event, -, rfl⟩ := Result.map_eq_ok.1 h
    exact h7
  · cases h
    trivial

/-- The kinds of a status are those of no other event. -/
theorem parse_of_isStatusKind {kind : ℕ} (h : isStatusKind kind = true) (tags : Tags) :
    parse kind tags = (StatusEvent.fromTags tags).map (.status kind) := by
  have hother : ∀ other, isStatusKind other = false → kind ≠ other := by
    rintro other hother rfl
    rw [h] at hother
    cases hother
  rw [parse, if_neg (hother _ (by decide)), if_neg (hother _ (by decide)),
    if_neg (hother _ (by decide)), if_neg (hother _ (by decide)), if_neg (hother _ (by decide)),
    if_neg (hother _ (by decide)), if_pos h]

/-- A readable event that holds no value twice and passes validation is read from its tags. -/
theorem parse_toTags_of_readable {parseUrl : String → Option Url} {e : Nip34Event}
    (hdistinct : e.Distinct) (hrange : e.InRange) (hvalid : e.validate parseUrl = .ok ())
    (hreadable : e.Readable) : parse e.kind e.toTags = .ok e := by
  cases e with
  | repoAnnouncement event =>
    show (RepoAnnouncement.fromTags event.toTags).map _ = _
    rw [RepoAnnouncement.fromTags_toTags hdistinct]
    rfl
  | repoState event =>
    show (RepoState.fromTags event.toTags).map _ = _
    rw [RepoState.fromTags_toTags fun name value => RepoState.entry_of_validate hvalid]
    rfl
  | patch event =>
    have hcommitter : ∀ c ∈ event.committer, c.Readable := by
      intro c hc
      obtain ⟨hname, hemail⟩ := hreadable c hc
      obtain ⟨htime, hzone⟩ := hrange c hc
      exact ⟨hname, hemail, htime, hzone⟩
    show (Patch.fromTags event.toTags).map _ = _
    rw [Patch.fromTags_toTags ⟨hdistinct.1, hdistinct.2, hcommitter⟩]
    rfl
  | pullRequest event =>
    show (PullRequest.fromTags event.toTags).map _ = _
    rw [PullRequest.fromTags_toTags hdistinct]
    rfl
  | pullRequestUpdate event =>
    show (PullRequestUpdate.fromTags event.toTags).map _ = _
    rw [PullRequestUpdate.fromTags_toTags hdistinct]
    rfl
  | issue event =>
    show (Issue.fromTags event.toTags).map _ = _
    rw [Issue.fromTags_toTags hdistinct]
    rfl
  | status kind event =>
    show parse kind event.toTags = _
    rw [parse_of_isStatusKind hreadable, StatusEvent.fromTags_toTags hdistinct]
    rfl
  | userGraspList event =>
    show Except.ok (userGraspList (UserGraspList.fromTagsLossy event.toTags)) = _
    rw [UserGraspList.fromTagsLossy_toTags hdistinct]

/-- The valid events without repetitions that their readers read as they were. -/
theorem parseValidated_toTags_iff {parseUrl : String → Option Url} {e : Nip34Event}
    (hdistinct : e.Distinct) (hrange : e.InRange) (hvalid : e.validate parseUrl = .ok ()) :
    parseValidated parseUrl e.kind e.toTags = .ok e ↔ e.Readable := by
  unfold parseValidated
  constructor
  · intro h
    obtain ⟨event, hevent, h⟩ := Result.bind_eq_ok.1 h
    obtain ⟨-, -, h⟩ := Result.bind_eq_ok.1 h
    obtain rfl := Result.pure_eq_ok.1 h
    exact readable_of_parse hevent
  · intro hreadable
    have hparse := parse_toTags_of_readable hdistinct hrange hvalid hreadable
    exact Result.bind_eq_ok.2 ⟨e, hparse, Result.bind_eq_ok.2 ⟨(), hvalid, rfl⟩⟩

/-! ### A patch without a committer's name -/

/-- A patch of a committer with a name. -/
def signedPatch (name : String) : Patch where
  repoAddress := "30617:1111111111111111111111111111111111111111111111111111111111111111:repo"
  repoRefs := []
  mentions := []
  rootEvent := none
  replyEvent := none
  isRoot := true
  isRootRevision := false
  commit := some "0123456789abcdef0123456789abcdef01234567"
  parentCommit := none
  commitPgpSig := none
  committer := some ⟨name, "alice@example.com", 1700000000, -60⟩

theorem distinct_signedPatch (name : String) : (patch (signedPatch name)).Distinct :=
  ⟨List.nodup_nil, List.nodup_nil⟩

theorem inRange_signedPatch (name : String) : (patch (signedPatch name)).InRange := by
  rintro c ⟨⟩
  norm_num

theorem validate_signedPatch (parseUrl : String → Option Url) (name : String) :
    (patch (signedPatch name)).validate parseUrl = .ok () := by
  show (signedPatch "").validate = .ok ()
  decide +kernel

theorem parseValidated_toTags_named :
    parseValidated (fun _ => none) (patch (signedPatch "Alice")).kind
      (patch (signedPatch "Alice")).toTags = .ok (patch (signedPatch "Alice")) := by
  refine (parseValidated_toTags_iff (distinct_signedPatch _) (inRange_signedPatch _)
    (validate_signedPatch _ _)).2 ?_
  rintro c ⟨⟩
  decide

/-- A valid patch that is not read. -/
theorem parseValidated_toTags_unnamed :
    (patch (signedPatch "")).Distinct ∧ (patch (signedPatch "")).validate (fun _ => none) = .ok () ∧
      parseValidated (fun _ => none) (patch (signedPatch "")).kind
        (patch (signedPatch "")).toTags ≠ .ok (patch (signedPatch "")) := by
  refine ⟨distinct_signedPatch _, validate_signedPatch _ _, ?_⟩
  intro h
  obtain ⟨event, hevent, h⟩ := Result.bind_eq_ok.1 h
  obtain ⟨-, -, h⟩ := Result.bind_eq_ok.1 h
  obtain rfl := Result.pure_eq_ok.1 h
  have hname := (readable_of_parse hevent _ rfl).1
  exact absurd hname (by decide)

end Nip34Event
end Gittree
