import Gittree.Core.Nip34Events
import Gittree.Lib.Slot

/-!
# NIP-34 events survive re-encoding

What `Nip34Event::parse` reads is written by `to_tags` and read again as the same event.  Each
decoder is a fold over the tags that updates one slot of a record at a time; each encoder writes
one group of tags for each slot.  Two things make them inverse to each other:

* the list slots that a decoder fills hold no value twice (`nodup_lists` of each type), so that
  adding the values one by one to an empty list gives the list back;
* the tags written for one slot touch that slot only (`foldlM_mapTag`, `foldlM_optionTag`,
  `foldlM_listTag`).

`Nip34Event.parse_toTags` puts the eight types together.
-/

namespace Gittree

open Rust
open RepoAnnouncement (optionTag listTag)

/-! ### Lists without repetitions -/

theorem nodup_pushUnique {target : List String} (h : target.Nodup) (value : String) :
    (pushUnique target value).Nodup := by
  unfold pushUnique
  split_ifs with hv
  · exact h
  · rw [List.nodup_append]
    refine ⟨h, List.nodup_singleton value, ?_⟩
    rintro a ha b hb rfl
    exact hv (List.mem_singleton.1 hb ▸ ha)

theorem nodup_extendUnique {target : List String} (h : target.Nodup) (values : List String) :
    (extendUnique target values).Nodup := by
  unfold extendUnique
  induction values generalizing target with
  | nil => exact h
  | cons v vs ih => exact ih (nodup_pushUnique h v)

theorem extendUnique_eq_append {target values : List String} (h : (target ++ values).Nodup) :
    extendUnique target values = target ++ values := by
  unfold extendUnique
  induction values generalizing target with
  | nil => simp
  | cons v vs ih =>
    have hv : v ∉ target := by
      intro hv
      exact (List.nodup_append.1 h).2.2 v hv v List.mem_cons_self rfl
    have hpush : pushUnique target v = target ++ [v] := if_neg hv
    rw [List.foldl_cons, hpush, ih (by simpa using h)]
    simp

/-- A list without repetitions is rebuilt from nothing. -/
theorem extendUnique_nil {values : List String} (h : values.Nodup) :
    extendUnique [] values = values :=
  extendUnique_eq_append (by simpa using h)

/-! ### The tags of one slot -/

section Slots

variable {ε σ : Type} {add : σ → List String → Except ε σ} {kind : String} {d : σ}

/-- A decoder whose steps cannot fail. -/
def total (add : σ → List String → σ) (d : σ) (tag : List String) : Except CoreError σ :=
  .ok (add d tag)

/-- One tag for each value fills an empty list slot with the values. -/
theorem foldlM_mapTag (S : Slot σ (List String)) {tag : String → List String}
    (h : ∀ d value, add d (tag value) = .ok (S.set d (pushUnique (S.get d) value)))
    {values : List String} (hv : values.Nodup) (hd : S.get d = []) :
    (values.map tag).foldlM add d = .ok (S.set d values) := by
  rw [List.foldlM_map, foldlM_slot S pushUnique fun d value _ => h d value, hd]
  exact congrArg (fun l => Except.ok (S.set d l)) (extendUnique_nil hv)

/-- An optional tag fills an empty slot. -/
theorem foldlM_optionTag (S : Slot σ (Option String)) {rest : List String}
    (h : ∀ d value, add d (kind :: value :: rest) = .ok (S.set d (some value)))
    (value : Option String) (hd : S.get d = none) :
    (optionTag kind value rest).foldlM add d = .ok (S.set d value) := by
  cases value with
  | none =>
    show Except.ok d = Except.ok (S.set d none)
    rw [← hd, S.set_get]
  | some value =>
    show ([kind :: value :: rest] : Tags).foldlM add d = _
    rw [List.foldlM_cons, h]
    rfl

/-- A list tag fills an empty list slot with its values. -/
theorem foldlM_listTag (S : Slot σ (List String))
    (h : ∀ d value rest, add d (kind :: value :: rest) =
      .ok (S.set d (extendUnique (S.get d) (value :: rest))))
    {values : List String} (hv : values.Nodup) (hd : S.get d = []) :
    (listTag kind values).foldlM add d = .ok (S.set d values) := by
  cases values with
  | nil =>
    show Except.ok d = Except.ok (S.set d [])
    rw [← hd, S.set_get]
  | cons value rest =>
    show ([kind :: value :: rest] : Tags).foldlM add d = _
    rw [List.foldlM_cons, h, hd, extendUnique_nil hv]
    rfl

/-- A tag without a value of its own sets a flag. -/
theorem foldlM_flagTag (S : Slot σ Bool) {tag : List String}
    (h : ∀ d, add d tag = .ok (S.set d true)) (flag : Bool) (hd : S.get d = false) :
    (if flag = true then [tag] else []).foldlM add d = .ok (S.set d flag) := by
  cases flag with
  | false =>
    show Except.ok d = Except.ok (S.set d false)
    rw [← hd, S.set_get]
  | true =>
    show ([tag] : Tags).foldlM add d = _
    rw [List.foldlM_cons, h]
    rfl

end Slots

/-! ### Announcements -/

namespace RepoAnnouncement

/-- The lists of a draft hold no value twice. -/
structure Draft.Distinct (d : Draft) : Prop where
  clone : d.clone.Nodup
  web : d.web.Nodup
  relays : d.relays.Nodup
  blossoms : d.blossoms.Nodup
  hashtags : d.hashtags.Nodup
  maintainers : d.maintainers.Nodup

theorem Draft.distinct_addTag {d : Draft} (h : d.Distinct) (tag : List String) :
    (d.addTag tag).Distinct := by
  cases tag with
  | nil => exact h
  | cons t values =>
    simp only [Draft.addTag]
    refine iteInduction (fun _ => ?_) fun _ => ?_
    · cases values <;> exact { h with }
    refine iteInduction (fun _ => ?_) fun _ => ?_
    · cases values <;> exact { h with }
    refine iteInduction (fun _ => ?_) fun _ => ?_
    · cases values <;> exact { h with }
    refine iteInduction (fun _ => ?_) fun _ => ?_
    · split
      · exact { h with }
      · exact iteInduction (fun _ => { h with }) fun _ => h
      · exact h
    refine iteInduction (fun _ => ?_) fun _ => ?_
    · exact { h with clone := nodup_extendUnique h.clone values }
    refine iteInduction (fun _ => ?_) fun _ => ?_
    · exact { h with web := nodup_extendUnique h.web values }
    refine iteInduction (fun _ => ?_) fun _ => ?_
    · exact { h with relays := nodup_extendUnique h.relays values }
    refine iteInduction (fun _ => ?_) fun _ => ?_
    · exact { h with blossoms := nodup_extendUnique h.blossoms values }
    refine iteInduction (fun _ => ?_) fun _ => ?_
    · exact { h with maintainers := nodup_extendUnique h.maintainers values }
    refine iteInduction (fun _ => ?_) fun _ => h
    cases values with
    | nil => exact h
    | cons value rest => exact { h with hashtags := nodup_pushUnique h.hashtags value }

/-- The draft that holds an announcement. -/
def Draft.of (a : RepoAnnouncement) : Draft :=
  ⟨some a.identifier, a.name, a.description, a.rootCommit, a.clone, a.web, a.relays, a.blossoms,
    a.hashtags, a.maintainers⟩

theorem fromTags_eq_ok {tags : Tags} {a : RepoAnnouncement} :
    fromTags tags = .ok a ↔ tags.foldlM (total Draft.addTag) {} = .ok (Draft.of a) := by
  unfold total
  rw [foldlM_ok]
  unfold fromTags
  generalize tags.foldl Draft.addTag {} = d
  rcases d with ⟨_ | identifier, _⟩
  · simp [Draft.of]
  · obtain ⟨⟩ := a
    simp [Draft.of]

theorem distinct_of_fromTags {tags : Tags} {a : RepoAnnouncement} (h : fromTags tags = .ok a) :
    (Draft.of a).Distinct := by
  rw [fromTags_eq_ok] at h
  refine foldlM_invariant ?_ ?_ h
  · rintro d tag d' hd hstep
    cases hstep
    exact Draft.distinct_addTag hd tag
  · constructor <;> exact List.nodup_nil

/-- The tags of an announcement are read as the announcement. -/
theorem fromTags_toTags {a : RepoAnnouncement} (h : (Draft.of a).Distinct) :
    fromTags a.toTags = .ok a := by
  have hd : ([["d", a.identifier]] : Tags).foldlM (total Draft.addTag) {} =
      .ok { identifier := some a.identifier } := rfl
  rw [fromTags_eq_ok, toTags]
  simp only [List.append_assoc]
  -- the tags are read in the order in which they are written, each group into its own slot
  refine foldlM_append_ok hd ?_
  refine foldlM_append_ok (foldlM_optionTag (.mk Draft.name fun d x => { d with name := x })
    (fun _ _ => rfl) a.name rfl) ?_
  refine foldlM_append_ok (foldlM_optionTag
    (.mk Draft.description fun d x => { d with description := x }) (fun _ _ => rfl)
    a.description rfl) ?_
  refine foldlM_append_ok (foldlM_optionTag
    (.mk Draft.rootCommit fun d x => { d with rootCommit := x }) (fun _ _ => rfl)
    a.rootCommit rfl) ?_
  refine foldlM_append_ok (foldlM_listTag (.mk Draft.clone fun d x => { d with clone := x })
    (fun _ _ _ => rfl) h.clone rfl) ?_
  refine foldlM_append_ok (foldlM_listTag (.mk Draft.web fun d x => { d with web := x })
    (fun _ _ _ => rfl) h.web rfl) ?_
  refine foldlM_append_ok (foldlM_listTag (.mk Draft.relays fun d x => { d with relays := x })
    (fun _ _ _ => rfl) h.relays rfl) ?_
  refine foldlM_append_ok (foldlM_listTag (.mk Draft.blossoms fun d x => { d with blossoms := x })
    (fun _ _ _ => rfl) h.blossoms rfl) ?_
  refine foldlM_append_ok (foldlM_listTag
    (.mk Draft.maintainers fun d x => { d with maintainers := x }) (fun _ _ _ => rfl)
    h.maintainers rfl) ?_
  exact foldlM_mapTag (.mk Draft.hashtags fun d x => { d with hashtags := x })
    (fun _ _ => rfl) h.hashtags rfl

end RepoAnnouncement

/-! ### States -/

namespace RepoState

/-- Every entry names a ref and carries a commit or a symbolic ref. -/
def Entries (state : Map String) : Prop :=
  ∀ name value, state[name]? = some value → isStateRef name = true ∧ isStateValue value = true

theorem entries_addTag {d : Option String × Map String} (h : Entries d.2) (tag : List String) :
    Entries (addTag d tag).2 := by
  unfold addTag
  split
  · refine iteInduction (motive := fun d : Option String × Map String => Entries d.2)
      (fun _ => h) fun _ => ?_
    refine iteInduction (motive := fun d : Option String × Map String => Entries d.2)
      (fun hentry => ?_) fun _ => h
    rw [Bool.and_eq_true] at hentry
    intro name value hv
    rw [Map.get_insert] at hv
    split_ifs at hv with hname
    · cases hv
      exact hname ▸ hentry
    · exact h name value hv
  · exact h

theorem fromTags_eq_ok {tags : Tags} {s : RepoState} :
    fromTags tags = .ok s ↔
      tags.foldlM (total addTag) (none, ∅) = .ok (some s.identifier, s.state) := by
  unfold total
  rw [foldlM_ok]
  unfold fromTags
  generalize tags.foldl addTag (none, ∅) = d
  rcases d with ⟨_ | identifier, state⟩
  · simp
  · obtain ⟨⟩ := s
    simp

theorem entries_of_fromTags {tags : Tags} {s : RepoState} (h : fromTags tags = .ok s) :
    Entries s.state := by
  rw [fromTags_eq_ok] at h
  refine foldlM_invariant (P := fun d : Option String × Map String => Entries d.2) ?_ ?_ h
  · rintro d tag d' hd hstep
    cases hstep
    exact entries_addTag hd tag
  · intro name value hv
    simp at hv

/-- The tags of a state are read as the state. -/
theorem fromTags_toTags {s : RepoState} (h : Entries s.state) : fromTags s.toTags = .ok s := by
  have hrefs : ∀ d, ∀ tag ∈ s.state.toList.map fun entry => [entry.1, entry.2],
      total addTag d tag = .ok (d.1, d.2.insert (tag.getD 0 "") (tag.getD 1 "")) := by
    intro d tag htag
    obtain ⟨⟨name, value⟩, hentry, rfl⟩ := List.mem_map.1 htag
    obtain ⟨hname, hvalue⟩ := h name value (Std.ExtTreeMap.mem_toList_iff_getElem?_eq_some.1 hentry)
    have hd : name ≠ "d" := by
      rintro rfl
      exact absurd hname (by decide)
    simp [total, addTag, hd, hname, hvalue]
  rw [fromTags_eq_ok, toTags, List.foldlM_cons]
  show (s.state.toList.map fun entry => [entry.1, entry.2]).foldlM (total addTag)
    (some s.identifier, ∅) = _
  rw [foldlM_slot (.mk Prod.snd fun d x => (d.1, x))
    (fun state tag => state.insert (tag.getD 0 "") (tag.getD 1 "")) hrefs, List.foldl_map]
  exact congrArg (fun state => Except.ok (some s.identifier, state))
    (Map.foldl_insert_toList s.state)

end RepoState

/-! ### Patches -/

/-- A committer that can be written and read. -/
structure CommitterTag.Readable (c : CommitterTag) : Prop where
  name : isText c.name = true
  email : isText c.email = true
  timestamp : -(2 ^ 63 : ℤ) ≤ c.timestamp ∧ c.timestamp < 2 ^ 63
  timezone : -(2 ^ 31 : ℤ) ≤ c.timezoneMinutes ∧ c.timezoneMinutes < 2 ^ 31

namespace CommitterTag

theorem readable_of_fromTag {tag : List String} {c : CommitterTag} (h : fromTag tag = .ok c) :
    c.Readable := by
  unfold fromTag at h
  simp only at h
  split at h
  · rename_i timestamp timezoneMinutes htime hzone
    split_ifs at h with htext
    cases h
    obtain ⟨text, -, htime⟩ := Option.bind_eq_some_iff.1 htime
    obtain ⟨text', -, hzone⟩ := Option.bind_eq_some_iff.1 hzone
    rw [Bool.and_eq_true] at htext
    exact ⟨htext.1, htext.2, by simpa using Str.parseSigned_bounds (by decide) htime,
      by simpa using Str.parseSigned_bounds (by decide) hzone⟩
  · cases h

theorem fromTag_toTag {c : CommitterTag} (h : c.Readable) : fromTag c.toTag = .ok c := by
  have htime : Str.parseSigned (toString c.timestamp) (2 ^ 63) = some c.timestamp :=
    Str.parseSigned_toString (by simpa using h.timestamp.1) (by simpa using h.timestamp.2)
  have hzone : Str.parseSigned (toString c.timezoneMinutes) (2 ^ 31) = some c.timezoneMinutes :=
    Str.parseSigned_toString (by simpa using h.timezone.1) (by simpa using h.timezone.2)
  unfold fromTag toTag
  simp only [List.getElem?_cons_succ, List.getElem?_cons_zero, Option.bind_some, htime, hzone]
  show (if isText c.name && isText c.email then _ else _) = _
  rw [if_pos (by rw [h.name, h.email]; rfl)]
  rfl

end CommitterTag

namespace Patch

/-- The lists of a patch hold no value twice, and its committer can be read. -/
structure Normal (p : Patch) : Prop where
  repoRefs : p.repoRefs.Nodup
  mentions : p.mentions.Nodup
  committer : ∀ c ∈ p.committer, c.Readable

theorem normal_addValue {p : Patch} (h : p.Normal) (t value : String) (tag : List String) :
    (p.addValue t value tag).Normal := by
  unfold addValue
  refine iteInduction (fun _ => ?_) fun _ => ?_
  · exact { h with repoRefs := nodup_pushUnique h.repoRefs value }
  refine iteInduction (fun _ => ?_) fun _ => ?_
  · exact { h with mentions := nodup_pushUnique h.mentions value }
  -- the other tags leave the lists and the committer alone
  refine iteInduction (fun _ => { h with }) fun _ => ?_
  refine iteInduction (fun _ => { h with }) fun _ => ?_
  refine iteInduction (fun _ => { h with }) fun _ => ?_
  refine iteInduction (fun _ => { h with }) fun _ => ?_
  refine iteInduction (fun _ => { h with }) fun _ => ?_
  split <;> exact { h with }

theorem normal_addTag {d d' : Option String × Patch} {tag : List String} (h : d.2.Normal)
    (hd : addTag d tag = .ok d') : d'.2.Normal := by
  unfold addTag at hd
  split_ifs at hd
  · obtain ⟨committer, hc, hd⟩ := Result.bind_eq_ok.1 hd
    rw [Result.pure_eq_ok] at hd
    subst hd
    refine { h with committer := ?_ }
    rintro _ ⟨⟩
    exact CommitterTag.readable_of_fromTag hc
  · split at hd
    · split_ifs at hd <;> cases hd
      · exact h
      · exact normal_addValue h _ _ _
    · cases hd
      exact h

theorem normal_of_fromTags {tags : Tags} {p : Patch} (h : fromTags tags = .ok p) : p.Normal := by
  unfold fromTags at h
  obtain ⟨d, hd, h⟩ := Result.bind_eq_ok.1 h
  obtain ⟨repoAddress, -, h⟩ := Result.bind_eq_ok.1 h
  have hn : d.2.Normal :=
    foldlM_invariant (P := fun d : Option String × Patch => d.2.Normal)
      (fun _ _ _ h hd => normal_addTag h hd) ⟨List.nodup_nil, List.nodup_nil, by simp [draft]⟩ hd
  rw [Result.pure_eq_ok] at h
  subst h
  exact { hn with }

theorem foldlM_committer {committer : Option CommitterTag} (h : ∀ c ∈ committer, c.Readable)
    {d : Option String × Patch} (hd : d.2.committer = none) :
    (committer.toList.map CommitterTag.toTag).foldlM addTag d =
      .ok (d.1, { d.2 with committer := committer }) := by
  cases committer with
  | none =>
    show Except.ok d = Except.ok (d.1, { d.2 with committer := none })
    rw [← hd]
  | some c =>
    have hhead : c.toTag.head? = some "committer" := rfl
    have hstep : addTag d c.toTag = .ok (d.1, { d.2 with committer := some c }) := by
      unfold addTag
      rw [if_pos hhead, CommitterTag.fromTag_toTag (h c rfl)]
      rfl
    show ([c.toTag] : Tags).foldlM addTag d = _
    rw [List.foldlM_cons, hstep]
    rfl

/-- The tags of a patch are read as the patch. -/
theorem fromTags_toTags {p : Patch} (h : p.Normal) : fromTags p.toTags = .ok p := by
  have ha : ([["a", p.repoAddress]] : Tags).foldlM addTag draft =
      .ok (some p.repoAddress, draft.2) := rfl
  have hfold : p.toTags.foldlM addTag draft =
      .ok (some p.repoAddress, { p with repoAddress := "" }) := by
    rw [toTags]
    simp only [List.append_assoc]
    refine foldlM_append_ok ha ?_
    refine foldlM_append_ok (foldlM_mapTag
      (.mk (fun d => d.2.repoRefs) fun d x => (d.1, { d.2 with repoRefs := x }))
      (fun _ _ => rfl) h.repoRefs rfl) ?_
    refine foldlM_append_ok (foldlM_mapTag
      (.mk (fun d => d.2.mentions) fun d x => (d.1, { d.2 with mentions := x }))
      (fun _ _ => rfl) h.mentions rfl) ?_
    refine foldlM_append_ok (foldlM_flagTag
      (.mk (fun d => d.2.isRoot) fun d x => (d.1, { d.2 with isRoot := x }))
      (fun _ => rfl) p.isRoot rfl) ?_
    refine foldlM_append_ok (foldlM_flagTag
      (.mk (fun d => d.2.isRootRevision) fun d x => (d.1, { d.2 with isRootRevision := x }))
      (fun _ => rfl) p.isRootRevision rfl) ?_
    refine foldlM_append_ok (foldlM_optionTag
      (.mk (fun d => d.2.commit) fun d x => (d.1, { d.2 with commit := x }))
      (fun _ _ => rfl) p.commit rfl) ?_
    refine foldlM_append_ok (foldlM_optionTag
      (.mk (fun d => d.2.parentCommit) fun d x => (d.1, { d.2 with parentCommit := x }))
      (fun _ _ => rfl) p.parentCommit rfl) ?_
    refine foldlM_append_ok (foldlM_optionTag
      (.mk (fun d => d.2.commitPgpSig) fun d x => (d.1, { d.2 with commitPgpSig := x }))
      (fun _ _ => rfl) p.commitPgpSig rfl) ?_
    refine foldlM_append_ok (foldlM_optionTag
      (.mk (fun d => d.2.rootEvent) fun d x => (d.1, { d.2 with rootEvent := x }))
      (fun _ _ => rfl) p.rootEvent rfl) ?_
    refine foldlM_append_ok (foldlM_optionTag
      (.mk (fun d => d.2.replyEvent) fun d x => (d.1, { d.2 with replyEvent := x }))
      (fun _ _ => rfl) p.replyEvent rfl) ?_
    exact foldlM_committer h.committer rfl
  unfold fromTags
  rw [hfold]
  rfl

end Patch

/-! ### Pull requests -/

namespace PullRequest

/-- The lists of a draft hold no value twice. -/
structure Draft.Distinct (d : Draft) : Prop where
  repoRefs : d.repoRefs.Nodup
  mentions : d.mentions.Nodup
  labels : d.labels.Nodup
  clone : d.clone.Nodup

theorem Draft.distinct_addTag {d : Draft} (h : d.Distinct) (tag : List String) :
    (d.addTag tag).Distinct := by
  unfold Draft.addTag
  split
  · rename_i t value rest
    refine iteInduction (fun _ => { h with }) fun _ => ?_
    refine iteInduction (fun _ => ?_) fun _ => ?_
    · exact { h with repoRefs := nodup_pushUnique h.repoRefs value }
    refine iteInduction (fun _ => ?_) fun _ => ?_
    · exact { h with mentions := nodup_pushUnique h.mentions value }
    refine iteInduction (fun _ => { h with }) fun _ => ?_
    refine iteInduction (fun _ => ?_) fun _ => ?_
    · exact { h with labels := nodup_pushUnique h.labels value }
    refine iteInduction (fun _ => { h with }) fun _ => ?_
    refine iteInduction (fun _ => ?_) fun _ => ?_
    · exact { h with clone := nodup_extendUnique h.clone (value :: rest) }
    refine iteInduction (fun _ => { h with }) fun _ => ?_
    refine iteInduction (fun _ => { h with }) fun _ => ?_
    exact iteInduction (fun _ => { h with }) fun _ => h
  · exact h

/-- The draft that holds a pull request. -/
def Draft.of (p : PullRequest) : Draft :=
  ⟨some p.repoAddress, p.repoRefs, p.mentions, p.subject, p.labels, some p.tipCommit, p.clone,
    p.branchName, p.revisionOf, p.mergeBase⟩

theorem fromTags_eq_ok {tags : Tags} {p : PullRequest} :
    fromTags tags = .ok p ↔ tags.foldlM (total Draft.addTag) {} = .ok (Draft.of p) := by
  unfold total
  rw [foldlM_ok]
  unfold fromTags
  generalize tags.foldl Draft.addTag {} = d
  simp only [Result.bind_eq_ok, Result.okOr_eq_ok, Result.pure_eq_ok, Except.ok.injEq]
  obtain ⟨⟩ := d
  obtain ⟨⟩ := p
  constructor
  · rintro ⟨_, ⟨⟩, _, ⟨⟩, ⟨⟩⟩
    rfl
  · rintro ⟨⟩
    exact ⟨_, rfl, _, rfl, rfl⟩

theorem distinct_of_fromTags {tags : Tags} {p : PullRequest} (h : fromTags tags = .ok p) :
    (Draft.of p).Distinct := by
  rw [fromTags_eq_ok] at h
  refine foldlM_invariant ?_ ?_ h
  · rintro d tag d' hd hstep
    cases hstep
    exact Draft.distinct_addTag hd tag
  · constructor <;> exact List.nodup_nil

/-- The tags of a pull request are read as the pull request. -/
theorem fromTags_toTags {p : PullRequest} (h : (Draft.of p).Distinct) :
    fromTags p.toTags = .ok p := by
  have ha : ([["a", p.repoAddress]] : Tags).foldlM (total Draft.addTag) {} =
      .ok { repoAddress := some p.repoAddress } := rfl
  have hc : ∀ d : Draft, ([["c", p.tipCommit]] : Tags).foldlM (total Draft.addTag) d =
      .ok { d with tipCommit := some p.tipCommit } := fun _ => rfl
  rw [fromTags_eq_ok, toTags]
  simp only [List.append_assoc]
  refine foldlM_append_ok ha ?_
  refine foldlM_append_ok (foldlM_mapTag (.mk Draft.repoRefs fun d x => { d with repoRefs := x })
    (fun _ _ => rfl) h.repoRefs rfl) ?_
  refine foldlM_append_ok (foldlM_mapTag (.mk Draft.mentions fun d x => { d with mentions := x })
    (fun _ _ => rfl) h.mentions rfl) ?_
  refine foldlM_append_ok (foldlM_optionTag (.mk Draft.subject fun d x => { d with subject := x })
    (fun _ _ => rfl) p.subject rfl) ?_
  refine foldlM_append_ok (foldlM_mapTag (.mk Draft.labels fun d x => { d with labels := x })
    (fun _ _ => rfl) h.labels rfl) ?_
  refine foldlM_append_ok (hc _) ?_
  refine foldlM_append_ok (foldlM_listTag (.mk Draft.clone fun d x => { d with clone := x })
    (fun _ _ _ => rfl) h.clone rfl) ?_
  refine foldlM_append_ok (foldlM_optionTag
    (.mk Draft.branchName fun d x => { d with branchName := x }) (fun _ _ => rfl)
    p.branchName rfl) ?_
  refine foldlM_append_ok (foldlM_optionTag
    (.mk Draft.revisionOf fun d x => { d with revisionOf := x }) (fun _ _ => rfl)
    p.revisionOf rfl) ?_
  exact foldlM_optionTag (.mk Draft.mergeBase fun d x => { d with mergeBase := x })
    (fun _ _ => rfl) p.mergeBase rfl

end PullRequest

namespace PullRequestUpdate

/-- The lists of a draft hold no value twice. -/
structure Draft.Distinct (d : Draft) : Prop where
  repoRefs : d.repoRefs.Nodup
  mentions : d.mentions.Nodup
  clone : d.clone.Nodup

theorem Draft.distinct_addTag {d : Draft} (h : d.Distinct) (tag : List String) :
    (d.addTag tag).Distinct := by
  unfold Draft.addTag
  split
  · rename_i t value rest
    refine iteInduction (fun _ => { h with }) fun _ => ?_
    refine iteInduction (fun _ => ?_) fun _ => ?_
    · exact { h with repoRefs := nodup_pushUnique h.repoRefs value }
    refine iteInduction (fun _ => ?_) fun _ => ?_
    · exact { h with mentions := nodup_pushUnique h.mentions value }
    refine iteInduction (fun _ => { h with }) fun _ => ?_
    refine iteInduction (fun _ => { h with }) fun _ => ?_
    refine iteInduction (fun _ => { h with }) fun _ => ?_
    refine iteInduction (fun _ => ?_) fun _ => ?_
    · exact { h with clone := nodup_extendUnique h.clone (value :: rest) }
    exact iteInduction (fun _ => { h with }) fun _ => h
  · exact h

/-- The draft that holds an update. -/
def Draft.of (p : PullRequestUpdate) : Draft :=
  ⟨some p.repoAddress, p.repoRefs, p.mentions, some p.rootEventId, some p.rootAuthor,
    some p.tipCommit, p.clone, p.mergeBase⟩

theorem fromTags_eq_ok {tags : Tags} {p : PullRequestUpdate} :
    fromTags tags = .ok p ↔ tags.foldlM (total Draft.addTag) {} = .ok (Draft.of p) := by
  unfold total
  rw [foldlM_ok]
  unfold fromTags
  generalize tags.foldl Draft.addTag {} = d
  simp only [Result.bind_eq_ok, Result.okOr_eq_ok, Result.pure_eq_ok, Except.ok.injEq]
  obtain ⟨⟩ := d
  obtain ⟨⟩ := p
  constructor
  · rintro ⟨_, ⟨⟩, _, ⟨⟩, _, ⟨⟩, _, ⟨⟩, ⟨⟩⟩
    rfl
  · rintro ⟨⟩
    exact ⟨_, rfl, _, rfl, _, rfl, _, rfl, rfl⟩

theorem distinct_of_fromTags {tags : Tags} {p : PullRequestUpdate} (h : fromTags tags = .ok p) :
    (Draft.of p).Distinct := by
  rw [fromTags_eq_ok] at h
  refine foldlM_invariant ?_ ?_ h
  · rintro d tag d' hd hstep
    cases hstep
    exact Draft.distinct_addTag hd tag
  · constructor <;> exact List.nodup_nil

/-- The tags of an update are read as the update. -/
theorem fromTags_toTags {p : PullRequestUpdate} (h : (Draft.of p).Distinct) :
    fromTags p.toTags = .ok p := by
  have ha : ([["a", p.repoAddress]] : Tags).foldlM (total Draft.addTag) {} =
      .ok { repoAddress := some p.repoAddress } := rfl
  have hroot : ∀ d : Draft, ([["E", p.rootEventId], ["P", p.rootAuthor], ["c", p.tipCommit]] :
      Tags).foldlM (total Draft.addTag) d =
      .ok { d with rootEventId := some p.rootEventId, rootAuthor := some p.rootAuthor,
                   tipCommit := some p.tipCommit } := fun _ => rfl
  rw [fromTags_eq_ok, toTags]
  simp only [List.append_assoc]
  refine foldlM_append_ok ha ?_
  refine foldlM_append_ok (foldlM_mapTag (.mk Draft.repoRefs fun d x => { d with repoRefs := x })
    (fun _ _ => rfl) h.repoRefs rfl) ?_
  refine foldlM_append_ok (foldlM_mapTag (.mk Draft.mentions fun d x => { d with mentions := x })
    (fun _ _ => rfl) h.mentions rfl) ?_
  refine foldlM_append_ok (hroot _) ?_
  refine foldlM_append_ok (foldlM_listTag (.mk Draft.clone fun d x => { d with clone := x })
    (fun _ _ _ => rfl) h.clone rfl) ?_
  exact foldlM_optionTag (.mk Draft.mergeBase fun d x => { d with mergeBase := x })
    (fun _ _ => rfl) p.mergeBase rfl

end PullRequestUpdate

/-! ### Issues -/

namespace Issue

/-- The lists of an issue hold no value twice. -/
structure Distinct (i : Issue) : Prop where
  mentions : i.mentions.Nodup
  labels : i.labels.Nodup

theorem distinct_addTag {d : Option String × Issue} (h : d.2.Distinct) (tag : List String) :
    (addTag d tag).2.Distinct := by
  let P := fun d : Option String × Issue => d.2.Distinct
  unfold addTag
  split
  · rename_i t value rest
    refine iteInduction (motive := P) (fun _ => h) fun _ => ?_
    refine iteInduction (motive := P) (fun _ => ?_) fun _ => ?_
    · exact { h with mentions := nodup_pushUnique h.mentions value }
    refine iteInduction (motive := P) (fun _ => { h with }) fun _ => ?_
    refine iteInduction (motive := P) (fun _ => ?_) fun _ => h
    exact { h with labels := nodup_pushUnique h.labels value }
  · exact h

theorem distinct_of_fromTags {tags : Tags} {i : Issue} (h : fromTags tags = .ok i) :
    i.Distinct := by
  unfold fromTags at h
  obtain ⟨repoAddress, -, h⟩ := Result.bind_eq_ok.1 h
  have hd : (tags.foldl addTag (none, ⟨"", [], none, []⟩)).2.Distinct := by
    refine foldlM_invariant (P := fun d : Option String × Issue => d.2.Distinct) ?_ ?_
      (foldlM_ok (ε := CoreError) tags _)
    · rintro d tag d' hd hstep
      cases hstep
      exact distinct_addTag hd tag
    · exact ⟨List.nodup_nil, List.nodup_nil⟩
  rw [Result.pure_eq_ok] at h
  subst h
  exact { hd with }

/-- The tags of an issue are read as the issue. -/
theorem fromTags_toTags {i : Issue} (h : i.Distinct) : fromTags i.toTags = .ok i := by
  have ha : ([["a", i.repoAddress]] : Tags).foldlM (total addTag) (none, ⟨"", [], none, []⟩) =
      .ok (some i.repoAddress, ⟨"", [], none, []⟩) := rfl
  have hfold : i.toTags.foldlM (total addTag) (none, ⟨"", [], none, []⟩) =
      .ok (some i.repoAddress, { i with repoAddress := "" }) := by
    rw [toTags]
    simp only [List.append_assoc]
    refine foldlM_append_ok ha ?_
    refine foldlM_append_ok (foldlM_mapTag
      (.mk (fun d => d.2.mentions) fun d x => (d.1, { d.2 with mentions := x }))
      (fun _ _ => rfl) h.mentions rfl) ?_
    refine foldlM_append_ok (foldlM_optionTag
      (.mk (fun d => d.2.subject) fun d x => (d.1, { d.2 with subject := x }))
      (fun _ _ => rfl) i.subject rfl) ?_
    exact foldlM_mapTag
      (.mk (fun d : Option String × Issue => d.2.labels) fun d x => (d.1, { d.2 with labels := x }))
      (fun _ _ => rfl) h.labels rfl
  unfold total at hfold
  rw [foldlM_ok, Except.ok.injEq] at hfold
  unfold fromTags
  rw [hfold]
  rfl

end Issue

/-! ### Status -/

namespace StatusEvent

/-- The lists of a status hold no value twice; the applied refs may repeat. -/
structure Distinct (e : StatusEvent) : Prop where
  replyEvents : e.replyEvents.Nodup
  mentions : e.mentions.Nodup
  repoRefs : e.repoRefs.Nodup
  appliedAsCommits : e.appliedAsCommits.Nodup

theorem distinct_addEvent {d d' : Option String × StatusEvent} {eventId : String}
    {marker : Option String} (h : d.2.Distinct) (hd : addEvent d eventId marker = .ok d') :
    d'.2.Distinct := by
  unfold addEvent at hd
  split at hd
  · obtain ⟨-, -, hd⟩ := Result.bind_eq_ok.1 hd
    rw [Result.pure_eq_ok] at hd
    subst hd
    exact h
  · cases hd
    exact { h with replyEvents := nodup_pushUnique h.replyEvents eventId }
  · cases hd
    exact h

theorem distinct_addValue {e : StatusEvent} (h : e.Distinct) (t value : String)
    (values : List String) : (e.addValue t value values).Distinct := by
  unfold addValue
  refine iteInduction (fun _ => { h with }) fun _ => ?_
  refine iteInduction (fun _ => ?_) fun _ => ?_
  · exact { h with mentions := nodup_pushUnique h.mentions value }
  refine iteInduction (fun _ => ?_) fun _ => ?_
  · exact { h with repoRefs := nodup_pushUnique h.repoRefs value }
  refine iteInduction (fun _ => ?_) fun _ => ?_
  · exact { h with appliedAsCommits := nodup_extendUnique h.appliedAsCommits values }
  exact iteInduction (fun _ => { h with }) fun _ => h

theorem distinct_addTag {d d' : Option String × StatusEvent} {tag : List String}
    (h : d.2.Distinct) (hd : addTag d tag = .ok d') : d'.2.Distinct := by
  unfold addTag at hd
  split at hd
  · exact distinct_addEvent h hd
  · split_ifs at hd
    · obtain ⟨applied, -, hd⟩ := Result.bind_eq_ok.1 hd
      rw [Result.pure_eq_ok] at hd
      subst hd
      exact { h with }
    · split at hd
      · cases hd
        exact distinct_addValue h _ _ _
      · cases hd
        exact h

theorem distinct_of_fromTags {tags : Tags} {e : StatusEvent} (h : fromTags tags = .ok e) :
    e.Distinct := by
  unfold fromTags at h
  obtain ⟨d, hd, h⟩ := Result.bind_eq_ok.1 h
  obtain ⟨rootEvent, -, h⟩ := Result.bind_eq_ok.1 h
  have hn : d.2.Distinct :=
    foldlM_invariant (P := fun d : Option String × StatusEvent => d.2.Distinct)
      (fun _ _ _ h hd => distinct_addTag h hd)
      ⟨List.nodup_nil, List.nodup_nil, List.nodup_nil, List.nodup_nil⟩ hd
  rw [Result.pure_eq_ok] at h
  subst h
  exact { hn with }

theorem foldlM_applied (refs : List StatusAppliedRef) {d : Option String × StatusEvent}
    (hd : d.2.appliedRefs = []) :
    (refs.map fun applied => ["q", applied.eventId, applied.relay, applied.pubkey]).foldlM addTag
      d = .ok (d.1, { d.2 with appliedRefs := refs }) := by
  -- each tag appends its own ref, so the list of the draft stays in front
  have happend : ∀ (refs : List StatusAppliedRef) (d : Option String × StatusEvent),
      (refs.map fun applied => ["q", applied.eventId, applied.relay, applied.pubkey]).foldlM
        addTag d = .ok (d.1, { d.2 with appliedRefs := d.2.appliedRefs ++ refs }) := by
    intro refs
    induction refs with
    | nil =>
      intro d
      rw [List.append_nil]
      rfl
    | cons applied rest ih =>
      intro d
      rw [List.map_cons, List.foldlM_cons]
      show (rest.map fun applied => ["q", applied.eventId, applied.relay, applied.pubkey]).foldlM
        addTag (d.1, { d.2 with appliedRefs := d.2.appliedRefs ++ [applied] }) = _
      rw [ih]
      simp
  rw [happend, hd, List.nil_append]

/-- The tags of a status are read as the status. -/
theorem fromTags_toTags {e : StatusEvent} (h : e.Distinct) : fromTags e.toTags = .ok e := by
  have hroot : ([markedTag e.rootEvent "root"] : Tags).foldlM addTag
      (none, ⟨"", [], [], none, [], [], none, []⟩) =
      .ok (some e.rootEvent, ⟨"", [], [], none, [], [], none, []⟩) := by
    simp [markedTag, addTag, parseETag, addEvent, Result.ensure, bind, Except.bind, pure,
      Except.pure]
  have hfold : e.toTags.foldlM addTag (none, ⟨"", [], [], none, [], [], none, []⟩) =
      .ok (some e.rootEvent, { e with rootEvent := "" }) := by
    rw [toTags]
    simp only [List.append_assoc]
    refine foldlM_append_ok hroot ?_
    refine foldlM_append_ok (foldlM_mapTag
      (.mk (fun d => d.2.replyEvents) fun d x => (d.1, { d.2 with replyEvents := x }))
      (fun _ _ => rfl) h.replyEvents rfl) ?_
    refine foldlM_append_ok (foldlM_mapTag
      (.mk (fun d => d.2.mentions) fun d x => (d.1, { d.2 with mentions := x }))
      (fun _ _ => rfl) h.mentions rfl) ?_
    refine foldlM_append_ok (foldlM_optionTag
      (.mk (fun d => d.2.repoAddress) fun d x => (d.1, { d.2 with repoAddress := x }))
      (fun _ _ => rfl) e.repoAddress rfl) ?_
    refine foldlM_append_ok (foldlM_mapTag
      (.mk (fun d => d.2.repoRefs) fun d x => (d.1, { d.2 with repoRefs := x }))
      (fun _ _ => rfl) h.repoRefs rfl) ?_
    refine foldlM_append_ok (foldlM_applied e.appliedRefs rfl) ?_
    refine foldlM_append_ok (foldlM_optionTag
      (.mk (fun d => d.2.mergeCommit) fun d x => (d.1, { d.2 with mergeCommit := x }))
      (fun _ _ => rfl) e.mergeCommit rfl) ?_
    exact foldlM_listTag
      (.mk (fun d : Option String × StatusEvent => d.2.appliedAsCommits)
        fun d x => (d.1, { d.2 with appliedAsCommits := x }))
      (fun _ _ _ => rfl) h.appliedAsCommits rfl
  unfold fromTags
  rw [hfold]
  rfl

end StatusEvent

/-! ### Lists of servers -/

namespace UserGraspList

/-- The loop of `from_tags_lossy`. -/
def addTag (urls : List String) (tag : List String) : List String :=
  match tag with
  | t :: value :: _ => if t = "g" then pushUnique urls value else urls
  | _ => urls

theorem fromTagsLossy_eq (tags : Tags) : fromTagsLossy tags = ⟨tags.foldl addTag []⟩ := rfl

theorem nodup_urls (tags : Tags) : (fromTagsLossy tags).urls.Nodup := by
  rw [fromTagsLossy_eq]
  refine foldlM_invariant (P := List.Nodup) ?_ List.nodup_nil (foldlM_ok (ε := CoreError) tags _)
  rintro urls tag _ hd ⟨⟩
  unfold addTag
  split
  · exact iteInduction (fun _ => nodup_pushUnique hd _) fun _ => hd
  · exact hd

/-- The tags of a list are read as the list. -/
theorem fromTagsLossy_toTags {l : UserGraspList} (h : l.urls.Nodup) :
    fromTagsLossy l.toTags = l := by
  have hfold : l.toTags.foldlM (total addTag) [] = .ok l.urls :=
    foldlM_mapTag (.mk id fun _ x => x) (fun _ _ => rfl) h rfl
  unfold total at hfold
  rw [foldlM_ok, Except.ok.injEq] at hfold
  rw [fromTagsLossy_eq, hfold]

end UserGraspList

/-! ### Events of any kind -/

namespace Nip34Event

/-- The kind that is read is the kind of the event. -/
theorem kind_of_parse {k : ℕ} {tags : Tags} {e : Nip34Event} (h : parse k tags = .ok e) :
    e.kind = k := by
  unfold parse at h
  split_ifs at h with h1 h2 h3 h4 h5 h6 h7 h8
  · obtain ⟨_, -, rfl⟩ := Result.map_eq_ok.1 h
    exact h1.symm
  · obtain ⟨_, -, rfl⟩ := Result.map_eq_ok.1 h
    exact h2.symm
  · obtain ⟨_, -, rfl⟩ := Result.map_eq_ok.1 h
    exact h3.symm
  · obtain ⟨_, -, rfl⟩ := Result.map_eq_ok.1 h
    exact h4.symm
  · obtain ⟨_, -, rfl⟩ := Result.map_eq_ok.1 h
    exact h5.symm
  · obtain ⟨_, -, rfl⟩ := Result.map_eq_ok.1 h
    exact h6.symm
  · obtain ⟨_, -, rfl⟩ := Result.map_eq_ok.1 h
    rfl
  · cases h
    exact h8.symm

/-- The tags of an event that was read are read under the same kind as the same event. -/
theorem parse_of_parse {k : ℕ} {tags : Tags} {e : Nip34Event} (h : parse k tags = .ok e) :
    parse k e.toTags = .ok e := by
  unfold parse at h
  split_ifs at h with h1 h2 h3 h4 h5 h6 h7 h8
  · obtain ⟨event, hevent, rfl⟩ := Result.map_eq_ok.1 h
    rw [parse, if_pos h1, toTags,
      RepoAnnouncement.fromTags_toTags (RepoAnnouncement.distinct_of_fromTags hevent)]
    rfl
  · obtain ⟨event, hevent, rfl⟩ := Result.map_eq_ok.1 h
    rw [parse, if_neg h1, if_pos h2, toTags,
      RepoState.fromTags_toTags (RepoState.entries_of_fromTags hevent)]
    rfl
  · obtain ⟨event, hevent, rfl⟩ := Result.map_eq_ok.1 h
    rw [parse, if_neg h1, if_neg h2, if_pos h3, toTags,
      Patch.fromTags_toTags (Patch.normal_of_fromTags hevent)]
    rfl
  · obtain ⟨event, hevent, rfl⟩ := Result.map_eq_ok.1 h
    rw [parse, if_neg h1, if_neg h2, if_neg h3, if_pos h4, toTags,
      PullRequest.fromTags_toTags (PullRequest.distinct_of_fromTags hevent)]
    rfl
  · obtain ⟨event, hevent, rfl⟩ := Result.map_eq_ok.1 h
    rw [parse, if_neg h1, if_neg h2, if_neg h3, if_neg h4, if_pos h5, toTags,
      PullRequestUpdate.fromTags_toTags (PullRequestUpdate.distinct_of_fromTags hevent)]
    rfl
  · obtain ⟨event, hevent, rfl⟩ := Result.map_eq_ok.1 h
    rw [parse, if_neg h1, if_neg h2, if_neg h3, if_neg h4, if_neg h5, if_pos h6, toTags,
      Issue.fromTags_toTags (Issue.distinct_of_fromTags hevent)]
    rfl
  · obtain ⟨event, hevent, rfl⟩ := Result.map_eq_ok.1 h
    rw [parse, if_neg h1, if_neg h2, if_neg h3, if_neg h4, if_neg h5, if_neg h6, if_pos h7, toTags,
      StatusEvent.fromTags_toTags (StatusEvent.distinct_of_fromTags hevent)]
    rfl
  · cases h
    rw [parse, if_neg h1, if_neg h2, if_neg h3, if_neg h4, if_neg h5, if_neg h6, if_neg h7,
      if_pos h8, toTags, UserGraspList.fromTagsLossy_toTags (UserGraspList.nodup_urls tags)]

/-- What is read from a kind and tags is read again from the kind and the tags of the event, and
these tags are written again as they are. -/
theorem parse_toTags {k : ℕ} {tags : Tags} {e : Nip34Event} (h : parse k tags = .ok e) :
    parse e.kind e.toTags = .ok e ∧
      (parse e.kind e.toTags).map Nip34Event.toTags = .ok e.toTags := by
  rw [kind_of_parse h, parse_of_parse h]
  exact ⟨rfl, rfl⟩

/-- A status with a root named twice, a reply repeated and an unmarked `e` tag. -/
theorem parse_toTags_status :
    parse 1630 [["e", "aa", "", "root"], ["e", "bb", "", "reply"], ["e", "aa", "wss://r", "root"],
        ["e", "bb", "x", "reply"], ["e", "cc"], ["p"]] =
      .ok (.status 1630 ⟨"aa", ["bb"], [], none, [], [], none, []⟩) ∧
    parse 1630 [["e", "aa", "", "root"], ["e", "bb", "", "reply"]] =
      .ok (.status 1630 ⟨"aa", ["bb"], [], none, [], [], none, []⟩) := by
  have h : parse 1630 [["e", "aa", "", "root"], ["e", "bb", "", "reply"],
      ["e", "aa", "wss://r", "root"], ["e", "bb", "x", "reply"], ["e", "cc"], ["p"]] =
      .ok (.status 1630 ⟨"aa", ["bb"], [], none, [], [], none, []⟩) := by rfl
  exact ⟨h, (parse_toTags h).1⟩

end Nip34Event
end Gittree
