import Gittree.Core.EventRefs
import Gittree.Relay.Store

/-!
# The identifier of a repository

The `d` tags of an announcement or a state are read in three places: by `from_tags`, which keeps the
last one, and by the references between events and the replacement of events in the relay's store,
which keep the first.

* `findDTag_eq_head`, `head_collectTagValues`, `identifier_fromTags`: which `d` tag each of them reads;
* `oneIdentifier_iff`: when they read the same identifier.
-/

namespace Gittree

open Rust

/-- The values of the `d` tags that have one. -/
def dValues (tags : Tags) : List String :=
  tags.filterMap fun tag =>
    match tag with
    | name :: value :: _ => if name = "d" then some value else none
    | _ => none

/-- The references between events read the first. -/
theorem findDTag_eq_head (tags : Tags) : findDTag tags = (dValues tags).head? := by
  unfold dValues
  rw [List.head?_filterMap]
  rfl

/-- The store reads the first. -/
theorem head_collectTagValues (tags : Tags) :
    (collectTagValues tags "d").head? = (dValues tags).head? := by
  induction tags with
  | nil => rfl
  | cons tag tags ih =>
    unfold collectTagValues dValues at ih ⊢
    rw [List.flatMap_cons]
    match tag with
    | [] => simpa using ih
    | [name] =>
      rw [List.filterMap_cons]
      by_cases hname : name = "d"
      · simpa [hname] using ih
      · simpa [hname] using ih
    | name :: value :: rest =>
      rw [List.filterMap_cons]
      by_cases hname : name = "d"
      · simp [hname]
      · simpa [hname] using ih

theorem dValues_append (tags : Tags) (tag : List String) :
    dValues (tags ++ [tag]) = dValues tags ++ dValues [tag] := by
  unfold dValues
  rw [List.filterMap_append]

theorem identifier_ite {c : Prop} [Decidable c] {a b : RepoAnnouncement.Draft} {o : Option String}
    (ha : a.identifier = o) (hb : b.identifier = o) : (if c then a else b).identifier = o := by
  by_cases hc : c
  · rw [if_pos hc, ha]
  · rw [if_neg hc, hb]

/-- A tag of an announcement sets the identifier if it is a `d` tag with a value. -/
theorem identifier_addTag (d : RepoAnnouncement.Draft) (tag : List String) :
    (d.addTag tag).identifier = (dValues [tag]).getLast?.or d.identifier := by
  match tag with
  | [] => rfl
  | [name] =>
    have hnone : dValues [[name]] = [] := rfl
    rw [hnone, RepoAnnouncement.Draft.addTag]
    simp only [apply_ite RepoAnnouncement.Draft.identifier, ite_self, List.getLast?_nil,
      Option.none_or]
  | name :: value :: rest =>
    by_cases hname : name = "d"
    · subst hname
      rfl
    · have hnone : dValues [name :: value :: rest] = [] := by simp [dValues, hname]
      rw [hnone, RepoAnnouncement.Draft.addTag, if_neg hname]
      refine identifier_ite rfl (identifier_ite rfl (identifier_ite ?_ ?_))
      · -- an `r` tag is read by the number of its values
        split
        · rfl
        · exact identifier_ite rfl rfl
        · rfl
      · simp only [apply_ite RepoAnnouncement.Draft.identifier, ite_self, List.getLast?_nil,
          Option.none_or]

/-- A tag of a state likewise. -/
theorem fst_addTag (d : Option String × Map String) (tag : List String) :
    (RepoState.addTag d tag).1 = (dValues [tag]).getLast?.or d.1 := by
  match tag with
  | [] => rfl
  | [name] => rfl
  | name :: value :: rest =>
    unfold RepoState.addTag
    by_cases hname : name = "d"
    · subst hname
      rfl
    · have hnone : dValues [name :: value :: rest] = [] := by simp [dValues, hname]
      rw [hnone]
      simp only [if_neg hname]
      split_ifs
      · rfl
      · rfl

/-- A reader that each `d` tag with a value overwrites keeps the last. -/
theorem foldl_eq_getLast {σ : Type} {identifier : σ → Option String}
    {addTag : σ → List String → σ}
    (h : ∀ d tag, identifier (addTag d tag) = (dValues [tag]).getLast?.or (identifier d)) (d : σ)
    (tags : Tags) :
    identifier (tags.foldl addTag d) = (dValues tags).getLast?.or (identifier d) := by
  induction tags using List.reverseRecOn with
  | nil => rfl
  | append_singleton tags tag ih =>
    rw [List.foldl_append, List.foldl_cons, List.foldl_nil, h, ih, dValues_append,
      List.getLast?_append, Option.or_assoc]

/-- An announcement has the last identifier. -/
theorem identifier_fromTags {tags : Tags} {a : RepoAnnouncement}
    (h : RepoAnnouncement.fromTags tags = .ok a) : (dValues tags).getLast? = some a.identifier := by
  have hfold := foldl_eq_getLast identifier_addTag {} tags
  unfold RepoAnnouncement.fromTags at h
  simp only at h
  split at h
  · cases h
  · rename_i identifier hidentifier
    cases h
    rw [hidentifier] at hfold
    simpa using hfold.symm

/-- A state has the last identifier. -/
theorem identifier_state_fromTags {tags : Tags} {s : RepoState}
    (h : RepoState.fromTags tags = .ok s) : (dValues tags).getLast? = some s.identifier := by
  have hfold := foldl_eq_getLast fst_addTag (none, ∅) tags
  unfold RepoState.fromTags at h
  simp only at h
  split at h
  · cases h
  · rename_i identifier hidentifier
    cases h
    rw [hidentifier] at hfold
    simpa using hfold.symm

/-- The other readers find an identifier: the references between events, and the store for every
event of a kind with the tags. -/
def ReadAs (kind : ℕ) (tags : Tags) (identifier : String) : Prop :=
  findDTag tags = some identifier ∧
    ∀ event : NostrEvent, event.kind = kind → event.tags = tags →
      (replaceableKey event).map ReplaceableKey.identifier = some (some identifier)

/-- For the kinds of repositories the other readers find the first. -/
theorem readAs_iff {kind : ℕ} {tags : Tags} {identifier : String} (hlo : 30000 ≤ kind)
    (hhi : kind < 40000) : ReadAs kind tags identifier ↔ (dValues tags).head? = some identifier := by
  unfold ReadAs
  rw [findDTag_eq_head]
  refine ⟨And.left, fun h => ⟨h, fun event hkind htags => ?_⟩⟩
  have hreplaceable : isReplaceableKind event.kind = false := by
    simp only [isReplaceableKind, hkind, Bool.or_eq_false_iff, Bool.and_eq_false_iff,
      beq_eq_false_iff_ne, decide_eq_false_iff_not]
    omega
  have haddressable : isParameterizedReplaceableKind event.kind = true := by
    simp [isParameterizedReplaceableKind, hkind, hlo, hhi]
  unfold replaceableKey
  rw [if_neg (by simp [hreplaceable]), if_pos haddressable, htags, head_collectTagValues, h]
  rfl

/-- All readers of an announcement or a state find one identifier exactly if its first and its last
`d` tag with a value have the same value. -/
theorem oneIdentifier_iff (tags : Tags) :
    (∀ a, RepoAnnouncement.fromTags tags = .ok a → a.validate = .ok () →
      (ReadAs kindGitRepoAnnouncement tags a.identifier ↔
        (dValues tags).head? = (dValues tags).getLast?)) ∧
    ∀ s, RepoState.fromTags tags = .ok s → s.validate = .ok () →
      (ReadAs kindGitRepoState tags s.identifier ↔
        (dValues tags).head? = (dValues tags).getLast?) := by
  constructor
  · intro a ha _
    rw [readAs_iff (by decide) (by decide), identifier_fromTags ha]
  · intro s hs _
    rw [readAs_iff (by decide) (by decide), identifier_state_fromTags hs]

/-- The tags of an announcement with two identifiers. -/
def twoIdentifiers : Tags :=
  [["d", "first"], ["clone", "https://gittr.ee/npub1example/repo.git"], ["relays", "wss://gittr.ee"],
    ["d", "last"]]

/-- The services read the last identifier, the relay's store and the references the first. -/
theorem not_readAs_twoIdentifiers : ∃ a, RepoAnnouncement.fromTags twoIdentifiers = .ok a ∧
    a.validate = .ok () ∧ ¬ ReadAs kindGitRepoAnnouncement twoIdentifiers a.identifier := by
  have hread : ((Result.toOption (RepoAnnouncement.fromTags twoIdentifiers)).map fun a =>
      (a.identifier, decide (a.validate = .ok ()))) = some ("last", true) := by
    decide +kernel
  obtain ⟨a, ha, heq⟩ := Option.map_eq_some_iff.1 hread
  obtain ⟨hid, hvalid⟩ := Prod.mk.inj heq
  refine ⟨a, Result.toOption_eq_some.1 ha, of_decide_eq_true hvalid, fun h => ?_⟩
  have hfirst := h.1
  rw [hid] at hfirst
  exact absurd hfirst (by decide +kernel)

/-- One identifier is read as that. -/
theorem oneIdentifier_iff_single : ∃ a,
    RepoAnnouncement.fromTags (twoIdentifiers.take 3) = .ok a ∧
      ReadAs kindGitRepoAnnouncement (twoIdentifiers.take 3) a.identifier := by
  have hread : ((Result.toOption (RepoAnnouncement.fromTags (twoIdentifiers.take 3))).map fun a =>
      decide (a.validate = .ok ())) = some true := by
    decide +kernel
  obtain ⟨a, ha, hvalid⟩ := Option.map_eq_some_iff.1 hread
  have ha := Result.toOption_eq_some.1 ha
  exact ⟨a, ha, ((oneIdentifier_iff _).1 a ha (of_decide_eq_true hvalid)).2 (by decide +kernel)⟩

end Gittree
