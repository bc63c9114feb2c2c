import Gittree.Core.Nip34
import Gittree.Lib.Newest
import Gittree.Lib.Search

/-!
# Maintainers among events

`crates/core/src/repo_events.rs`: the announcement of a key is the first one in a list of events, and
the maintainers of a repository are collected from it by following the keys that announcements list.

The state of a repository is read from the newest state event of its maintainers, whatever
repository that event is for.

* `collectMaintainers_eq_some`: the search ends;
* `mem_collectMaintainers`: what it collects;
* `answersFor_iff`: when the state is that of the repository asked about.
-/

namespace Gittree

open Rust

/-- `NostrEvent` of the core crate. -/
structure CoreEvent where
  kind : ℕ
  pubkey : String
  createdAt : ℤ
  tags : Tags
  deriving DecidableEq, Repr

/-- The announcement that an event is for a key and an identifier. -/
def CoreEvent.announcement (event : CoreEvent) (pubkey identifier : String) :
    Option RepoAnnouncement :=
  if event.kind ≠ kindGitRepoAnnouncement ∨ event.pubkey ≠ pubkey then none
  else (Result.toOption (RepoAnnouncement.fromTags event.tags)).filter fun a =>
    a.identifier = identifier

/-- `find_repo_announcement`. -/
def findRepoAnnouncement (events : List CoreEvent) (pubkey identifier : String) :
    Option RepoAnnouncement :=
  events.findSome? fun event => event.announcement pubkey identifier

/-- The keys that the announcement of a key lists. -/
def foundMaintainers (events : List CoreEvent) (identifier pubkey : String) :
    Option (List String) :=
  (findRepoAnnouncement events pubkey identifier).map RepoAnnouncement.maintainers

/-- `collect_maintainers_inner`, with fuel for the depth of its calls; the identifier of a found
announcement is the one that was looked for. -/
def collectMaintainersInner (events : List CoreEvent) (identifier : String) :
    ℕ → String → List String → Option (List String) :=
  Search.collect (foundMaintainers events identifier)

/-- The announcements that can be read. -/
def announcements (events : List CoreEvent) : List RepoAnnouncement :=
  events.filterMap fun event => Result.toOption (RepoAnnouncement.fromTags event.tags)

/-- The keys that any announcement lists. -/
def listedMaintainers (events : List CoreEvent) : List String :=
  (announcements events).flatMap RepoAnnouncement.maintainers

/-- `collect_maintainers`; `none` would be a recursion that does not end. -/
def collectMaintainers (events : List CoreEvent) (pubkey identifier : String) :
    Option (List String) :=
  let fuel := (listedMaintainers events).length + 2
  (collectMaintainersInner events identifier fuel pubkey []).map Str.sort

/-- The clone URLs that `collect_clone_urls` takes from one event. -/
def CoreEvent.cloneUrls (event : CoreEvent) (maintainers : List String) (identifier : String) :
    List String :=
  if event.kind ≠ kindGitRepoAnnouncement ∨ event.pubkey ∉ maintainers then []
  else
    match RepoAnnouncement.fromTags event.tags with
    | .error _ => []
    | .ok a =>
      if a.identifier ≠ identifier then []
      else (a.clone.map fun clone => Str.trimEndMatches clone '/').filter fun url => url ≠ ""

/-- `collect_clone_urls`; without maintainers every event is passed over. -/
def collectCloneUrls (events : List CoreEvent) (maintainers : List String) (identifier : String) :
    List String :=
  extendUnique [] (events.flatMap fun event => event.cloneUrls maintainers identifier)

/-! ### What is found and collected -/

theorem announcement_eq_some {event : CoreEvent} {pubkey identifier : String} {a : RepoAnnouncement} :
    event.announcement pubkey identifier = some a ↔ event.kind = kindGitRepoAnnouncement ∧
      event.pubkey = pubkey ∧ RepoAnnouncement.fromTags event.tags = .ok a ∧
      a.identifier = identifier := by
  unfold CoreEvent.announcement
  split_ifs with h
  · constructor
    · rintro ⟨⟩
    · rintro ⟨hk, hp, -⟩
      exact absurd h (by simp [hk, hp])
  · push Not at h
    rw [Option.filter_eq_some_iff, Result.toOption_eq_some, decide_eq_true_eq]
    constructor
    · rintro ⟨ha, hi⟩
      exact ⟨h.1, h.2, ha, hi⟩
    · rintro ⟨-, -, ha, hi⟩
      exact ⟨ha, hi⟩

/-- What is found is the announcement of an event. -/
theorem of_findRepoAnnouncement {events : List CoreEvent} {pubkey identifier : String}
    {a : RepoAnnouncement} (h : findRepoAnnouncement events pubkey identifier = some a) :
    ∃ event ∈ events, event.announcement pubkey identifier = some a :=
  List.exists_of_findSome?_eq_some h

theorem exists_findRepoAnnouncement {events : List CoreEvent} {pubkey identifier : String} :
    (∃ a, findRepoAnnouncement events pubkey identifier = some a) ↔
      ∃ event ∈ events, ∃ a, event.announcement pubkey identifier = some a := by
  unfold findRepoAnnouncement
  rw [← Option.isSome_iff_exists, List.findSome?_isSome_iff]
  simp only [Option.isSome_iff_exists]

theorem mem_listedMaintainers {events : List CoreEvent} {pubkey identifier key : String}
    {l : List String} (h : foundMaintainers events identifier pubkey = some l) (hk : key ∈ l) :
    key ∈ listedMaintainers events := by
  obtain ⟨a, ha, rfl⟩ := Option.map_eq_some_iff.1 h
  obtain ⟨event, hevent, ha⟩ := of_findRepoAnnouncement ha
  refine List.mem_flatMap.2 ⟨a, List.mem_filterMap.2 ⟨event, hevent, ?_⟩, hk⟩
  exact Result.toOption_eq_some.2 (announcement_eq_some.1 ha).2.2.1

/-- The recursion ends on every list of events. -/
theorem collectMaintainers_eq_some (events : List CoreEvent) (pubkey identifier : String) :
    ∃ keys, collectMaintainers events pubkey identifier = some keys := by
  have hnodes : ∀ x ∈ pubkey :: listedMaintainers events, ∀ l,
      foundMaintainers events identifier x = some l → l ⊆ pubkey :: listedMaintainers events :=
    fun x _ l hl key hk => List.mem_cons_of_mem _ (mem_listedMaintainers hl hk)
  obtain ⟨marked, hm, -⟩ := Search.collect_total hnodes ((listedMaintainers events).length + 2)
    pubkey [] List.mem_cons_self (by simp [Search.unmarked])
  exact ⟨Str.sort marked, Option.map_eq_some_iff.2 ⟨marked, hm, rfl⟩⟩

/-- The collected keys are those that can be reached over the announcements that are found. -/
theorem mem_collectMaintainers {events : List CoreEvent} {pubkey identifier key : String}
    {keys : List String} (h : collectMaintainers events pubkey identifier = some keys) :
    key ∈ keys ↔ Search.Reached (foundMaintainers events identifier) pubkey key := by
  obtain ⟨marked, hm, rfl⟩ := Option.map_eq_some_iff.1 h
  rw [Str.mem_sort, Search.mem_collect hm]

/-! ### The latest state -/

/-- `latest_state_from_maintainers`. -/
def latestStateFromMaintainers (events : List CoreEvent) (maintainers : List String) :
    Option RepoState :=
  if maintainers = [] then none
  else
    (maxByKey CoreEvent.createdAt (events.filter fun event =>
      event.kind = kindGitRepoState ∧ event.pubkey ∈ maintainers)).bind fun latest =>
        Result.toOption (RepoState.fromTags latest.tags)

/-- A key is a maintainer of the repository of a key. -/
def IsMaintainer (events : List CoreEvent) (pubkey identifier key : String) : Prop :=
  Search.Reached (foundMaintainers events identifier) pubkey key

/-- A state event of a maintainer. -/
def IsStateEvent (events : List CoreEvent) (pubkey identifier : String) (event : CoreEvent) : Prop :=
  event ∈ events ∧ event.kind = kindGitRepoState ∧
    IsMaintainer events pubkey identifier event.pubkey

/-- An event holds a state for an identifier. -/
def CoreEvent.HoldsState (event : CoreEvent) (identifier : String) (s : RepoState) : Prop :=
  RepoState.fromTags event.tags = .ok s ∧ s.identifier = identifier

/-- An announcement or a state that is read, for an identifier. -/
def CoreEvent.concerns (identifier : String) (event : CoreEvent) : Bool :=
  if event.kind = kindGitRepoAnnouncement then
    (Result.toOption (RepoAnnouncement.fromTags event.tags)).any fun a => a.identifier = identifier
  else if event.kind = kindGitRepoState then
    (Result.toOption (RepoState.fromTags event.tags)).any fun s => s.identifier = identifier
  else false

/-- The state of a repository answers for that repository: it is missing exactly if no maintainer has
one for the identifier, it is the newest of these, and nothing else decides it. -/
def AnswersFor (events : List CoreEvent) (pubkey identifier : String) : Prop :=
  ∃ maintainers, collectMaintainers events pubkey identifier = some maintainers ∧
    (latestStateFromMaintainers events maintainers = none ↔
      ¬ ∃ event s, IsStateEvent events pubkey identifier event ∧ event.HoldsState identifier s) ∧
    (∀ s, latestStateFromMaintainers events maintainers = some s →
      ∃ event, IsStateEvent events pubkey identifier event ∧ event.HoldsState identifier s ∧
        ∀ other s', IsStateEvent events pubkey identifier other → other.HoldsState identifier s' →
          other.createdAt ≤ event.createdAt) ∧
    ∃ maintainers', collectMaintainers (events.filter (CoreEvent.concerns identifier)) pubkey
        identifier = some maintainers' ∧
      latestStateFromMaintainers (events.filter (CoreEvent.concerns identifier)) maintainers' =
        latestStateFromMaintainers events maintainers

/-- A state event of a maintainer that none is newer than. -/
def IsNewest (events : List CoreEvent) (pubkey identifier : String) (event : CoreEvent) : Prop :=
  IsStateEvent events pubkey identifier event ∧
    ∀ other, IsStateEvent events pubkey identifier other → other.createdAt ≤ event.createdAt

section

variable {events : List CoreEvent} {pubkey identifier : String} {maintainers : List String}

/-- Only its announcements for the identifier decide what is found for a key. -/
theorem foundMaintainers_concerns :
    foundMaintainers (events.filter (CoreEvent.concerns identifier)) identifier =
      foundMaintainers events identifier := by
  funext key
  unfold foundMaintainers findRepoAnnouncement
  congr 1
  induction events with
  | nil => rfl
  | cons event events ih =>
    by_cases hconcerns : event.concerns identifier = true
    · rw [List.filter_cons_of_pos hconcerns, List.findSome?_cons, List.findSome?_cons, ih]
    · rw [List.filter_cons_of_neg hconcerns, List.findSome?_cons, ih]
      have hnone : event.announcement key identifier = none := by
        rw [Option.eq_none_iff_forall_ne_some]
        intro a ha
        obtain ⟨hkind, -, ha, hid⟩ := announcement_eq_some.1 ha
        refine hconcerns ?_
        rw [CoreEvent.concerns, if_pos hkind, Result.toOption_eq_some.2 ha]
        simpa using hid
      rw [hnone]

/-- The state is read from the newest state event of the maintainers. -/
theorem latestStateFromMaintainers_eq (hm : ∀ key, key ∈ maintainers ↔
    IsMaintainer events pubkey identifier key) (present : List CoreEvent) :
    latestStateFromMaintainers present maintainers =
      (newest CoreEvent.createdAt (present.filter fun event => event.kind = kindGitRepoState ∧
        event.pubkey ∈ maintainers)).bind fun latest =>
          Result.toOption (RepoState.fromTags latest.tags) := by
  unfold latestStateFromMaintainers
  rw [maxByKey_eq_newest]
  split_ifs with hempty
  · subst hempty
    simp [newest_nil]
  · rfl

theorem isNewest_iff (hm : ∀ key, key ∈ maintainers ↔ IsMaintainer events pubkey identifier key)
    (hdistinct : events.Pairwise fun a b => a.kind = kindGitRepoState →
      b.kind = kindGitRepoState → a.createdAt ≠ b.createdAt) {event : CoreEvent} :
    IsNewest events pubkey identifier event ↔ newest CoreEvent.createdAt (events.filter fun event =>
      event.kind = kindGitRepoState ∧ event.pubkey ∈ maintainers) = some event := by
  have hmem : ∀ other, IsStateEvent events pubkey identifier other ↔
      other ∈ events.filter fun event => event.kind = kindGitRepoState ∧
        event.pubkey ∈ maintainers := by
    intro other
    unfold IsStateEvent
    rw [List.mem_filter, decide_eq_true_eq, hm]
  constructor
  · rintro ⟨hevent, hmax⟩
    cases hnewest : newest CoreEvent.createdAt (events.filter fun event =>
        event.kind = kindGitRepoState ∧ event.pubkey ∈ maintainers) with
    | none =>
      rw [hmem, newest_eq_none_iff.1 hnewest] at hevent
      cases hevent
    | some found =>
      have hfound := (hmem found).2 (mem_of_newest hnewest)
      have heq : event.createdAt = found.createdAt :=
        le_antisymm (le_of_newest hnewest ((hmem event).1 hevent)) (hmax found hfound)
      have hsymm : Std.Symm fun a b : CoreEvent => a.kind = kindGitRepoState →
          b.kind = kindGitRepoState → a.createdAt ≠ b.createdAt :=
        ⟨fun a b h hb ha => (h ha hb).symm⟩
      by_contra hne
      have hapart := hdistinct.forall hevent.1 hfound.1 fun h => hne (by rw [h])
      exact hapart hevent.2.1 hfound.2.1 heq
  · intro hnewest
    refine ⟨(hmem event).2 (mem_of_newest hnewest), fun other hother => ?_⟩
    exact le_of_newest hnewest ((hmem other).1 hother)

/-- The state answers for the repository exactly if the newest state event of the maintainers is for
its identifier, or none of theirs is and the newest is not read. -/
theorem answersFor_iff (hdistinct : events.Pairwise fun a b => a.kind = kindGitRepoState →
      b.kind = kindGitRepoState → a.createdAt ≠ b.createdAt) :
    AnswersFor events pubkey identifier ↔
      (∃ event s, IsNewest events pubkey identifier event ∧ event.HoldsState identifier s) ∨
      (∀ event s, IsNewest events pubkey identifier event → RepoState.fromTags event.tags ≠ .ok s) ∧
        ¬ ∃ event s, IsStateEvent events pubkey identifier event ∧
          event.HoldsState identifier s := by
  obtain ⟨maintainers, hcollect⟩ := collectMaintainers_eq_some events pubkey identifier
  have hm : ∀ key, key ∈ maintainers ↔ IsMaintainer events pubkey identifier key :=
    fun key => mem_collectMaintainers hcollect
  have hlatest := latestStateFromMaintainers_eq hm events
  have hnewest : ∀ event, IsNewest events pubkey identifier event ↔ _ :=
    fun event => isNewest_iff hm hdistinct
  constructor
  · rintro ⟨found, hfound, hnone, hsome, -⟩
    obtain rfl : maintainers = found := Option.some.inj (hcollect.symm.trans hfound)
    cases hread : latestStateFromMaintainers events maintainers with
    | none =>
      refine .inr ⟨fun event s hevent hs => ?_, hnone.1 hread⟩
      rw [hlatest, (hnewest event).1 hevent, Option.bind_some, Result.toOption_eq_some.2 hs] at hread
      cases hread
    | some s =>
      obtain ⟨-, -, ⟨-, hid⟩, -⟩ := hsome s hread
      rw [hlatest] at hread
      obtain ⟨event, hevent, hs⟩ := Option.bind_eq_some_iff.1 hread
      exact .inl ⟨event, s, (hnewest event).2 hevent, Result.toOption_eq_some.1 hs, hid⟩
  · intro hcond
    obtain ⟨maintainers', hcollect'⟩ := collectMaintainers_eq_some
      (events.filter (CoreEvent.concerns identifier)) pubkey identifier
    have hm' : ∀ key, key ∈ maintainers' ↔ key ∈ maintainers := by
      intro key
      rw [hm, mem_collectMaintainers hcollect', foundMaintainers_concerns]
      rfl
    have hlatest' := latestStateFromMaintainers_eq (fun key => (hm' key).trans (hm key))
      (events.filter (CoreEvent.concerns identifier))
    -- removing what does not concern the identifier removes from the state events of maintainers
    have hfilter : (events.filter (CoreEvent.concerns identifier)).filter
        (fun event : CoreEvent => event.kind = kindGitRepoState ∧ event.pubkey ∈ maintainers') =
        (events.filter fun event => event.kind = kindGitRepoState ∧
          event.pubkey ∈ maintainers).filter (CoreEvent.concerns identifier) := by
      rw [List.filter_comm]
      simp only [hm']
    have hconcerns : ∀ event : CoreEvent, event.kind = kindGitRepoState →
        (event.concerns identifier = true ↔ ∃ s, event.HoldsState identifier s) := by
      intro event hkind
      have hother : event.kind ≠ kindGitRepoAnnouncement := by
        rw [hkind]
        decide
      rw [CoreEvent.concerns, if_neg hother, if_pos hkind, Option.any_eq_true]
      simp only [Result.toOption_eq_some, decide_eq_true_eq]
      rfl
    refine ⟨maintainers, hcollect, ?_, ?_, maintainers', hcollect', ?_⟩
    · rcases hcond with ⟨event, s, hevent, hs⟩ | ⟨hunread, hno⟩
      · rw [hlatest, (hnewest event).1 hevent, Option.bind_some, Result.toOption_eq_some.2 hs.1]
        simp only [reduceCtorEq, false_iff, not_not]
        exact ⟨event, s, hevent.1, hs⟩
      · refine ⟨fun _ => hno, fun _ => ?_⟩
        rw [hlatest, Option.bind_eq_none_iff]
        intro event hevent
        rw [Option.eq_none_iff_forall_ne_some]
        intro s hs
        exact hunread event s ((hnewest event).2 hevent) (Result.toOption_eq_some.1 hs)
    · intro s hread
      rw [hlatest] at hread
      obtain ⟨event, hevent, hs⟩ := Option.bind_eq_some_iff.1 hread
      have hisNewest := (hnewest event).2 hevent
      have hs := Result.toOption_eq_some.1 hs
      rcases hcond with ⟨event', s', hevent', hs'⟩ | ⟨hunread, -⟩
      · obtain rfl : event = event' :=
          Option.some.inj (hevent.symm.trans ((hnewest event').1 hevent'))
        obtain rfl : s = s' := Except.ok.inj (hs.symm.trans hs'.1)
        exact ⟨event, hisNewest.1, hs', fun other _ hother _ => hisNewest.2 other hother⟩
      · exact absurd hs (hunread event s hisNewest)
    · rw [hlatest', hlatest, hfilter]
      rcases hcond with ⟨event, s, hevent, hs⟩ | ⟨hunread, hno⟩
      · rw [(hnewest event).1 hevent, newest_filter ((hnewest event).1 hevent)
          ((hconcerns event hevent.1.2.1).2 ⟨s, hs⟩)]
      · have hempty : (events.filter fun event => event.kind = kindGitRepoState ∧
            event.pubkey ∈ maintainers).filter (CoreEvent.concerns identifier) = [] := by
          rw [List.filter_eq_nil_iff]
          intro event hevent hconcerned
          obtain ⟨hmem, hstate⟩ := List.mem_filter.1 hevent
          obtain ⟨hkind, hkey⟩ := of_decide_eq_true hstate
          obtain ⟨s, hs⟩ := (hconcerns event hkind).1 hconcerned
          exact hno ⟨event, s, ⟨hmem, hkind, (hm _).1 hkey⟩, hs⟩
        rw [hempty, newest_nil, Option.bind_none, eq_comm, Option.bind_eq_none_iff]
        intro event hevent
        rw [Option.eq_none_iff_forall_ne_some]
        intro s hs
        exact hunread event s ((hnewest event).2 hevent) (Result.toOption_eq_some.1 hs)

end

/-! ### A state of another repository -/

/-- A key that announces one repository and publishes states for two. -/
def twoRepositories : List CoreEvent := [
  ⟨kindGitRepoAnnouncement, "owner", 1, [["d", "demo"]]⟩,
  ⟨kindGitRepoState, "owner", 2, [["d", "demo"]]⟩,
  ⟨kindGitRepoState, "owner", 3, [["d", "other"]]⟩]

/-- The answer for one repository is the state of the other. -/
theorem not_answersFor_twoRepositories : ¬ AnswersFor twoRepositories "owner" "demo" := by
  rintro ⟨maintainers, hcollect, -, hsome, -⟩
  have hrun : ((collectMaintainers twoRepositories "owner" "demo").bind fun maintainers =>
      (latestStateFromMaintainers twoRepositories maintainers).map RepoState.identifier) =
      some "other" := by
    decide +kernel
  rw [hcollect] at hrun
  obtain ⟨s, hs, hid⟩ := Option.map_eq_some_iff.1 hrun
  obtain ⟨event, -, ⟨-, hdemo⟩, -⟩ := hsome s hs
  exact absurd (hdemo.symm.trans hid) (by decide)

/-- Without the other state the answer is right. -/
theorem answersFor_iff_oneRepository : AnswersFor (twoRepositories.take 2) "owner" "demo" := by
  have hmaintainer : IsMaintainer (twoRepositories.take 2) "owner" "demo" "owner" :=
    .refl ⟨[], by decide +kernel⟩
  have hread : ((Result.toOption (RepoState.fromTags [["d", "demo"]])).map RepoState.identifier) =
      some "demo" := by
    decide +kernel
  obtain ⟨s, hs, hid⟩ := Option.map_eq_some_iff.1 hread
  refine (answersFor_iff (by decide)).2 (.inl ⟨⟨kindGitRepoState, "owner", 2, [["d", "demo"]]⟩, s,
    ⟨⟨by simp [twoRepositories], rfl, hmaintainer⟩, ?_⟩, Result.toOption_eq_some.1 hs, hid⟩)
  rintro other ⟨hmem, hkind, -⟩
  simp only [twoRepositories, List.take_succ_cons, List.take_zero, List.mem_cons, List.not_mem_nil,
    or_false] at hmem
  rcases hmem with rfl | rfl
  · exact absurd hkind (by decide)
  · exact le_rfl

end Gittree
