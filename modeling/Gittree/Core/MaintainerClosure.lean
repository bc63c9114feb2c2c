import Gittree.Core.RepoEvents

/-!
# Maintainers as a closure

What `collect_maintainers` of `crates/core/src/repo_events.rs` computes, and how it depends on the
order of the events.  The announcement of a key is the first one in the list, so that another order
of the same events may put another announcement in its place.

* `collectMaintainers_closure`: the result is the sorted list of the least closed set of keys;
* `orderFree_iff`: when no order of the events changes a result.
-/

namespace Gittree

open Rust

/-! ### The least closed set -/

/-- A set of keys with the key of the repository and the listed keys of its members, as far as these
have announcements. -/
structure MaintainerClosed (events : List CoreEvent) (pubkey identifier : String)
    (keys : Set String) : Prop where
  root : ∀ a, findRepoAnnouncement events pubkey identifier = some a → pubkey ∈ keys
  listed : ∀ key ∈ keys, ∀ a, findRepoAnnouncement events key identifier = some a →
    ∀ maintainer ∈ a.maintainers, ∀ b, findRepoAnnouncement events maintainer identifier = some b →
      maintainer ∈ keys

theorem isNode_foundMaintainers {events : List CoreEvent} {identifier key : String} :
    Search.IsNode (foundMaintainers events identifier) key ↔
      ∃ a, findRepoAnnouncement events key identifier = some a := by
  unfold Search.IsNode foundMaintainers
  constructor
  · rintro ⟨l, hl⟩
    obtain ⟨a, ha, -⟩ := Option.map_eq_some_iff.1 hl
    exact ⟨a, ha⟩
  · rintro ⟨a, ha⟩
    exact ⟨a.maintainers, Option.map_eq_some_iff.2 ⟨a, ha, rfl⟩⟩

/-- It is a closed set of the graph of the announcements that are found. -/
theorem closed_iff {events : List CoreEvent} {pubkey identifier : String} {keys : Set String} :
    Search.Closed (foundMaintainers events identifier) pubkey keys ↔
      MaintainerClosed events pubkey identifier keys := by
  constructor
  · rintro ⟨hroot, hsucc⟩
    refine ⟨fun a ha => hroot (isNode_foundMaintainers.2 ⟨a, ha⟩), ?_⟩
    intro key hkey a ha maintainer hmem b hb
    refine hsucc key hkey a.maintainers ?_ maintainer hmem (isNode_foundMaintainers.2 ⟨b, hb⟩)
    exact Option.map_eq_some_iff.2 ⟨a, ha, rfl⟩
  · rintro ⟨hroot, hlisted⟩
    constructor
    · intro hnode
      obtain ⟨a, ha⟩ := isNode_foundMaintainers.1 hnode
      exact hroot a ha
    · intro key hkey l hl maintainer hmem hnode
      obtain ⟨a, ha, rfl⟩ := Option.map_eq_some_iff.1 hl
      obtain ⟨b, hb⟩ := isNode_foundMaintainers.1 hnode
      exact hlisted key hkey a ha maintainer hmem b hb

/-- The collected keys run upwards. -/
theorem pairwise_collectMaintainers {events : List CoreEvent} {pubkey identifier : String}
    {keys : List String} (h : collectMaintainers events pubkey identifier = some keys) :
    keys.Pairwise (· < ·) := by
  obtain ⟨marked, hm, rfl⟩ := Option.map_eq_some_iff.1 h
  exact Str.pairwise_sort (Search.nodup_collect hm List.nodup_nil)

/-- The recursion ends with the sorted list of the least closed set, and any further depth allowed to
it changes nothing. -/
theorem collectMaintainers_closure (events : List CoreEvent) (pubkey identifier : String) :
    ∃ keys, collectMaintainers events pubkey identifier = some keys ∧
      (∀ fuel, (listedMaintainers events).length + 2 ≤ fuel →
        (collectMaintainersInner events identifier fuel pubkey []).map Str.sort = some keys) ∧
      keys.Pairwise (· < ·) ∧
      IsLeast {S | MaintainerClosed events pubkey identifier S} {key | key ∈ keys} ∧
      (findRepoAnnouncement events pubkey identifier = none → keys = []) := by
  obtain ⟨keys, hkeys⟩ := collectMaintainers_eq_some events pubkey identifier
  have hmem : {key | key ∈ keys} =
      {key | Search.Reached (foundMaintainers events identifier) pubkey key} :=
    Set.ext fun key => mem_collectMaintainers hkeys
  have hclosed : {S | MaintainerClosed events pubkey identifier S} =
      {S | Search.Closed (foundMaintainers events identifier) pubkey S} :=
    Set.ext fun S => closed_iff.symm
  refine ⟨keys, hkeys, ?_, pairwise_collectMaintainers hkeys, ?_, ?_⟩
  · intro fuel hfuel
    obtain ⟨marked, hm, rfl⟩ := Option.map_eq_some_iff.1 hkeys
    exact Option.map_eq_some_iff.2 ⟨marked, Search.collect_mono hm hfuel, rfl⟩
  · rw [hmem, hclosed]
    exact Search.isLeast_reached _ _
  · intro hnone
    rw [List.eq_nil_iff_forall_not_mem]
    intro key hkey
    obtain ⟨a, ha⟩ := isNode_foundMaintainers.1 ((mem_collectMaintainers hkeys).1 hkey).1
    rw [hnone] at ha
    cases ha

/-- Two keys that list each other, and a key that lists itself and has no announcement. -/
example : collectMaintainers [
    ⟨kindGitRepoAnnouncement, "b", 1, [["d", "demo"], ["maintainers", "a", "b", "c"]]⟩,
    ⟨kindGitRepoAnnouncement, "a", 2, [["d", "demo"], ["maintainers", "b"]]⟩] "b" "demo" =
      some ["a", "b"] := by
  decide +kernel

/-! ### The order of the events -/

/-- The newest announcement of a key for an identifier. -/
def newestAnnouncement (events : List CoreEvent) (pubkey identifier : String) :
    Option RepoAnnouncement :=
  (newest CoreEvent.createdAt (events.filter fun event =>
    (event.announcement pubkey identifier).isSome)).bind fun event =>
      event.announcement pubkey identifier

/-- The keys that the newest announcement of a key lists. -/
def newestListed (events : List CoreEvent) (identifier pubkey : String) :
    Option (List String) :=
  (newestAnnouncement events pubkey identifier).map RepoAnnouncement.maintainers

/-- Announcements of one key for one identifier differ in their times. -/
def Apart (events : List CoreEvent) : Prop :=
  events.Pairwise fun event other => ∀ pubkey identifier,
    (event.announcement pubkey identifier).isSome = true →
      (other.announcement pubkey identifier).isSome = true → event.createdAt ≠ other.createdAt

/-- What is found and collected from a list of events goes by the newest announcement of each key
among the events. -/
def ChoosesNewest (events arrived : List CoreEvent) : Prop :=
  ∀ pubkey identifier,
    findRepoAnnouncement arrived pubkey identifier = newestAnnouncement events pubkey identifier ∧
    ∃ keys, collectMaintainers arrived pubkey identifier = some keys ∧ keys.Pairwise (· < ·) ∧
      ∀ key, key ∈ keys ↔ Search.Reached (newestListed events identifier) pubkey key

/-- In every order of the events the results are the same, and go by the newest announcements. -/
def OrderFree (events : List CoreEvent) : Prop :=
  ∀ arrived, arrived.Perm events → ChoosesNewest events arrived ∧
    ∀ pubkey identifier,
      findRepoAnnouncement arrived pubkey identifier =
        findRepoAnnouncement events pubkey identifier ∧
      collectMaintainers arrived pubkey identifier = collectMaintainers events pubkey identifier

/-- All announcements of one key for one identifier read the same. -/
def OneReading (events : List CoreEvent) : Prop :=
  ∀ event ∈ events, ∀ other ∈ events, ∀ pubkey identifier a b,
    event.announcement pubkey identifier = some a →
      other.announcement pubkey identifier = some b → a = b

/-- What is chosen by the time is the announcement of an event. -/
theorem of_newestAnnouncement {events : List CoreEvent} {pubkey identifier : String}
    {a : RepoAnnouncement} (h : newestAnnouncement events pubkey identifier = some a) :
    ∃ event ∈ events, event.announcement pubkey identifier = some a := by
  obtain ⟨event, hevent, ha⟩ := Option.bind_eq_some_iff.1 h
  exact ⟨event, (List.mem_filter.1 (mem_of_newest hevent)).1, ha⟩

theorem newestAnnouncement_isSome {events : List CoreEvent} {pubkey identifier : String}
    {event : CoreEvent} {a : RepoAnnouncement} (hevent : event ∈ events)
    (ha : event.announcement pubkey identifier = some a) :
    ∃ b, newestAnnouncement events pubkey identifier = some b := by
  unfold newestAnnouncement
  cases hnewest : newest CoreEvent.createdAt (events.filter fun event =>
      (event.announcement pubkey identifier).isSome) with
  | none =>
    have hmem : event ∈ events.filter fun event =>
        (event.announcement pubkey identifier).isSome :=
      List.mem_filter.2 ⟨hevent, by rw [ha]; rfl⟩
    rw [newest_eq_none_iff.1 hnewest] at hmem
    cases hmem
  | some found =>
    exact Option.isSome_iff_exists.1 (List.mem_filter.1 (mem_of_newest hnewest)).2

/-- When all announcements of a key read the same, the first is as good as the newest. -/
theorem find_eq_newest {events arrived : List CoreEvent} (h : OneReading events)
    (hperm : arrived.Perm events) (pubkey identifier : String) :
    findRepoAnnouncement arrived pubkey identifier = newestAnnouncement events pubkey identifier := by
  cases hfind : findRepoAnnouncement arrived pubkey identifier with
  | none =>
    rw [eq_comm, Option.eq_none_iff_forall_ne_some]
    intro a ha
    obtain ⟨event, hevent, ha⟩ := of_newestAnnouncement ha
    obtain ⟨b, hb⟩ := exists_findRepoAnnouncement.2 ⟨event, hperm.mem_iff.2 hevent, a, ha⟩
    rw [hfind] at hb
    cases hb
  | some a =>
    obtain ⟨event, hevent, ha⟩ := of_findRepoAnnouncement hfind
    have hevent := hperm.mem_iff.1 hevent
    obtain ⟨b, hb⟩ := newestAnnouncement_isSome hevent ha
    obtain ⟨other, hother, hob⟩ := of_newestAnnouncement hb
    rw [hb, h event hevent other hother pubkey identifier a b ha hob]

/-- What is collected depends on what is found only. -/
theorem collectMaintainers_congr {events arrived : List CoreEvent} {identifier : String}
    (h : foundMaintainers arrived identifier = foundMaintainers events identifier)
    (pubkey : String) :
    collectMaintainers arrived pubkey identifier = collectMaintainers events pubkey identifier := by
  obtain ⟨keys, hkeys⟩ := collectMaintainers_eq_some arrived pubkey identifier
  obtain ⟨keys', hkeys'⟩ := collectMaintainers_eq_some events pubkey identifier
  rw [hkeys, hkeys', Option.some.injEq]
  refine Str.eq_of_pairwise_lt (pairwise_collectMaintainers hkeys)
    (pairwise_collectMaintainers hkeys') fun key => ?_
  rw [mem_collectMaintainers hkeys, mem_collectMaintainers hkeys', h]

/-- No order of the events changes a result exactly if all announcements of a key for an identifier
read the same. -/
theorem orderFree_iff (events : List CoreEvent) : OrderFree events ↔ OneReading events := by
  constructor
  · intro horder event hevent other hother pubkey identifier a b ha hb
    -- an event that is moved to the front is found first
    have hfront : ∀ e ∈ events, ∀ c, e.announcement pubkey identifier = some c →
        findRepoAnnouncement events pubkey identifier = some c := by
      intro e he c hc
      have hperm : (e :: events.erase e).Perm events := (List.perm_cons_erase he).symm
      rw [← ((horder _ hperm).2 pubkey identifier).1, findRepoAnnouncement, List.findSome?_cons, hc]
    exact Option.some.inj ((hfront event hevent a ha).symm.trans (hfront other hother b hb))
  · intro h arrived hperm
    have hfind : ∀ l : List CoreEvent, l.Perm events → ∀ identifier,
        foundMaintainers l identifier = newestListed events identifier := by
      intro l hl identifier
      funext key
      rw [foundMaintainers, find_eq_newest h hl, newestListed]
    constructor
    · intro pubkey identifier
      obtain ⟨keys, hkeys⟩ := collectMaintainers_eq_some arrived pubkey identifier
      refine ⟨find_eq_newest h hperm pubkey identifier, keys, hkeys,
        pairwise_collectMaintainers hkeys, fun key => ?_⟩
      rw [mem_collectMaintainers hkeys, hfind arrived hperm]
    · intro pubkey identifier
      constructor
      · rw [find_eq_newest h hperm, find_eq_newest h (List.Perm.refl events)]
      · refine collectMaintainers_congr ?_ pubkey
        rw [hfind arrived hperm, hfind events (List.Perm.refl events)]

/-- A maintainer that the newer of two announcements removes. -/
def removedMaintainer : List CoreEvent := [
  ⟨kindGitRepoAnnouncement, "owner", 1, [["d", "demo"], ["maintainers", "friend"]]⟩,
  ⟨kindGitRepoAnnouncement, "owner", 2, [["d", "demo"]]⟩,
  ⟨kindGitRepoAnnouncement, "friend", 3, [["d", "demo"]]⟩]

/-- The removed maintainer is collected when the older announcement comes first. -/
theorem not_orderFree_removedMaintainer :
    Apart removedMaintainer ∧ ¬ OrderFree removedMaintainer ∧
      collectMaintainers removedMaintainer "owner" "demo" = some ["friend", "owner"] ∧
      collectMaintainers removedMaintainer.reverse "owner" "demo" = some ["owner"] := by
  have hfirst : collectMaintainers removedMaintainer "owner" "demo" = some ["friend", "owner"] := by
    decide +kernel
  have hlast : collectMaintainers removedMaintainer.reverse "owner" "demo" = some ["owner"] := by
    decide +kernel
  refine ⟨?_, ?_, hfirst, hlast⟩
  · have htimes : removedMaintainer.Pairwise fun event other =>
        event.createdAt ≠ other.createdAt := by
      decide
    exact htimes.imp fun h _ _ _ _ => h
  · intro horder
    have hsame := ((horder _ (List.reverse_perm removedMaintainer)).2 "owner" "demo").2
    rw [hfirst, hlast] at hsame
    exact absurd hsame (by decide)

end Gittree
