import Gittree.Services.Admission

/-!
# What the compatibility of the relay decides

`evaluate_request_with_storage_mode` of `services/admission/src/lib.rs` asks the storage for the record
of the relay.  In the relaxed modes a record that is missing, incompatible or not to be read does not
refuse a request, and the decision of the core rules is returned as it stands; only behind a compatible
record is the repository looked up that the event refers to.

* `checkRelated_eq`: what that look-up makes of an event;
* `neverWeaker_iff`: the requests for which the other records are never better than a compatible one.
-/

namespace Gittree
namespace Admission

open Rust

/-! ### The repository of a request -/

/-- The event is decided neither by its kind nor by the host of the relay. -/
def Request.NeedsRelated (request : Request) : Prop :=
  request.kind < 2 ^ 32 ∧ request.kind ≠ kindGittreeControl ∧ request.kind ≠ kindGitRepoState ∧
    request.kind ≠ kindGitRepoAnnouncement

/-- The first repository that the event refers to. -/
def Request.repository (request : Request) : Option RepoAddress :=
  (collectEventReferencesWithSelf request.kind request.pubkey request.eventId
    request.tags).addressPointers.findSome? fun pointer => Result.toOption (RepoAddress.parse pointer)

/-- The filters that ask for related events. -/
def Request.filters (request : Request) : List EventFilter :=
  buildRelatedEventFilters request.kind request.pubkey request.eventId request.tags

/-- The storage has an announcement or a state of the repository that the event refers to. -/
def Known (storage : Storage) (request : Request) : Prop :=
  ∃ address, request.repository = some address ∧ repoExists storage address = .ok true

/-- A filter has values for `a` only if it is that on the address pointers. -/
theorem get_a_tagFilter (lower upper : String) (values : List String) :
    ((tagFilter lower upper values).withLimit 1).tags["a"]? =
      if upper = "a" ∨ lower = "a" then some values else none := by
  unfold tagFilter EventFilter.withLimit EventFilter.new
  simp only [Map.get_insert, Std.ExtTreeMap.getElem?_empty]
  split_ifs with hupper hlower h h <;> simp_all

theorem get_a_buildPointerFilter {pointer : String} {filter : EventFilter}
    (h : buildPointerFilter pointer = some filter) : (filter.withLimit 1).tags["a"]? = none := by
  unfold buildPointerFilter at h
  split at h
  · obtain ⟨kind, -, rfl⟩ := Option.map_eq_some_iff.1 h
    unfold EventFilter.withLimit EventFilter.new
    simp only [Map.get_insert, Std.ExtTreeMap.getElem?_empty]
    rw [if_neg (by decide)]
  · obtain ⟨kind, -, rfl⟩ := Option.map_eq_some_iff.1 h
    exact Std.ExtTreeMap.getElem?_empty
  · cases h

/-- The filters name the repository that the event refers to. -/
theorem repoAddressFromFilters_filters (request : Request) :
    repoAddressFromFilters request.filters = request.repository := by
  have hskip : ∀ {filters : List EventFilter},
      (∀ filter ∈ filters, (filter.withLimit 1).tags["a"]? = none) →
      repoAddressFromFilters (filters.map fun filter => filter.withLimit 1) = none := by
    intro filters hfilters
    unfold repoAddressFromFilters
    rw [List.findSome?_eq_none_iff]
    intro filter hfilter
    obtain ⟨plain, hplain, rfl⟩ := List.mem_map.1 hfilter
    rw [hfilters plain hplain]
    rfl
  have happend : ∀ filters others : List EventFilter, repoAddressFromFilters (filters ++ others) =
      (repoAddressFromFilters filters).or (repoAddressFromFilters others) := by
    intro filters others
    unfold repoAddressFromFilters
    exact List.findSome?_append
  unfold Request.filters Request.repository buildRelatedEventFilters
  generalize collectEventReferencesWithSelf request.kind request.pubkey request.eventId
    request.tags = refs
  have hquote : repoAddressFromFilters (([{ EventFilter.new with
      tags := EventFilter.new.tags.insert "q" (refs.addressPointers ++ refs.eventIds) }] :
      List EventFilter).map fun filter => filter.withLimit 1) = none := by
    refine hskip fun filter hfilter => ?_
    rw [List.mem_singleton.1 hfilter]
    unfold EventFilter.withLimit EventFilter.new
    simp only [Map.get_insert, Std.ExtTreeMap.getElem?_empty]
    rw [if_neg (by decide)]
  simp only [List.map_append, happend]
  rw [hquote, hskip, hskip, hskip]
  · rw [Option.or_none, Option.none_or, Option.none_or, Option.none_or]
    split_ifs with hnone
    · rw [hnone]
      rfl
    · unfold repoAddressFromFilters
      rw [List.map_singleton, List.findSome?_singleton, get_a_tagFilter, if_pos (by decide)]
      rfl
  · intro filter hfilter
    split_ifs at hfilter
    · cases hfilter
    · rw [List.mem_singleton.1 hfilter, get_a_tagFilter, if_neg (by decide)]
  · intro filter hfilter
    obtain ⟨pointer, -, hpointer⟩ := List.mem_filterMap.1 hfilter
    exact get_a_buildPointerFilter hpointer
  · intro filter hfilter
    split_ifs at hfilter
    · cases hfilter
    · rw [List.mem_singleton.1 hfilter]
      exact Std.ExtTreeMap.getElem?_empty

/-- A repository that the tags name is one that the event refers to. -/
theorem exists_repository_of_tags {request : Request} {address : RepoAddress}
    (h : repoAddressFromTags request.tags = .ok address) :
    ∃ found, request.repository = some found := by
  have hnamed : ∃ key value rest, (key = "a" ∨ key = "A") ∧
      (key :: value :: rest) ∈ request.tags ∧ RepoAddress.parse value = .ok address := by
    generalize request.tags = tags at h
    induction tags with
    | nil => cases h
    | cons tag tags ih =>
      have hlater : repoAddressFromTags tags = .ok address → ∃ key value rest,
          (key = "a" ∨ key = "A") ∧ (key :: value :: rest) ∈ tag :: tags ∧
            RepoAddress.parse value = .ok address := by
        intro hrest
        obtain ⟨key, value, rest, hkey, hmem, hparse⟩ := ih hrest
        exact ⟨key, value, rest, hkey, List.mem_cons_of_mem _ hmem, hparse⟩
      cases tag with
      | nil => exact hlater h
      | cons kind rest =>
        unfold repoAddressFromTags at h
        split_ifs at h with hkind
        · cases rest with
          | nil => cases h
          | cons value rest => exact ⟨kind, value, rest, hkind, List.mem_cons_self, h⟩
        · exact hlater h
  obtain ⟨key, value, rest, hkey, hmem, hparse⟩ := hnamed
  have hpointer := @addressPointers_withSelf request.kind request.pubkey request.eventId _ _
    (mem_addressPointers hkey hmem)
  unfold Request.repository
  rw [← Option.isSome_iff_exists, List.findSome?_isSome_iff]
  exact ⟨value, hpointer, by rw [Result.toOption_eq_some.2 hparse]; rfl⟩

/-- Related events are asked for exactly if the storage knows the repository; otherwise the request
is refused. -/
theorem checkRelated_eq (storage : Storage) (request : Request) :
    Known storage request ∧
        checkRelated storage request request.filters = .requiresRelatedEvents request.filters ∨
      ¬ Known storage request ∧
        ∃ reason, checkRelated storage request request.filters = .reject reason := by
  unfold checkRelated Known
  rw [repoAddressFromFilters_filters]
  cases hrepository : request.repository with
  | none =>
    have htags : Result.toOption (repoAddressFromTags request.tags) = none := by
      rw [Option.eq_none_iff_forall_ne_some]
      intro address haddress
      obtain ⟨found, hfound⟩ := exists_repository_of_tags (Result.toOption_eq_some.1 haddress)
      rw [hrepository] at hfound
      cases hfound
    rw [htags]
    simp
  | some address =>
    simp only [Option.some_or, Option.some.injEq, exists_eq_left']
    cases hexists : repoExists storage address with
    | ok found => cases found <;> simp
    | error err => simp

/-- What the core rules decide. -/
theorem evaluateRequestWithAdminKeys_related {parseUrl : String → Option Url} {request : Request}
    {adminKeys : List String} (h : request.NeedsRelated) :
    evaluateRequestWithAdminKeys parseUrl request adminKeys =
      .ok (.requiresRelatedEvents request.filters) := by
  obtain ⟨hkind, hcontrol, hstate, hannouncement⟩ := h
  have hu32 : request.kindU32 = .ok request.kind := by
    unfold Request.kindU32
    rw [Result.bind_eq_ok]
    exact ⟨(), Result.ensure_eq_ok.2 hkind, rfl⟩
  unfold evaluateRequestWithAdminKeys evaluateAdmission
  rw [Result.bind_eq_ok]
  refine ⟨_, hu32, ?_⟩
  rw [if_neg hcontrol, if_neg hstate, if_neg hannouncement]
  rfl

theorem needsRelated_of_evaluate {parseUrl : String → Option Url} {request : Request}
    {adminKeys : List String} {filters : List EventFilter}
    (h : evaluateRequestWithAdminKeys parseUrl request adminKeys =
      .ok (.requiresRelatedEvents filters)) : request.NeedsRelated := by
  unfold evaluateRequestWithAdminKeys Request.kindU32 evaluateAdmission at h
  simp only [Result.bind_eq_ok, Result.ensure_eq_ok, Result.pure_eq_ok] at h
  obtain ⟨kind, ⟨-, hkind, rfl⟩, h⟩ := h
  split_ifs at h with hcontrol hadmin hstate hannouncement
  · cases h
  · cases h
  · cases h
  · rw [Result.mapError_eq_ok] at h
    split at h
    · cases h
    · simp only [Result.bind_eq_ok] at h
      obtain ⟨announcement, -, h⟩ := h
      split_ifs at h
      · cases h
      · cases h
      · obtain ⟨listed, -, h⟩ := Result.bind_eq_ok.1 h
        split_ifs at h <;> cases h
  · exact ⟨hkind, hcontrol, hstate, hannouncement⟩

/-! ### Four answers about the relay -/

/-- The storage with one answer about every relay. -/
def Storage.answering (storage : Storage) (answer : Except StorageError (Option Bool)) : Storage :=
  { storage with relayCompatibility := fun _ => answer }

/-- The record is there, and the relay compatible. -/
def compatible : Except StorageError (Option Bool) := .ok (some true)

section

variable (parseUrl : String → Option Url) (storage : Storage) (mode : Mode) (adminKeys : List String)
  (request : Request)

/-- The answer to a request under an answer about the relay. -/
def judge (answer : Except StorageError (Option Bool)) : Except Error AdmissionDecision :=
  evaluateRequestWithStorageMode parseUrl (storage.answering answer) mode adminKeys request

/-- What is refused with a compatible record is refused with every other, and outside the strict mode
the records make no difference. -/
structure NeverWeaker : Prop where
  rejected : ∀ reason, judge parseUrl storage mode adminKeys request compatible = .ok (.reject reason) →
    ∀ answer, ∃ reason', judge parseUrl storage mode adminKeys request answer = .ok (.reject reason')
  relaxed : mode ≠ .strict → ∀ answer, judge parseUrl storage mode adminKeys request answer =
    judge parseUrl storage mode adminKeys request compatible

end

section

variable {parseUrl : String → Option Url} {storage : Storage} {mode : Mode}
  {adminKeys : List String} {request : Request} {url : String}

/-- Behind a compatible record the repository is looked up. -/
theorem judge_compatible : judge parseUrl storage mode adminKeys request compatible =
    (evaluateRequestWithAdminKeys parseUrl request adminKeys).map fun decision =>
      match decision with
      | .requiresRelatedEvents filters => checkRelated storage request filters
      | decision => decision := by
  unfold judge evaluateRequestWithStorageMode
  cases evaluateRequestWithAdminKeys parseUrl request adminKeys with
  | error err => rfl
  | ok decision =>
    have hon : request.relayUrl.bind (checkRelay (storage.answering compatible) mode decision) =
        none := by
      cases request.relayUrl <;> rfl
    simp only [bind, Except.bind, hon]
    cases decision <;> rfl

/-- The other answers leave the decision to the mode. -/
theorem judge_of_ne (hrelay : request.relayUrl = some url)
    {answer : Except StorageError (Option Bool)} (h : answer ≠ compatible) :
    ∃ reason, judge parseUrl storage mode adminKeys request answer =
      (evaluateRequestWithAdminKeys parseUrl request adminKeys).map fun decision =>
        mode.onIncompatible decision reason := by
  have hcheck : ∃ reason, ∀ decision, checkRelay (storage.answering answer) mode decision url =
      some (mode.onIncompatible decision reason) := by
    rcases answer with err | (_ | _ | _)
    · exact ⟨_, fun _ => rfl⟩
    · exact ⟨_, fun _ => rfl⟩
    · exact ⟨_, fun _ => rfl⟩
    · exact absurd rfl h
  obtain ⟨reason, hreason⟩ := hcheck
  refine ⟨reason, ?_⟩
  unfold judge evaluateRequestWithStorageMode
  cases evaluateRequestWithAdminKeys parseUrl request adminKeys with
  | error err => rfl
  | ok decision =>
    simp only [bind, Except.bind, hrelay, Option.bind_some, hreason]
    rfl

/-- Outside the strict mode the other answers leave the decision of the core rules. -/
theorem judge_relaxed (hrelay : request.relayUrl = some url) (hmode : mode ≠ .strict)
    {answer : Except StorageError (Option Bool)} (h : answer ≠ compatible) :
    judge parseUrl storage mode adminKeys request answer =
      evaluateRequestWithAdminKeys parseUrl request adminKeys := by
  obtain ⟨reason, hjudge⟩ := @judge_of_ne parseUrl storage mode adminKeys _ _ hrelay _ h
  have hid : (fun decision => mode.onIncompatible decision reason) = id := by
    funext decision
    cases mode with
    | strict => exact absurd rfl hmode
    | warn => rfl
    | allow => rfl
  rw [hjudge, hid]
  cases evaluateRequestWithAdminKeys parseUrl request adminKeys <;> rfl

/-- The other records are never better than a compatible one exactly in the strict mode, for events
that need no related ones, and where the storage knows the repository. -/
theorem neverWeaker_iff (hrelay : request.relayUrl = some url) :
    NeverWeaker parseUrl storage mode adminKeys request ↔
      mode = .strict ∨ ¬ request.NeedsRelated ∨ Known storage request := by
  constructor
  · intro h
    by_contra hnot
    simp only [not_or, not_not] at hnot
    obtain ⟨hmode, hneeds, hunknown⟩ := hnot
    -- the repository is looked up behind a compatible record only
    have hcore := @evaluateRequestWithAdminKeys_related parseUrl _ adminKeys hneeds
    rcases checkRelated_eq storage request with ⟨hknown, -⟩ | ⟨-, reason, hreason⟩
    · exact hunknown hknown
    · have hcompatible : judge parseUrl storage mode adminKeys request compatible =
          .ok (.reject reason) := by
        rw [judge_compatible, hcore, ← hreason]
        rfl
      obtain ⟨reason', hmissing⟩ := h.rejected reason hcompatible (.ok none)
      rw [judge_relaxed hrelay hmode (by simp [compatible]), hcore] at hmissing
      cases hmissing
  · intro hcond
    have hsame : mode ≠ .strict → judge parseUrl storage mode adminKeys request compatible =
        evaluateRequestWithAdminKeys parseUrl request adminKeys := by
      intro hmode
      rw [judge_compatible]
      cases hcore : evaluateRequestWithAdminKeys parseUrl request adminKeys with
      | error err => rfl
      | ok decision =>
        cases decision with
        | accept => rfl
        | reject reason => rfl
        | requiresRelatedEvents filters =>
          have hneeds := needsRelated_of_evaluate hcore
          have hknown := (hcond.resolve_left hmode).resolve_left (not_not.2 hneeds)
          have hfilters := hcore.symm.trans (evaluateRequestWithAdminKeys_related hneeds)
          obtain rfl : filters = request.filters := by
            simpa using hfilters
          rcases checkRelated_eq storage request with ⟨-, hasked⟩ | ⟨hunknown, -⟩
          · exact congrArg Except.ok hasked
          · exact absurd hknown hunknown
    have hrelaxed : mode ≠ .strict → ∀ answer, judge parseUrl storage mode adminKeys request answer =
        judge parseUrl storage mode adminKeys request compatible := by
      intro hmode answer
      by_cases h : answer = compatible
      · rw [h]
      · rw [judge_relaxed hrelay hmode h, hsame hmode]
    refine ⟨fun reason hreason answer => ?_, hrelaxed⟩
    by_cases hmode : mode = .strict
    · by_cases h : answer = compatible
      · rw [h]
        exact ⟨reason, hreason⟩
      · obtain ⟨reason', hjudge⟩ := @judge_of_ne parseUrl storage mode adminKeys _ _ hrelay _ h
        rw [judge_compatible] at hreason
        obtain ⟨decision, hcore, -⟩ := Result.map_eq_ok.1 hreason
        refine ⟨reason', ?_⟩
        rw [hjudge, hcore, hmode]
        rfl
    · exact ⟨reason, (hrelaxed hmode answer).trans hreason⟩

end

/-! ### A patch for a repository -/

/-- A request about a patch. -/
def patchRequest : Request where
  kind := kindGitPatch
  pubkey := "pubkey"
  eventId := "event"
  tags := [["a", "30617:1111111111111111111111111111111111111111111111111111111111111111:repo"]]
  relayUrl := some "wss://relay.example"
  sourceIp := none

/-- A storage without repositories. -/
def emptyStorage : Storage := ⟨fun _ => .ok none, fun _ _ => .ok none, fun _ _ => .ok none⟩

/-- A compatible relay is refused the patch, an unknown one is not. -/
theorem not_neverWeaker_patch :
    ¬ NeverWeaker (fun _ => none) emptyStorage .allow [] patchRequest := by
  have hneeds : patchRequest.NeedsRelated := by
    unfold Request.NeedsRelated
    decide
  have hcore := @evaluateRequestWithAdminKeys_related (fun _ => none) _ [] hneeds
  have hunknown : ¬ Known emptyStorage patchRequest := by
    rintro ⟨address, -, hexists⟩
    unfold repoExists at hexists
    obtain ⟨pubkey, -, hexists⟩ := Result.bind_eq_ok.1 hexists
    cases hexists
  intro h
  rcases checkRelated_eq emptyStorage patchRequest with ⟨hknown, -⟩ | ⟨-, reason, hreason⟩
  · exact hunknown hknown
  · have hcompatible : judge (fun _ => none) emptyStorage .allow [] patchRequest compatible =
        .ok (.reject reason) := by
      rw [judge_compatible, hcore, ← hreason]
      rfl
    obtain ⟨reason', hmissing⟩ := h.rejected reason hcompatible (.ok none)
    have hmode : Mode.allow ≠ .strict := by
      decide
    rw [judge_relaxed rfl hmode (by simp [compatible]), hcore] at hmissing
    cases hmissing

/-- A storage with a state of the repository that the patch is for. -/
def stateStorage : Storage where
  relayCompatibility := fun _ => .ok none
  latestAnnouncement := fun _ _ => .ok none
  latestState := fun pubkey identifier => .ok
    (if pubkey = List.replicate 32 17 ∧ identifier = "repo" then
      some {
        eventId := List.replicate 32 1, pubkey, identifier, createdAt := 1
        stateJson := "\x7b\x7d" }
    else none)

/-- The patch is not refused where its repository is known. -/
theorem neverWeaker_patch :
    NeverWeaker (fun _ => none) stateStorage .allow [] patchRequest := by
  refine (neverWeaker_iff rfl).2 (.inr (.inr ?_))
  have hnamed : patchRequest.repository.map (fun address =>
      Result.toOption (repoExists stateStorage address)) = some (some true) := by
    decide +kernel
  obtain ⟨address, haddress, hexists⟩ := Option.map_eq_some_iff.1 hnamed
  exact ⟨address, haddress, Result.toOption_eq_some.1 hexists⟩

end Admission
end Gittree
