import Gittree.Core.Grasp
import Gittree.Services.GitHttp

/-!
# Canonical routes

What `route_request` of `services/git-http/src/lib.rs` reads off a path, whatever its dots, its
repeated slashes and its doubled suffixes are.  The route depends on the segments that are not empty;
two of them name the repository and the others are those of the service.

* `routeRequest_cases`: a route has a repository and the segments of its service;
* `routeRequest_receivePack_iff`: the paths that are routed to a push;
* `normalizeRepoPath_git_iff`: the repository of an `npub` and a name;
* `routeRequest_canonicalPath`: the canonical path leads to the same route.
-/

namespace Gittree

open Rust

/-- The repository of a route. -/
def GitHttpRoute.repo : GitHttpRoute → Option NormalizedRepo
  | .infoRefs repo _ => some repo
  | .uploadPack repo => some repo
  | .receivePack repo => some repo
  | .notFound => none

/-- What a route has behind the repository. -/
def GitHttpRoute.suffix : GitHttpRoute → String
  | .infoRefs _ _ => "/info/refs"
  | .uploadPack _ => "/git-upload-pack"
  | .receivePack _ => "/git-receive-pack"
  | .notFound => ""

/-! ### The segments of a path -/

/-- Dropping empty segments makes the leading slashes irrelevant. -/
theorem pathSegments_eq (path : String) :
    pathSegments path = (Str.split path '/').filter fun segment => segment ≠ "" := by
  unfold pathSegments Str.split Str.trimStartMatches
  simp only [Str.chars_eq_toList, String.toList_ofList]
  induction path.toList with
  | nil => rfl
  | cons c l ih =>
    by_cases hc : c = '/'
    · subst hc
      rw [List.dropWhile_cons_of_pos (by rfl), ih, ← List.nil_append ('/' :: l),
        List.splitOn_append_cons_self, List.splitOn_nil, List.map_append, List.filter_append]
      rfl
    · rw [List.dropWhile_cons_of_neg (by simpa using hc)]

@[simp] theorem pathSegments_append (p q : String) :
    pathSegments (p ++ "/" ++ q) = pathSegments p ++ pathSegments q := by
  rw [pathSegments_eq, pathSegments_eq, pathSegments_eq,
    show p ++ "/" ++ q = p ++ String.singleton '/' ++ q from rfl, Str.split_append,
    List.filter_append]

theorem pathSegments_slash (p : String) : pathSegments ("/" ++ p) = pathSegments p := by
  have hp : "/" ++ p = "" ++ "/" ++ p := by rw [String.empty_append]
  rw [hp, pathSegments_append, show pathSegments "" = [] by decide, List.nil_append]

theorem pathSegments_of_notMem {s : String} (h : '/' ∉ s.toList) (hne : s ≠ "") :
    pathSegments s = [s] := by
  rw [pathSegments_eq, Str.split_eq_singleton h, List.filter_cons_of_pos (by simpa using hne),
    List.filter_nil]

theorem of_mem_splitOn {c : Char} {l part : List Char} (h : part ∈ l.splitOn c) :
    c ∉ part ∧ part <:+: l := by
  induction hn : l.length using Nat.strong_induction_on generalizing l with
  | _ n ih =>
    by_cases hc : c ∈ l
    · obtain ⟨a, b, rfl, ha⟩ := List.eq_append_cons_of_mem hc
      rw [List.splitOn_append_cons_self_of_not_mem ha] at h
      rcases List.mem_cons.1 h with rfl | hb
      · exact ⟨ha, (List.prefix_append _ _).isInfix⟩
      · rw [List.length_append, List.length_cons] at hn
        obtain ⟨hnot, hinside⟩ := ih b.length (by omega) hb rfl
        exact ⟨hnot, hinside.trans ((List.suffix_cons c b).trans (List.suffix_append _ _)).isInfix⟩
    · rw [List.splitOn_eq_singleton hc, List.mem_singleton] at h
      rw [h]
      exact ⟨hc, List.infix_refl l⟩

/-- A segment is a part of the path without slashes. -/
theorem of_mem_pathSegments {path segment : String} (h : segment ∈ pathSegments path) :
    '/' ∉ segment.toList ∧ segment ≠ "" ∧ segment.toList <:+: path.toList := by
  rw [pathSegments_eq, List.mem_filter, decide_eq_true_eq] at h
  obtain ⟨hsplit, hne⟩ := h
  unfold Str.split at hsplit
  obtain ⟨l, hl, rfl⟩ := List.mem_map.1 hsplit
  rw [Str.chars_eq_toList] at hl
  obtain ⟨hslash, hinside⟩ := of_mem_splitOn hl
  rw [String.toList_ofList]
  exact ⟨hslash, hne, hinside⟩

/-! ### Routes -/

/-- The route of a path depends on its segments. -/
theorem routeRequest_congr {b : Bech32} {request : GitHttpRequest} {path : String}
    (h : pathSegments path = pathSegments request.path) :
    routeRequest b { request with path } = routeRequest b request := by
  unfold routeRequest splitRepoSegments
  simp only [h]

/-- A request is not found, or its path has two segments of a repository and those of a service. -/
theorem routeRequest_cases (b : Bech32) (request : GitHttpRequest) :
    routeRequest b request = .notFound ∨ ∃ npub identifier repo,
      pathSegments request.path =
        npub :: (identifier ++ ".git") :: pathSegments (routeRequest b request).suffix ∧
      normalizeRepoPath b npub (identifier ++ ".git") = .ok repo ∧
      (routeRequest b request).repo = some repo := by
  unfold routeRequest splitRepoSegments
  rcases hsegments : pathSegments request.path with _ | ⟨npub, _ | ⟨name, rest⟩⟩
  · exact .inl rfl
  · exact .inl rfl
  · by_cases hrest : rest.isEmpty = true
    · exact .inl (by simp only [if_pos hrest])
    by_cases hgit : Str.endsWith name ".git" = true
    swap
    · exact .inl (by simp only [if_neg hrest, if_pos (eq_false_of_ne_true hgit)])
    obtain ⟨identifier, rfl⟩ := Str.endsWith_iff.1 hgit
    simp only [if_neg hrest, hgit, Bool.true_eq_false, if_false]
    rcases hrepo : normalizeRepoPath b npub (identifier ++ ".git") with err | repo
    · exact .inl rfl
    · simp only
      split_ifs with hinfo hupload hreceive
      · cases parseService request.query with
        | error err => exact .inl rfl
        | ok service =>
          refine .inr ⟨npub, identifier, repo, ?_, hrepo, rfl⟩
          rw [hinfo.1]
          rfl
      · refine .inr ⟨npub, identifier, repo, ?_, hrepo, rfl⟩
        rw [hupload.1]
        rfl
      · refine .inr ⟨npub, identifier, repo, ?_, hrepo, rfl⟩
        rw [hreceive.1]
        rfl
      · exact .inl rfl

/-! ### Requests to push -/

/-- The repository of a request to push: two segments and the name of the service. -/
theorem routeRequest_receivePack_iff {b : Bech32} {path : String} {repo : NormalizedRepo} :
    routeRequest b ⟨"POST", path, none⟩ = .receivePack repo ↔
      ∃ npub name, pathSegments path = [npub, name, "git-receive-pack"] ∧
        Str.endsWith name ".git" = true ∧ normalizeRepoPath b npub name = .ok repo := by
  constructor
  · intro h
    rcases routeRequest_cases b ⟨"POST", path, none⟩ with
      hnone | ⟨npub, identifier, found, hsegments, hfound, hrepo⟩
    · rw [h] at hnone
      cases hnone
    · rw [h] at hsegments hrepo
      cases hrepo
      exact ⟨npub, identifier ++ ".git", hsegments, Str.endsWith_iff.2 ⟨identifier, rfl⟩, hfound⟩
  · rintro ⟨npub, name, hsegments, hgit, hrepo⟩
    have hget : isMethod "POST" "GET" = false := by
      decide
    have hpost : isMethod "POST" "POST" = true := by
      decide
    unfold routeRequest splitRepoSegments
    simp only [hget, hpost, Bool.false_eq_true, and_false, if_false, and_true]
    rw [hsegments]
    simp only [List.isEmpty_cons, Bool.false_eq_true, if_false, hgit, hrepo, Bool.true_eq_false,
      if_true]
    rw [if_neg (by decide)]

/-- An `npub` that decodes is one path component. -/
theorem isNormal_of_decode {b : Bech32} (hb : b.Lawful "npub" 32) {npub : String}
    {data : List UInt8} (h : b.decode npub = some ("npub", data)) : Path.IsNormal npub := by
  obtain ⟨rest, rfl, hrest⟩ := hb.form _ _ h
  exact isNormal_of_npub hrest

/-- The repository of two segments: the first is a name among those of directories, and decodes to a
key. -/
theorem normalizeRepoPath_git_iff {b : Bech32} {npub identifier : String} {repo : NormalizedRepo}
    (hnpub : '/' ∉ npub.toList) (hslash : '/' ∉ identifier.toList) :
    normalizeRepoPath b npub (identifier ++ ".git") = .ok repo ↔
      Path.IsNormal npub ∧ Str.trim identifier ≠ "" ∧ ∃ key, decodeNpubPubkey b npub = .ok key ∧
        ⟨npub, identifier, "/" ++ npub ++ "/" ++ identifier ++ ".git", key⟩ = repo := by
  have hname := isNormal_git.2 hslash
  rw [normalizeRepoPath_eq_ok]
  constructor
  · rintro ⟨parsed, hparsed, rfl⟩
    obtain ⟨root, name, hcomponents, hidentifier, htrim, hkey⟩ := parseRepoPath_eq_ok.1 hparsed
    rw [Path.components_join_normal _ hname] at hcomponents
    obtain ⟨hparent, hlast⟩ := List.append_inj' hcomponents rfl
    cases Path.Component.normal.inj (List.singleton_inj.1 hlast)
    rw [withoutGitSuffix_append] at hidentifier
    have hnormal : Path.IsNormal npub := by
      -- the other names without slashes are no components of a repository path
      have hlast := congrArg List.getLast? hparent
      rw [List.getLast?_concat] at hlast
      refine ⟨hnpub, ?_, ?_, ?_⟩
      · rintro rfl
        rw [show Path.components (Path.join "/" "") = [.rootDir] by decide] at hlast
        cases hlast
      · rintro rfl
        rw [show Path.components (Path.join "/" ".") = [.rootDir] by decide] at hlast
        cases hlast
      · rintro rfl
        rw [show Path.components (Path.join "/" "..") = [.rootDir, .parentDir] by decide] at hlast
        cases hlast
    have hsame : parsed.npub = npub := by
      rw [Path.components_join_normal _ hnormal] at hparent
      have htail := (List.append_inj' hparent rfl).2
      exact (Path.Component.normal.inj (List.singleton_inj.1 htail)).symm
    rw [← hidentifier] at htrim
    exact ⟨hnormal, htrim, parsed.pubkey, hsame ▸ hkey, by rw [hsame, hidentifier]⟩
  · rintro ⟨hnormal, htrim, key, hkey, rfl⟩
    refine ⟨⟨npub, identifier, key⟩, parseRepoPath_eq_ok.2 ⟨[.rootDir], identifier ++ ".git", ?_,
      withoutGitSuffix_append identifier, htrim, hkey⟩, rfl⟩
    rw [Path.components_join_normal _ hname, Path.components_join_normal _ hnormal,
      show Path.components "/" = [.rootDir] by decide]

/-- The repository of an `npub` and a name. -/
theorem normalizeRepoPath_segments {b : Bech32} (hb : b.Lawful "npub" 32) {npub identifier : String}
    {repo : NormalizedRepo} (hnpub : '/' ∉ npub.toList) (hslash : '/' ∉ identifier.toList) :
    normalizeRepoPath b npub (identifier ++ ".git") = .ok repo ↔
      Str.trim identifier ≠ "" ∧ ∃ key, decodeNpubPubkey b npub = .ok key ∧
        ⟨npub, identifier, "/" ++ npub ++ "/" ++ identifier ++ ".git", key⟩ = repo := by
  rw [normalizeRepoPath_git_iff hnpub hslash, and_iff_right_iff_imp]
  rintro ⟨-, key, hkey, -⟩
  obtain ⟨data, hdecode, -⟩ := decodeNpubPubkey_eq_ok.1 hkey
  exact isNormal_of_decode hb hdecode

/-! ### Canonical paths -/

/-- The repository of a route: its key is the one that its `npub` decodes to, its identifier is not
blank, and its canonical path has two segments, those that the request begins with. -/
theorem of_repo_routeRequest {b : Bech32} {request : GitHttpRequest} {repo : NormalizedRepo}
    (h : (routeRequest b request).repo = some repo) :
    (∃ data, b.decode repo.npub = some ("npub", data) ∧ data.length = 32 ∧
        Hex.encode data = repo.pubkey) ∧
      Str.trim repo.identifier ≠ "" ∧
      repo.canonicalPath = "/" ++ repo.npub ++ "/" ++ repo.identifier ++ ".git" ∧
      (pathSegments repo.canonicalPath).length = 2 ∧ pathSegments request.path =
        pathSegments repo.canonicalPath ++ pathSegments (routeRequest b request).suffix := by
  rcases routeRequest_cases b request with
    hnone | ⟨npub, identifier, found, hsegments, hfound, hrepo⟩
  · rw [hnone] at h
    cases h
  · rw [hrepo] at h
    cases h
    have hnpub : '/' ∉ npub.toList ∧ npub ≠ "" := by
      have hmem : npub ∈ pathSegments request.path := by
        rw [hsegments]
        exact List.mem_cons_self
      exact ⟨(of_mem_pathSegments hmem).1, (of_mem_pathSegments hmem).2.1⟩
    have hname : '/' ∉ (identifier ++ ".git").toList ∧ identifier ++ ".git" ≠ "" := by
      have hmem : identifier ++ ".git" ∈ pathSegments request.path := by
        rw [hsegments]
        exact List.mem_cons_of_mem _ List.mem_cons_self
      exact ⟨(of_mem_pathSegments hmem).1, (of_mem_pathSegments hmem).2.1⟩
    have hslash : '/' ∉ identifier.toList := by
      intro hmem
      apply hname.1
      rw [String.toList_append]
      exact List.mem_append_left _ hmem
    obtain ⟨-, htrim, key, hkey, rfl⟩ := (normalizeRepoPath_git_iff hnpub.1 hslash).1 hfound
    refine ⟨decodeNpubPubkey_eq_ok.1 hkey, htrim, rfl, ?_⟩
    simp only
    have hcanonical : pathSegments ("/" ++ npub ++ "/" ++ identifier ++ ".git") =
        [npub, identifier ++ ".git"] := by
      have htext : "/" ++ npub ++ "/" ++ identifier ++ ".git" =
          "/" ++ npub ++ "/" ++ (identifier ++ ".git") := String.append_assoc
      rw [htext, pathSegments_append, pathSegments_slash, pathSegments_of_notMem hnpub.1 hnpub.2,
        pathSegments_of_notMem hname.1 hname.2, List.singleton_append]
    rw [hsegments, hcanonical, List.cons_append, List.singleton_append]
    exact ⟨rfl, rfl⟩

/-- Behind the canonical path, the segments that the request has behind the repository lead to the
same route. -/
theorem routeRequest_canonicalPath {b : Bech32} {request : GitHttpRequest} {repo : NormalizedRepo}
    (h : (routeRequest b request).repo = some repo) {suffix : String}
    (hslash : Str.startsWith suffix "/" = true)
    (hsuffix : pathSegments suffix = pathSegments (routeRequest b request).suffix) :
    routeRequest b { request with path := repo.canonicalPath ++ suffix } =
      routeRequest b request := by
  obtain ⟨-, -, -, -, hsegments⟩ := of_repo_routeRequest h
  refine routeRequest_congr ?_
  obtain ⟨rest, rfl⟩ := Str.startsWith_iff.1 hslash
  rw [pathSegments_slash] at hsuffix
  rw [← String.append_assoc, pathSegments_append, hsuffix, hsegments]

/-- The same for whatever the request has behind two segments. -/
theorem routeRequest_canonicalPath_of_split {b : Bech32} {request : GitHttpRequest}
    {repo : NormalizedRepo} (h : (routeRequest b request).repo = some repo) {before suffix : String}
    (hpath : request.path = before ++ suffix) (hslash : Str.startsWith suffix "/" = true)
    (hbefore : (pathSegments before).length = 2) :
    routeRequest b { request with path := repo.canonicalPath ++ suffix } =
      routeRequest b request := by
  obtain ⟨-, -, -, hlength, hsegments⟩ := of_repo_routeRequest h
  refine routeRequest_canonicalPath h hslash ?_
  obtain ⟨rest, rfl⟩ := Str.startsWith_iff.1 hslash
  rw [hpath, ← String.append_assoc, pathSegments_append] at hsegments
  rw [pathSegments_slash]
  exact (List.append_inj hsegments (hbefore.trans hlength.symm)).2

theorem exists_repo {route : GitHttpRoute} (h : route ≠ .notFound) :
    (∃ repo, route.repo = some repo) ∧ Str.startsWith route.suffix "/" = true := by
  cases route with
  | infoRefs repo service =>
    exact ⟨⟨repo, rfl⟩, (by decide : Str.startsWith "/info/refs" "/" = true)⟩
  | uploadPack repo =>
    exact ⟨⟨repo, rfl⟩, (by decide : Str.startsWith "/git-upload-pack" "/" = true)⟩
  | receivePack repo =>
    exact ⟨⟨repo, rfl⟩, (by decide : Str.startsWith "/git-receive-pack" "/" = true)⟩
  | notFound => exact absurd rfl h

end Gittree
