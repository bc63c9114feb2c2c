import Gittree.Core.RepoPath
import Gittree.Storage.Repos

/-!
# Routes of the git server

`services/git-http/src/lib.rs`: a request path names an `npub`, a repository ending in `.git` and one
of the three services of a git client.  Empty segments of the path are dropped.  The repository is
forwarded to the Forgejo repository of its mapping.

* `normalizeRepoPath_eq_ok`: the repositories of two segments;
* `resolveMapping_eq_ok`: the mapping of a repository.
-/

namespace Gittree

open Rust

/-- `GitHttpRequest`. -/
structure GitHttpRequest where
  method : String
  path : String
  query : Option String

/-- `NormalizedRepo`. -/
structure NormalizedRepo where
  npub : String
  identifier : String
  canonicalPath : String
  pubkey : String
  deriving DecidableEq, Repr

/-- `GitHttpService`. -/
inductive GitHttpService
  | uploadPack
  | receivePack
  deriving DecidableEq, Repr

/-- `GitHttpRoute`. -/
inductive GitHttpRoute
  | infoRefs (repo : NormalizedRepo) (service : GitHttpService)
  | uploadPack (repo : NormalizedRepo)
  | receivePack (repo : NormalizedRepo)
  | notFound
  deriving DecidableEq, Repr

/-- `GitHttpRouteError`. -/
inductive GitHttpRouteError
  | invalidRepo (message : String)
  | missingService
  | invalidService (value : String)
  deriving DecidableEq, Repr

/-- `GitHttpHttpError`. -/
inductive GitHttpHttpError
  | notFound (message : String)
  | badRequest (message : String)
  | unauthorized (message : String)
  | storage (message : String)
  | upstream (message : String)
  | internal (message : String)
  deriving DecidableEq, Repr

/-- The segments of a path that are not empty. -/
def pathSegments (path : String) : List String :=
  (Str.split (Str.trimStartMatches path '/') '/').filter fun segment => segment ≠ ""

/-- `split_repo_segments`. -/
def splitRepoSegments (path : String) : Option (String × String × List String) :=
  match pathSegments path with
  | npub :: repo :: rest => if rest.isEmpty then none else some (npub, repo, rest)
  | _ => none

/-- `normalize_repo_path`. -/
def normalizeRepoPath (b : Bech32) (npub repoSegment : String) :
    Except GitHttpRouteError NormalizedRepo := do
  let path := Path.join (Path.join "/" npub) repoSegment
  let parsed ← (parseRepoPath b path).mapError fun err => .invalidRepo err.display
  return {
    canonicalPath := "/" ++ parsed.npub ++ "/" ++ parsed.identifier ++ ".git"
    identifier := parsed.identifier
    npub := parsed.npub
    pubkey := parsed.pubkey }

/-- `pair.splitn(2, '=')`. -/
def splitPair (pair : String) : String × Option String :=
  match Str.splitOnce pair '=' with
  | some (key, value) => (key, some value)
  | none => (pair, none)

/-- `parse_service`: the first `service` of the query decides. -/
def parseService (query : Option String) : Except GitHttpRouteError GitHttpService := do
  let query ← Result.okOr query .missingService
  let pair ← Result.okOr ((Str.split query '&').map splitPair |>.find? fun pair => pair.1 = "service")
    .missingService
  let value := pair.2.getD ""
  if value = "git-upload-pack" then return .uploadPack
  else if value = "git-receive-pack" then return .receivePack
  else .error (.invalidService value)

/-- `method.eq_ignore_ascii_case(name)`. -/
def isMethod (method name : String) : Bool := Str.toAsciiLowercase method = Str.toAsciiLowercase name

/-- `route_request`. -/
def routeRequest (b : Bech32) (request : GitHttpRequest) : GitHttpRoute :=
  match splitRepoSegments request.path with
  | none => .notFound
  | some (npub, repoSegment, rest) =>
    if Str.endsWith repoSegment ".git" = false then .notFound
    else
      match normalizeRepoPath b npub repoSegment with
      | .error _ => .notFound
      | .ok repo =>
        if rest = ["info", "refs"] ∧ isMethod request.method "GET" then
          match parseService request.query with
          | .ok service => .infoRefs repo service
          | .error _ => .notFound
        else if rest = ["git-upload-pack"] ∧ isMethod request.method "POST" then .uploadPack repo
        else if rest = ["git-receive-pack"] ∧ isMethod request.method "POST" then .receivePack repo
        else .notFound

/-- `resolve_mapping`. -/
def resolveMapping (t : Mappings) (repo : NormalizedRepo) :
    Except GitHttpHttpError RepoMappingRecord := do
  let pubkey ← Result.okOr (Hex.decode repo.pubkey) (.internal "invalid repo pubkey")
  Result.okOr (t.mappingByRepo pubkey repo.identifier) (.notFound "missing repo mapping")

theorem resolveMapping_eq_ok {t : Mappings} {repo : NormalizedRepo} {record : RepoMappingRecord} :
    resolveMapping t repo = .ok record ↔ ∃ pubkey, Hex.decode repo.pubkey = some pubkey ∧
      t.mappingByRepo pubkey repo.identifier = some record := by
  unfold resolveMapping
  simp only [Result.bind_eq_ok, Result.okOr_eq_ok]

theorem normalizeRepoPath_eq_ok {b : Bech32} {npub repoSegment : String} {repo : NormalizedRepo} :
    normalizeRepoPath b npub repoSegment = .ok repo ↔ ∃ parsed,
      parseRepoPath b (Path.join (Path.join "/" npub) repoSegment) = .ok parsed ∧
      ⟨parsed.npub, parsed.identifier, "/" ++ parsed.npub ++ "/" ++ parsed.identifier ++ ".git",
        parsed.pubkey⟩ = repo := by
  unfold normalizeRepoPath
  simp only [Result.bind_eq_ok, Result.mapError_eq_ok, Result.pure_eq_ok]

end Gittree
