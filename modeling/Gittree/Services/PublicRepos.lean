import Gittree.Core.RepoPath
import Gittree.Services.AuthProfiles

/-!
# Public repositories

`crates/app-ui/src/server.rs`, which the routes of `services/app/src/lib.rs` answer with: the
repositories of the keys whose profiles are public.  `npub_from_bytes` does not fail on a key of 32
bytes.
-/

namespace Gittree

open Rust
open AuthService (Handler)

/-- `list_mappings`: in the order of their names on the Forgejo server. -/
def Mappings.listMappings (t : Mappings) : List RepoMappingRecord :=
  t.byRepo.values.insertionSort fun a b =>
    Str.cmp (forgejoKey a.forgejoOwner a.forgejoRepo)
      (forgejoKey b.forgejoOwner b.forgejoRepo) ≠ .gt

namespace AppUi

/-- `AppUiError`. -/
inductive Error
  | badRequest (message : String)
  | notFound (message : String)
  | storage (message : String)
  | internal (message : String)
  deriving DecidableEq, Repr

/-- `RepoListItem` and `RepoDetail`. -/
structure RepoListItem where
  npub : String
  identifier : String
  forgejo : String
  cloneUrl : String
  deriving DecidableEq, Repr

/-- The parts of `AppUiState` that are read, and `bech32`. -/
structure State where
  repoRoot : String
  publicGitUrl : String
  bech32 : Bech32

/-- A call of the repositories, whose failure is a storage error. -/
def asks {α : Type} (call : AuthService.Call) (read : call.Answer → Except StorageError α) :
    Handler Error α :=
  Prog.asking call fun answer => (read answer).mapError fun err => .storage err.display

/-- `repo_list_item`. -/
def repoListItem (state : State) (mapping : RepoMappingRecord) : RepoListItem :=
  let npub := npubFromBytes state.bech32 mapping.pubkey
  { npub
    identifier := mapping.identifier
    forgejo := forgejoKey mapping.forgejoOwner mapping.forgejoRepo
    cloneUrl := cloneUrl state.publicGitUrl npub mapping.identifier }

/-- The profile that was found is public. -/
def isPublic (profile : Option ProfileRecord) : Bool :=
  profile.any fun profile => profile.visibility = .public

/-- `profile_is_public`. -/
def profileIsPublic (pubkey : List UInt8) : Handler Error Bool := do
  let profile ← asks (.profileByPubkey pubkey) id
  return isPublic profile

/-- The loop of `list_repo_items`. -/
def listPublic (state : State) : List RepoMappingRecord → List RepoListItem →
    Handler Error (List RepoListItem)
  | [], items => pure items
  | mapping :: rest, items => do
    if ← profileIsPublic mapping.pubkey then
      listPublic state rest (items ++ [repoListItem state mapping])
    else listPublic state rest items

/-- `list_repo_items`. -/
def listRepoItems (state : State) : Handler Error (List RepoListItem) := do
  let mappings ← asks .listMappings id
  listPublic state mappings []

/-- `list_repo_items_for_npub`. -/
def listRepoItemsForNpub (state : State) (npub : String) : Handler Error (List RepoListItem) := do
  let pubkeyBytes ← Prog.ofExcept <| Result.okOr (pubkeyBytesFromNpub state.bech32 npub)
    (.badRequest AppCoreError.invalidPubkey.display)
  let shown ← profileIsPublic pubkeyBytes
  Prog.ofExcept (Result.ensure (shown = true) (.notFound "profile not found"))
  let mappings ← asks .listMappings id
  return (mappings.filter fun mapping => mapping.pubkey = pubkeyBytes).map (repoListItem state)

/-- `repo_detail_item`. -/
def repoDetailItem (state : State) (npub identifier : String) : Handler Error RepoListItem := do
  let identifier := normalizeIdentifier identifier
  let repoPath := Path.join (Path.join state.repoRoot npub) (identifier ++ ".git")
  let parsed ← Prog.ofExcept <| (parseRepoPath state.bech32 repoPath).mapError
    fun err => .badRequest err.display
  let pubkeyBytes ← Prog.ofExcept <|
    Result.okOr (Hex.decode parsed.pubkey) (.badRequest "invalid pubkey")
  let shown ← profileIsPublic pubkeyBytes
  Prog.ofExcept (Result.ensure (shown = true) (.notFound "profile not found"))
  let found ← asks (.mappingByRepo pubkeyBytes parsed.identifier) id
  let mapping ← Prog.ofExcept (Result.okOr found (.notFound "missing repo mapping"))
  return repoListItem state mapping

end AppUi
end Gittree
