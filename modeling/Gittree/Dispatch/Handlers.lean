import Gittree.Core.AppCore
import Gittree.Core.CommandCli
import Gittree.Lib.Json
import Gittree.Lib.Map
import Gittree.Lib.Prog
import Gittree.Storage.Error

/-!
# Execution of commands

`services/dispatch/src/handlers.rs` with the records of `crates/storage/src/command_state.rs`.  The
`CommandStore` is an interface of calls, each of which may fail; a handler is a program over it, so
that every store, every failure and every interleaving of calls is a run of the same program.
-/

namespace Gittree

open Rust
open Rust.Json (Value)

/-! ### Records -/

/-- `CommandStatus`. -/
inductive CommandStatus
  | ok
  | error
  deriving DecidableEq, Repr

/-- `CommandLogRecord`. -/
structure CommandLogRecord where
  eventId : List UInt8
  pubkey : List UInt8
  ns : String
  action : String
  target : Option String
  argsJson : Value
  status : CommandStatus
  code : String
  message : String
  createdAt : ℤ

/-- `AccountLifecycle`. -/
inductive AccountLifecycle
  | active
  | deleted
  deriving DecidableEq, Repr

def AccountLifecycle.asStr : AccountLifecycle → String
  | .active => "active"
  | .deleted => "deleted"

/-- `AccountStateRecord`. -/
structure AccountStateRecord where
  pubkey : List UInt8
  status : AccountLifecycle
  createdAt : ℤ
  updatedAt : ℤ
  deletedAt : Option ℤ
  deriving DecidableEq, Repr

/-- `ProfileVisibilityV1` and `RepoVisibilityV1`. -/
inductive Visibility
  | isPublic
  | isPrivate
  deriving DecidableEq, Repr

/-- `if value == "public" { Public } else { Private }`. -/
def Visibility.ofText (value : String) : Visibility :=
  if value = "public" then .isPublic else .isPrivate

/-- `ProfileStateRecord`. -/
structure ProfileStateRecord where
  pubkey : List UInt8
  displayName : Option String
  bio : Option String
  avatarUrl : Option String
  websiteUrl : Option String
  location : Option String
  visibility : Visibility
  updatedAt : ℤ
  deriving DecidableEq, Repr

/-- `RepoStateV1Record`. -/
structure RepoStateV1Record where
  ownerPubkey : List UInt8
  repoName : String
  description : Option String
  websiteUrl : Option String
  visibility : Visibility
  defaultBranch : String
  archived : Bool
  updatedAt : ℤ
  deriving DecidableEq, Repr

/-- `RepoMaintainerV1Record`. -/
structure RepoMaintainerV1Record where
  ownerPubkey : List UInt8
  repoName : String
  maintainerPubkey : List UInt8
  active : Bool
  updatedAt : ℤ
  deriving DecidableEq, Repr

/-- The errors of `DispatchError` that a command can meet. -/
inductive DispatchError
  | config (message : String)
  | storage (err : StorageError)
  deriving DecidableEq, Repr

def DispatchError.display : DispatchError → String
  | .config message => "dispatch config error: " ++ message
  | .storage err => "dispatch storage error: " ++ err.display

/-! ### The store -/

/-- The calls of `CommandStore`. -/
inductive StoreCall
  | insertCommandLog (record : CommandLogRecord)
  | updateCommandLogOutcome (eventId : List UInt8) (status : CommandStatus) (code message : String)
  | accountState (pubkey : List UInt8)
  | upsertAccountState (record : AccountStateRecord)
  | profileState (pubkey : List UInt8)
  | upsertProfileState (record : ProfileStateRecord)
  | repoState (ownerPubkey : List UInt8) (repoName : String)
  | upsertRepoState (record : RepoStateV1Record)
  | setRepoMaintainer (record : RepoMaintainerV1Record)
  | listActiveRepoMaintainers (ownerPubkey : List UInt8) (repoName : String)

/-- What a call answers. -/
def StoreCall.Answer : StoreCall → Type
  | .insertCommandLog _ => Bool
  | .accountState _ => Option AccountStateRecord
  | .profileState _ => Option ProfileStateRecord
  | .repoState _ _ => Option RepoStateV1Record
  | .listActiveRepoMaintainers _ _ => List (List UInt8)
  | _ => Unit

/-- What a call answers, or why it fails. -/
def StoreCall.Response (call : StoreCall) : Type := Except DispatchError call.Answer

/-- Programs over the store that may fail. -/
abbrev Command (α : Type) : Type := ExceptT DispatchError (Prog StoreCall StoreCall.Response) α

namespace Command

/-- A call followed by `?`. -/
def ask (call : StoreCall) : Command call.Answer := ExceptT.mk (Prog.ask call)

def insertCommandLog (record : CommandLogRecord) : Command Bool := ask (.insertCommandLog record)

def updateCommandLogOutcome (eventId : List UInt8) (status : CommandStatus) (code message : String) :
    Command Unit :=
  ask (.updateCommandLogOutcome eventId status code message)

def accountState (pubkey : List UInt8) : Command (Option AccountStateRecord) :=
  ask (.accountState pubkey)

def upsertAccountState (record : AccountStateRecord) : Command Unit :=
  ask (.upsertAccountState record)

def profileState (pubkey : List UInt8) : Command (Option ProfileStateRecord) :=
  ask (.profileState pubkey)

def upsertProfileState (record : ProfileStateRecord) : Command Unit :=
  ask (.upsertProfileState record)

def repoState (ownerPubkey : List UInt8) (repoName : String) : Command (Option RepoStateV1Record) :=
  ask (.repoState ownerPubkey repoName)

def upsertRepoState (record : RepoStateV1Record) : Command Unit := ask (.upsertRepoState record)

def setRepoMaintainer (record : RepoMaintainerV1Record) : Command Unit :=
  ask (.setRepoMaintainer record)

def listActiveRepoMaintainers (ownerPubkey : List UInt8) (repoName : String) :
    Command (List (List UInt8)) :=
  ask (.listActiveRepoMaintainers ownerPubkey repoName)

/-! ### Inputs and outputs -/

/-- `CommandExecutionInput`. -/
structure Input where
  eventId : List UInt8
  actorPubkey : List UInt8
  parsed : ParsedCommand
  createdAt : ℤ
  deriving DecidableEq, Repr

/-- `CommandExecutionOutput`. -/
structure Output where
  status : CommandStatus
  code : String
  message : String
  deriving DecidableEq, Repr

def ok (code message : String) : Output := ⟨.ok, code, message⟩
def err (code message : String) : Output := ⟨.error, code, message⟩

/-- `namespace_name`. -/
def namespaceName : CommandNamespace → String
  | .account => "account"
  | .profile => "profile"
  | .repo => "repo"

/-- The values of the positional arguments. -/
def positionals (args : List CommandArg) : List String :=
  args.filterMap fun arg =>
    match arg with
    | .positional value => some value
    | .keyValue _ _ => none

/-- The pairs of the other arguments. -/
def keyValues (args : List CommandArg) : List (String × String) :=
  args.filterMap fun arg =>
    match arg with
    | .positional _ => none
    | .keyValue key value => some (key, value)

/-- `args_to_json`. -/
def argsToJson (args : List CommandArg) : Value :=
  let object : Map Value :=
    (keyValues args).foldl (fun m kv => m.insert kv.1 (.string kv.2)) ∅
  .object (object.insert "_positional" (.array ((positionals args).map .string))).toList

/-! ### Account -/

/-- `apply_account`. -/
def applyAccount (input : Input) : Command Output := do
  let existing ← accountState input.actorPubkey
  if input.parsed.action = "create" then
    match existing with
    | none =>
      upsertAccountState {
        pubkey := input.actorPubkey
        status := .active
        createdAt := input.createdAt
        updatedAt := input.createdAt
        deletedAt := none }
      return ok "account_created" "account created"
    | some _ => return ok "account_exists" "account already exists"
  else if input.parsed.action = "delete" then
    upsertAccountState {
      pubkey := input.actorPubkey
      status := .deleted
      createdAt := (existing.map AccountStateRecord.createdAt).getD input.createdAt
      updatedAt := input.createdAt
      deletedAt := some input.createdAt }
    return ok "account_deleted" "account deleted"
  else if input.parsed.action = "status" then
    return ok "account_status" ((existing.map fun record =>
      "account " ++ record.status.asStr).getD "account missing")
  else return err "invalid_command" "unsupported account action"

/-! ### Profile -/

/-- The profile of a key without one. -/
def emptyProfile (input : Input) : ProfileStateRecord where
  pubkey := input.actorPubkey
  displayName := none
  bio := none
  avatarUrl := none
  websiteUrl := none
  location := none
  visibility := .isPrivate
  updatedAt := input.createdAt

/-- One argument of `profile set`. -/
def setProfileField (profile : ProfileStateRecord) (kv : String × String) : ProfileStateRecord :=
  if kv.1 = "name" then { profile with displayName := some kv.2 }
  else if kv.1 = "bio" then { profile with bio := some kv.2 }
  else if kv.1 = "avatar" then { profile with avatarUrl := some kv.2 }
  else if kv.1 = "website" then { profile with websiteUrl := some kv.2 }
  else if kv.1 = "location" then { profile with location := some kv.2 }
  else profile

/-- `apply_profile`. -/
def applyProfile (input : Input) : Command Output := do
  let profile := (← profileState input.actorPubkey).getD (emptyProfile input)
  if input.parsed.action = "set" then
    let profile := (keyValues input.parsed.args).foldl setProfileField profile
    upsertProfileState { profile with updatedAt := input.createdAt }
    return ok "profile_updated" "profile updated"
  else if input.parsed.action = "visibility" then
    match input.parsed.args with
    | [.positional value] =>
      upsertProfileState { profile with visibility := .ofText value, updatedAt := input.createdAt }
      return ok "profile_visibility_updated" "profile visibility updated"
    | _ => return err "invalid_args" "profile visibility requires public|private"
  else return err "invalid_command" "unsupported profile action"

/-! ### Repositories -/

/-- `actor_is_maintainer`. -/
def actorIsMaintainer (actor : List UInt8) (repoName : String) : Command Bool := do
  let maintainers ← listActiveRepoMaintainers actor repoName
  return maintainers.contains actor

/-- The `create` action. -/
def createRepo (input : Input) (repoName : String) : Command Output := do
  match ← repoState input.actorPubkey repoName with
  | some _ => return ok "repo_exists" "repo already exists"
  | none =>
    upsertRepoState {
      ownerPubkey := input.actorPubkey
      repoName
      description := none
      websiteUrl := none
      visibility := .isPrivate
      defaultBranch := "main"
      archived := false
      updatedAt := input.createdAt }
    setRepoMaintainer {
      ownerPubkey := input.actorPubkey
      repoName
      maintainerPubkey := input.actorPubkey
      active := true
      updatedAt := input.createdAt }
    return ok "repo_created" "repo created"

/-- One argument of `repo update`. -/
def setRepoField (state : RepoStateV1Record) (kv : String × String) : RepoStateV1Record :=
  if kv.1 = "description" then { state with description := some kv.2 }
  else if kv.1 = "website" then { state with websiteUrl := some kv.2 }
  else if kv.1 = "visibility" then { state with visibility := .ofText kv.2 }
  else if kv.1 = "default_branch" then { state with defaultBranch := kv.2 }
  else state

/-- The actions that change a repository record: the record must exist, then the actor must be a
maintainer. -/
def changeRepo (input : Input) (repoName : String) (change : RepoStateV1Record → RepoStateV1Record)
    (done : Output) : Command Output := do
  match ← repoState input.actorPubkey repoName with
  | none => return err "not_found" "repo not found"
  | some state =>
    if ← actorIsMaintainer input.actorPubkey repoName then
      upsertRepoState { change state with updatedAt := input.createdAt }
      return done
    else return err "unauthorized" "actor is not a maintainer"

/-- The `maintainers` action. -/
def changeMaintainers (b : Bech32) (input : Input) (repoName : String) : Command Output := do
  if ← actorIsMaintainer input.actorPubkey repoName then
    match input.parsed.args with
    | [.positional action, .positional npub] =>
      match pubkeyBytesFromNpub b npub with
      | none => return err "invalid_args" "invalid maintainer npub"
      | some maintainerPubkey =>
        setRepoMaintainer {
          ownerPubkey := input.actorPubkey
          repoName, maintainerPubkey
          active := action == "add"
          updatedAt := input.createdAt }
        return ok "repo_maintainer_updated" "repo maintainer updated"
    | _ => return err "invalid_args" "repo maintainers requires add|remove and npub"
  else return err "unauthorized" "actor is not a maintainer"

/-- `apply_repo`. -/
def applyRepo (b : Bech32) (input : Input) : Command Output :=
  match input.parsed.target with
  | none => return err "invalid_args" "repo target is required"
  | some repoName =>
    let action := input.parsed.action
    if action = "create" then createRepo input repoName
    else if action = "update" then
      changeRepo input repoName (fun state => (keyValues input.parsed.args).foldl setRepoField state)
        (ok "repo_updated" "repo updated")
    else if action = "archive" ∨ action = "unarchive" then
      changeRepo input repoName (fun state => { state with archived := action == "archive" })
        (ok "repo_state_updated" "repo archive state updated")
    else if action = "maintainers" then changeMaintainers b input repoName
    else if action = "announce" then return ok "repo_announce_accepted" "repo announcement accepted"
    else if action = "sync" then return ok "repo_sync_accepted" "repo sync accepted"
    else return err "invalid_command" "unsupported repo action"

/-! ### Execution -/

/-- `apply_command`. -/
def applyCommand (b : Bech32) (input : Input) : Command Output :=
  match input.parsed.ns with
  | .account => applyAccount input
  | .profile => applyProfile input
  | .repo => applyRepo b input

/-- The record that `execute_command` inserts first. -/
def logRecord (input : Input) : CommandLogRecord where
  eventId := input.eventId
  pubkey := input.actorPubkey
  ns := namespaceName input.parsed.ns
  action := input.parsed.action
  target := input.parsed.target
  argsJson := argsToJson input.parsed.args
  status := .ok
  code := "accepted"
  message := "accepted"
  createdAt := input.createdAt

/-- A failure of `apply_command` becomes an outcome. -/
def caught (applied : Except DispatchError Output) : Output :=
  match applied with
  | .ok outcome => outcome
  | .error failure => err "internal" failure.display

/-- `execute_command`. -/
def executeCommand (b : Bech32) (input : Input) : Command Output := do
  if ← insertCommandLog (logRecord input) then
    let outcome := caught (← ExceptT.lift (applyCommand b input).run)
    updateCommandLogOutcome input.eventId outcome.status outcome.code outcome.message
    return outcome
  else return ok "duplicate" "already processed"

end Command
end Gittree
