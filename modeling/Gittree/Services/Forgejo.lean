import Gittree.Lib.Result

/-!
# Requests to a Forgejo server

The requests of `crates/forgejo/src/lib.rs` and a server that answers them: a table of repositories
by owner and name, in which asking for a repository finds the existing one and creating one makes it
or answers that it exists.  Repositories can be created under an organisation, under the account
that the token belongs to and, by an administrator, under any account.

A response carries what `serde_json` reads from its body.
-/

namespace Gittree
namespace Forgejo

/-- `ForgejoRepo` of the client. -/
structure Repo where
  owner : String
  name : String
  fullName : String
  htmlUrl : Option String
  deriving DecidableEq, Repr

/-- `ForgejoError`. -/
inductive Error
  | request (message : String)
  | response (status : ℕ) (body : String)
  | parse (message : String)
  | notFound (message : String)
  deriving DecidableEq, Repr

def Error.display : Error → String
  | .request message => "forgejo request error: " ++ message
  | .response status body => "forgejo response " ++ toString status ++ ": " ++ body
  | .parse message => "forgejo parse error: " ++ message
  | .notFound message => "forgejo not found: " ++ message

/-- The parts of `ForgejoConfig` that requests about repositories use. -/
structure Config where
  owner : String
  webhookUrl : String
  repoPrivate : Bool

/-- `CreateRepoPayload`. -/
structure CreateRepoPayload where
  name : String
  description : Option String
  isPrivate : Bool

/-- `CreateAdminRepoPayload`. -/
structure CreateAdminRepoPayload extends CreateRepoPayload where
  autoInit : Bool

/-- The requests of the client. -/
inductive Request
  | getRepo (owner name : String)
  | createOrgRepo (owner : String) (payload : CreateRepoPayload)
  | createUserRepo (payload : CreateRepoPayload)
  | createAdminRepo (owner : String) (payload : CreateAdminRepoPayload)
  | listHooks (owner repo : String)
  | createHook (owner repo url : String)

/-- What the body of a successful response holds. -/
def Request.Payload : Request → Type
  | .getRepo .. | .createOrgRepo .. | .createUserRepo .. | .createAdminRepo .. => Repo
  | .listHooks .. => List (Option String)
  | .createHook .. => Unit

/-- `ForgejoResponse`, with its parsed body. -/
structure Response (α : Type) where
  status : ℕ
  body : String
  parsed : Except String α

/-- `parse_json` of the body. -/
def Response.parse {α : Type} (response : Response α) : Except Error α :=
  response.parsed.mapError .parse

/-- A response without a payload. -/
def Response.bare {α : Type} (status : ℕ) : Response α := ⟨status, "", .error "EOF while parsing"⟩

/-- A response with a payload. -/
def Response.carrying {α : Type} (status : ℕ) (a : α) : Response α := ⟨status, "", .ok a⟩

/-- The account that the client acts for: its configured owner is an organisation or the account
itself. -/
structure Account where
  config : Config
  user : String
  orgs : List String
  owned : config.owner ∈ orgs ∨ config.owner = user

/-- The repositories of a server, and the URLs of their web hooks. -/
structure Server where
  repos : List Repo
  hooks : List (String × String × String)

namespace Server

/-- The repository with an owner and a name. -/
def find (server : Server) (owner name : String) : Option Repo :=
  server.repos.find? fun repo => repo.owner = owner ∧ repo.name = name

/-- A repository as it is made. -/
def newRepo (owner name : String) : Repo := ⟨owner, name, owner ++ "/" ++ name, none⟩

/-- A repository is made, unless it exists. -/
def create (server : Server) (owner name : String) : Response Repo × Server :=
  match server.find owner name with
  | some _ => (.bare 409, server)
  | none =>
    (.carrying 201 (newRepo owner name),
      { server with repos := newRepo owner name :: server.repos })

/-- A repository is looked up. -/
def get (server : Server) (owner name : String) : Response Repo :=
  match server.find owner name with
  | some repo => .carrying 200 repo
  | none => .bare 404

/-- The answer to a request. -/
def answer (account : Account) : (request : Request) → Server → Response request.Payload × Server
  | .getRepo owner name, server => (server.get owner name, server)
  | .createOrgRepo owner payload, server =>
    if owner ∈ account.orgs then server.create owner payload.name else (.bare 404, server)
  | .createUserRepo payload, server => server.create account.user payload.name
  | .createAdminRepo owner payload, server => server.create owner payload.name
  | .listHooks owner repo, server =>
    match server.find owner repo with
    | some _ =>
      let hooks := server.hooks.filter fun hook => hook.1 = owner ∧ hook.2.1 = repo
      (.carrying 200 (hooks.map fun hook => some hook.2.2), server)
    | none => (.bare 404, server)
  | .createHook owner repo url, server =>
    match server.find owner repo with
    | some _ => (.carrying 201 (), { server with hooks := (owner, repo, url) :: server.hooks })
    | none => (.bare 404, server)

theorem find_eq_some {server : Server} {owner name : String} {repo : Repo}
    (h : server.find owner name = some repo) : repo.owner = owner ∧ repo.name = name := by
  simpa using List.find?_some h

theorem get_parsed {server : Server} {owner name : String} {repo : Repo}
    (h : (server.get owner name).parse = .ok repo) : repo.owner = owner ∧ repo.name = name := by
  unfold get at h
  split at h
  · rename_i hfind
    cases h
    exact find_eq_some hfind
  · cases h

/-- What is made is what was asked for. -/
theorem create_parsed {server : Server} {owner name : String} {repo : Repo}
    (h : (server.create owner name).1.parse = .ok repo) : repo.owner = owner ∧ repo.name = name := by
  unfold create at h
  split at h
  · cases h
  · cases h
    exact ⟨rfl, rfl⟩

theorem create_status (server : Server) (owner name : String) :
    (server.create owner name).1.status = 201 ∨ (server.create owner name).1.status = 409 := by
  unfold create
  split
  · exact .inr rfl
  · exact .inl rfl

end Server
end Forgejo
end Gittree
