import Gittree.Core.RepoMapping
import Gittree.Lib.Prog
import Gittree.Services.Forgejo
import Gittree.Services.Provision
import Gittree.Storage.Outbox
import Gittree.Storage.Repos

/-!
# The calls of the coordinator and the control service

Both services are programs that call the storage, the Forgejo server and, for the directories of
repositories, the file system.  A call of the storage or of the server can fail at any time: the
fault of each call is a parameter, by the number of calls made before it.

The client of `crates/forgejo/src/lib.rs` is a program of this kind.  Its `ensure` and `create`
functions answer with the repository they were asked for and change nothing but the server.

* `post_ensureRepo`, `post_ensureRepoForOwner`, `post_createRepoForOwner`, `post_ensureWebhook`.
-/

namespace Gittree

open Rust

/-- The tables of the storage. -/
structure Store where
  announcements : Announcements
  mappings : Mappings
  accounts : Accounts
  outbox : Outbox

/-- The storage, the Forgejo server, the file system, and the number of calls made. -/
structure World where
  store : Store
  forgejo : Forgejo.Server
  files : FileSystem
  calls : ℕ

/-- What the services run in: the host, the root and hooks of the repositories, the Forgejo account,
and the faults of calls. -/
structure ServiceEnv where
  host : Host
  root : String
  hooks : HookInstallConfig
  forgejo : Forgejo.Account
  faults : ℕ → Option String

/-- The calls. -/
inductive Call
  | insertAnnouncement (record : RepoAnnouncementRecord)
  | upsertMapping (record : RepoMappingRecord)
  | accountByPubkey (pubkey : List UInt8)
  | enqueueRelayPublish (request : RelayPublishRequest)
  | forgejo (request : Forgejo.Request)
  | provision (event : RelayEvent)

/-- The errors of a call. -/
def Call.Error : Call → Type
  | .forgejo _ => Forgejo.Error
  | .provision _ => ProvisionError
  | _ => StorageError

/-- The results of a call. -/
def Call.Result : Call → Type
  | .insertAnnouncement _ | .upsertMapping _ | .enqueueRelayPublish _ => Unit
  | .accountByPubkey _ => Option AccountRecord
  | .forgejo request => Forgejo.Response request.Payload
  | .provision _ => CoordinatorAction

/-- The answers to a call. -/
abbrev Call.Answer (call : Call) : Type := Except call.Error call.Result

/-- The error of a call that fails; the file system fails in its own ways. -/
def Call.failure : (call : Call) → String → Option call.Error
  | .insertAnnouncement _, message => some (.internal message)
  | .upsertMapping _, message => some (.internal message)
  | .accountByPubkey _, message => some (.internal message)
  | .enqueueRelayPublish _, message => some (.internal message)
  | .forgejo _, message => some (.request message)
  | .provision _, _ => none

/-- A call that does not fail, at a given time. -/
def Call.perform (env : ServiceEnv) (now : ℤ) : (call : Call) → World → call.Answer × World
  | .insertAnnouncement record, w =>
    (.ok (), { w with store := { w.store with
      announcements := w.store.announcements.insertAnnouncement record } })
  | .upsertMapping record, w =>
    (.ok (), { w with store := { w.store with mappings := w.store.mappings.upsertMapping record } })
  | .accountByPubkey pubkey, w => (.ok (w.store.accounts.accountByPubkey pubkey), w)
  | .enqueueRelayPublish request, w =>
    match w.store.outbox.enqueueRelayPublish request now with
    | .ok outbox => (.ok (), { w with store := { w.store with outbox } })
    | .error err => (.error err, w)
  | .forgejo request, w =>
    let answered := Forgejo.Server.answer env.forgejo request w.forgejo
    (.ok answered.1, { w with forgejo := answered.2 })
  | .provision event, w =>
    let answered := handleAnnouncementEvent env.host env.root env.hooks event w.files
    (answered.1, { w with files := answered.2 })

/-- The handler of calls. -/
def handle (env : ServiceEnv) (now : ℤ) (call : Call) (w : World) : call.Answer × World :=
  match (env.faults w.calls).bind call.failure with
  | some err => (.error err, { w with calls := w.calls + 1 })
  | none => call.perform env now { w with calls := w.calls + 1 }

/-- Programs of the services. -/
abbrev Service (ε α : Type) : Type := ExceptT ε (Prog Call Call.Answer) α

/-- A call as a program. -/
def ask (call : Call) : Service call.Error call.Result := Prog.attempt (Prog.ask call)

/-- After a call: it failed and only the count of calls has changed, or it was performed. -/
theorem post_ask {env : ServiceEnv} {now : ℤ} {w : World} (call : Call) {Q : call.Result → World → Prop}
    {E : World → Prop} (hfault : E { w with calls := w.calls + 1 })
    (hdone : Prog.Outcome Q E (call.perform env now { w with calls := w.calls + 1 })) :
    Prog.Post (handle env now) (ask call) w Q E := by
  refine Prog.Post.attempt ?_
  rw [Prog.run_ask]
  unfold handle
  cases (env.faults w.calls).bind call.failure with
  | some err => exact hfault
  | none => exact hdone

/-! ### Calls of the storage and of the file system -/

/-- `insert_announcement`. -/
def insertAnnouncement (record : RepoAnnouncementRecord) : Service StorageError Unit :=
  ask (.insertAnnouncement record)

/-- `upsert_mapping`. -/
def upsertMapping (record : RepoMappingRecord) : Service StorageError Unit :=
  ask (.upsertMapping record)

/-- `account_by_pubkey`. -/
def accountByPubkey (pubkey : List UInt8) : Service StorageError (Option AccountRecord) :=
  ask (.accountByPubkey pubkey)

/-- `enqueue_relay_publish`. -/
def enqueueRelayPublish (request : RelayPublishRequest) : Service StorageError Unit :=
  ask (.enqueueRelayPublish request)

/-- `handle_announcement_event`, on the file system. -/
def provisionEvent (event : RelayEvent) : Service ProvisionError CoordinatorAction :=
  ask (.provision event)

section Spec

variable {env : ServiceEnv} {now : ℤ} {w : World} {E : World → Prop}

theorem post_insertAnnouncement {record : RepoAnnouncementRecord} {Q : Unit → World → Prop}
    (hfault : E { w with calls := w.calls + 1 })
    (hdone : Q () { w with
      store := { w.store with announcements := w.store.announcements.insertAnnouncement record }
      calls := w.calls + 1 }) :
    Prog.Post (handle env now) (insertAnnouncement record) w Q E :=
  post_ask (.insertAnnouncement record) hfault hdone

theorem post_upsertMapping {record : RepoMappingRecord} {Q : Unit → World → Prop}
    (hfault : E { w with calls := w.calls + 1 })
    (hdone : Q () { w with
      store := { w.store with mappings := w.store.mappings.upsertMapping record }
      calls := w.calls + 1 }) :
    Prog.Post (handle env now) (upsertMapping record) w Q E :=
  post_ask (.upsertMapping record) hfault hdone

theorem post_accountByPubkey {pubkey : List UInt8} {Q : Option AccountRecord → World → Prop}
    (hfault : E { w with calls := w.calls + 1 })
    (hdone : Q (w.store.accounts.accountByPubkey pubkey) { w with calls := w.calls + 1 }) :
    Prog.Post (handle env now) (accountByPubkey pubkey) w Q E :=
  post_ask (.accountByPubkey pubkey) hfault hdone

/-- A request is enqueued, or nothing but the count of calls changes. -/
theorem post_enqueueRelayPublish {request : RelayPublishRequest} {Q : Unit → World → Prop}
    (hfault : E { w with calls := w.calls + 1 })
    (hdone : ∀ outbox, w.store.outbox.enqueueRelayPublish request now = .ok outbox →
      Q () { w with store := { w.store with outbox }, calls := w.calls + 1 }) :
    Prog.Post (handle env now) (enqueueRelayPublish request) w Q E := by
  refine post_ask (.enqueueRelayPublish request) hfault ?_
  cases hq : w.store.outbox.enqueueRelayPublish request now with
  | error err =>
    simp only [Call.perform, hq]
    exact hfault
  | ok outbox =>
    simp only [Call.perform, hq]
    exact hdone outbox hq

/-- The file system never fails by a fault. -/
theorem post_provisionEvent {event : RelayEvent} :
    Prog.Post (handle env now) (provisionEvent event) w
      (fun action t => t.store = w.store ∧
        (handleAnnouncementEvent env.host env.root env.hooks event w.files).1 = .ok action)
      (fun t => t.store = w.store) := by
  refine post_ask (.provision event) rfl ?_
  cases hp : handleAnnouncementEvent env.host env.root env.hooks event w.files with
  | mk result files =>
    simp only [Call.perform, hp]
    cases result with
    | error err => rfl
    | ok action => exact ⟨rfl, rfl⟩

end Spec

/-! ### The Forgejo client -/

namespace Forgejo

/-- `transport.send`. -/
def send (request : Request) : Service Error (Response request.Payload) :=
  ask (.forgejo request)

/-- `get_repo_for_owner`. -/
def getRepoForOwner (owner name : String) : Service Error (Option Repo) := do
  let response ← send (.getRepo owner name)
  if response.status = 200 then some <$> Prog.ofExcept response.parse
  else if response.status = 404 then return none
  else throw (.response response.status response.body)

/-- The repository that exists after all. -/
def getExisting (owner name : String) : Service Error Repo := do
  let found ← getRepoForOwner owner name
  Prog.ofExcept (Result.okOr found (.notFound name))

/-- The response to the request that creates a repository; `missing` is what follows statuses 403
and 404. -/
def created (owner name : String) (response : Response Repo)
    (missing : Service Error Repo) : Service Error Repo :=
  if response.status = 201 then Prog.ofExcept response.parse
  else if response.status = 403 ∨ response.status = 404 then missing
  else if response.status = 409 then getExisting owner name
  else throw (.response response.status response.body)

/-- `create_repo`: first under an organisation, then under the account of the token. -/
def createRepo (config : Config) (name : String) (description : Option String) :
    Service Error Repo := do
  let payload := ⟨name, description, config.repoPrivate⟩
  let response ← send (.createOrgRepo config.owner payload)
  created config.owner name response do
    let response ← send (.createUserRepo payload)
    created config.owner name response (throw (.response response.status response.body))

/-- `create_repo_for_owner`, with its `ForgejoCreateRepo` argument. -/
def createRepoForOwner (config : Config) (owner name : String) (description : Option String)
    (isPrivate autoInit : Option Bool) : Service Error Repo := do
  let response ← send (.createAdminRepo owner
    ⟨⟨name, description, isPrivate.getD config.repoPrivate⟩, autoInit.getD false⟩)
  created owner name response (throw (.response response.status response.body))

/-- `ensure_repo`. -/
def ensureRepo (config : Config) (name : String) (description : Option String) :
    Service Error Repo := do
  match ← getRepoForOwner config.owner name with
  | some repo => return repo
  | none => createRepo config name description

/-- `ensure_repo_for_owner`. -/
def ensureRepoForOwner (config : Config) (owner name : String) (description : Option String) :
    Service Error Repo := do
  match ← getRepoForOwner owner name with
  | some repo => return repo
  | none => createRepoForOwner config owner name description none none

/-- `ensure_webhook_for_owner`. -/
def ensureWebhookForOwner (config : Config) (owner repo : String) : Service Error Unit := do
  let listed ← send (.listHooks owner repo)
  if listed.status = 200 then
    let hooks ← Prog.ofExcept listed.parse
    if hooks.any fun url => url = some config.webhookUrl then return ()
    else
      let made ← send (.createHook owner repo config.webhookUrl)
      if made.status = 200 ∨ made.status = 201 then return ()
      else throw (.response made.status made.body)
  else throw (.response listed.status listed.body)

/-- `ensure_webhook`. -/
def ensureWebhook (config : Config) (repo : String) : Service Error Unit :=
  ensureWebhookForOwner config config.owner repo

/-! ### What the client answers -/

variable {env : ServiceEnv} {now : ℤ} {w : World}

/-- The states in which nothing but the server has changed. -/
def OnServer (w t : World) : Prop := t.store = w.store ∧ t.files = w.files

theorem OnServer.refl (w : World) : OnServer w w := ⟨rfl, rfl⟩

theorem OnServer.trans {u v : World} (h : OnServer w u) (h' : OnServer u v) : OnServer w v :=
  ⟨h'.1.trans h.1, h'.2.trans h.2⟩

/-- A request that is answered is answered by the server. -/
theorem post_send (request : Request) : Prog.Post (handle env now) (send request) w
    (fun response t => OnServer w t ∧ ∃ server, (Server.answer env.forgejo request server).1 = response)
    (OnServer w) := by
  exact post_ask (.forgejo request) ⟨rfl, rfl⟩ ⟨⟨rfl, rfl⟩, w.forgejo, rfl⟩

/-- A repository that is answered is the one with the given owner and name. -/
def Named (owner name : String) (repo : Repo) : Prop := repo.owner = owner ∧ repo.name = name

/-- After a program that answers with a repository: it has the given name, and only the server has
changed. -/
abbrev Answers (env : ServiceEnv) (now : ℤ) (w : World) (owner name : String) (x : Service Error Repo) :
    Prop :=
  Prog.Post (handle env now) x w (fun repo t => OnServer w t ∧ Named owner name repo) (OnServer w)

theorem post_getRepoForOwner (owner name : String) :
    Prog.Post (handle env now) (getRepoForOwner owner name) w
      (fun found t => OnServer w t ∧ ∀ repo ∈ found, Named owner name repo) (OnServer w) := by
  refine Prog.Post.bind ((post_send _).mono ?_ fun _ h => h)
  rintro response t ⟨ht, server, rfl⟩
  split_ifs
  · refine Prog.Post.bind (Prog.Post.ofExcept ?_ ht)
    intro repo hparse
    refine Prog.Post.pure ⟨ht, ?_⟩
    rintro _ ⟨⟩
    exact Server.get_parsed hparse
  · exact Prog.Post.pure ⟨ht, by rintro _ ⟨⟩⟩
  · exact Prog.Post.throw ht

theorem post_getExisting (owner name : String) :
    Answers env now w owner name (getExisting owner name) := by
  refine Prog.Post.bind ((post_getRepoForOwner owner name).mono ?_ fun _ h => h)
  rintro found t ⟨ht, hfound⟩
  refine Prog.Post.ofExcept ?_ ht
  intro repo h
  exact ⟨ht, hfound repo (Result.okOr_eq_ok.1 h)⟩

/-- After the request that creates a repository. -/
theorem post_created {owner name : String} {response : Response Repo} {missing : Service Error Repo}
    (hmade : ∀ repo, response.parse = .ok repo → Named owner name repo)
    (hmissing : response.status = 403 ∨ response.status = 404 → Answers env now w owner name missing) :
    Answers env now w owner name (created owner name response missing) := by
  unfold created
  split_ifs with hok hno hexists
  · exact Prog.Post.ofExcept (fun repo h => ⟨.refl w, hmade repo h⟩) (.refl w)
  · exact hmissing hno
  · exact post_getExisting owner name
  · exact Prog.Post.throw (.refl w)

/-- `Answers` from a later state. -/
theorem Answers.later {owner name : String} {x : Service Error Repo} {t : World}
    (h : Answers env now t owner name x) (ht : OnServer w t) :
    Prog.Post (handle env now) x t (fun repo u => OnServer w u ∧ Named owner name repo)
      (OnServer w) := by
  refine h.mono ?_ fun u hu => ht.trans hu
  rintro repo u ⟨hu, hrepo⟩
  exact ⟨ht.trans hu, hrepo⟩

theorem post_createRepoForOwner (config : Config) (owner name : String)
    (description : Option String) (isPrivate autoInit : Option Bool) :
    Answers env now w owner name
      (createRepoForOwner config owner name description isPrivate autoInit) := by
  refine Prog.Post.bind ((post_send _).mono ?_ fun _ h => h)
  rintro response t ⟨ht, server, rfl⟩
  refine Answers.later (post_created ?_ fun _ => Prog.Post.throw (.refl t)) ht
  intro repo hparse
  exact Server.create_parsed hparse

theorem post_createRepo (name : String) (description : Option String) :
    Answers env now w env.forgejo.config.owner name
      (createRepo env.forgejo.config name description) := by
  refine Prog.Post.bind ((post_send _).mono ?_ fun _ h => h)
  rintro response t ⟨ht, server, hresponse⟩
  by_cases horg : env.forgejo.config.owner ∈ env.forgejo.orgs
  · -- an organisation answers 201 or 409
    obtain rfl := (congrArg Prod.fst (if_pos horg)).symm.trans hresponse
    refine Answers.later (post_created (fun _ h => Server.create_parsed h) ?_) ht
    intro hstatus
    rcases Server.create_status server env.forgejo.config.owner name with h | h <;>
      rw [h] at hstatus <;> simp at hstatus
  · -- otherwise the owner is the account of the token
    obtain rfl := (congrArg Prod.fst (if_neg horg)).symm.trans hresponse
    refine Answers.later (post_created (by rintro repo ⟨⟩) ?_) ht
    rintro -
    refine Prog.Post.bind ((post_send _).mono ?_ fun _ h => h)
    rintro response u ⟨hu, server', rfl⟩
    refine Answers.later (post_created ?_ fun _ => Prog.Post.throw (.refl u)) hu
    intro repo hparse
    rw [env.forgejo.owned.resolve_left horg]
    exact Server.create_parsed hparse

/-- `ensure_repo` answers with the repository of the configured owner. -/
theorem post_ensureRepo (name : String) (description : Option String) :
    Answers env now w env.forgejo.config.owner name
      (ensureRepo env.forgejo.config name description) := by
  refine Prog.Post.bind ((post_getRepoForOwner _ name).mono ?_ fun _ h => h)
  rintro found t ⟨ht, hfound⟩
  cases found with
  | some repo => exact Prog.Post.pure ⟨ht, hfound repo rfl⟩
  | none => exact Answers.later (post_createRepo name description) ht

/-- `ensure_repo_for_owner` answers with the repository of the owner. -/
theorem post_ensureRepoForOwner (config : Config) (owner name : String)
    (description : Option String) :
    Answers env now w owner name (ensureRepoForOwner config owner name description) := by
  refine Prog.Post.bind ((post_getRepoForOwner owner name).mono ?_ fun _ h => h)
  rintro found t ⟨ht, hfound⟩
  cases found with
  | some repo => exact Prog.Post.pure ⟨ht, hfound repo rfl⟩
  | none => exact Answers.later (post_createRepoForOwner config owner name description _ _) ht

theorem post_ensureWebhookForOwner (config : Config) (owner repo : String) :
    Prog.Post (handle env now) (ensureWebhookForOwner config owner repo) w (fun _ t => OnServer w t)
      (OnServer w) := by
  refine Prog.Post.bind ((post_send _).mono ?_ fun _ h => h)
  rintro listed t ⟨ht, -⟩
  split_ifs
  · refine Prog.Post.bind (Prog.Post.ofExcept ?_ ht)
    intro hooks _
    split_ifs
    · exact Prog.Post.pure ht
    · refine Prog.Post.bind ((post_send _).mono ?_ fun u hu => ht.trans hu)
      rintro made u ⟨hu, -⟩
      split_ifs
      · exact Prog.Post.pure (ht.trans hu)
      · exact Prog.Post.throw (ht.trans hu)
  · exact Prog.Post.throw ht

end Forgejo
end Gittree
