import Gittree.Services.Calls

/-!
# The coordinator

`services/coordinator/src/lib.rs`: an announcement that arrives over HTTP, and a job of the outbox
whose event has been published.  Both store the announcement, make sure of a Forgejo repository and
its web hook, store the mapping and provision the directory.  They differ in the name of the Forgejo
repository: the announcement's identifier and the first eight digits of its key, or the owner and
name in the job.

* `post_registerRepo`: what the shared part stores;
* `post_handleAnnouncementEventWithStorage`, `post_finalizeOutboxJob`: what can be stored in the
  mappings.
-/

namespace Gittree

open Rust

/-- `CoordinatorEventError`; the errors of `handle_announcement_event` are grouped. -/
inductive CoordinatorEventError
  | provision (err : ProvisionError)
  | storage (err : StorageError)
  | forgejo (err : Forgejo.Error)
  | mapping (err : CoreError)
  deriving DecidableEq, Repr

/-- `forgejo_repo_name`. -/
def forgejoRepoName (identifier pubkey : String) : String :=
  identifier ++ "--" ++ (Str.getTo pubkey 8).getD pubkey

/-- The stored mapping. -/
def mappingRecord (mapping : RepoMapping) (pubkey : List UInt8) : RepoMappingRecord where
  forgejoOwner := mapping.forgejo.owner
  forgejoRepo := mapping.forgejo.name
  pubkey
  identifier := mapping.identifier

/-- What both functions do with an announcement, given how they make sure of the repository and of
its web hook. -/
def registerRepo (event : RelayEvent) (a : RepoAnnouncement)
    (ensureRepo : Service Forgejo.Error Forgejo.Repo)
    (ensureWebhook : Forgejo.Repo → Service Forgejo.Error Unit) :
    Service CoordinatorEventError Unit := do
  let record ← Prog.ofExcept ((RepoAnnouncementRecord.new event.eventId event.pubkey event.createdAt
    a).mapError CoordinatorEventError.storage)
  ExceptT.adapt .storage (insertAnnouncement record)
  let repo ← ExceptT.adapt .forgejo ensureRepo
  ExceptT.adapt .forgejo (ensureWebhook repo)
  let mapping ← Prog.ofExcept ((RepoMapping.new repo.owner repo.name event.pubkey
    a.identifier).mapError CoordinatorEventError.mapping)
  ExceptT.adapt .storage (upsertMapping (mappingRecord mapping record.pubkey))

/-- `Nip34Event::parse_validated`, with the error of the coordinator. -/
def parseEvent (env : ServiceEnv) (event : RelayEvent) : Except CoordinatorEventError Nip34Event :=
  (Nip34Event.parseValidated env.host.parseUrl event.kind event.tags).mapError fun err =>
    .provision (.parse err.display)

/-- An event is read, its repository registered and its directory provisioned; events of other kinds
are ignored. -/
def processEvent (env : ServiceEnv) (event : RelayEvent)
    (ensureRepo : RepoAnnouncement → Service Forgejo.Error Forgejo.Repo)
    (ensureWebhook : Forgejo.Repo → Service Forgejo.Error Unit) :
    Service CoordinatorEventError CoordinatorAction := do
  match ← Prog.ofExcept (parseEvent env event) with
  | .repoAnnouncement a =>
    registerRepo event a (ensureRepo a) ensureWebhook
    ExceptT.adapt .provision (provisionEvent event)
  | _ => return .ignored

/-- `handle_announcement_event_with_storage`. -/
def handleAnnouncementEventWithStorage (env : ServiceEnv) (event : RelayEvent) :
    Service CoordinatorEventError CoordinatorAction :=
  processEvent env event
    (fun a => Forgejo.ensureRepo env.forgejo.config (forgejoRepoName a.identifier event.pubkey)
      a.description)
    (fun repo => Forgejo.ensureWebhook env.forgejo.config repo.name)

/-- `relay_event_from_job`. -/
def relayEventFromJob (job : RelayPublishJob) : RelayEvent where
  kind := job.kind
  eventId := Hex.encode job.eventId
  pubkey := Hex.encode job.pubkey
  createdAt := job.createdAt
  tags := job.tags

/-- `finalize_outbox_job`. -/
def finalizeOutboxJob (env : ServiceEnv) (job : RelayPublishJob) :
    Service CoordinatorEventError Unit := do
  let _ ← processEvent env (relayEventFromJob job)
    (fun a => Forgejo.ensureRepoForOwner env.forgejo.config job.forgejoOwner job.forgejoRepo
      a.description)
    (fun repo => Forgejo.ensureWebhookForOwner env.forgejo.config job.forgejoOwner repo.name)

/-! ### What is stored -/

section Spec

variable {env : ServiceEnv} {now : ℤ} {w : World}

theorem parseEvent_announcement {event : RelayEvent} {a : RepoAnnouncement}
    (h : parseEvent env event = .ok (.repoAnnouncement a)) :
    event.kind = kindGitRepoAnnouncement ∧ RepoAnnouncement.fromTags event.tags = .ok a ∧ a.Valid :=
  Nip34Event.parseValidated_announcement.1 (Result.mapError_eq_ok.1 h)

/-- The announcement and the mapping that registering a repository adds to the storage. -/
def Registered (event : RelayEvent) (a : RepoAnnouncement) (owner name : String) (s t : Store) :
    Prop :=
  ∃ record, RepoAnnouncementRecord.new event.eventId event.pubkey event.createdAt a = .ok record ∧
    t = { s with
      announcements := s.announcements.insertAnnouncement record
      mappings := s.mappings.upsertMapping ⟨owner, name, record.pubkey, a.identifier⟩ }

/-- Only the announcements may have changed. -/
def OnAnnouncements (s t : Store) : Prop :=
  t.mappings = s.mappings ∧ t.accounts = s.accounts ∧ t.outbox = s.outbox

theorem OnAnnouncements.refl (s : Store) : OnAnnouncements s s := ⟨rfl, rfl, rfl⟩

/-- Registering stores the announcement and the mapping, or fails before it touches the mappings. -/
theorem post_registerRepo {event : RelayEvent} {a : RepoAnnouncement} {owner name : String}
    {ensureRepo : Service Forgejo.Error Forgejo.Repo}
    {ensureWebhook : Forgejo.Repo → Service Forgejo.Error Unit}
    (hrepo : ∀ w, Forgejo.Answers env now w owner name ensureRepo)
    (hwebhook : ∀ repo w, Prog.Post (handle env now) (ensureWebhook repo) w
      (fun _ t => Forgejo.OnServer w t) (Forgejo.OnServer w)) :
    Prog.Post (handle env now) (registerRepo event a ensureRepo ensureWebhook) w
      (fun _ t => Registered event a owner name w.store t.store ∧ t.files = w.files)
      (fun t => OnAnnouncements w.store t.store) := by
  refine Prog.Post.bind (Prog.Post.ofExcept ?_ (OnAnnouncements.refl _))
  intro record hrecord
  refine Prog.Post.bind (Prog.Post.adapt (post_insertAnnouncement (OnAnnouncements.refl _) ?_))
  refine Prog.Post.bind (Prog.Post.adapt ((hrepo _).mono ?_ ?_))
  · rintro repo t ⟨⟨hstore, hfiles⟩, rfl, rfl⟩
    refine Prog.Post.bind (Prog.Post.adapt ((hwebhook repo t).mono ?_ ?_))
    · rintro - u ⟨hstore', hfiles'⟩
      have hu := hstore'.trans hstore
      have hkept : OnAnnouncements w.store u.store := by
        rw [hu]
        exact .refl _
      refine Prog.Post.bind (Prog.Post.ofExcept ?_ hkept)
      intro mapping hmapping
      refine Prog.Post.adapt (post_upsertMapping hkept ?_)
      refine ⟨⟨record, Result.mapError_eq_ok.1 hrecord, ?_⟩, hfiles'.trans hfiles⟩
      rw [RepoMapping.new_eq_ok (Result.mapError_eq_ok.1 hmapping)]
      simp only [hu, mappingRecord]
    · rintro u ⟨hstore', -⟩
      rw [hstore', hstore]
      exact .refl _
  · rintro t ⟨hstore, -⟩
    rw [hstore]
    exact .refl _

/-- What processing an event without an error has done: its announcement, if it is one, is
registered and provisioned. -/
def Processed (env : ServiceEnv) (event : RelayEvent) (target : RepoAnnouncement → String × String)
    (w t : World) : Prop :=
  ∀ a, parseEvent env event = .ok (.repoAnnouncement a) →
    Registered event a (target a).1 (target a).2 w.store t.store ∧ ∃ action,
      (handleAnnouncementEvent env.host env.root env.hooks event w.files).1 = .ok action

/-- What processing an event can do to the storage, with or without an error. -/
def Stored (env : ServiceEnv) (event : RelayEvent) (target : RepoAnnouncement → String × String)
    (s t : Store) : Prop :=
  OnAnnouncements s t ∨ ∃ a, parseEvent env event = .ok (.repoAnnouncement a) ∧
    Registered event a (target a).1 (target a).2 s t

theorem post_processEvent {event : RelayEvent} (target : RepoAnnouncement → String × String)
    {ensureRepo : RepoAnnouncement → Service Forgejo.Error Forgejo.Repo}
    {ensureWebhook : Forgejo.Repo → Service Forgejo.Error Unit}
    (hrepo : ∀ a w, Forgejo.Answers env now w (target a).1 (target a).2 (ensureRepo a))
    (hwebhook : ∀ repo w, Prog.Post (handle env now) (ensureWebhook repo) w
      (fun _ t => Forgejo.OnServer w t) (Forgejo.OnServer w)) :
    Prog.Post (handle env now) (processEvent env event ensureRepo ensureWebhook) w
      (fun _ t => Stored env event target w.store t.store ∧ Processed env event target w t)
      (fun t => Stored env event target w.store t.store) := by
  refine Prog.Post.bind (Prog.Post.ofExcept ?_ (.inl (.refl _)))
  intro parsed hparsed
  cases parsed with
  | repoAnnouncement a =>
    refine Prog.Post.bind ((post_registerRepo (hrepo a) hwebhook).mono ?_ fun t ht => .inl ht)
    rintro - t ⟨ht, hfiles⟩
    refine Prog.Post.adapt (post_provisionEvent.mono ?_ ?_)
    · rintro action u ⟨hu, haction⟩
      rw [← hu] at ht
      refine ⟨.inr ⟨a, hparsed, ht⟩, ?_⟩
      intro a' ha'
      cases hparsed.symm.trans ha'
      exact ⟨ht, action, hfiles ▸ haction⟩
    · intro u hu
      rw [← hu] at ht
      exact .inr ⟨a, hparsed, ht⟩
  | _ =>
    refine Prog.Post.pure ⟨.inl (.refl _), ?_⟩
    intro a ha
    cases hparsed.symm.trans ha

/-- The Forgejo repository of an announcement that arrives over HTTP. -/
def announcedTarget (env : ServiceEnv) (event : RelayEvent) (a : RepoAnnouncement) : String × String :=
  (env.forgejo.config.owner, forgejoRepoName a.identifier event.pubkey)

/-- The Forgejo repository of a job. -/
def jobTarget (job : RelayPublishJob) : String × String := (job.forgejoOwner, job.forgejoRepo)

theorem post_handleAnnouncementEventWithStorage (event : RelayEvent) :
    Prog.Post (handle env now) (handleAnnouncementEventWithStorage env event) w
      (fun _ t => Stored env event (announcedTarget env event) w.store t.store ∧
        Processed env event (announcedTarget env event) w t)
      (fun t => Stored env event (announcedTarget env event) w.store t.store) :=
  post_processEvent (announcedTarget env event) (fun _ _ => Forgejo.post_ensureRepo _ _)
    fun _ _ => Forgejo.post_ensureWebhookForOwner _ _ _

theorem post_finalizeOutboxJob (job : RelayPublishJob) :
    Prog.Post (handle env now) (finalizeOutboxJob env job) w
      (fun _ t => Stored env (relayEventFromJob job) (fun _ => jobTarget job) w.store t.store ∧
        Processed env (relayEventFromJob job) (fun _ => jobTarget job) w t)
      (fun t => Stored env (relayEventFromJob job) (fun _ => jobTarget job) w.store t.store) := by
  refine Prog.Post.bind ((post_processEvent (fun _ => jobTarget job)
    (fun _ _ => Forgejo.post_ensureRepoForOwner _ _ _ _)
    fun _ _ => Forgejo.post_ensureWebhookForOwner _ _ _).mono ?_ fun _ h => h)
  rintro action t ht
  exact Prog.Post.pure ht

theorem stored_handleAnnouncementEventWithStorage (event : RelayEvent) :
    Stored env event (announcedTarget env event) w.store
      ((handleAnnouncementEventWithStorage env event).run.run (handle env now) w).2.store :=
  ((post_handleAnnouncementEventWithStorage event).mono (fun _ _ h => h.1) fun _ h => h).final

theorem stored_finalizeOutboxJob (job : RelayPublishJob) :
    Stored env (relayEventFromJob job) (fun _ => jobTarget job) w.store
      ((finalizeOutboxJob env job).run.run (handle env now) w).2.store :=
  ((post_finalizeOutboxJob job).mono (fun _ _ h => h.1) fun _ h => h).final

end Spec
end Gittree
