import Gittree.Relay.Event
import Gittree.Services.Calls

/-!
# Creation of repositories in the control service

`services/control/src/lib.rs`: a repository is created on request, with an announcement that the
service signs with the key it is given, or from an announcement that the user has signed.  Either way
the Forgejo repository is created, and the announcement is put into the outbox once for each relay.
`from_announcement` of `crates/relay-adapter/src/lib.rs` makes the signed announcement.

* `post_enqueueAll`: the jobs of an announcement;
* `post_createRepoWithAnnouncement`: the mappings stay as they are;
* `validateRepoAnnouncementEvent_eq_ok`: the events that are accepted;
* `post_createRepoFromSignedEvent`: the jobs of an accepted event.
-/

namespace Gittree

open Rust

/-- `ControlHttpError`. -/
inductive ControlHttpError
  | unauthorized (message : String)
  | badRequest (message : String)
  | internal (message : String)
  deriving DecidableEq, Repr

/-- The cryptography of the services: `Crypto`, and the x-only public key of a secret key. -/
structure Signing extends Crypto where
  publicKey : List UInt8 → List UInt8

/-- The settings of `ControlAppState` that the creation of repositories uses. -/
structure ControlConfig where
  forgejoOwner : String
  relayUrls : List String
  publicGitUrl : String
  repoPrivateDefault : Bool

namespace Control

/-- `require_non_empty`. -/
def requireNonEmpty (field value : String) : Except ControlHttpError Unit :=
  Result.ensure (Str.trim value ≠ "") (.badRequest ("missing " ++ field))

/-- `require_hex64`. -/
def requireHex64 (field value : String) : Except ControlHttpError Unit :=
  Result.ensure (Str.isHexLen value 64 = true) (.badRequest ("invalid " ++ field))

/-- `npub_from_hex`. -/
def npubFromHex (b : Bech32) (pubkey : String) : Except ControlHttpError String :=
  Result.okOr (Gittree.npubFromHex b pubkey) (.badRequest "invalid pubkey")

/-- `parse_secret_key`. -/
def parseSecretKey (crypto : Crypto) (value : String) : Except ControlHttpError (List UInt8) := do
  Result.ensure (Str.len value = 64) (.badRequest "invalid privkey")
  let bytes ← Result.okOr (Hex.decode value) (.badRequest "invalid privkey")
  Result.ensure (crypto.isSecretKey bytes = true) (.badRequest "invalid privkey")
  return bytes

/-- `map_forgejo_error`. -/
def mapForgejoError : Forgejo.Error → ControlHttpError
  | .response status body =>
    if 400 ≤ status ∧ status < 500 then
      .badRequest ("forgejo error " ++ toString status ++ ": " ++ body)
    else .internal (Forgejo.Error.response status body).display
  | err => .internal err.display

/-- `map_storage_error`. -/
def mapStorageError (err : StorageError) : ControlHttpError := .internal err.display

/-! ### Signed announcements -/

/-- The errors of `RelayAdapterError` that signing can answer. -/
inductive RelayAdapterError
  | invalidConfig (message : String)
  | protocol (message : String)
  deriving DecidableEq, Repr

def RelayAdapterError.display : RelayAdapterError → String
  | .invalidConfig message => "invalid config: " ++ message
  | .protocol message => "protocol error: " ++ message

/-- `SignedNostrEvent::signed`; the payload of `build_event_id` is the canonical JSON of the event. -/
def signed (signing : Signing) (createdAt : ℤ) (kind : ℕ) (tags : Tags) (content : String)
    (secretKey : List UInt8) : Except RelayAdapterError NostrEvent := do
  let draft : NostrEvent := {
    id := ""
    pubkey := Hex.encode (signing.publicKey secretKey)
    createdAt, kind, tags, content
    sig := "" }
  let digest := signing.sha256 draft.canonicalJson
  Result.ensure (digest.length = 32) (.protocol "invalid event id")
  return { draft with
    id := Hex.encode digest
    sig := Hex.encode (signing.signSchnorr secretKey digest) }

/-- `SignedNostrEvent::from_announcement`, at a given time. -/
def fromAnnouncement (signing : Signing) (a : RepoAnnouncement) (secretKey : List UInt8) (now : ℤ) :
    Except RelayAdapterError NostrEvent := do
  a.validate.mapError fun err => .invalidConfig err.display
  signed signing now kindGitRepoAnnouncement a.toTags "" secretKey

/-! ### The outbox -/

/-- The request to publish an event on a relay. -/
def publishRequest (event : NostrEvent) (owner repo identifier relayUrl : String) :
    RelayPublishRequest where
  relayUrl
  eventId := event.id
  pubkey := event.pubkey
  createdAt := event.createdAt
  kind := event.kind
  tags := event.tags
  content := event.content
  sig := event.sig
  forgejoOwner := owner
  forgejoRepo := repo
  identifier

/-- The loop over the relays. -/
def enqueueAll (event : NostrEvent) (owner repo identifier : String) :
    List String → Service StorageError Unit
  | [] => return ()
  | relayUrl :: rest => do
    enqueueRelayPublish (publishRequest event owner repo identifier relayUrl)
    enqueueAll event owner repo identifier rest

/-! ### Creation on request -/

/-- `CreateRepoInput`. -/
structure CreateRepoInput where
  owner : Option String
  name : String
  identifier : Option String
  description : Option String
  isPrivate : Option Bool
  autoInit : Option Bool
  pubkey : String
  privkey : String

/-- The part of `create_repo_with_announcement` before Forgejo is asked: the owner, the identifier
and the signed announcement. -/
def prepareAnnouncement (env : ServiceEnv) (signing : Signing) (config : ControlConfig) (now : ℤ)
    (input : CreateRepoInput) : Except ControlHttpError (String × String × NostrEvent) := do
  let owner := input.owner.getD config.forgejoOwner
  let identifier := input.identifier.getD input.name
  requireNonEmpty "owner" owner
  requireNonEmpty "name" input.name
  requireNonEmpty "identifier" identifier
  requireHex64 "privkey" input.privkey
  Result.ensure (config.relayUrls ≠ []) (.badRequest "missing relay urls")
  let npub ← npubFromHex env.host.bech32 input.pubkey
  let secretKey ← parseSecretKey signing.toCrypto input.privkey
  let cloneUrl ← (formatGraspServerUrlAsCloneUrl env.host.bech32 env.host.parseUrl
    config.publicGitUrl npub identifier).mapError fun err => .badRequest err.display
  let announcement : RepoAnnouncement := {
    identifier
    name := some input.name
    description := input.description
    rootCommit := none
    clone := [cloneUrl]
    web := []
    relays := config.relayUrls
    blossoms := []
    hashtags := []
    maintainers := [input.pubkey] }
  let event ← (fromAnnouncement signing announcement secretKey now).mapError fun err =>
    .badRequest err.display
  Result.ensure (event.pubkey = input.pubkey) (.badRequest "pubkey does not match privkey")
  return (owner, identifier, event)

/-- `create_repo_with_announcement`. -/
def createRepoWithAnnouncement (env : ServiceEnv) (signing : Signing) (config : ControlConfig) (now : ℤ)
    (input : CreateRepoInput) : Service ControlHttpError Forgejo.Repo := do
  let (owner, identifier, event) ← Prog.ofExcept (prepareAnnouncement env signing config now input)
  let repo ← ExceptT.adapt mapForgejoError (Forgejo.createRepoForOwner env.forgejo.config owner
    input.name input.description input.isPrivate input.autoInit)
  ExceptT.adapt mapStorageError (enqueueAll event owner repo.name identifier config.relayUrls)
  return repo

/-! ### Creation from a signed event -/

/-- `verify_signed_event`. -/
def verifySignedEvent (crypto : Crypto) (event : NostrEvent) :
    Except ControlHttpError (List UInt8) := do
  let eventId ← Result.okOr (Hex.decode event.id) (.badRequest "invalid event id")
  Result.ensure (eventId.length = 32) (.badRequest "invalid event id")
  Result.ensure (event.computeId crypto = event.id) (.badRequest "event id mismatch")
  Result.ensure (crypto.isSignature event.sig = true) (.badRequest "invalid event sig")
  let pubkey ← Result.okOr (Hex.decode event.pubkey) (.badRequest "invalid pubkey")
  Result.ensure (pubkey.length = 32) (.badRequest "invalid pubkey")
  Result.ensure (crypto.isXOnlyKey event.pubkey = true) (.badRequest "invalid pubkey")
  Result.ensure (crypto.verifySchnorr event.sig eventId event.pubkey = true)
    (.badRequest "invalid event sig")
  return pubkey

/-- What `validate_repo_announcement_event` answers. -/
structure ValidAnnouncement where
  announcement : RepoAnnouncement
  identifier : String
  npub : String
  pubkey : List UInt8

/-- `validate_repo_announcement_event`. -/
def validateRepoAnnouncementEvent (host : Host) (crypto : Crypto) (event : NostrEvent)
    (authPubkey : String) (relayUrls : List String) (publicGitUrl : String) :
    Except ControlHttpError ValidAnnouncement := do
  Result.ensure (event.kind = kindGitRepoAnnouncement) (.badRequest "invalid repo announcement kind")
  Result.ensure (event.pubkey = authPubkey) (.unauthorized "repo event pubkey mismatch")
  let npub ← npubFromHex host.bech32 event.pubkey
  let pubkey ← verifySignedEvent crypto event
  let announcement ← (RepoAnnouncement.fromTags event.tags).mapError fun err =>
    .badRequest err.display
  announcement.validate.mapError fun err => .badRequest err.display
  Result.ensure (event.pubkey ∈ announcement.maintainers) (.badRequest "missing maintainer pubkey")
  let identifier := normalizeIdentifier announcement.identifier
  Result.ensure (Str.trim identifier ≠ "") (.badRequest "invalid repo identifier")
  let expectedClone ← (formatGraspServerUrlAsCloneUrl host.bech32 host.parseUrl publicGitUrl npub
    identifier).mapError fun err => .badRequest err.display
  Result.ensure (expectedClone ∈ announcement.clone) (.badRequest "missing clone url")
  Result.ensure (∀ url ∈ relayUrls, url ∈ announcement.relays) (.badRequest "missing relay url")
  return { announcement, identifier, npub, pubkey }

/-- `RepoCreateResponse`. -/
structure RepoCreateResponse where
  owner : String
  name : String
  htmlUrl : Option String
  deriving DecidableEq, Repr

/-- `create_repo_from_signed_event`. -/
def createRepoFromSignedEvent (env : ServiceEnv) (crypto : Crypto) (config : ControlConfig)
    (authPubkey : String) (event : NostrEvent) (isPrivate : Option Bool) :
    Service ControlHttpError RepoCreateResponse := do
  let valid ← Prog.ofExcept (validateRepoAnnouncementEvent env.host crypto event authPubkey
    config.relayUrls config.publicGitUrl)
  let found ← ExceptT.adapt mapStorageError (accountByPubkey valid.pubkey)
  let account ← Prog.ofExcept (Result.okOr found (.badRequest "account not found"))
  let owner := account.forgejoUsername
  let repo ← ExceptT.adapt mapForgejoError (Forgejo.createRepoForOwner env.forgejo.config owner
    valid.identifier valid.announcement.description
    (some (isPrivate.getD config.repoPrivateDefault)) none)
  ExceptT.adapt mapStorageError (enqueueAll event owner repo.name valid.identifier config.relayUrls)
  return { owner, name := repo.name, htmlUrl := repo.htmlUrl }

/-- What an accepted event has, and what is answered for it. -/
structure Accepts (host : Host) (crypto : Crypto) (event : NostrEvent) (authPubkey : String)
    (relayUrls : List String) (publicGitUrl : String) (valid : ValidAnnouncement) : Prop where
  kind : event.kind = kindGitRepoAnnouncement
  author : event.pubkey = authPubkey
  npub : Gittree.npubFromHex host.bech32 event.pubkey = some valid.npub
  signed : verifySignedEvent crypto event = .ok valid.pubkey
  announcement : RepoAnnouncement.fromTags event.tags = .ok valid.announcement
  wellFormed : valid.announcement.Valid
  maintainer : event.pubkey ∈ valid.announcement.maintainers
  identifier : valid.identifier = normalizeIdentifier valid.announcement.identifier
  named : Str.trim valid.identifier ≠ ""
  clone : ∃ url, formatGraspServerUrlAsCloneUrl host.bech32 host.parseUrl publicGitUrl valid.npub
    valid.identifier = .ok url ∧ url ∈ valid.announcement.clone
  relays : ∀ url ∈ relayUrls, url ∈ valid.announcement.relays

/-- The events that are accepted. -/
theorem validateRepoAnnouncementEvent_eq_ok {host : Host} {crypto : Crypto} {event : NostrEvent}
    {authPubkey : String} {relayUrls : List String} {publicGitUrl : String}
    {valid : ValidAnnouncement} :
    validateRepoAnnouncementEvent host crypto event authPubkey relayUrls publicGitUrl = .ok valid ↔
      Accepts host crypto event authPubkey relayUrls publicGitUrl valid := by
  unfold validateRepoAnnouncementEvent npubFromHex
  simp only [Result.bind_eq_ok, Result.ensure_eq_ok, Result.okOr_eq_ok, Result.mapError_eq_ok,
    Result.pure_eq_ok]
  constructor
  · rintro ⟨_, hkind, _, hauthor, npub, hnpub, pubkey, hsigned, a, ha, _, hvalid, _, hmaintainer, _,
      hnamed, url, hurl, _, hclone, _, hrelays, rfl⟩
    exact ⟨hkind, hauthor, hnpub, hsigned, ha, RepoAnnouncement.validate_eq_ok.1 hvalid, hmaintainer,
      rfl, hnamed, ⟨url, hurl, hclone⟩, hrelays⟩
  · rintro ⟨hkind, hauthor, hnpub, hsigned, ha, hvalid, hmaintainer, hidentifier, hnamed,
      ⟨url, hurl, hclone⟩, hrelays⟩
    rw [hidentifier] at hnamed hurl
    refine ⟨(), hkind, (), hauthor, _, hnpub, _, hsigned, _, ha, (),
      RepoAnnouncement.validate_eq_ok.2 hvalid, (), hmaintainer, (), hnamed, url, hurl, (), hclone, (),
      hrelays, ?_⟩
    rw [← hidentifier]

/-! ### What is stored -/

section Spec

variable {env : ServiceEnv} {now : ℤ} {w : World}

/-- The jobs of an announcement: all of them are new, and each asks for the announcement to be
published, with the given Forgejo repository. -/
def Enqueued (event : NostrEvent) (owner repo identifier : String) (s t : Outbox) : Prop :=
  ∃ jobs, t.entries = s.entries ++ jobs ∧ ∀ entry ∈ jobs, ∃ relayUrl,
    (publishRequest event owner repo identifier relayUrl).decode =
      .ok entry.job.toRelayPublishEntry

theorem Enqueued.refl {event : NostrEvent} {owner repo identifier : String} (s : Outbox) :
    Enqueued event owner repo identifier s s :=
  ⟨[], (List.append_nil _).symm, by simp⟩

theorem Enqueued.trans {event : NostrEvent} {owner repo identifier : String} {s t u : Outbox}
    (h : Enqueued event owner repo identifier s t) (h' : Enqueued event owner repo identifier t u) :
    Enqueued event owner repo identifier s u := by
  obtain ⟨jobs, ht, hjobs⟩ := h
  obtain ⟨jobs', hu, hjobs'⟩ := h'
  refine ⟨jobs ++ jobs', by rw [hu, ht, List.append_assoc], ?_⟩
  intro entry hentry
  rcases List.mem_append.1 hentry with h | h
  · exact hjobs entry h
  · exact hjobs' entry h

/-- Only the outbox may have changed in the storage, and only by the jobs of an announcement. -/
def OnOutbox (event : NostrEvent) (owner repo identifier : String) (s t : Store) : Prop :=
  t = { s with outbox := t.outbox } ∧ Enqueued event owner repo identifier s.outbox t.outbox

theorem OnOutbox.refl {event : NostrEvent} {owner repo identifier : String} (s : Store) :
    OnOutbox event owner repo identifier s s :=
  ⟨rfl, .refl _⟩

theorem OnOutbox.trans {event : NostrEvent} {owner repo identifier : String} {s t u : Store}
    (h : OnOutbox event owner repo identifier s t) (h' : OnOutbox event owner repo identifier t u) :
    OnOutbox event owner repo identifier s u := by
  refine ⟨?_, h.2.trans h'.2⟩
  rw [h'.1, h.1]

theorem OnOutbox.mappings {event : NostrEvent} {owner repo identifier : String} {s t : Store}
    (h : OnOutbox event owner repo identifier s t) : t.mappings = s.mappings := by
  rw [h.1]

/-- The loop over the relays adds jobs, also when it fails on the way. -/
theorem post_enqueueAll (event : NostrEvent) (owner repo identifier : String)
    (relayUrls : List String) :
    Prog.Post (handle env now) (enqueueAll event owner repo identifier relayUrls) w
      (fun _ t => OnOutbox event owner repo identifier w.store t.store)
      (fun t => OnOutbox event owner repo identifier w.store t.store) := by
  induction relayUrls generalizing w with
  | nil => exact Prog.Post.pure (.refl _)
  | cons relayUrl rest ih =>
    refine Prog.Post.bind (post_enqueueRelayPublish (OnOutbox.refl _) ?_)
    intro outbox hq
    obtain ⟨entry, hentry, rfl⟩ := Outbox.enqueueRelayPublish_eq_ok.1 hq
    have hstep : OnOutbox event owner repo identifier w.store { w.store with
        outbox := ⟨w.store.outbox.entries ++ [Outbox.newEntry (w.store.outbox.seq + 1) entry now],
          w.store.outbox.seq + 1⟩ } := by
      refine ⟨rfl, _, rfl, ?_⟩
      intro found hfound
      rw [List.mem_singleton.1 hfound]
      exact ⟨relayUrl, hentry⟩
    exact ih.mono (fun _ _ ht => hstep.trans ht) fun _ ht => hstep.trans ht

/-- Creating a repository on request leaves the mappings as they are. -/
theorem post_createRepoWithAnnouncement (signing : Signing) (config : ControlConfig)
    (input : CreateRepoInput) :
    Prog.Post (handle env now) (createRepoWithAnnouncement env signing config now input) w
      (fun _ t => t.store.mappings = w.store.mappings)
      (fun t => t.store.mappings = w.store.mappings) := by
  refine Prog.Post.bind (Prog.Post.ofExcept ?_ rfl)
  rintro ⟨owner, identifier, event⟩ -
  refine Prog.Post.bind (Prog.Post.adapt
    ((Forgejo.post_createRepoForOwner _ _ _ _ _ _).mono ?_ ?_))
  · rintro repo t ⟨⟨hstore, -⟩, -⟩
    refine Prog.Post.bind (Prog.Post.adapt ((post_enqueueAll _ _ _ _ _).mono ?_ ?_))
    · rintro - u hu
      refine Prog.Post.pure ?_
      rw [hu.mappings, hstore]
    · intro u hu
      rw [hu.mappings, hstore]
  · rintro t ⟨hstore, -⟩
    rw [hstore]

/-- Creating a repository from a signed event enqueues jobs for the event, also when it fails on the
way. -/
theorem post_createRepoFromSignedEvent (crypto : Crypto) (config : ControlConfig)
    (authPubkey : String) (event : NostrEvent) (isPrivate : Option Bool) :
    Prog.Post (handle env now)
      (createRepoFromSignedEvent env crypto config authPubkey event isPrivate) w
      (fun _ t => ∃ owner repo identifier,
        Enqueued event owner repo identifier w.store.outbox t.store.outbox)
      (fun t => ∃ owner repo identifier,
        Enqueued event owner repo identifier w.store.outbox t.store.outbox) := by
  have hnone : ∃ owner repo identifier,
      Enqueued event owner repo identifier w.store.outbox w.store.outbox := ⟨"", "", "", .refl _⟩
  refine Prog.Post.bind (Prog.Post.ofExcept ?_ hnone)
  intro valid hvalid
  refine Prog.Post.bind (Prog.Post.adapt (post_accountByPubkey hnone ?_))
  refine Prog.Post.bind (Prog.Post.ofExcept ?_ hnone)
  intro account _
  refine Prog.Post.bind (Prog.Post.adapt ((Forgejo.post_createRepoForOwner _ _ _ _ _ _).mono ?_ ?_))
  · rintro repo t ⟨⟨hstore, -⟩, -⟩
    refine Prog.Post.bind (Prog.Post.adapt ((post_enqueueAll _ _ _ _ _).mono ?_ ?_))
    · rintro - u ⟨-, henqueued⟩
      rw [hstore] at henqueued
      exact Prog.Post.pure ⟨_, _, _, henqueued⟩
    · rintro u ⟨-, henqueued⟩
      rw [hstore] at henqueued
      exact ⟨_, _, _, henqueued⟩
  · rintro t ⟨hstore, -⟩
    rw [hstore]
    exact hnone

end Spec
end Control

/-! ### A signed announcement -/

/-- The public key of the secret key 3. -/
def signerKey : List UInt8 :=
  [249, 48, 138, 1, 146, 88, 195, 16, 73, 52, 79, 133, 248, 157, 82, 41, 181, 49, 200, 69, 131, 111,
    153, 176, 134, 1, 241, 19, 188, 224, 54, 249]

def signerNpub : String := "npub1lycg5qvjtrp3qjf5f7zl382j9x6nrjz9sdhenvyxq8c3808qxmus6gq266"

/-- A bech32 implementation that agrees with the real one on the signer's key. -/
def signerBech32 : Bech32 := Bech32.ofTable "npub" [(signerKey, signerNpub)]

theorem signerBech32_lawful : signerBech32.Lawful "npub" 32 := by
  apply Bech32.lawful_ofTable
  refine ⟨by decide, by decide, ?_⟩
  intro e he
  rw [List.mem_singleton.1 he]
  exact ⟨"lycg5qvjtrp3qjf5f7zl382j9x6nrjz9sdhenvyxq8c3808qxmus6gq266", by decide, by
      rw [← Str.chars_eq_toList, ← List.all_eq_true]
      decide +kernel⟩

/-- The announcement of the signer's repository `repo`, signed. -/
def signedAnnouncement : NostrEvent where
  id := "903449994fbb396c19e25e4c053cf8da45706bbc0b044611cb8a28d42491eb73"
  pubkey := "f9308a019258c31049344f85f89d5229b531c845836f99b08601f113bce036f9"
  createdAt := 1700000000
  kind := kindGitRepoAnnouncement
  tags := [["d", "repo"], ["name", "repo"],
    ["clone", "https://git.example/" ++ signerNpub ++ "/repo.git"],
    ["relays", "wss://relay.example"],
    ["maintainers", "f9308a019258c31049344f85f89d5229b531c845836f99b08601f113bce036f9"]]
  content := ""
  sig := "7a1e6fa4b3db93eb044145a08662a8062c1b8f1f12fec14d88edab4d415db55f" ++
    "a065dd344e38988d4e80c7217b56184a7ee6a893c5b22f285c876865ee86054e"

/-- The cryptography of the signer and of its announcement. -/
def signerSigning : Signing where
  toCrypto := { NostrEvent.signedBy [signedAnnouncement] with
    signSchnorr := fun _ _ => (Hex.decode signedAnnouncement.sig).getD [] }
  publicKey := fun _ => signerKey

/-- A host that knows the URL of the git server. -/
def signerHost : Host := { sampleHost with
  bech32 := signerBech32
  parseUrl := fun url =>
    if url = "https://git.example" then some ⟨"https", some "git.example", none, "/"⟩ else none }

/-- Settings with one relay. -/
def signerConfig : ControlConfig where
  forgejoOwner := "forge"
  relayUrls := ["wss://relay.example"]
  publicGitUrl := "https://git.example"
  repoPrivateDefault := false

/-- Services without faults, whose Forgejo owner is an organisation. -/
def signerEnv : ServiceEnv where
  host := signerHost
  root := "/srv/git"
  hooks := sampleHooks
  forgejo := ⟨⟨"forge", "https://hooks.example", false⟩, "admin", ["forge"], by simp⟩
  faults := fun _ => none

/-- The storage, the server and the directories before the first call. -/
def emptyWorld : World := ⟨⟨∅, ∅, ∅, ∅⟩, ⟨[], []⟩, sampleFs, 0⟩

end Gittree
