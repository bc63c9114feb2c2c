import Gittree.Core.AppCore
import Gittree.Core.Grasp
import Gittree.Core.Nip34Events
import Gittree.Lib.Path

/-!
# Provisioning of repositories

`services/coordinator/src/lib.rs`, from the plan of a repository to `handle_announcement_event`: an
announcement is given a directory under the root, named by the first `npub` in its clone URLs and by
its identifier, unless that directory exists.  The file system is the set of existing paths; whether
a call of `git` or of the file system succeeds is a parameter.

`services/sync/src/lib.rs` computes the path of a repository again in `post_receive_handler`.

* `handleAnnouncementEvent_path`: the path of every answer;
* `provisioned_for_signer_iff`: when it belongs to the signer.
-/

namespace Gittree

open Rust

/-- `RelayEvent`. -/
structure RelayEvent where
  kind : ℕ
  eventId : String
  pubkey : String
  createdAt : ℤ
  tags : Tags
  deriving DecidableEq, Repr

/-- `GitConfigEntry`. -/
structure GitConfigEntry where
  key : String
  value : String
  deriving DecidableEq, Repr

/-- `RepoProvisionPlan`. -/
structure RepoProvisionPlan where
  npub : String
  identifier : String
  repoPath : String
  hooksDir : String
  preReceiveHook : String
  postReceiveHook : String
  gitConfig : List GitConfigEntry
  deriving DecidableEq, Repr

/-- `HookInstallConfig`. -/
structure HookInstallConfig where
  preReceiveSource : String
  postReceiveSource : String

/-- `RepoInitError`. -/
inductive RepoInitError
  | io (message : String)
  | invalidRepo (message : String)
  | invalidPath (message : String)
  | git (message : String)
  deriving DecidableEq, Repr

/-- `HookInstallError`. -/
inductive HookInstallError
  | io (message : String)
  | missingSource (path : String)
  deriving DecidableEq, Repr

/-- `CoordinatorAction`. -/
inductive CoordinatorAction
  | provisioned (repoPath : String)
  | skippedExisting (repoPath : String)
  | ignored
  deriving DecidableEq, Repr

/-- The repository path of an action. -/
def CoordinatorAction.repoPath : CoordinatorAction → Option String
  | .provisioned path => some path
  | .skippedExisting path => some path
  | .ignored => none

/-- The errors of `handle_announcement_event`. -/
inductive ProvisionError
  | parse (message : String)
  | missingNpub
  | plan (message : String)
  | init (err : RepoInitError)
  | hooks (err : HookInstallError)
  deriving DecidableEq, Repr

/-! ### The host -/

/-- The existing paths, by their components, and which of them are directories. -/
structure FileSystem where
  paths : List (List Path.Component)
  dirs : List (List Path.Component)

namespace FileSystem

/-- `Path::exists`. -/
def pathExists (fs : FileSystem) (path : String) : Bool := fs.paths.contains (Path.components path)

/-- `Path::is_dir`. -/
def isDir (fs : FileSystem) (path : String) : Bool := fs.dirs.contains (Path.components path)

def addDir (fs : FileSystem) (path : String) : FileSystem :=
  ⟨Path.components path :: fs.paths, Path.components path :: fs.dirs⟩

def addFile (fs : FileSystem) (path : String) : FileSystem :=
  { fs with paths := Path.components path :: fs.paths }

end FileSystem

/-- What the coordinator relies on: bech32, URL parsing, and the outcomes of its commands. -/
structure Host where
  bech32 : Bech32
  parseUrl : String → Option Url
  gitInit : String → Except RepoInitError Unit
  gitConfig : String → GitConfigEntry → Except RepoInitError Unit
  createDirAll : String → Except HookInstallError Unit
  copy : String → String → Except HookInstallError Unit
  setExecutable : String → Except HookInstallError Unit

/-! ### Plans -/

/-- `default_repo_config`. -/
def defaultRepoConfig : List GitConfigEntry :=
  [⟨"core.bare", "true"⟩, ⟨"receive.advertisePushOptions", "true"⟩]

/-- The path of a repository. -/
def repoPathOf (root npub identifier : String) : String :=
  Path.join (Path.join root npub) (identifier ++ ".git")

/-- `build_provision_plan`. -/
def buildProvisionPlan (b : Bech32) (root npub : String) (a : RepoAnnouncement) :
    Except CoreError RepoProvisionPlan := do
  let repoPath := repoPathOf root npub a.identifier
  let _ ← parseRepoPath b repoPath
  let hooksDir := Path.join repoPath "hooks"
  return {
    npub, repoPath, hooksDir
    identifier := a.identifier
    preReceiveHook := Path.join hooksDir "pre-receive"
    postReceiveHook := Path.join hooksDir "post-receive"
    gitConfig := defaultRepoConfig }

/-! ### Initialisation -/

/-- The configuration loop of `init_repo`. -/
def applyGitConfigs (host : Host) (path : String) : List GitConfigEntry → Except RepoInitError Unit
  | [] => .ok ()
  | entry :: rest => do
    host.gitConfig path entry
    applyGitConfigs host path rest

/-- `init_repo`; `git init` makes the directory with its `HEAD`. -/
def initRepo (host : Host) (plan : RepoProvisionPlan) (fs : FileSystem) :
    Except RepoInitError Unit × FileSystem :=
  if fs.pathExists plan.repoPath then
    if fs.isDir plan.repoPath = false then
      (.error (.invalidRepo ("repo path is not a directory: " ++ plan.repoPath)), fs)
    else if fs.pathExists (Path.join plan.repoPath "HEAD") = false then
      (.error (.invalidRepo ("repo path missing HEAD: " ++ plan.repoPath)), fs)
    else (applyGitConfigs host plan.repoPath plan.gitConfig, fs)
  else
    match host.gitInit plan.repoPath with
    | .error err => (.error err, fs)
    | .ok () =>
      (applyGitConfigs host plan.repoPath plan.gitConfig,
        (fs.addDir plan.repoPath).addFile (Path.join plan.repoPath "HEAD"))

/-- `install_hook`. -/
def installHook (host : Host) (source destination : String) (fs : FileSystem) :
    Except HookInstallError Unit × FileSystem :=
  match host.copy source destination with
  | .error err => (.error err, fs)
  | .ok () => (host.setExecutable destination, fs.addFile destination)

/-- `install_hooks`. -/
def installHooks (host : Host) (plan : RepoProvisionPlan) (config : HookInstallConfig)
    (fs : FileSystem) : Except HookInstallError Unit × FileSystem :=
  if fs.pathExists config.preReceiveSource = false then
    (.error (.missingSource config.preReceiveSource), fs)
  else if fs.pathExists config.postReceiveSource = false then
    (.error (.missingSource config.postReceiveSource), fs)
  else
    match host.createDirAll plan.hooksDir with
    | .error err => (.error err, fs)
    | .ok () =>
      match installHook host config.preReceiveSource plan.preReceiveHook (fs.addDir plan.hooksDir) with
      | (.error err, fs) => (.error err, fs)
      | (.ok (), fs) => installHook host config.postReceiveSource plan.postReceiveHook fs

/-! ### Announcements -/

/-- The first `npub` that a list of URLs mentions. -/
def firstNpub (b : Bech32) (urls : List String) : Option String :=
  urls.findSome? fun url => Result.toOption (extractNpub b url)

/-- The plan of an announcement event; `none` for other NIP-34 events. -/
def planOf (host : Host) (root : String) (event : RelayEvent) :
    Except ProvisionError (Option RepoProvisionPlan) := do
  let parsed ← (Nip34Event.parseValidated host.parseUrl event.kind event.tags).mapError fun err =>
    .parse err.display
  match parsed with
  | .repoAnnouncement a =>
    let npub ← Result.okOr (firstNpub host.bech32 a.clone) .missingNpub
    let plan ← (buildProvisionPlan host.bech32 root npub a).mapError fun err => .plan err.display
    return some plan
  | _ => return none

/-- A plan is carried out, unless its directory exists. -/
def provision (host : Host) (hooks : HookInstallConfig) (plan : RepoProvisionPlan)
    (fs : FileSystem) : Except ProvisionError CoordinatorAction × FileSystem :=
  if fs.pathExists plan.repoPath then (.ok (.skippedExisting plan.repoPath), fs)
  else
    match initRepo host plan fs with
    | (.error err, fs) => (.error (.init err), fs)
    | (.ok (), fs) =>
      match installHooks host plan hooks fs with
      | (.error err, fs) => (.error (.hooks err), fs)
      | (.ok (), fs) => (.ok (.provisioned plan.repoPath), fs)

/-- `handle_announcement_event`. -/
def handleAnnouncementEvent (host : Host) (root : String) (hooks : HookInstallConfig)
    (event : RelayEvent) (fs : FileSystem) :
    Except ProvisionError CoordinatorAction × FileSystem :=
  match planOf host root event with
  | .error err => (.error err, fs)
  | .ok none => (.ok .ignored, fs)
  | .ok (some plan) => provision host hooks plan fs

/-! ### The path of the sync service -/

/-- `npub_from_hex`. -/
def npubFromHex (b : Bech32) (pubkey : String) : Option String :=
  if Str.len pubkey = 64 then (Hex.decode pubkey).map (npubFromBytes b) else none

/-- The path that `post_receive_handler` answers for a repository; an error for what is no
repository address. -/
def postReceivePath (b : Bech32) (root pubkey identifier : String) : Except CoreError String := do
  let address ← RepoAddress.new pubkey identifier
  let npub ← Result.okOr (npubFromHex b address.pubkey) (.invalidField "pubkey" pubkey)
  return repoPathOf root npub address.identifier

/-! ### The path of an answer -/

theorem buildProvisionPlan_eq_ok {b : Bech32} {root npub : String} {a : RepoAnnouncement}
    {plan : RepoProvisionPlan} (h : buildProvisionPlan b root npub a = .ok plan) :
    plan.repoPath = repoPathOf root npub a.identifier ∧
      ∃ repo, parseRepoPath b plan.repoPath = .ok repo := by
  obtain ⟨repo, hrepo, h⟩ := Result.bind_eq_ok.1 h
  rw [← Result.pure_eq_ok.1 h]
  exact ⟨rfl, repo, hrepo⟩

theorem planOf_eq_some {host : Host} {root : String} {event : RelayEvent} {plan : RepoProvisionPlan}
    (h : planOf host root event = .ok (some plan)) :
    ∃ a npub, event.kind = kindGitRepoAnnouncement ∧ RepoAnnouncement.fromTags event.tags = .ok a ∧
      a.Valid ∧ firstNpub host.bech32 a.clone = some npub ∧
      buildProvisionPlan host.bech32 root npub a = .ok plan := by
  unfold planOf at h
  obtain ⟨parsed, hparsed, h⟩ := Result.bind_eq_ok.1 h
  rw [Result.mapError_eq_ok] at hparsed
  cases parsed with
  | repoAnnouncement a =>
    obtain ⟨hkind, htags, hvalid⟩ := Nip34Event.parseValidated_announcement.1 hparsed
    obtain ⟨npub, hnpub, h⟩ := Result.bind_eq_ok.1 h
    obtain ⟨found, hplan, h⟩ := Result.bind_eq_ok.1 h
    cases Result.pure_eq_ok.1 h
    exact ⟨a, npub, hkind, htags, hvalid, Result.okOr_eq_ok.1 hnpub, Result.mapError_eq_ok.1 hplan⟩
  | _ => cases h

theorem provision_path {host : Host} {hooks : HookInstallConfig} {plan : RepoProvisionPlan}
    {fs : FileSystem} {action : CoordinatorAction} {path : String}
    (h : (provision host hooks plan fs).1 = .ok action) (hpath : action.repoPath = some path) :
    path = plan.repoPath := by
  unfold provision at h
  split_ifs at h
  · cases h
    exact (Option.some.inj hpath).symm
  · split at h
    · cases h
    · split at h
      · cases h
      · cases h
        exact (Option.some.inj hpath).symm

/-- The path of every answer is planned for the first `npub` of the clone URLs and the identifier of
a valid announcement. -/
theorem handleAnnouncementEvent_path {host : Host} {root : String} {hooks : HookInstallConfig}
    {event : RelayEvent} {fs : FileSystem} {action : CoordinatorAction} {path : String}
    (h : (handleAnnouncementEvent host root hooks event fs).1 = .ok action)
    (hpath : action.repoPath = some path) :
    ∃ a npub, RepoAnnouncement.fromTags event.tags = .ok a ∧ a.Valid ∧
      firstNpub host.bech32 a.clone = some npub ∧ path = repoPathOf root npub a.identifier := by
  unfold handleAnnouncementEvent at h
  split at h
  · cases h
  · cases h
    cases hpath
  · rename_i plan hplan
    obtain ⟨a, npub, -, htags, hvalid, hnpub, hbuild⟩ := planOf_eq_some hplan
    refine ⟨a, npub, htags, hvalid, hnpub, ?_⟩
    rw [provision_path h hpath, (buildProvisionPlan_eq_ok hbuild).1]

/-! ### The place of the signer -/

/-- A repository path in the place of a key: two levels below the root, read back as that key and
identifier, and the path that the sync service uses. -/
structure ForSigner (b : Bech32) (root pubkey identifier path : String) : Prop where
  place : ∃ npub, npubFromHex b pubkey = some npub ∧ Path.components path =
    Path.components root ++ [.normal npub] ++ [.normal (identifier ++ ".git")]
  name : Path.IsNormal (identifier ++ ".git")
  parsed : ∃ npub, npubFromHex b pubkey = some npub ∧
    parseRepoPath b path = .ok ⟨npub, identifier, Str.toAsciiLowercase pubkey⟩
  sync : postReceivePath b root pubkey identifier = .ok path

theorem components_repoPathOf (root : String) {npub identifier : String} (hnpub : Path.IsNormal npub)
    (hid : '/' ∉ identifier.toList) :
    Path.components (repoPathOf root npub identifier) =
      Path.components root ++ [.normal npub] ++ [.normal (identifier ++ ".git")] := by
  unfold repoPathOf
  rw [Path.components_join_normal _ (isNormal_git.2 hid), Path.components_join_normal _ hnpub]

theorem firstNpub_eq_some {b : Bech32} {urls : List String} {npub : String}
    (h : firstNpub b urls = some npub) : ∃ url ∈ urls, extractNpub b url = .ok npub := by
  obtain ⟨url, hurl, hfound⟩ := List.exists_of_findSome?_eq_some h
  exact ⟨url, hurl, Result.toOption_eq_some.1 hfound⟩

/-- The `npub` of a key that is written with 64 hexadecimal digits. -/
theorem npubFromHex_of_isHexLen {b : Bech32} {pubkey : String} (h : Str.isHexLen pubkey 64 = true) :
    ∃ bytes, Hex.decode pubkey = some bytes ∧ bytes.length = 32 ∧
      npubFromHex b pubkey = some (npubFromBytes b bytes) := by
  obtain ⟨bytes, hd, hl⟩ := (Hex.isHexLen_iff_decode (n := 32)).1 h
  refine ⟨bytes, hd, hl, ?_⟩
  have hlen : Str.len pubkey = 64 := by
    simp only [Str.isHexLen, Bool.and_eq_true, beq_iff_eq] at h
    exact h.1
  unfold npubFromHex
  rw [if_pos hlen, hd]
  rfl

/-- The path planned for a key's own `npub` is in the place of the key. -/
theorem forSigner_repoPathOf {b : Bech32} (hb : b.Lawful "npub" 32) {root pubkey identifier : String}
    {bytes : List UInt8} (hkey : Str.isHexLen pubkey 64 = true) (hd : Hex.decode pubkey = some bytes)
    (hl : bytes.length = 32) (hn : npubFromHex b pubkey = some (npubFromBytes b bytes))
    (hid : '/' ∉ identifier.toList) (hblank : Str.trim identifier ≠ "")
    (hnormal : Path.IsNormal (npubFromBytes b bytes)) :
    ForSigner b root pubkey identifier (repoPathOf root (npubFromBytes b bytes) identifier) where
  place := ⟨_, hn, components_repoPathOf root hnormal hid⟩
  name := isNormal_git.2 hid
  parsed := by
    refine ⟨_, hn, parseRepoPath_eq_ok.2 ⟨Path.components root, identifier ++ ".git", ?_, ?_, ?_, ?_⟩⟩
    · exact components_repoPathOf root hnormal hid
    · exact withoutGitSuffix_append identifier
    · exact hblank
    · exact decodeNpubPubkey_eq_ok.2
        ⟨bytes, hb.decode_encode bytes hl, hl, Hex.encode_of_decode hd⟩
  sync := by
    have hne : identifier ≠ "" := by
      rintro rfl
      exact hblank (by decide)
    unfold postReceivePath RepoAddress.new
    simp only [Result.bind_eq_ok, Result.ensure_eq_ok, Result.pure_eq_ok, Result.okOr_eq_ok,
      exists_const]
    exact ⟨_, ⟨⟨hkey, hne⟩, rfl⟩, _, hn, rfl⟩

/-- An announcement is provisioned in the place of its signer exactly when the first `npub` of its
clone URLs is the signer's and its identifier contains no slash. -/
theorem provisioned_for_signer_iff {host : Host} (hb : host.bech32.Lawful "npub" 32) {root : String}
    {hooks : HookInstallConfig} {event : RelayEvent} {fs : FileSystem} {action : CoordinatorAction}
    {path : String} (hkey : Str.isHexLen event.pubkey 64 = true)
    (h : (handleAnnouncementEvent host root hooks event fs).1 = .ok action)
    (hpath : action.repoPath = some path) :
    ∃ a, RepoAnnouncement.fromTags event.tags = .ok a ∧
      (ForSigner host.bech32 root event.pubkey a.identifier path ↔
        firstNpub host.bech32 a.clone = npubFromHex host.bech32 event.pubkey ∧
          '/' ∉ a.identifier.toList) := by
  obtain ⟨a, npub, htags, hvalid, hfirst, rfl⟩ := handleAnnouncementEvent_path h hpath
  obtain ⟨url, -, hurl⟩ := firstNpub_eq_some hfirst
  have hnormal := isNormal_of_extractNpub hurl
  obtain ⟨bytes, hd, hl, hn⟩ := npubFromHex_of_isHexLen (b := host.bech32) hkey
  refine ⟨a, htags, ?_⟩
  rw [hfirst, hn, Option.some.injEq]
  constructor
  · intro hs
    have hid := isNormal_git.1 hs.name
    refine ⟨?_, hid⟩
    obtain ⟨npub', hn', hplace⟩ := hs.place
    cases hn.symm.trans hn'
    rw [components_repoPathOf root hnormal hid] at hplace
    have htail := List.append_cancel_right hplace
    exact Path.Component.normal.inj (List.singleton_inj.1 (List.append_cancel_left htail))
  · rintro ⟨rfl, hid⟩
    exact forSigner_repoPathOf hb hkey hd hl hn hid hvalid.identifier hnormal

/-! ### Announcements with one clone URL -/

/-- A host on which every command succeeds. -/
def sampleHost : Host where
  bech32 := sampleBech32
  parseUrl := fun _ => none
  gitInit := fun _ => .ok ()
  gitConfig := fun _ _ => .ok ()
  createDirAll := fun _ => .ok ()
  copy := fun _ _ => .ok ()
  setExecutable := fun _ => .ok ()

def sampleHooks : HookInstallConfig := ⟨"/opt/pre-receive", "/opt/post-receive"⟩

/-- Only the sources of the hooks exist. -/
def sampleFs : FileSystem :=
  ⟨[Path.components "/opt/pre-receive", Path.components "/opt/post-receive"], []⟩

/-- An announcement of a repository whose clone URL mentions a given `npub`. -/
def sampleAnnouncement (pubkey : List UInt8) (npub identifier : String) : RelayEvent where
  kind := kindGitRepoAnnouncement
  eventId := Hex.encode (List.replicate 32 1)
  pubkey := Hex.encode pubkey
  createdAt := 1
  tags := [["d", identifier], ["clone", "https://git.example/" ++ npub ++ "/repo.git"],
    ["relays", "wss://relay.example"]]

theorem provisioned_for_signer_sample :
    ForSigner sampleBech32 "/srv/git" (Hex.encode sampleKey) "repo"
      ("/srv/git/" ++ sampleNpub ++ "/repo.git") := by
  have hrun : (handleAnnouncementEvent sampleHost "/srv/git" sampleHooks
      (sampleAnnouncement sampleKey sampleNpub "repo") sampleFs).1 =
      .ok (.provisioned ("/srv/git/" ++ sampleNpub ++ "/repo.git")) := by decide +kernel
  have hread : RepoAnnouncement.fromTags (sampleAnnouncement sampleKey sampleNpub "repo").tags =
      .ok ⟨"repo", none, none, none, ["https://git.example/" ++ sampleNpub ++ "/repo.git"], [],
        ["wss://relay.example"], [], [], []⟩ := by decide +kernel
  have hb : sampleHost.bech32.Lawful "npub" 32 := sampleBech32_lawful
  obtain ⟨a, htags, hiff⟩ := provisioned_for_signer_iff hb (by decide +kernel) hrun rfl
  cases hread.symm.trans htags
  exact hiff.2 ⟨by decide +kernel, by decide⟩

/-- One signer's repository is provisioned in the place of another key, and another one outside the
root. -/
theorem provisioned_elsewhere :
    ((handleAnnouncementEvent sampleHost "/srv/git" sampleHooks
        (sampleAnnouncement otherKey sampleNpub "repo") sampleFs).1 =
      .ok (.provisioned ("/srv/git/" ++ sampleNpub ++ "/repo.git")) ∧
      ¬ ForSigner sampleBech32 "/srv/git" (Hex.encode otherKey) "repo"
        ("/srv/git/" ++ sampleNpub ++ "/repo.git")) ∧
    ((handleAnnouncementEvent sampleHost "/srv/git" sampleHooks
        (sampleAnnouncement sampleKey sampleNpub ("/etc/" ++ sampleNpub ++ "/x")) sampleFs).1 =
      .ok (.provisioned ("/etc/" ++ sampleNpub ++ "/x.git")) ∧
      ¬ ForSigner sampleBech32 "/srv/git" (Hex.encode sampleKey) ("/etc/" ++ sampleNpub ++ "/x")
        ("/etc/" ++ sampleNpub ++ "/x.git")) := by
  refine ⟨⟨by decide +kernel, ?_⟩, by decide +kernel, ?_⟩
  · intro hs
    obtain ⟨npub, hn, hparsed⟩ := hs.parsed
    have hforeign : parseRepoPath sampleBech32 ("/srv/git/" ++ sampleNpub ++ "/repo.git") =
        .ok ⟨sampleNpub, "repo", Hex.encode sampleKey⟩ := by decide +kernel
    cases hforeign.symm.trans hparsed
  · intro hs
    exact absurd (isNormal_git.1 hs.name) (by decide +kernel)

end Gittree
