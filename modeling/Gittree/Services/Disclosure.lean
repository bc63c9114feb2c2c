import Gittree.Dispatch.Redelivery
import Gittree.Lib.Slices
import Gittree.Services.PublicRepos

/-!
# What is said about a key

The requests to the services of accounts and of public repositories, answered by any interleaving of
their calls, which may fail; other services change the mappings of the repositories at any time.  A
profile makes statements: a text in a field, or that it is public.

* `Ask.obeys_serve`: what a request writes, and is answered, rests on what it has seen;
* `Inv.step`: every call keeps what is stored and seen backed;
* `consented_of_reach`: nothing is said about a key, or shown of it, that its owner has not asked
  for.
-/

namespace Gittree

open Rust

/-- A statement of a profile. -/
inductive ProfileStatement
  | text (field : ProfileField) (text : String)
  | published

/-- What a profile says. -/
def ProfileRecord.Says (record : ProfileRecord) : ProfileStatement → Prop
  | .text field text => record.text field = some text
  | .published => record.visibility = .public

/-- What an update asks to be said. -/
def AuthService.ProfileUpdate.Says (update : AuthService.ProfileUpdate) : ProfileStatement → Prop
  | .text field text => ∃ value, update.text field = some value ∧
      trimmedText (some value) = some text
  | .published => update.visibility = some .public

/-- What the first profile of an account says. -/
def ProfileStatement.IsName (statement : ProfileStatement) (username : String) : Prop :=
  ∃ text, statement = .text .displayName text ∧ trimmedText (some username) = some text

namespace AuthService.Disclosure

/-- The tables that the services share. -/
structure Tables where
  accounts : Accounts
  profiles : Profiles

/-- How a call goes: a failure of the repositories, an answer of the Forgejo server, and the
mappings at the time. -/
structure Weather where
  fault : Option StoreFault
  user : Except Forgejo.Error (Forgejo.Response Forgejo.UserResponse)
  mappings : Mappings

/-- `upsert_account`, which may refuse the record. -/
def Tables.upsertAccount (s : Tables) (record : AccountRecord) :
    Except StorageError Unit × Tables :=
  match s.accounts.upsertAccount record with
  | .ok accounts => (.ok (), { s with accounts })
  | .error err => (.error err, s)

/-- How a call is answered. -/
def respond (weather : Weather) : (call : Call) → Tables → call.Answer × Tables
  | .accountByPubkey pubkey, s =>
    faulty weather.fault s (.ok (s.accounts.accountByPubkey pubkey), s)
  | .upsertAccount record, s =>
    faulty weather.fault s (s.upsertAccount record)
  | .profileByPubkey pubkey, s =>
    faulty weather.fault s (.ok (s.profiles.profileByPubkey pubkey), s)
  | .upsertProfile record, s =>
    faulty weather.fault s (.ok (), { s with profiles := s.profiles.upsertProfile record })
  | .getUser _, s | .createUser _, s => (weather.user, s)
  | .listMappings, s => faulty weather.fault s (.ok weather.mappings.listMappings, s)
  | .mappingByRepo pubkey identifier, s =>
    faulty weather.fault s (.ok (weather.mappings.mappingByRepo pubkey identifier), s)

/-- The configurations of the services. -/
structure Config where
  auth : Env
  app : AppUi.State
  commandOnly : Bool

/-- The requests, by the route that they take. -/
inductive Ask
  | signup (request : Request)
  | profileGet (request : Request)
  | profilePatch (request : Request)
  | profilePublic (npub : String)
  | listRepos
  | listReposByOwner (npub : String)
  | repoDetail (npub identifier : String)

/-- What is answered. -/
inductive Reply
  | signup (result : Except HttpError SignupResponse)
  | profile (result : Except HttpError Profile)
  | repos (result : Except AppUi.Error (List AppUi.RepoListItem))
  | repo (result : Except AppUi.Error AppUi.RepoListItem)
  deriving DecidableEq

/-- The handler of a route: those of `build_router_with_mode` and of the routes under `/api`. -/
def Ask.serve (c : Config) : Ask → Prog Call Call.Answer Reply
  | .signup request => do
    return .signup
      (← (if c.commandOnly then commandOnlySignupHandler else signupHandler c.auth request).run)
  | .profileGet request => do return .profile (← (profileGetHandler c.auth request).run)
  | .profilePatch request => do
    return .profile (← (if c.commandOnly then commandOnlyProfilePatchHandler
      else profilePatchHandler c.auth request).run)
  | .profilePublic npub => do return .profile (← (profilePublicHandler c.auth npub).run)
  | .listRepos => do return .repos (← (AppUi.listRepoItems c.app).run)
  | .listReposByOwner npub => do return .repos (← (AppUi.listRepoItemsForNpub c.app npub).run)
  | .repoDetail npub identifier => do
    return .repo (← (AppUi.repoDetailItem c.app npub identifier).run)

/-! ### What a request rests on -/

/-- The authorisation of a request: what it carries, and the hash of the body that it covers. -/
def Ask.authorisation (c : Config) : Ask → Option (Request × Option String)
  | .signup request | .profilePatch request =>
    some (request, payloadHash c.auth.crypto request.body)
  | .profileGet request => some (request, none)
  | _ => none

/-- The request is authorised by a key. -/
def Ask.By (c : Config) (ask : Ask) (key : List UInt8) : Prop :=
  ∃ request payload auth, ask.authorisation c = some (request, payload) ∧
    request.AuthorisedBy c.auth.toNostrEnv payload auth ∧ auth.pubkeyBytes = key

/-- The request is one of a key to change its profile. -/
def Ask.Patches (c : Config) (ask : Ask) (key : List UInt8) (update : ProfileUpdate) : Prop :=
  ask.By c key ∧ ∃ request, ask = .profilePatch request ∧
    readUpdate c.auth request.body = .ok update

/-- The calls of a request. -/
abbrev Past : Type := Prog.History Call Call.Answer

/-- A profile of the key was found, or written. -/
def Known (past : Past) (key : List UInt8) (record : ProfileRecord) : Prop :=
  ⟨.profileByPubkey key, .ok (some record)⟩ ∈ past ∨
    record.pubkey = key ∧ ∃ answer, ⟨.upsertProfile record, answer⟩ ∈ past

/-- An account of the key was found, or written. -/
def HasAccount (past : Past) (key : List UInt8) (account : AccountRecord) : Prop :=
  ⟨.accountByPubkey key, .ok (some account)⟩ ∈ past ∨
    account.pubkey = key ∧ ∃ answer, ⟨.upsertAccount account, answer⟩ ∈ past

/-- What a request may say about a key: what its owner asks for, what was found, and the user name
of the account. -/
inductive Grounded (c : Config) (ask : Ask) (past : Past) (key : List UInt8)
    (statement : ProfileStatement) : Prop
  | asked (update : ProfileUpdate) (hpatches : ask.Patches c key update)
      (hstated : update.Says statement)
  | seen (record : ProfileRecord)
      (hseen : ⟨.profileByPubkey key, .ok (some record)⟩ ∈ past) (hstated : record.Says statement)
  | named (account : AccountRecord) (haccount : HasAccount past key account)
      (hname : statement.IsName account.forgejoUsername)

/-- The calls that a request may make. -/
def Ask.Rule (c : Config) (ask : Ask) (past : Past) : Call → Prop
  | .upsertProfile record => ask.By c record.pubkey ∧
      ∀ statement, record.Says statement → Grounded c ask past record.pubkey statement
  | .upsertAccount record => ask.By c record.pubkey
  | _ => True

/-- A profile of a key that may be shown to the one who asks: its owner, or everybody if it is
public. -/
structure Shows (c : Config) (ask : Ask) (past : Past) (profile : Profile) (key : List UInt8)
    (record : ProfileRecord) (account : AccountRecord) : Prop where
  known : Known past key record
  owner : HasAccount past key account
  response : ∃ name, Hex.decode name = some key ∧
    profile = profileResponse name account.forgejoUsername record
  permitted : ask.By c key ∨ record.Says .published

/-- A repository whose owner was found to be public. -/
def Lists (c : Config) (past : Past) (item : AppUi.RepoListItem) : Prop :=
  ∃ mapping record, item = AppUi.repoListItem c.app mapping ∧
    ⟨.profileByPubkey mapping.pubkey, .ok (some record)⟩ ∈ past ∧ record.Says .published

/-- A repository that was found under an owner who was found to be public. -/
def Details (c : Config) (past : Past) (item : AppUi.RepoListItem) : Prop :=
  ∃ mapping key identifier record, item = AppUi.repoListItem c.app mapping ∧
    ⟨.mappingByRepo key identifier, .ok (some mapping)⟩ ∈ past ∧
      ⟨.profileByPubkey key, .ok (some record)⟩ ∈ past ∧ record.Says .published

/-- The answers that a request may have. -/
def Ask.Fits (c : Config) (ask : Ask) (past : Past) : Reply → Prop
  | .profile (.ok profile) => ∃ key record account, Shows c ask past profile key record account
  | .repos (.ok items) => ∀ item ∈ items, Lists c past item
  | .repo (.ok item) => Details c past item
  | _ => True

/-! ### Handlers keep to the rule -/

section

variable {c : Config} {ask : Ask} {past later : Past} {key : List UInt8}

theorem HasAccount.mono {account : AccountRecord} (h : HasAccount past key account)
    (hlater : past <+: later) : HasAccount later key account := by
  rcases h with h | ⟨hkey, answer, h⟩
  · exact .inl (hlater.subset h)
  · exact .inr ⟨hkey, answer, hlater.subset h⟩

theorem Grounded.mono {statement : ProfileStatement} (h : Grounded c ask past key statement)
    (hlater : past <+: later) : Grounded c ask later key statement := by
  cases h with
  | asked update hpatches hstated => exact .asked update hpatches hstated
  | seen record hseen hstated => exact .seen record (hlater.subset hseen) hstated
  | named account haccount hname => exact .named account (haccount.mono hlater) hname

/-- A call of the repositories and its answer. -/
theorem keeps_call {ε α : Type} (call : Call) (read : call.Answer → Except StorageError α)
    (wrap : String → ε) (hc : ask.Rule c past call) :
    Prog.Keeps (ask.Rule c)
      (fun later a => ∃ r, (⟨call, r⟩ : Σ call, Call.Answer call) ∈ later ∧ read r = .ok a)
      past (Prog.asking call fun answer => (read answer).mapError fun err => wrap err.display) :=
  Prog.keeps_asking hc fun r _ ha =>
    ⟨r, List.mem_append_right _ List.mem_cons_self, Result.mapError_eq_ok.1 ha⟩

theorem keeps_stored {α : Type} (call : Call) (read : call.Answer → Except StorageError α)
    (hc : ask.Rule c past call) :
    Prog.Keeps (ask.Rule c)
      (fun later a => ∃ r, (⟨call, r⟩ : Σ call, Call.Answer call) ∈ later ∧ read r = .ok a)
      past (stored call read) :=
  keeps_call call read HttpError.internal hc

/-- A profile is looked for. -/
theorem keeps_profileByPubkey (key : List UInt8) :
    Prog.Keeps (ask.Rule c) (fun later found => ⟨.profileByPubkey key, .ok found⟩ ∈ later) past
      (stored (.profileByPubkey key) id) := by
  refine (keeps_stored (.profileByPubkey key) id trivial).mono fun later found _ hfound => ?_
  obtain ⟨r, hmem, rfl⟩ := hfound
  exact hmem

theorem keeps_requireAccount (missing : HttpError) :
    Prog.Keeps (ask.Rule c) (fun later account => HasAccount later key account) past
      (requireAccount key missing) := by
  refine (keeps_stored (.accountByPubkey key) id trivial).bind fun later found _ hfound => ?_
  refine Prog.keeps_ofExcept fun account haccount => ?_
  obtain ⟨r, hmem, rfl⟩ := hfound
  rw [Result.okOr_eq_ok.1 haccount] at hmem
  exact .inl hmem

/-- The first profile of an account says the user name. -/
theorem keeps_firstProfile {pubkey : String} {account : AccountRecord} (now : ℤ)
    (hpubkey : Hex.decode pubkey = some key) (haccount : HasAccount past key account) :
    Prog.Keeps (ask.Rule c) (fun later record => record.pubkey = key ∧
        ∀ statement, record.Says statement → Grounded c ask later key statement)
      past (Prog.ofExcept (firstProfile pubkey account.forgejoUsername now)) := by
  refine Prog.keeps_ofExcept fun record hrecord => ?_
  obtain ⟨hkey, hvisibility, htexts⟩ := firstProfile_eq_ok hrecord
  rw [decodeHex32_eq_ok, hpubkey, Option.some.injEq] at hkey
  refine ⟨hkey.2.symm, fun statement hstated => .named account haccount ?_⟩
  cases statement with
  | text field text =>
    obtain ⟨rfl, htrimmed⟩ := htexts field text hstated
    exact ⟨text, rfl, htrimmed⟩
  | published =>
    rw [ProfileRecord.Says, hvisibility] at hstated
    cases hstated

theorem keeps_ensureProfile {pubkey : String} {account : AccountRecord} (now : ℤ)
    (hby : ask.By c key) (hpubkey : Hex.decode pubkey = some key)
    (haccount : HasAccount past key account) :
    Prog.Keeps (ask.Rule c) (fun later record => Known later key record ∧
        ∀ statement, record.Says statement → Grounded c ask later key statement)
      past (ensureProfile pubkey account.forgejoUsername now) := by
  refine (Prog.keeps_ofExcept (G := fun _ bytes => bytes = key) fun bytes hbytes => ?_).bind
    fun later bytes hlater hbytes => ?_
  · obtain ⟨_, -, hbytes⟩ := Result.bind_eq_ok.1 hbytes
    rw [Result.okOr_eq_ok, hpubkey, Option.some.injEq] at hbytes
    exact hbytes.symm
  subst hbytes
  refine (keeps_profileByPubkey bytes).bind fun later' found hlater' hfound => ?_
  replace haccount := (haccount.mono hlater).mono hlater'
  cases found with
  | some existing => exact Prog.keeps_pure ⟨.inl hfound, fun _ => .seen existing hfound⟩
  | none =>
    refine (keeps_firstProfile now hpubkey haccount).bind fun later record _ hrecord => ?_
    obtain ⟨rfl, hgrounded⟩ := hrecord
    have hrule : ask.Rule c later (.upsertProfile record) := ⟨hby, hgrounded⟩
    refine (keeps_stored (.upsertProfile record) id hrule).bind fun last _ hlast hwrote => ?_
    obtain ⟨r, hmem, -⟩ := hwrote
    exact Prog.keeps_pure ⟨.inr ⟨rfl, r, hmem⟩, fun statement hstated =>
      (hrule.2 statement hstated).mono hlast⟩

/-- A request that is authorised. -/
theorem keeps_authenticate {request : Request} {payload : Option String}
    (hask : ask.authorisation c = some (request, payload)) :
    Prog.Keeps (ask.Rule c)
      (fun _ auth => ask.By c auth.pubkeyBytes ∧ Hex.decode auth.pubkey = some auth.pubkeyBytes)
      past (Prog.ofExcept (authenticate c.auth request payload)) := by
  refine Prog.keeps_ofExcept fun auth hauth => ?_
  rw [authenticate_eq, HttpRequest.authenticate_eq_ok] at hauth
  exact ⟨⟨request, payload, auth, hask, hauth, rfl⟩, hauth.decode⟩

theorem keeps_signupHandler {request : Request} (hask : ask = .signup request) :
    Prog.Keeps (ask.Rule c) (fun _ _ => True) past (signupHandler c.auth request) := by
  refine (keeps_authenticate (by rw [hask]; rfl)).bind fun later auth _ hauth => ?_
  obtain ⟨hby, hpubkey⟩ := hauth
  refine (keeps_stored (.accountByPubkey auth.pubkeyBytes) id trivial).bind
    fun later existing _ _ => ?_
  cases existing with
  | some existing => exact Prog.keeps_pure trivial
  | none =>
    refine Prog.Keeps.bind (G := fun _ _ => True) (.adapt ?_ _) fun later user _ _ => ?_
    · refine (Prog.keeps_asking (G := fun _ _ => True) trivial fun _ _ _ => trivial).bind
        fun later existing _ _ => ?_
      cases existing with
      | some existing => exact Prog.keeps_pure trivial
      | none => exact Prog.keeps_asking trivial fun _ _ _ => trivial
    refine (Prog.keeps_ofExcept (G := fun _ record => record.pubkey = auth.pubkeyBytes ∧
      record.forgejoUsername = user.username) fun record hrecord => ?_).bind
        fun later record _ hrecord => ?_
    · rw [Result.mapError_eq_ok, AccountRecord.new_eq_ok, decodeHex32_eq_ok, hpubkey,
        Option.some.injEq] at hrecord
      exact ⟨hrecord.2.1.2.symm, hrecord.2.2⟩
    obtain ⟨hkey, hname⟩ := hrecord
    refine (keeps_stored (.upsertAccount record) id (by rw [← hkey] at hby; exact hby)).bind
      fun later _ _ hwrote => ?_
    obtain ⟨r, hmem, -⟩ := hwrote
    have haccount : HasAccount later auth.pubkeyBytes record := .inr ⟨hkey, r, hmem⟩
    rw [← hname]
    refine (keeps_firstProfile request.now hpubkey haccount).bind fun later profile _ hprofile => ?_
    obtain ⟨hprofile, hgrounded⟩ := hprofile
    rw [← hprofile] at hby hgrounded
    exact (keeps_stored (.upsertProfile profile) id ⟨hby, hgrounded⟩).bind
      fun _ _ _ _ => Prog.keeps_pure trivial

theorem keeps_profileGetHandler {request : Request} (hask : ask = .profileGet request) :
    Prog.Keeps (ask.Rule c) (fun later profile => ask.Fits c later (.profile (.ok profile))) past
      (profileGetHandler c.auth request) := by
  refine (keeps_authenticate (by rw [hask]; rfl)).bind fun later auth _ hauth => ?_
  obtain ⟨hby, hpubkey⟩ := hauth
  refine (keeps_requireAccount _).bind fun later account _ haccount => ?_
  refine (keeps_ensureProfile request.now hby hpubkey haccount).bind
    fun last record hlast hrecord => ?_
  exact Prog.keeps_pure ⟨_, record, account, hrecord.1, haccount.mono hlast,
    ⟨auth.pubkey, hpubkey, rfl⟩, .inl hby⟩

/-- An updated profile says what was asked for, or what it said before. -/
theorem says_updated {profile updated : ProfileRecord} {update : ProfileUpdate}
    (h : Updated profile update updated) {statement : ProfileStatement}
    (hstated : updated.Says statement) : update.Says statement ∨ profile.Says statement := by
  cases statement with
  | text field text =>
    rw [ProfileRecord.Says, h.texts] at hstated
    cases hupdate : update.text field with
    | none =>
      rw [hupdate, Option.elim_none] at hstated
      exact .inr hstated
    | some value =>
      rw [hupdate, Option.elim_some] at hstated
      exact .inl ⟨value, hupdate, hstated⟩
  | published =>
    rw [ProfileRecord.Says, h.visibility] at hstated
    cases hupdate : update.visibility with
    | none =>
      rw [hupdate, Option.getD_none] at hstated
      exact .inr hstated
    | some visibility =>
      rw [hupdate, Option.getD_some] at hstated
      exact .inl (hupdate.trans (congrArg some hstated))

theorem keeps_profilePatchHandler {request : Request} (hask : ask = .profilePatch request) :
    Prog.Keeps (ask.Rule c) (fun later profile => ask.Fits c later (.profile (.ok profile))) past
      (profilePatchHandler c.auth request) := by
  refine (keeps_authenticate (by rw [hask]; rfl)).bind fun later auth _ hauth => ?_
  obtain ⟨hby, hpubkey⟩ := hauth
  refine (Prog.keeps_ofExcept (G := fun _ update => ask.Patches c auth.pubkeyBytes update)
    fun update hupdate => ⟨hby, request, hask, hupdate⟩).bind fun later update _ hpatches => ?_
  refine (keeps_requireAccount _).bind fun later account _ haccount => ?_
  refine (keeps_ensureProfile request.now hby hpubkey haccount).bind
    fun later profile hlater hprofile => ?_
  replace haccount := haccount.mono hlater
  refine (Prog.keeps_ofExcept (G := fun _ updated => updated.pubkey = auth.pubkeyBytes ∧
    Updated profile update updated) fun updated hupdated => ?_).bind
      fun later updated hlater hupdated => ?_
  · rw [Result.mapError_eq_ok, applyProfileUpdate_eq_ok, decodeHex32_eq_ok, hpubkey,
      Option.some.injEq] at hupdated
    exact ⟨hupdated.1.2.symm, hupdated.2.1⟩
  obtain ⟨hkey, hchanged⟩ := hupdated
  have hrule : ask.Rule c later (.upsertProfile updated) := by
    refine ⟨by rwa [hkey], fun statement hstated => ?_⟩
    rw [hkey]
    rcases says_updated hchanged hstated with hasked | hsaid
    · exact .asked update hpatches hasked
    · exact (hprofile.2 statement hsaid).mono hlater
  refine (keeps_stored (.upsertProfile updated) id hrule).bind fun last _ hlast hwrote => ?_
  obtain ⟨r, hmem, -⟩ := hwrote
  exact Prog.keeps_pure ⟨_, updated, account, .inr ⟨hkey, r, hmem⟩,
    (haccount.mono hlater).mono hlast, ⟨auth.pubkey, hpubkey, rfl⟩, .inl hby⟩

theorem keeps_profilePublicHandler (npub : String) :
    Prog.Keeps (ask.Rule c) (fun later profile => ask.Fits c later (.profile (.ok profile))) past
      (profilePublicHandler c.auth npub) := by
  refine (Prog.keeps_ofExcept (G := fun _ _ => True) fun _ _ => trivial).bind
    fun later pubkeyBytes _ _ => ?_
  refine (keeps_requireAccount _).bind fun later account _ haccount => ?_
  refine (keeps_profileByPubkey pubkeyBytes).bind fun later found hlater hfound => ?_
  replace haccount := haccount.mono hlater
  refine (Prog.keeps_ofExcept (G := fun _ record => found = some record)
    fun record hrecord => Result.okOr_eq_ok.1 hrecord).bind fun later record hlater hrecord => ?_
  obtain rfl := hrecord
  replace haccount := haccount.mono hlater
  replace hfound := hlater.subset hfound
  refine (Prog.keeps_ofExcept (G := fun _ _ => record.visibility = .public)
    fun _ hpublic => Result.ensure_eq_ok.1 hpublic).bind fun later _ hlater hpublic => ?_
  exact Prog.keeps_pure ⟨pubkeyBytes, record, account, .inl (hlater.subset hfound),
    haccount.mono hlater, ⟨_, Hex.decode_encode _, rfl⟩, .inr hpublic⟩

/-- The owner is looked for. -/
theorem keeps_profileIsPublic (key : List UInt8) :
    Prog.Keeps (ask.Rule c) (fun later shown => shown = true → ∃ record,
        ⟨.profileByPubkey key, .ok (some record)⟩ ∈ later ∧ record.Says .published)
      past (AppUi.profileIsPublic key) := by
  refine (keeps_call (.profileByPubkey key) id AppUi.Error.storage trivial).bind
    fun later found _ hfound => Prog.keeps_pure fun hshown => ?_
  obtain ⟨r, hmem, rfl⟩ := hfound
  obtain ⟨record, rfl, hpublic⟩ := (Option.any_eq_true _ _).1 hshown
  have hpublic : record.visibility = .public := of_decide_eq_true hpublic
  exact ⟨record, hmem, hpublic⟩

theorem Lists.mono {item : AppUi.RepoListItem} (h : Lists c past item) (hlater : past <+: later) :
    Lists c later item := by
  obtain ⟨mapping, record, hitem, hmem, hstated⟩ := h
  exact ⟨mapping, record, hitem, hlater.subset hmem, hstated⟩

/-- The loop lists repositories of public owners. -/
theorem keeps_listPublic (mappings : List RepoMappingRecord) {items : List AppUi.RepoListItem}
    (h : ∀ item ∈ items, Lists c past item) :
    Prog.Keeps (ask.Rule c) (fun later items => ∀ item ∈ items, Lists c later item) past
      (AppUi.listPublic c.app mappings items) := by
  induction mappings generalizing past items with
  | nil => exact Prog.keeps_pure h
  | cons mapping rest ih =>
    refine (keeps_profileIsPublic mapping.pubkey).bind fun later shown hlater hshown => ?_
    have hitems : ∀ item ∈ items, Lists c later item := fun item hitem => (h item hitem).mono hlater
    cases shown with
    | false => exact ih hitems
    | true =>
      obtain ⟨record, hmem, hstated⟩ := hshown rfl
      refine ih fun item hitem => ?_
      rcases List.mem_append.1 hitem with hitem | hitem
      · exact hitems item hitem
      · exact ⟨mapping, record, List.mem_singleton.1 hitem, hmem, hstated⟩

theorem keeps_listRepoItems :
    Prog.Keeps (ask.Rule c) (fun later items => ∀ item ∈ items, Lists c later item) past
      (AppUi.listRepoItems c.app) := by
  refine (keeps_call .listMappings id AppUi.Error.storage trivial).bind fun later mappings _ _ => ?_
  exact keeps_listPublic mappings fun _ hitem => absurd hitem List.not_mem_nil

theorem keeps_listRepoItemsForNpub (npub : String) :
    Prog.Keeps (ask.Rule c) (fun later items => ∀ item ∈ items, Lists c later item) past
      (AppUi.listRepoItemsForNpub c.app npub) := by
  refine (Prog.keeps_ofExcept (G := fun _ _ => True) fun _ _ => trivial).bind
    fun later key _ _ => ?_
  refine (keeps_profileIsPublic key).bind fun later shown _ hshown => ?_
  refine (Prog.keeps_ofExcept (G := fun _ _ => shown = true)
    fun _ hensure => Result.ensure_eq_ok.1 hensure).bind fun later' _ hlater htrue => ?_
  obtain ⟨record, hmem, hstated⟩ := hshown htrue
  refine (keeps_call .listMappings id AppUi.Error.storage trivial).bind
    fun last mappings hlast _ => Prog.keeps_pure fun item hitem => ?_
  obtain ⟨mapping, hmapping, rfl⟩ := List.mem_map.1 hitem
  obtain rfl := of_decide_eq_true (List.mem_filter.1 hmapping).2
  exact ⟨mapping, record, rfl, hlast.subset (hlater.subset hmem), hstated⟩

theorem keeps_repoDetailItem (npub identifier : String) :
    Prog.Keeps (ask.Rule c) (fun later item => Details c later item) past
      (AppUi.repoDetailItem c.app npub identifier) := by
  refine (Prog.keeps_ofExcept (G := fun _ _ => True) fun _ _ => trivial).bind
    fun later parsed _ _ => ?_
  refine (Prog.keeps_ofExcept (G := fun _ _ => True) fun _ _ => trivial).bind
    fun later key _ _ => ?_
  refine (keeps_profileIsPublic key).bind fun later shown _ hshown => ?_
  refine (Prog.keeps_ofExcept (G := fun _ _ => shown = true)
    fun _ hensure => Result.ensure_eq_ok.1 hensure).bind fun later' _ hlater htrue => ?_
  obtain ⟨record, hmem, hstated⟩ := hshown htrue
  refine (keeps_call (.mappingByRepo key parsed.identifier) id AppUi.Error.storage trivial).bind
    fun last found hlast hfound => ?_
  refine (Prog.keeps_ofExcept (G := fun _ mapping => found = some mapping)
    fun mapping hmapping => Result.okOr_eq_ok.1 hmapping).bind
      fun final mapping hfinal hmapping => ?_
  obtain ⟨r, hanswer, rfl⟩ := hfound
  obtain rfl := hmapping
  exact Prog.keeps_pure ⟨mapping, key, parsed.identifier, record, rfl, hfinal.subset hanswer,
    hfinal.subset (hlast.subset (hlater.subset hmem)), hstated⟩

/-- What a request writes, and is answered, rests on what it has seen. -/
theorem Ask.obeys_serve (ask : Ask) : Prog.Obeys (ask.Rule c) (ask.Fits c) [] (ask.serve c) := by
  cases hask : ask with
  | signup request =>
    refine Prog.Keeps.reply (G := fun _ _ => True) ?_ (fun _ _ _ => trivial) fun _ _ => trivial
    split_ifs
    · exact Prog.keeps_throw
    · exact keeps_signupHandler rfl
  | profileGet request =>
    exact (keeps_profileGetHandler rfl).reply (fun _ _ h => h) fun _ _ => trivial
  | profilePatch request =>
    refine Prog.Keeps.reply ?_ (fun _ _ h => h) fun _ _ => trivial
    split_ifs
    · exact Prog.keeps_throw
    · exact keeps_profilePatchHandler rfl
  | profilePublic npub =>
    exact (keeps_profilePublicHandler npub).reply (fun _ _ h => h) fun _ _ => trivial
  | listRepos => exact keeps_listRepoItems.reply (fun _ _ h => h) fun _ _ => trivial
  | listReposByOwner npub =>
    exact (keeps_listRepoItemsForNpub npub).reply (fun _ _ h => h) fun _ _ => trivial
  | repoDetail npub identifier =>
    exact (keeps_repoDetailItem npub identifier).reply (fun _ _ h => h) fun _ _ => trivial

end

/-! ### Runs -/

/-- The requests, whose calls are interleaved. -/
abbrev System : Type := Pool Tables Call Call.Answer Reply

/-- One request makes its next call. -/
def step : System → ℕ × Weather → Option (System × Call) := Pool.step respond

/-- The requests before their first calls. -/
def start (c : Config) (asks : List Ask) (s : Tables) : System :=
  Pool.ofPrograms s (asks.map fun ask => ask.serve c)

/-- The answer to the request of a number. -/
def System.answer (x : System) (i : ℕ) : Option Reply := x.tasks[i]?.bind Task.result

section

variable (c : Config) (asks : List Ask) (s₀ : Tables)

/-- The account was there at the start, or a signup that its key has authorised has stored it. -/
def Registered (x : System) (key : List UInt8) (account : AccountRecord) : Prop :=
  s₀.accounts.accountByPubkey key = some account ∨
    account.pubkey = key ∧ ∃ i ask answer, asks[i]? = some ask ∧ ask.By c key ∧
      x.Called i (.upsertAccount account) answer

/-- Why a profile of a key makes a statement: it did at the start, an update that the key has
authorised asked for it and was carried out, or it is the user name of the account. -/
inductive Backed (x : System) (key : List UInt8) (statement : ProfileStatement) : Prop
  | initial (record : ProfileRecord) (hrecord : s₀.profiles.profileByPubkey key = some record)
      (hstated : record.Says statement)
  | asked (i : ℕ) (ask : Ask) (update : ProfileUpdate) (record : ProfileRecord)
      (answer : Call.Answer (.upsertProfile record)) (hask : asks[i]? = some ask)
      (hpatches : ask.Patches c key update) (hstated : update.Says statement)
      (hcalled : x.Called i (.upsertProfile record) answer) (hkey : record.pubkey = key)
      (hrecord : record.Says statement)
  | named (account : AccountRecord) (haccount : Registered c asks s₀ x key account)
      (hname : statement.IsName account.forgejoUsername)

/-- What is stored and was found is backed. -/
structure Inv (x : System) : Prop where
  lawful : x.Lawful (fun i past call => ∀ ask ∈ asks[i]?, ask.Rule c past call)
    fun i past reply => ∀ ask ∈ asks[i]?, ask.Fits c past reply
  known : ∀ (i : ℕ) (task : Task Call Call.Answer Reply), x.tasks[i]? = some task →
    ∃ ask, asks[i]? = some ask
  profiles : ∀ key record, x.shared.profiles.profileByPubkey key = some record →
    ∀ statement, record.Says statement → Backed c asks s₀ x key statement
  accounts : ∀ key account, x.shared.accounts.accountByPubkey key = some account →
    Registered c asks s₀ x key account
  found : ∀ i key record, x.Called i (.profileByPubkey key) (.ok (some record)) →
    ∀ statement, record.Says statement → Backed c asks s₀ x key statement
  owner : ∀ i key account, x.Called i (.accountByPubkey key) (.ok (some account)) →
    Registered c asks s₀ x key account
  wrote : ∀ i record answer, x.Called i (.upsertProfile record) answer →
    ∀ statement, record.Says statement → Backed c asks s₀ x record.pubkey statement
  registered : ∀ i account answer, x.Called i (.upsertAccount account) answer →
    Registered c asks s₀ x account.pubkey account
  mapped : ∀ i key identifier mapping,
    x.Called i (.mappingByRepo key identifier) (.ok (some mapping)) → mapping.pubkey = key

end

section

variable {c : Config} {asks : List Ask} {s₀ s : Tables} {x y : System} {a : ℕ × Weather}
  {call : Call} {key : List UInt8}

theorem Registered.mono {account : AccountRecord} (h : Registered c asks s₀ x key account)
    (hxy : ∀ {i call r}, x.Called i call r → y.Called i call r) :
    Registered c asks s₀ y key account := by
  rcases h with h | ⟨hkey, i, ask, answer, hask, hby, hcalled⟩
  · exact .inl h
  · exact .inr ⟨hkey, i, ask, answer, hask, hby, hxy hcalled⟩

theorem Backed.mono {statement : ProfileStatement} (h : Backed c asks s₀ x key statement)
    (hxy : ∀ {i call r}, x.Called i call r → y.Called i call r) :
    Backed c asks s₀ y key statement := by
  cases h with
  | initial record hrecord hstated => exact .initial record hrecord hstated
  | asked i ask update record answer hask hpatches hstated hcalled hkey hrecord =>
    exact .asked i ask update record answer hask hpatches hstated (hxy hcalled) hkey hrecord
  | named account haccount hname => exact .named account (haccount.mono hxy) hname

/-! ### Answers -/

theorem Tables.upsertAccount_snd (s : Tables) (record : AccountRecord) :
    (s.upsertAccount record).2 = s ∨ ∃ accounts, s.accounts.upsertAccount record = .ok accounts ∧
      (s.upsertAccount record).2 = { s with accounts } := by
  unfold Tables.upsertAccount
  cases s.accounts.upsertAccount record with
  | error err => exact .inl rfl
  | ok accounts => exact .inr ⟨accounts, rfl, rfl⟩

/-- The profiles after a call. -/
theorem profiles_respond (weather : Weather) (call : Call) (s : Tables) :
    (respond weather call s).2.profiles = s.profiles ∨ ∃ record, call = .upsertProfile record ∧
      (respond weather call s).2.profiles = s.profiles.upsertProfile record := by
  cases call with
  | upsertProfile record =>
    rcases faulty_snd weather.fault s
      ((.ok (), { s with profiles := s.profiles.upsertProfile record }) :
        Except StorageError Unit × Tables) with h | h
    · exact .inl (congrArg Tables.profiles h)
    · exact .inr ⟨record, rfl, congrArg Tables.profiles h⟩
  | upsertAccount record =>
    refine .inl ?_
    rcases faulty_snd weather.fault s (s.upsertAccount record) with h | h
    · exact congrArg Tables.profiles h
    · refine (congrArg Tables.profiles h).trans ?_
      rcases s.upsertAccount_snd record with heq | ⟨accounts, -, heq⟩ <;> rw [heq]
  | _ =>
    refine .inl ?_
    unfold respond
    first
      | rfl
      | rcases faulty_snd weather.fault s _ with h | h <;> rw [h]

/-- The accounts after a call. -/
theorem accounts_respond (weather : Weather) (call : Call) (s : Tables) :
    (respond weather call s).2.accounts = s.accounts ∨
      ∃ record accounts, call = .upsertAccount record ∧
        s.accounts.upsertAccount record = .ok accounts ∧
          (respond weather call s).2.accounts = accounts := by
  cases call with
  | upsertAccount record =>
    rcases faulty_snd weather.fault s (s.upsertAccount record) with h | h
    · exact .inl (congrArg Tables.accounts h)
    · rcases s.upsertAccount_snd record with heq | ⟨accounts, hupsert, heq⟩
      · exact .inl (congrArg Tables.accounts (h.trans heq))
      · exact .inr ⟨record, accounts, rfl, hupsert, congrArg Tables.accounts (h.trans heq)⟩
  | _ =>
    refine .inl ?_
    unfold respond
    first
      | rfl
      | rcases faulty_snd weather.fault s _ with h | h <;> rw [h]

/-! ### Steps -/

/-- What the rule of a request rests on is backed. -/
theorem Inv.backed (hinv : Inv c asks s₀ x) {i : ℕ} {task : Task Call Call.Answer Reply} {ask : Ask}
    (htask : x.tasks[i]? = some task) (hask : asks[i]? = some ask)
    {record : ProfileRecord} (hrule : ask.Rule c task.past (.upsertProfile record))
    (hxy : ∀ {i call r}, x.Called i call r → y.Called i call r)
    {answer : Call.Answer (.upsertProfile record)}
    (hcalled : y.Called i (.upsertProfile record) answer) {statement : ProfileStatement}
    (hstated : record.Says statement) :
    Backed c asks s₀ y record.pubkey statement := by
  cases hrule.2 statement hstated with
  | asked update hpatches hasks =>
    exact .asked i ask update record answer hask hpatches hasks hcalled rfl hstated
  | seen seen hseen hsaid =>
    exact (hinv.found i _ seen ⟨task, htask, hseen⟩ statement hsaid).mono hxy
  | named account haccount hname =>
    refine .named account (Registered.mono ?_ hxy) hname
    rcases haccount with hfound | ⟨hkey, r, hwrote⟩
    · exact hinv.owner i _ account ⟨task, htask, hfound⟩
    · rw [← hkey]
      exact hinv.registered i account r ⟨task, htask, hwrote⟩

theorem Inv.step (hinv : Inv c asks s₀ x) (h : step x a = some (y, call)) : Inv c asks s₀ y := by
  obtain ⟨past, next, htask, hshared, htasks⟩ := Pool.step_eq_some h
  have hcalled : ∀ {i call' r}, y.Called i call' r ↔ x.Called i call' r ∨ a.1 = i ∧
      (⟨call', r⟩ : Σ call, Call.Answer call) = ⟨call, (respond a.2 call x.shared).1⟩ :=
    Pool.called_step h
  have hxy : ∀ {i call' r}, x.Called i call' r → y.Called i call' r := fun hold =>
    hcalled.2 (.inl hold)
  obtain ⟨ask, hask⟩ := hinv.known a.1 _ htask
  obtain ⟨task, htask', hrule⟩ := Pool.allowed_of_step hinv.lawful h
  replace hrule := hrule ask hask
  have hnew : y.Called a.1 call (respond a.2 call x.shared).1 := hcalled.2 (.inr ⟨rfl, rfl⟩)
  refine ⟨Pool.lawful_step hinv.lawful h, Pool.known_step hinv.known h, ?_, ?_, ?_, ?_, ?_, ?_, ?_⟩
  · intro key record hrecord statement hstated
    rw [hshared] at hrecord
    rcases profiles_respond a.2 call x.shared with heq | ⟨written, rfl, heq⟩
    · rw [heq] at hrecord
      exact (hinv.profiles key record hrecord statement hstated).mono hxy
    · rw [heq, Profiles.profileByPubkey_upsert] at hrecord
      split_ifs at hrecord with hkey
      · cases hrecord
        rw [← hkey]
        exact hinv.backed htask' hask hrule hxy hnew hstated
      · exact (hinv.profiles key record hrecord statement hstated).mono hxy
  · intro key account haccount
    rw [hshared] at haccount
    rcases accounts_respond a.2 call x.shared with heq | ⟨written, accounts, rfl, hupsert, heq⟩
    · rw [heq] at haccount
      exact (hinv.accounts key account haccount).mono hxy
    · rw [heq, Accounts.accountByPubkey_upsert hupsert] at haccount
      split_ifs at haccount with hkey
      · cases haccount
        exact .inr ⟨hkey, a.1, ask, _, hask, hkey ▸ hrule, hnew⟩
      · exact (hinv.accounts key account haccount).mono hxy
  · intro i key record hfound statement hstated
    rcases hcalled.1 hfound with hold | ⟨-, heq⟩
    · exact (hinv.found i key record hold statement hstated).mono hxy
    · obtain ⟨rfl, hanswer⟩ := Sigma.mk.inj heq
      have hstored := (faulty_ok (eq_of_heq hanswer).symm).2
      exact (hinv.profiles key record (Except.ok.inj hstored) statement hstated).mono hxy
  · intro i key account hfound
    rcases hcalled.1 hfound with hold | ⟨-, heq⟩
    · exact (hinv.owner i key account hold).mono hxy
    · obtain ⟨rfl, hanswer⟩ := Sigma.mk.inj heq
      have hstored := (faulty_ok (eq_of_heq hanswer).symm).2
      exact (hinv.accounts key account (Except.ok.inj hstored)).mono hxy
  · intro i record answer hwrote statement hstated
    rcases hcalled.1 hwrote with hold | ⟨rfl, heq⟩
    · exact (hinv.wrote i record answer hold statement hstated).mono hxy
    · obtain ⟨rfl, -⟩ := Sigma.mk.inj heq
      exact hinv.backed htask' hask hrule hxy hnew hstated
  · intro i account answer hwrote
    rcases hcalled.1 hwrote with hold | ⟨rfl, heq⟩
    · exact (hinv.registered i account answer hold).mono hxy
    · obtain ⟨rfl, -⟩ := Sigma.mk.inj heq
      exact .inr ⟨rfl, _, ask, _, hask, hrule, hnew⟩
  · intro i key identifier mapping hfound
    rcases hcalled.1 hfound with hold | ⟨-, heq⟩
    · exact hinv.mapped i key identifier mapping hold
    · obtain ⟨rfl, hanswer⟩ := Sigma.mk.inj heq
      have hstored := (faulty_ok (eq_of_heq hanswer).symm).2
      exact (Mappings.of_mappingByRepo (Except.ok.inj hstored)).1

theorem inv_start : Inv c asks s₀ (start c asks s₀) where
  lawful := Pool.lawful_serve Ask.obeys_serve
  known := Pool.known_ofPrograms
  profiles _ record hrecord _ hstated := .initial record hrecord hstated
  accounts _ _ haccount := .inl haccount
  found _ _ _ hcalled := absurd hcalled Pool.not_called_ofPrograms
  owner _ _ _ hcalled := absurd hcalled Pool.not_called_ofPrograms
  wrote _ _ _ hcalled := absurd hcalled Pool.not_called_ofPrograms
  registered _ _ _ hcalled := absurd hcalled Pool.not_called_ofPrograms
  mapped _ _ _ _ hcalled := absurd hcalled Pool.not_called_ofPrograms

/-! ### What is shown -/

/-- A profile that is answered is that of a key and its account; the one who is answered is the
owner or the profile is public, and all that it says is backed. -/
def ShownProfile (c : Config) (asks : List Ask) (s₀ : Tables) (x : System) (ask : Ask)
    (profile : Profile) : Prop :=
  ∃ key record account name, Hex.decode name = some key ∧
    profile = profileResponse name account.forgejoUsername record ∧
      Registered c asks s₀ x key account ∧
        (∀ statement, record.Says statement → Backed c asks s₀ x key statement) ∧
          (ask.By c key ∨ Backed c asks s₀ x key .published)

/-- A repository that is answered is mapped to a key that has asked to be public. -/
def ShownRepo (c : Config) (asks : List Ask) (s₀ : Tables) (x : System)
    (item : AppUi.RepoListItem) : Prop :=
  ∃ mapping, item = AppUi.repoListItem c.app mapping ∧ Backed c asks s₀ x mapping.pubkey .published

/-- Nothing is said about a key, or shown of it, that its owner has not asked for. -/
structure Consented (c : Config) (asks : List Ask) (s₀ : Tables) (x : System) : Prop where
  stored : ∀ key record, x.shared.profiles.profileByPubkey key = some record →
    ∀ statement, record.Says statement → Backed c asks s₀ x key statement
  registered : ∀ key account, x.shared.accounts.accountByPubkey key = some account →
    Registered c asks s₀ x key account
  profile : ∀ (i : ℕ) ask profile, asks[i]? = some ask →
    x.answer i = some (.profile (.ok profile)) → ShownProfile c asks s₀ x ask profile
  repos : ∀ i items, x.answer i = some (.repos (.ok items)) →
    ∀ item ∈ items, ShownRepo c asks s₀ x item
  repo : ∀ i item, x.answer i = some (.repo (.ok item)) → ShownRepo c asks s₀ x item

/-- What is answered has kept to the rule. -/
theorem Inv.fits (hinv : Inv c asks s₀ x) {i : ℕ} {reply : Reply} (h : x.answer i = some reply) :
    ∃ ask task, asks[i]? = some ask ∧ x.tasks[i]? = some task ∧ ask.Fits c task.past reply := by
  obtain ⟨task, htask, hresult⟩ := Option.bind_eq_some_iff.1 h
  obtain ⟨ask, hask⟩ := hinv.known i task htask
  exact ⟨ask, task, hask, htask, (hinv.lawful i task htask).result hresult ask hask⟩

theorem Inv.consented (hinv : Inv c asks s₀ x) : Consented c asks s₀ x where
  stored := hinv.profiles
  registered := hinv.accounts
  profile := by
    intro i ask profile hask hanswered
    obtain ⟨ask', task, hask', htask, hfits⟩ := hinv.fits hanswered
    obtain rfl := Option.some.inj (hask.symm.trans hask')
    obtain ⟨key, record, account, hknown, howner, ⟨name, hname, hprofile⟩, hpermitted⟩ := hfits
    have hbacked : ∀ statement, record.Says statement → Backed c asks s₀ x key statement := by
      rcases hknown with hfound | ⟨rfl, r, hwrote⟩
      · exact hinv.found i key record ⟨_, htask, hfound⟩
      · exact hinv.wrote i record r ⟨_, htask, hwrote⟩
    refine ⟨key, record, account, name, hname, hprofile, ?_, hbacked,
      hpermitted.imp_right (hbacked _)⟩
    rcases howner with hfound | ⟨rfl, r, hwrote⟩
    · exact hinv.owner i key account ⟨_, htask, hfound⟩
    · exact hinv.registered i account r ⟨_, htask, hwrote⟩
  repos := by
    intro i items hanswered item hitem
    obtain ⟨ask, task, -, htask, hfits⟩ := hinv.fits hanswered
    obtain ⟨mapping, record, hitem, hfound, hstated⟩ := hfits item hitem
    exact ⟨mapping, hitem, hinv.found i _ record ⟨_, htask, hfound⟩ _ hstated⟩
  repo := by
    intro i item hanswered
    obtain ⟨ask, task, -, htask, hfits⟩ := hinv.fits hanswered
    obtain ⟨mapping, key, identifier, record, hitem, hmapped, hfound, hstated⟩ := hfits
    obtain rfl := hinv.mapped i key identifier mapping ⟨_, htask, hmapped⟩
    exact ⟨mapping, hitem, hinv.found i _ record ⟨_, htask, hfound⟩ _ hstated⟩

/-- In every interleaving of any requests, nothing is said about a key, or shown of it, that its
owner has not asked for. -/
theorem consented_of_reach
    (h : Runs.Reach step (fun _ _ => True) (fun x => x = start c asks s₀) x) :
    Consented c asks s₀ x := by
  refine Inv.consented (h.invariant (I := Inv c asks s₀) ?_ ?_)
  · rintro x rfl
    exact inv_start
  · exact fun x a y call hinv _ hstep => hinv.step hstep

end

/-! ### A profile becomes public -/

/-- The event that the key 01 01 … 01 signs for a request to publish its profile. -/
def patchEvent : Nip98Event where
  id := "b2fb0c7d987ab16d1289fe595bac2d45eca334c983aaa75ab1252fb12c604a14"
  pubkey := "1b84c5567b126440995d3ed5aaba0565d71e1834604819ff9c17f5e9d5dd078f"
  createdAt := 1700000000
  kind := 27235
  tags := [["u", "http://localhost/v1/profile"], ["method", "PATCH"],
    ["payload", "b608e9b07c18727de02e851421550faa562591d5377b0c0286199373f39f83da"]]
  content := ""
  sig := "88c3848e5d31681f4e58fc79de6136d66aae62f6cc81559d26e1938ac608ac7e16e4a0" ++
    "62578356c74fa42b7c917b5d1aea17b7dcdb010b2cedbaf1932435759b"

/-- The text that is hashed for the event. -/
def patchText : String :=
  "[0,\"1b84c5567b126440995d3ed5aaba0565d71e1834604819ff9c17f5e9d5dd078f\",1700000000,2" ++
    "7235,[[\"u\",\"http://localhost/v1/profile\"],[\"method\",\"PATCH\"],[\"payload\",\"" ++
    "b608e9b07c18727de02e851421550faa562591d5377b0c0286199373f39f83da\"]],\"\"]"

/-- The event as it is sent, and below its text in base 64. -/
def patchJson : String :=
  "\x7b\"id\":\"b2fb0c7d987ab16d1289fe595bac2d45eca334c983aaa75ab1252fb12c604a14\",\"pu" ++
    "bkey\":\"1b84c5567b126440995d3ed5aaba0565d71e1834604819ff9c17f5e9d5dd078f\",\"create" ++
    "d_at\":1700000000,\"kind\":27235,\"tags\":[[\"u\",\"http://localhost/v1/profile\"],[" ++
    "\"method\",\"PATCH\"],[\"payload\",\"b608e9b07c18727de02e851421550faa562591d5377b0c0" ++
    "286199373f39f83da\"]],\"content\":\"\",\"sig\":\"88c3848e5d31681f4e58fc79de6136d66aa" ++
    "e62f6cc81559d26e1938ac608ac7e16e4a062578356c74fa42b7c917b5d1aea17b7dcdb010b2cedbaf19" ++
    "32435759b\"\x7d"

def patchTokenStart : String :=
  "eyJpZCI6ImIyZmIwYzdkOTg3YWIxNmQxMjg5ZmU1OTViYWMyZDQ1ZWNhMzM0Yzk4M2FhYTc1YWIxMjUyZmIx" ++
    "MmM2MDRhMTQiLCJwdWJrZXkiOiIxYjg0YzU1NjdiMTI2NDQwOTk1ZDNlZDVhYWJhMDU2NWQ3MWUxODM0NjA0" ++
    "ODE5ZmY5YzE3ZjVlOWQ1ZGQwNzhmIiwiY3JlYXRlZF9hdCI6MTcwMDAwMDAwMCwia2luZCI6MjcyMzUsInRh" ++
    "Z3MiOltbInUiLCJodHRwOi8vbG9jYWxob3N0L3YxL3Byb2ZpbGUiXSxbIm1ldGhvZCIsIlBBVENIIl0sWyJw"

def patchTokenEnd : String :=
  "YXlsb2FkIiwiYjYwOGU5YjA3YzE4NzI3ZGUwMmU4NTE0MjE1NTBmYWE1NjI1OTFkNTM3N2IwYzAyODYxOTkz" ++
    "NzNmMzlmODNkYSJdXSwiY29udGVudCI6IiIsInNpZyI6Ijg4YzM4NDhlNWQzMTY4MWY0ZTU4ZmM3OWRlNjEz" ++
    "NmQ2NmFhZTYyZjZjYzgxNTU5ZDI2ZTE5MzhhYzYwOGFjN2UxNmU0YTA2MjU3ODM1NmM3NGZhNDJiN2M5MTdi"

def patchToken : String :=
  patchTokenStart ++ patchTokenEnd ++ "NWQxYWVhMTdiN2RjZGIwMTBiMmNlZGJhZjE5MzI0MzU3NTliIn0="

def patchBody : String := "\x7b\"visibility\":\"public\"\x7d"

def patchKey : List UInt8 := (Hex.decode patchEvent.pubkey).getD []

def patchNpub : String := "npub1rwzv24nmzfjypx2a8m264ws9vht3uxp5vpypnluuzl67n4waq78suk0wul"

/-- The request, a second after its event was signed. -/
def patchRequest : Request where
  method := "PATCH"
  uri := ⟨"/v1/profile", none⟩
  headers := [("host", Str.asBytes "localhost"),
    ("authorization", Str.asBytes ("Nostr " ++ patchToken))]
  body := Str.asBytes patchBody
  now := 1700000001
  password := ""

/-- Services that know the digests, the signature and the texts of the request. -/
def sampleServices : Config where
  auth := {
    maxSkewSeconds := 60
    crypto := {
      sha256 := fun message =>
        if message = Str.asBytes patchBody then
          (Hex.decode "b608e9b07c18727de02e851421550faa562591d5377b0c0286199373f39f83da").getD []
        else if message = Str.asBytes patchText then (Hex.decode patchEvent.id).getD []
        else List.replicate 32 0
      isSigningKey := fun _ => false
      verifyingKey := id
      signPrehash := fun _ => id
      isXOnlyKey := fun key => key == patchKey
      verifySchnorr := fun sig digest key => key == patchKey &&
        Hex.decode patchEvent.id == some digest && Hex.decode patchEvent.sig == some sig }
    decodeBase64 := fun token =>
      if token = patchToken then some (Str.asBytes patchJson) else none
    eventFromSlice := fun bytes =>
      if bytes = Str.asBytes patchJson then some patchEvent else none
    emailDomain := "example.com"
    bech32 := Bech32.ofTable "npub" [(patchKey, patchNpub)]
    updateFromSlice := fun bytes =>
      if bytes = Str.asBytes patchBody then .ok ⟨none, none, none, none, none, some .public⟩
      else .error "" }
  app := ⟨"/srv", "https://git.example", Bech32.ofTable "npub" [(patchKey, patchNpub)]⟩
  commandOnly := false

/-- The tables of a key that has an account and no profile yet. -/
def sampleTables : Tables :=
  (Tables.upsertAccount ⟨∅, ∅⟩ ⟨patchKey, "gt_1b84c5567b12f5e9d5dd078f"⟩).2

/-- Calls that are carried out, when the key has one repository. -/
def calm : Weather where
  fault := none
  user := .error (.request "")
  mappings := (∅ : Mappings).upsertMapping ⟨"forge", "repo", patchKey, "repo"⟩

/-- The profile that is answered. -/
def patchedProfile : Profile where
  pubkey := patchEvent.pubkey
  username := "gt_1b84c5567b12f5e9d5dd078f"
  displayName := some "gt_1b84c5567b12f5e9d5dd078f"
  bio := none
  avatarUrl := none
  websiteUrl := none
  location := none
  visibility := .public
  createdAt := 1700000001
  updatedAt := 1700000001

/-- The repositories are listed around the request, which makes and publishes the profile. -/
def patchRun : List (ℕ × Weather) :=
  [(1, calm), (0, calm), (0, calm), (0, calm), (0, calm), (1, calm)]

/-- What is answered about the authorisation. -/
def patchAuth : Nip98Auth := ⟨patchEvent.pubkey, patchKey, patchEvent.id⟩

theorem nostrEvent_patchRequest :
    nostrEvent sampleServices.auth.toNostrEnv patchRequest.headers = .ok patchEvent := by
  have hvalue : GitHttp.getHeader patchRequest.headers "authorization" =
      some (Str.asBytes ("Nostr " ++ patchToken)) := by
    unfold GitHttp.getHeader patchRequest
    simp
  have hheader : (GitHttp.getHeader patchRequest.headers "authorization").bind
      GitHttp.headerText = some ("Nostr " ++ patchToken) := by
    rw [hvalue, Option.bind_some]
    refine GitHttp.headerText_asBytes ?_
    unfold patchToken
    rw [Str.asBytes_append, Str.asBytes_append, Str.asBytes_append, List.all_append,
      List.all_append, List.all_append]
    decide +kernel
  have htrim : Str.trim ("Nostr " ++ patchToken) = "Nostr " ++ patchToken := by
    unfold patchToken
    rw [Str.trim_eq_self_iff, String.toList_append, String.toList_append]
    -- only the first and the last part of the text matter
    have hfirst : "Nostr ".toList.head? = some 'N' := by decide
    have hlast : "NWQxYWVhMTdiN2RjZGIwMTBiMmNlZGJhZjE5MzI0MzU3NTliIn0=".toList.getLast? =
        some '=' := by decide
    rw [List.head?_append, hfirst, List.getLast?_append, List.getLast?_append, hlast,
      Option.some_or, Option.some_or]
    refine ⟨fun c hc => ?_, fun c hc => ?_⟩
    · rw [← Option.some.inj hc]
      decide
    · rw [← Option.some.inj hc]
      decide
  have hdecoded : sampleServices.auth.decodeBase64 patchToken = some (Str.asBytes patchJson) := by
    simp only [sampleServices, ↓reduceIte]
  have hread : sampleServices.auth.eventFromSlice (Str.asBytes patchJson) = some patchEvent := by
    simp only [sampleServices, ↓reduceIte]
  unfold nostrEvent
  simp only [Result.bind_eq_ok, Result.okOr_eq_ok]
  exact ⟨_, hheader, _, by rw [htrim, Str.stripPrefix_append], _, hdecoded, hread⟩

theorem authenticate_patchRequest : authenticate sampleServices.auth patchRequest
    (payloadHash sampleServices.auth.crypto patchRequest.body) = .ok patchAuth := by
  have hurl : buildRequestUrl patchRequest.headers patchRequest.uri =
      .ok "http://localhost/v1/profile" := by decide +kernel
  have hvalid : validateNip98 sampleServices.auth.crypto patchEvent
      (patchRequest.nip98 sampleServices.auth.toNostrEnv "http://localhost/v1/profile"
        (payloadHash sampleServices.auth.crypto patchRequest.body)) = .ok patchAuth := by
    decide +kernel
  unfold authenticate parseNostrAuth
  simp only [Result.bind_eq_ok, Result.mapError_eq_ok]
  exact ⟨patchEvent, nostrEvent_patchRequest, _, hurl, hvalid⟩

/-- What the services do about the request, once it is authorised. -/
theorem serve_patchRequest : Ask.serve sampleServices (.profilePatch patchRequest) = (do
    return .profile (← (do
      let update ← Prog.ofExcept (readUpdate sampleServices.auth patchRequest.body)
      let account ← requireAccount patchKey (.badRequest "account not found")
      let profile ← ensureProfile patchAuth.pubkey account.forgejoUsername patchRequest.now
      let updated ← Prog.ofExcept <|
        (applyProfileUpdate patchAuth.pubkey profile update patchRequest.now).mapError
          profileInputError
      stored (.upsertProfile updated) id
      return profileResponse patchAuth.pubkey account.forgejoUsername updated :
        Handler HttpError Profile).run)) := by
  unfold Ask.serve
  show (do
    return Reply.profile (← (profilePatchHandler sampleServices.auth patchRequest).run)) = _
  unfold profilePatchHandler
  rw [authenticate_patchRequest]
  rfl

theorem exec_patchRun : (Runs.exec step
    (start sampleServices [.profilePatch patchRequest, .listRepos] sampleTables) patchRun).map
      (fun r => (r.1.answer 0, r.1.answer 1)) =
    some (some (.profile (.ok patchedProfile)),
      some (.repos (.ok [⟨patchNpub, "repo", "forge/repo",
        "https://git.example/" ++ patchNpub ++ "/repo.git"⟩]))) := by
  unfold start
  rw [List.map_cons, serve_patchRequest]
  decide +kernel

theorem consented_of_reach_patch : ∃ x : System,
    Runs.Reach step (fun _ _ => True)
      (fun x => x = start sampleServices [.profilePatch patchRequest, .listRepos] sampleTables) x ∧
    x.answer 0 = some (.profile (.ok patchedProfile)) ∧
    x.answer 1 = some (.repos (.ok [⟨patchNpub, "repo", "forge/repo",
      "https://git.example/" ++ patchNpub ++ "/repo.git"⟩])) ∧
    Consented sampleServices [.profilePatch patchRequest, .listRepos] sampleTables x := by
  obtain ⟨⟨x, calls⟩, hexec, hanswers⟩ := Option.map_eq_some_iff.1 exec_patchRun
  obtain ⟨hpatched, hlisted⟩ := Prod.mk.inj hanswers
  have hreach : Runs.Reach step (fun _ _ => True)
      (fun x => x = start sampleServices [.profilePatch patchRequest, .listRepos] sampleTables)
      x :=
    .of_exec (.start rfl) (fun _ _ _ => trivial) hexec
  exact ⟨x, hreach, hpatched, hlisted, consented_of_reach hreach⟩

end AuthService.Disclosure
end Gittree
