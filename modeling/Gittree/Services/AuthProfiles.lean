import Gittree.Lib.Histories
import Gittree.Core.AppCore
import Gittree.Services.Forgejo
import Gittree.Services.NostrRequests
import Gittree.Storage.Profiles

/-!
# Accounts and profiles

The handlers of `services/auth/src/lib.rs`, with `ensure_user` of `crates/forgejo/src/lib.rs`: a key
signs up for an account, and reads and changes its profile, by requests that it has authorised; a
profile is served to everybody when it is public.  The handlers call the repositories and the
Forgejo server.

* `AuthService.applyProfileUpdate_eq_ok`: an update changes what it mentions.
-/

namespace Gittree

open Rust

/-! ### Users of a Forgejo server -/

namespace Forgejo

/-- `ForgejoUser`. -/
structure User where
  username : String
  email : Option String
  deriving DecidableEq, Repr

/-- `ForgejoCreateUser`. -/
structure CreateUser where
  username : String
  email : String
  password : String
  fullName : Option String
  mustChangePassword : Option Bool
  sendNotify : Option Bool
  deriving DecidableEq, Repr

/-- `ForgejoUserResponse`. -/
structure UserResponse where
  login : Option String
  username : Option String
  email : Option String
  deriving DecidableEq, Repr

/-- `into_user`. -/
def UserResponse.intoUser (response : UserResponse) : Except Error User :=
  match response.login, response.username with
  | some login, some username =>
    if login ≠ username then
      .error (.parse "forgejo user response has mismatched login and username")
    else .ok ⟨login, response.email⟩
  | some login, none => .ok ⟨login, response.email⟩
  | none, some username => .ok ⟨username, response.email⟩
  | none, none => .error (.parse "forgejo user response missing username")

/-- What `get_user` makes of a response. -/
def readUser (response : Response UserResponse) : Except Error (Option User) :=
  if response.status = 200 then (response.parse >>= UserResponse.intoUser).map some
  else if response.status = 404 then .ok none
  else .error (.response response.status response.body)

/-- What `create_user` makes of a response. -/
def readCreatedUser (response : Response UserResponse) : Except Error User :=
  if response.status = 200 ∨ response.status = 201 then response.parse >>= UserResponse.intoUser
  else .error (.response response.status response.body)

end Forgejo

/-! ### Calls -/

namespace AuthService

/-- The calls of the handlers of profiles and of public repositories. -/
inductive Call
  | accountByPubkey (pubkey : List UInt8)
  | upsertAccount (record : AccountRecord)
  | profileByPubkey (pubkey : List UInt8)
  | upsertProfile (record : ProfileRecord)
  | getUser (username : String)
  | createUser (user : Forgejo.CreateUser)
  | listMappings
  | mappingByRepo (pubkey : List UInt8) (identifier : String)

/-- Their answers; a request to the Forgejo server that is not sent is an error. -/
abbrev Call.Answer : Call → Type
  | .accountByPubkey _ => Except StorageError (Option AccountRecord)
  | .upsertAccount _ | .upsertProfile _ => Except StorageError Unit
  | .profileByPubkey _ => Except StorageError (Option ProfileRecord)
  | .getUser _ | .createUser _ => Except Forgejo.Error (Forgejo.Response Forgejo.UserResponse)
  | .listMappings => Except StorageError (List RepoMappingRecord)
  | .mappingByRepo _ _ => Except StorageError (Option RepoMappingRecord)

/-- A program with these calls. -/
abbrev Handler (ε α : Type) : Type := ExceptT ε (Prog Call Call.Answer) α

/-- `AuthHttpError`. -/
inductive HttpError
  | unauthorized (message : String)
  | badRequest (message : String)
  | notFound (message : String)
  | internal (message : String)
  deriving DecidableEq, Repr

/-- A call of the repositories, whose failure is an internal error. -/
def stored {α : Type} (call : Call) (read : call.Answer → Except StorageError α) :
    Handler HttpError α :=
  Prog.asking call fun answer => (read answer).mapError fun err => .internal err.display

/-- `ForgejoClient::ensure_user`. -/
def ensureUser (user : Forgejo.CreateUser) : Handler Forgejo.Error Forgejo.User := do
  let existing ← Prog.asking (.getUser user.username) fun answer => answer >>= Forgejo.readUser
  match existing with
  | some existing => return existing
  | none => Prog.asking (.createUser user) fun answer => answer >>= Forgejo.readCreatedUser

/-! ### Requests -/

/-- `ProfileUpdate`. -/
structure ProfileUpdate where
  displayName : Option String
  bio : Option String
  avatarUrl : Option String
  websiteUrl : Option String
  location : Option String
  visibility : Option ProfileVisibility
  deriving DecidableEq, Repr

/-- What the handlers use: the authorisation of requests, the mail domain, `bech32` and the
`serde_json` reading of an update. -/
structure Env extends NostrEnv where
  emailDomain : String
  bech32 : Bech32
  updateFromSlice : List UInt8 → Except String ProfileUpdate

/-- A request, with the password that is generated for it. -/
structure Request extends HttpRequest where
  password : String

/-- `build_request_url`. -/
def buildRequestUrl (headers : GitHttp.HeaderMap) (uri : GitHttp.RequestUri) :
    Except HttpError String :=
  (requestUrl headers uri).mapError .badRequest

/-- `parse_nostr_auth`. -/
def parseNostrAuth (env : NostrEnv) (headers : GitHttp.HeaderMap) : Except HttpError Nip98Event :=
  (nostrEvent env headers).mapError .unauthorized

/-- The authorisation that the handlers begin with. -/
def authenticate (env : Env) (request : Request) (payloadSha256 : Option String) :
    Except HttpError Nip98Auth := do
  let event ← parseNostrAuth env.toNostrEnv request.headers
  let url ← buildRequestUrl request.headers request.uri
  (validateNip98 env.crypto event (request.nip98 env.toNostrEnv url payloadSha256)).mapError
    fun err => .unauthorized err.display

theorem authenticate_eq (env : Env) (request : Request) (payloadSha256 : Option String) :
    authenticate env request payloadSha256 =
      request.authenticate .unauthorized .badRequest env.toNostrEnv payloadSha256 := rfl

/-! ### Profiles -/

/-- `profile_input_error`. -/
def profileInputError (err : StorageError) : HttpError :=
  match err with
  | .invalidField _ _ | .invalidHex _ _ => .badRequest err.display
  | _ => .internal err.display

/-- `Profile`. -/
structure Profile where
  pubkey : String
  username : String
  displayName : Option String
  bio : Option String
  avatarUrl : Option String
  websiteUrl : Option String
  location : Option String
  visibility : ProfileVisibility
  createdAt : ℤ
  updatedAt : ℤ
  deriving DecidableEq, Repr

/-- `profile_response`. -/
def profileResponse (pubkey username : String) (profile : ProfileRecord) : Profile where
  pubkey := pubkey
  username := username
  displayName := profile.text .displayName
  bio := profile.text .bio
  avatarUrl := profile.text .avatarUrl
  websiteUrl := profile.text .websiteUrl
  location := profile.text .location
  visibility := profile.visibility
  createdAt := profile.createdAt
  updatedAt := profile.updatedAt

/-- `apply_profile_update`. -/
def applyProfileUpdate (pubkey : String) (profile : ProfileRecord) (update : ProfileUpdate)
    (now : ℤ) : Except StorageError ProfileRecord :=
  let displayName := update.displayName.or (profile.text .displayName)
  let bio := update.bio.or (profile.text .bio)
  let avatarUrl := update.avatarUrl.or (profile.text .avatarUrl)
  let websiteUrl := update.websiteUrl.or (profile.text .websiteUrl)
  let location := update.location.or (profile.text .location)
  let visibility := update.visibility.getD profile.visibility
  ProfileRecord.new pubkey displayName bio avatarUrl websiteUrl location visibility
    profile.createdAt now

/-- `parse_pubkey_bytes`. -/
def parsePubkeyBytes (pubkey : String) : Except HttpError (List UInt8) := do
  Result.ensure (Str.len pubkey = 64) (.badRequest "invalid pubkey")
  Result.okOr (Hex.decode pubkey) (.badRequest "invalid pubkey")

/-- The private profile that an account begins with. -/
def firstProfile (pubkey username : String) (now : ℤ) : Except HttpError ProfileRecord :=
  (ProfileRecord.new pubkey (some username) none none none none .private now now).mapError
    profileInputError

/-- `ensure_profile`. -/
def ensureProfile (pubkey username : String) (now : ℤ) : Handler HttpError ProfileRecord := do
  let pubkeyBytes ← Prog.ofExcept (parsePubkeyBytes pubkey)
  let existing ← stored (.profileByPubkey pubkeyBytes) id
  match existing with
  | some existing => return existing
  | none =>
    let record ← Prog.ofExcept (firstProfile pubkey username now)
    stored (.upsertProfile record) id
    return record

/-- `username_from_valid_pubkey`, of a key of 64 digits. -/
def usernameFromValidPubkey (pubkey : String) : String :=
  "gt_" ++ String.ofList (pubkey.toList.take 12) ++
    String.ofList (pubkey.toList.drop (pubkey.toList.length - 12))

/-! ### Handlers -/

/-- `SignupResponse`. -/
structure SignupResponse where
  pubkey : String
  username : String
  status : String
  deriving DecidableEq, Repr

/-- `signup_handler`. -/
def signupHandler (env : Env) (request : Request) : Handler HttpError SignupResponse := do
  let auth ← Prog.ofExcept (authenticate env request (payloadHash env.crypto request.body))
  let username := usernameFromValidPubkey auth.pubkey
  let existing ← stored (.accountByPubkey auth.pubkeyBytes) id
  match existing with
  | some existing => return ⟨auth.pubkey, existing.forgejoUsername, "existing"⟩
  | none =>
    let forgejoUser ← ExceptT.adapt (fun err => .internal err.display) <| ensureUser {
      username
      email := username ++ "@" ++ env.emailDomain
      password := request.password
      fullName := none
      mustChangePassword := some false
      sendNotify := some false }
    let record ← Prog.ofExcept <| (AccountRecord.new auth.pubkey forgejoUser.username).mapError
      fun err => .badRequest err.display
    stored (.upsertAccount record) id
    let profile ← Prog.ofExcept (firstProfile auth.pubkey forgejoUser.username request.now)
    stored (.upsertProfile profile) id
    return ⟨auth.pubkey, forgejoUser.username, "created"⟩

/-- `command_only_signup_handler`. -/
def commandOnlySignupHandler : Handler HttpError SignupResponse :=
  throw (.badRequest "signup disabled; use gittree kind-1 command flow")

/-- The account that the handlers of profiles need. -/
def requireAccount (pubkey : List UInt8) (missing : HttpError) :
    Handler HttpError AccountRecord := do
  let account ← stored (.accountByPubkey pubkey) id
  Prog.ofExcept (Result.okOr account missing)

/-- `profile_get_handler`. -/
def profileGetHandler (env : Env) (request : Request) : Handler HttpError Profile := do
  let auth ← Prog.ofExcept (authenticate env request none)
  let account ← requireAccount auth.pubkeyBytes (.badRequest "account not found")
  let profile ← ensureProfile auth.pubkey account.forgejoUsername request.now
  return profileResponse auth.pubkey account.forgejoUsername profile

/-- The update in the body of a request. -/
def readUpdate (env : Env) (body : List UInt8) : Except HttpError ProfileUpdate := do
  Result.ensure (body ≠ []) (.badRequest "missing profile update")
  (env.updateFromSlice body).mapError fun err => .badRequest ("invalid profile update: " ++ err)

/-- `profile_patch_handler`. -/
def profilePatchHandler (env : Env) (request : Request) : Handler HttpError Profile := do
  let auth ← Prog.ofExcept (authenticate env request (payloadHash env.crypto request.body))
  let update ← Prog.ofExcept (readUpdate env request.body)
  let account ← requireAccount auth.pubkeyBytes (.badRequest "account not found")
  let profile ← ensureProfile auth.pubkey account.forgejoUsername request.now
  let updated ← Prog.ofExcept <|
    (applyProfileUpdate auth.pubkey profile update request.now).mapError profileInputError
  stored (.upsertProfile updated) id
  return profileResponse auth.pubkey account.forgejoUsername updated

/-- `command_only_profile_patch_handler`. -/
def commandOnlyProfilePatchHandler : Handler HttpError Profile :=
  throw (.badRequest "profile write disabled; use gittree kind-1 command flow")

/-- `profile_public_handler`. -/
def profilePublicHandler (env : Env) (npub : String) : Handler HttpError Profile := do
  let pubkeyBytes ← Prog.ofExcept <|
    Result.okOr (pubkeyBytesFromNpub env.bech32 npub) (.badRequest "invalid npub")
  let account ← requireAccount pubkeyBytes (.notFound "profile not found")
  let profile ← stored (.profileByPubkey pubkeyBytes) id
  let profile ← Prog.ofExcept (Result.okOr profile (.notFound "profile not found"))
  Prog.ofExcept <|
    Result.ensure (profile.visibility = .public) (.notFound "profile not found")
  return profileResponse (Hex.encode pubkeyBytes) account.forgejoUsername profile

/-! ### What the parts do -/

/-- The text of an update. -/
def ProfileUpdate.text (update : ProfileUpdate) : ProfileField → Option String
  | .displayName => update.displayName
  | .bio => update.bio
  | .avatarUrl => update.avatarUrl
  | .websiteUrl => update.websiteUrl
  | .location => update.location

/-- An update of a profile: the texts that it mentions are trimmed and replace those of the profile,
and so does the visibility. -/
structure Updated (profile : ProfileRecord) (update : ProfileUpdate) (updated : ProfileRecord) :
    Prop where
  texts : ∀ field, updated.text field =
    (update.text field).elim (profile.text field) fun text => trimmedText (some text)
  visibility : updated.visibility = update.visibility.getD profile.visibility
  createdAt : updated.createdAt = profile.createdAt

/-- An update changes what it mentions. -/
theorem applyProfileUpdate_eq_ok {pubkey : String} {profile updated : ProfileRecord}
    {update : ProfileUpdate} {now : ℤ} :
    applyProfileUpdate pubkey profile update now = .ok updated ↔
      decodeHex32 "pubkey" pubkey = .ok updated.pubkey ∧ Updated profile update updated ∧
        updated.updatedAt = now := by
  have htext : ∀ field, trimmedText ((update.text field).or (profile.text field)) =
      (update.text field).elim (profile.text field) fun text => trimmedText (some text) := by
    intro field
    cases update.text field with
    | none => exact profile.trimmedText_text field
    | some text => rfl
  have hnew := @ProfileRecord.new_eq_ok pubkey
    (fun field => (update.text field).or (profile.text field))
    (update.visibility.getD profile.visibility) profile.createdAt now updated
  refine hnew.trans ⟨?_, ?_⟩
  · rintro ⟨hkey, htexts, hvisibility, hcreated, hupdated⟩
    exact ⟨hkey, ⟨fun field => (htexts field).trans (htext field), hvisibility, hcreated⟩, hupdated⟩
  · rintro ⟨hkey, ⟨htexts, hvisibility, hcreated⟩, hupdated⟩
    exact ⟨hkey, fun field => (htexts field).trans (htext field).symm, hvisibility, hcreated,
      hupdated⟩

/-- The first profile of an account has its user name. -/
theorem firstProfile_eq_ok {pubkey username : String} {now : ℤ} {record : ProfileRecord}
    (h : firstProfile pubkey username now = .ok record) :
    decodeHex32 "pubkey" pubkey = .ok record.pubkey ∧ record.visibility = .private ∧
      ∀ field text, record.text field = some text →
        field = .displayName ∧ trimmedText (some username) = some text := by
  unfold firstProfile at h
  rw [Result.mapError_eq_ok] at h
  have hnew := @ProfileRecord.new_eq_ok pubkey
    (fun field => if field = .displayName then some username else none) .private now now record
  obtain ⟨hkey, htexts, hvisibility, -, -⟩ := hnew.1 h
  refine ⟨hkey, hvisibility, fun field text htext => ?_⟩
  rw [htexts] at htext
  split_ifs at htext with hfield
  · exact ⟨hfield, htext⟩
  · cases htext

end AuthService
end Gittree
