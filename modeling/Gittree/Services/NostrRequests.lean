import Gittree.Services.GitPush

/-!
# Requests that a key authorises

`parse_nostr_auth` and `build_request_url` of `services/auth/src/lib.rs` and
`services/control/src/lib.rs`, which differ in the types of their errors only: the authorisation of a
request is an event in a header, signed for the URL that the headers and the path make up.

* `HttpRequest.authenticate_eq_ok`: the requests that are authorised, and by whom.
-/

namespace Gittree

open Rust

/-- What an authorisation is read and judged with: the allowed skew, hashes and signatures,
`BASE64_STANDARD.decode` and the `serde_json` reading of an event. -/
structure NostrEnv where
  maxSkewSeconds : ℤ
  crypto : Nip98Crypto
  decodeBase64 : String → Option (List UInt8)
  eventFromSlice : List UInt8 → Option Nip98Event

/-- A request, with the time at which it is handled. -/
structure HttpRequest where
  method : String
  uri : GitHttp.RequestUri
  headers : GitHttp.HeaderMap
  body : List UInt8
  now : ℤ

/-- The URL of `build_request_url`, or the text of its error. -/
def requestUrl (headers : GitHttp.HeaderMap) (uri : GitHttp.RequestUri) : Except String String := do
  let host ← Result.okOr ((GitHttp.getHeader headers "host").bind GitHttp.headerText)
    "missing host header"
  let scheme :=
    ((GitHttp.getHeader headers "x-forwarded-proto").bind GitHttp.headerText).getD "http"
  let path := match uri.query with
    | some query => uri.path ++ "?" ++ query
    | none => uri.path
  return scheme ++ "://" ++ host ++ path

/-- The event of `parse_nostr_auth`, or the text of its error. -/
def nostrEvent (env : NostrEnv) (headers : GitHttp.HeaderMap) : Except String Nip98Event := do
  let value ← Result.okOr ((GitHttp.getHeader headers "authorization").bind GitHttp.headerText)
    "missing authorization"
  let token ← Result.okOr (Str.stripPrefix (Str.trim value) "Nostr ")
    "invalid authorization header"
  let decoded ← Result.okOr (env.decodeBase64 token) "invalid nostr authorization"
  Result.okOr (env.eventFromSlice decoded) "invalid nostr event"

namespace HttpRequest

/-- What `validate_nip98` is asked about a request. -/
def nip98 (env : NostrEnv) (request : HttpRequest) (url : String) (payloadSha256 : Option String) :
    Nip98Request :=
  ⟨request.method, url, payloadSha256, request.now, env.maxSkewSeconds⟩

/-- The authorisation of a request, with the errors of a service. -/
def authenticate {ε : Type} (unauthorized badRequest : String → ε) (env : NostrEnv)
    (request : HttpRequest) (payloadSha256 : Option String) : Except ε Nip98Auth := do
  let event ← (nostrEvent env request.headers).mapError unauthorized
  let url ← (requestUrl request.headers request.uri).mapError badRequest
  (validateNip98 env.crypto event (request.nip98 env url payloadSha256)).mapError
    fun err => unauthorized err.display

/-- The request is authorised by a key. -/
structure AuthorisedBy (env : NostrEnv) (request : HttpRequest) (payloadSha256 : Option String)
    (auth : Nip98Auth) : Prop where
  exists_event : ∃ event url, nostrEvent env request.headers = .ok event ∧
    requestUrl request.headers request.uri = .ok url ∧
      Authorises env.crypto (request.nip98 env url payloadSha256) event auth

theorem authenticate_eq_ok {ε : Type} {unauthorized badRequest : String → ε} {env : NostrEnv}
    {request : HttpRequest} {payloadSha256 : Option String} {auth : Nip98Auth} :
    request.authenticate unauthorized badRequest env payloadSha256 = .ok auth ↔
      request.AuthorisedBy env payloadSha256 auth := by
  unfold authenticate
  simp only [Result.bind_eq_ok, Result.mapError_eq_ok, validateNip98_eq_ok_iff]
  constructor
  · rintro ⟨event, hevent, url, hurl, h⟩
    exact ⟨event, url, hevent, hurl, h⟩
  · rintro ⟨event, url, hevent, hurl, h⟩
    exact ⟨event, hevent, url, hurl, h⟩

/-- The key of an authorised request. -/
theorem AuthorisedBy.decode {env : NostrEnv} {request : HttpRequest}
    {payloadSha256 : Option String} {auth : Nip98Auth}
    (h : request.AuthorisedBy env payloadSha256 auth) :
    Hex.decode auth.pubkey = some auth.pubkeyBytes := by
  obtain ⟨event, url, -, -, h⟩ := h.exists_event
  rw [h.pubkey]
  exact h.verifies.pubkey

end HttpRequest
end Gittree
