import Gittree.Lib.Traces
import Gittree.Services.GitRoutes
import Gittree.Services.Maintainers
import Gittree.Services.Nip98

/-!
# Requests that are forwarded

`handle_git_route` of `services/git-http/src/lib.rs` with what it calls: the repositories, the body
of the request, the clock and the upstream server.  The calls may be answered in any way.  The loop
of `resolve_maintainers` asks for an announcement in every turn; it is given a number of turns, and a
handler whose loop has not ended by then has no result.

* `GitHttp.run_searchMaintainers`: over a table of announcements the loop is the search of
  `GitHttp.resolveMaintainers`;
* `GitHttp.authorized_of_send`: what has happened when a request is sent;
* `routes_canonical_and_authorized`: routes are canonical, and pushes are authorised.
-/

namespace Gittree

open Rust

namespace GitHttp

/-- `HeaderMap`: the headers under their names in lower case. -/
abbrev HeaderMap : Type := List (String × List UInt8)

/-- `HeaderMap::get`: the first value of a name. -/
def getHeader (headers : HeaderMap) (name : String) : Option (List UInt8) :=
  (headers.find? fun header => header.1 = name).map Prod.snd

/-- `HeaderMap::remove`. -/
def removeHeader (headers : HeaderMap) (name : String) : HeaderMap :=
  headers.filter fun header => header.1 ≠ name

/-- `HeaderValue::to_str`: visible ASCII characters and tabs. -/
def headerText (value : List UInt8) : Option String :=
  if value.all fun byte => (32 ≤ byte && byte < 127) || byte == 9 then
    some (String.ofList (value.map fun byte => Char.ofNat byte.toNat))
  else none

/-- A visible text is read as it is written. -/
theorem headerText_asBytes {text : String}
    (h : (Str.asBytes text).all (fun byte => (32 ≤ byte && byte < 127) || byte == 9) = true) :
    headerText (Str.asBytes text) = some text := by
  have hascii : (Str.asBytes text).all (fun byte => decide (byte.toNat < 128)) = true := by
    rw [List.all_eq_true] at h ⊢
    intro byte hbyte
    have hvisible := h byte hbyte
    simp only [Bool.or_eq_true, Bool.and_eq_true, decide_eq_true_eq, beq_iff_eq,
      UInt8.le_iff_toNat_le, UInt8.lt_iff_toNat_lt] at hvisible ⊢
    rcases hvisible with ⟨-, hlt⟩ | rfl
    · exact lt_trans hlt (by decide)
    · decide
  have hchars : (Str.asBytes text).map (fun byte => Char.ofNat byte.toNat) = text.toList := by
    rw [← Str.chars_eq_toList]
    unfold Str.chars
    exact (if_pos hascii).symm
  unfold headerText
  rw [if_pos h, hchars, String.ofList_toList]

/-- The parts of a `Uri` that are read. -/
structure RequestUri where
  path : String
  query : Option String

/-- The head of a request; its body is read by a call. -/
structure RequestHead where
  method : String
  uri : RequestUri
  headers : HeaderMap

/-- `UpstreamRequest`. -/
structure UpstreamRequest where
  method : String
  url : String
  headers : HeaderMap
  body : List UInt8

/-- `UpstreamResponse`. -/
structure UpstreamResponse where
  status : ℕ
  headers : HeaderMap
  body : List UInt8

/-- What the handlers use: the upstream URL and the skew of the configuration, hashes and
signatures, `BASE64_STANDARD.decode`, and the `serde_json` reading of an event. -/
structure Env where
  upstreamUrl : String
  maxSkewSeconds : ℤ
  crypto : Nip98Crypto
  decodeBase64 : String → Option (List UInt8)
  eventFromSlice : List UInt8 → Option Nip98Event

/-- The calls. -/
inductive Call
  | mappingByRepo (pubkey : List UInt8) (identifier : String)
  | readBody
  | unixTimestamp
  | latestAnnouncement (pubkey : List UInt8) (identifier : String)
  | send (request : UpstreamRequest)

/-- Their answers; an error of the body or of the upstream client is its text. -/
abbrev Call.Answer : Call → Type
  | .mappingByRepo _ _ => Except StorageError (Option RepoMappingRecord)
  | .readBody => Except String (List UInt8)
  | .unixTimestamp => ℤ
  | .latestAnnouncement _ _ => Except StorageError (Option RepoAnnouncementRecord)
  | .send _ => Except String UpstreamResponse

/-- A handler: it makes calls, and fails with an error; without one it has not ended yet. -/
abbrev Handler (α : Type) : Type := ExceptT (Option GitHttpHttpError) (Prog Call Call.Answer) α

/-- A result without a call. -/
def pureResult {α : Type} (result : Except GitHttpHttpError α) : Handler α :=
  Prog.ofExcept (result.mapError some)

/-- A call and what is made of its answer. -/
def asks {α : Type} (call : Call) (read : call.Answer → Except GitHttpHttpError α) : Handler α :=
  ExceptT.mk (.call call fun answer => .done ((read answer).mapError some))

/-- `resolve_mapping`. -/
def resolveMappingOf (repo : NormalizedRepo) : Handler RepoMappingRecord := do
  let pubkey ← pureResult (Result.okOr (Hex.decode repo.pubkey) (.internal "invalid repo pubkey"))
  let record ← asks (.mappingByRepo pubkey repo.identifier) fun answer =>
    answer.mapError fun err => .storage err.display
  pureResult (Result.okOr record (.notFound "missing repo mapping"))

/-- `build_request_url`. -/
def buildRequestUrl (headers : HeaderMap) (uri : RequestUri) : Except GitHttpHttpError String := do
  let value ← Result.okOr (getHeader headers "host") (.badRequest "missing host header")
  let host ← Result.okOr (headerText value) (.badRequest "missing host header")
  let scheme := ((getHeader headers "x-forwarded-proto").bind headerText).getD "http"
  let path := match uri.query with
    | some query => uri.path ++ "?" ++ query
    | none => uri.path
  return scheme ++ "://" ++ host ++ path

/-- `parse_nostr_auth`. -/
def parseNostrAuth (env : Env) (headers : HeaderMap) : Except GitHttpHttpError Nip98Event := do
  let header ← Result.okOr (getHeader headers "authorization")
    (.unauthorized "missing authorization")
  let value ← Result.okOr (headerText header) (.unauthorized "missing authorization")
  let token ← Result.okOr (Str.stripPrefix (Str.trim value) "Nostr ")
    (.unauthorized "invalid authorization header")
  let decoded ← Result.okOr (env.decodeBase64 token) (.unauthorized "invalid nostr authorization")
  Result.okOr (env.eventFromSlice decoded) (.unauthorized "invalid nostr event")

/-- The loop of `resolve_maintainers`, with the top of the stack first.  A key with letters beyond
ASCII is not hexadecimal and ends it with an error, so `to_lowercase` is that of ASCII. -/
def searchMaintainers (repo : NormalizedRepo) :
    ℕ → List String → List String → Handler (List String)
  | _, [], seen => pure seen
  | 0, _ :: _, _ => throw none
  | turns + 1, pubkey :: pending, seen =>
    if pubkey ∈ seen then searchMaintainers repo turns pending seen
    else do
      let bytes ← pureResult <|
        Result.okOr (Hex.decode pubkey) (.internal "invalid maintainer pubkey")
      let announcement ← asks (.latestAnnouncement bytes repo.identifier) fun answer =>
        answer.mapError fun err => .storage err.display
      let listed :=
        (announcement.elim [] RepoAnnouncementRecord.maintainers).map Str.toAsciiLowercase
      searchMaintainers repo turns
        ((listed.filter fun maintainer => maintainer ∉ pubkey :: seen).reverse ++ pending)
        (pubkey :: seen)

/-- `resolve_maintainers`. -/
def maintainersOf (turns : ℕ) (repo : NormalizedRepo) : Handler (List String) := do
  let seen ← searchMaintainers repo turns [Str.toAsciiLowercase repo.pubkey] []
  return Str.sort seen

/-- `authorize_receive_pack`. -/
def authorizeReceivePack (env : Env) (turns : ℕ) (repo : NormalizedRepo) (headers : HeaderMap)
    (method : String) (uri : RequestUri) (body : List UInt8) : Handler Unit := do
  let event ← pureResult (parseNostrAuth env headers)
  let url ← pureResult (buildRequestUrl headers uri)
  let payloadSha256 := payloadHash env.crypto body
  let now ← asks .unixTimestamp fun answer => .ok answer
  let auth ← pureResult <|
    (validateNip98 env.crypto event ⟨method, url, payloadSha256, now, env.maxSkewSeconds⟩).mapError
      fun err => .unauthorized err.display
  let maintainers ← maintainersOf turns repo
  pureResult <| Result.ensure
    (maintainers.any (fun pubkey => Str.toAsciiLowercase pubkey = Str.toAsciiLowercase auth.pubkey))
    (.unauthorized "pubkey not authorized")

/-- The repository, the suffix and the query that a route is forwarded with. -/
def forwardedParts (route : GitHttpRoute) (uri : RequestUri) :
    Except GitHttpHttpError (NormalizedRepo × String × Option String) :=
  match route with
  | .infoRefs repo _ => .ok (repo, "/info/refs", uri.query)
  | .uploadPack repo => .ok (repo, "/git-upload-pack", none)
  | .receivePack repo => .ok (repo, "/git-receive-pack", none)
  | .notFound => .error (.notFound "not found")

/-- The URL of a repository on the upstream server. -/
def upstreamRepository (env : Env) (owner name : String) : String :=
  env.upstreamUrl ++ "/" ++ owner ++ "/" ++ name ++ ".git"

/-- The URL that a request is sent to. -/
def forwardedUrl (env : Env) (mapping : RepoMappingRecord) (suffix : String)
    (query : Option String) : String :=
  let url := upstreamRepository env mapping.forgejoOwner mapping.forgejoRepo ++ suffix
  match query with
  | some query => url ++ "?" ++ query
  | none => url

/-- The authorisation that a route needs. -/
def authorizeRoute (env : Env) (turns : ℕ) (route : GitHttpRoute) (repo : NormalizedRepo)
    (request : RequestHead) (body : List UInt8) : Handler Unit :=
  match route with
  | .receivePack _ =>
    authorizeReceivePack env turns repo request.headers request.method request.uri body
  | _ => pure ()

/-- `handle_git_route`. -/
def handleGitRoute (env : Env) (turns : ℕ) (route : GitHttpRoute) (request : RequestHead) :
    Handler UpstreamResponse := do
  let (repo, suffix, query) ← pureResult (forwardedParts route request.uri)
  let mapping ← resolveMappingOf repo
  let url := forwardedUrl env mapping suffix query
  let headers := removeHeader (removeHeader request.headers "host") "authorization"
  let body ← asks .readBody fun answer => answer.mapError .internal
  authorizeRoute env turns route repo request body
  asks (.send ⟨request.method, url, headers, body⟩) fun answer => answer.mapError .upstream

/-! ### The search for maintainers -/

/-- Over a table of announcements the loop is the search of the table. -/
theorem run_searchMaintainers {σ : Type} {handler : (call : Call) → σ → call.Answer × σ}
    {t : Announcements} (repo : NormalizedRepo)
    (h : ∀ pubkey s, handler (.latestAnnouncement pubkey repo.identifier) s =
      (.ok (t.latestAnnouncement pubkey repo.identifier), s))
    (turns : ℕ) (pending seen : List String) (s : σ) :
    (searchMaintainers repo turns pending seen).run.run handler s =
      ((Search.explore (visit t repo.identifier) turns pending seen).elim (.error none)
        (Except.mapError some), s) := by
  induction turns generalizing pending seen with
  | zero => cases pending <;> rfl
  | succ turns ih =>
    cases pending with
    | nil => rfl
    | cons pubkey pending =>
      rw [searchMaintainers, Search.explore]
      by_cases hseen : pubkey ∈ seen
      · rw [if_pos hseen, if_pos hseen]
        exact ih pending seen
      · rw [if_neg hseen, if_neg hseen]
        cases hbytes : Hex.decode pubkey with
        | none =>
          rw [visit_eq, pushed, hbytes]
          rfl
        | some bytes =>
          have hpushed : pushed t repo.identifier pubkey =
              some (((t.latestAnnouncement bytes repo.identifier).elim []
                RepoAnnouncementRecord.maintainers).map Str.toAsciiLowercase) := by
            rw [pushed, hbytes, Option.map_some]
            cases t.latestAnnouncement bytes repo.identifier with
            | none => rfl
            | some announcement => rfl
          rw [visit_eq, hpushed]
          refine (Prog.run_bind_of_ok (a := bytes) rfl).trans ?_
          refine (Prog.run_bind_of_ok (a := t.latestAnnouncement bytes repo.identifier) (t := s)
            ?_).trans (ih _ _)
          show Prog.run handler (.call _ _) s = _
          rw [Prog.run_call, h]
          rfl

/-- Over a table of announcements the maintainers are those of `resolveMaintainers`, once there are
as many turns as the search takes. -/
theorem run_maintainersOf {σ : Type} {handler : (call : Call) → σ → call.Answer × σ}
    {t : Announcements} (repo : NormalizedRepo)
    (h : ∀ pubkey s, handler (.latestAnnouncement pubkey repo.identifier) s =
      (.ok (t.latestAnnouncement pubkey repo.identifier), s)) (s : σ) :
    (maintainersOf t.searchFuel repo).run.run handler s =
      ((resolveMaintainers t repo).elim (.error none) (Except.mapError some), s) := by
  have hsearch := run_searchMaintainers repo h t.searchFuel [Str.toAsciiLowercase repo.pubkey] [] s
  unfold maintainersOf resolveMaintainers
  rcases hresult : Search.explore (visit t repo.identifier) t.searchFuel
    [Str.toAsciiLowercase repo.pubkey] [] with _ | ⟨err | seen⟩
  · rw [hresult] at hsearch
    exact Prog.run_bind_of_error hsearch
  · rw [hresult] at hsearch
    exact Prog.run_bind_of_error hsearch
  · rw [hresult] at hsearch
    exact Prog.run_bind_of_ok hsearch

/-- Over a table of mappings the mapping is that of `resolveMapping`. -/
theorem run_resolveMappingOf {σ : Type} {handler : (call : Call) → σ → call.Answer × σ}
    {t : Mappings} (repo : NormalizedRepo)
    (h : ∀ pubkey s, handler (.mappingByRepo pubkey repo.identifier) s =
      (.ok (t.mappingByRepo pubkey repo.identifier), s)) (s : σ) :
    (resolveMappingOf repo).run.run handler s = ((resolveMapping t repo).mapError some, s) := by
  unfold resolveMappingOf resolveMapping
  cases Hex.decode repo.pubkey with
  | none => rfl
  | some pubkey =>
    refine (Prog.run_bind_of_ok (a := pubkey) rfl).trans ?_
    refine (Prog.run_bind_of_ok (a := t.mappingByRepo pubkey repo.identifier) (t := s) ?_).trans rfl
    show Prog.run handler (.call _ _) s = _
    rw [Prog.run_call, h]
    rfl

/-! ### Before a request is sent -/

/-- The call that sends a request. -/
def Call.IsSend : Call → Prop
  | .send _ => True
  | _ => False

/-- The program sends nothing. -/
def Quiet {α : Type} (x : Handler α) : Prop :=
  x.run.Calls (fun _ _ => True) fun call => ¬ call.IsSend

section

variable {α β : Type}

theorem quiet_pureResult (result : Except GitHttpHttpError α) : Quiet (pureResult result) := trivial

theorem quiet_asks {call : Call} (h : ¬ call.IsSend)
    (read : call.Answer → Except GitHttpHttpError α) : Quiet (asks call read) :=
  ⟨h, fun _ _ => trivial⟩

theorem Quiet.bind {x : Handler α} {f : α → Handler β} (hx : Quiet x) (hf : ∀ a, Quiet (f a)) :
    Quiet (x >>= f) :=
  Prog.calls_bind hx hf

theorem quiet_resolveMappingOf (repo : NormalizedRepo) : Quiet (resolveMappingOf repo) := by
  refine (quiet_pureResult _).bind fun pubkey => ?_
  exact (quiet_asks id _).bind fun record => quiet_pureResult _

theorem quiet_searchMaintainers (repo : NormalizedRepo) (turns : ℕ) (pending seen : List String) :
    Quiet (searchMaintainers repo turns pending seen) := by
  induction turns generalizing pending seen with
  | zero => cases pending <;> trivial
  | succ turns ih =>
    cases pending with
    | nil => trivial
    | cons pubkey pending =>
      rw [searchMaintainers]
      split_ifs
      · exact ih pending seen
      · refine (quiet_pureResult _).bind fun bytes => ?_
        exact (quiet_asks id _).bind fun announcement => ih _ _

theorem quiet_authorizeReceivePack (env : Env) (turns : ℕ) (repo : NormalizedRepo)
    (headers : HeaderMap) (method : String) (uri : RequestUri) (body : List UInt8) :
    Quiet (authorizeReceivePack env turns repo headers method uri body) := by
  refine (quiet_pureResult _).bind fun event => ?_
  refine (quiet_pureResult _).bind fun url => ?_
  refine (quiet_asks id _).bind fun now => ?_
  refine (quiet_pureResult _).bind fun auth => ?_
  refine Quiet.bind ?_ fun maintainers => quiet_pureResult _
  exact (quiet_searchMaintainers repo turns _ _).bind fun seen => trivial

theorem resumes_pureResult {result : Except GitHttpHttpError α} {a : α}
    {past : List (Σ call, Call.Answer call)}
    (h : Prog.Resumes (pureResult result).run past (.done (.ok a))) :
    past = [] ∧ result = .ok a := by
  obtain ⟨hpast, hresult⟩ := Prog.resumes_done h
  refine ⟨hpast, ?_⟩
  cases result with
  | error err => cases hresult
  | ok b =>
    cases hresult
    rfl

theorem resumes_asks {call : Call} {read : call.Answer → Except GitHttpHttpError α} {a : α}
    {past : List (Σ call, Call.Answer call)}
    (h : Prog.Resumes (asks call read).run past (.done (.ok a))) :
    ∃ answer, past = [⟨call, answer⟩] ∧ read answer = .ok a := by
  rcases Prog.resumes_call h with ⟨-, heq⟩ | ⟨answer, after, rfl, hafter⟩
  · cases heq
  · obtain ⟨rfl, hresult⟩ := Prog.resumes_done hafter
    refine ⟨answer, rfl, ?_⟩
    cases hread : read answer with
    | error err =>
      rw [hread] at hresult
      cases hresult
    | ok b =>
      rw [hread] at hresult
      cases hresult
      rfl

theorem resumes_send {request sent : UpstreamRequest}
    {read : Except String UpstreamResponse → Except GitHttpHttpError α}
    {past : List (Σ call, Call.Answer call)}
    {next : Except String UpstreamResponse →
      Prog Call Call.Answer (Except (Option GitHttpHttpError) α)}
    (h : Prog.Resumes (asks (.send request) read).run past (.call (.send sent) next)) :
    past = [] ∧ request = sent := by
  rcases Prog.resumes_call h with ⟨hpast, heq⟩ | ⟨answer, after, rfl, hafter⟩
  · cases heq
    exact ⟨hpast, rfl⟩
  · cases (Prog.resumes_done hafter).2

/-- Before a request is sent, whatever comes first has succeeded. -/
theorem resumes_bind_of_send {x : Handler α} {f : α → Handler β} (hx : Quiet x)
    {past : List (Σ call, Call.Answer call)} {sent : UpstreamRequest}
    {next : Except String UpstreamResponse →
      Prog Call Call.Answer (Except (Option GitHttpHttpError) β)}
    (h : Prog.Resumes (x >>= f).run past (.call (.send sent) next)) :
    ∃ before after a, past = before ++ after ∧ Prog.Resumes x.run before (.done (.ok a)) ∧
      Prog.Resumes (f a).run after (.call (.send sent) next) :=
  Prog.resumes_bind_of_call hx (not_not_intro trivial) h

end

/-- The URL of the service that takes pushes to a repository of the upstream server. -/
def receivePackUrl (env : Env) (owner name : String) : String :=
  upstreamRepository env owner name ++ "/git-receive-pack"

/-- The request is a push: its URL is that of the service for the repository of the mapping, or for
any other whose names have no slashes. -/
def IsReceivePack (env : Env) (mapping : RepoMappingRecord) (sent : UpstreamRequest) : Prop :=
  ∃ owner name, sent.url = receivePackUrl env owner name ∧
    (owner = mapping.forgejoOwner ∧ name = mapping.forgejoRepo ∨
      '/' ∉ owner.toList ∧ '/' ∉ name.toList)

theorem not_isReceivePack_uploadPack {env : Env} {mapping : RepoMappingRecord}
    {sent : UpstreamRequest} (h : sent.url = forwardedUrl env mapping "/git-upload-pack" none) :
    ¬ IsReceivePack env mapping sent := by
  rintro ⟨owner, name, hurl, -⟩
  have htext := congrArg String.toList (h.symm.trans hurl)
  unfold forwardedUrl receivePackUrl at htext
  rw [String.toList_append, String.toList_append (s := upstreamRepository env owner name),
    show "/git-receive-pack".toList = ['/'] ++ "git-receive-pack".toList by decide,
    ← List.append_assoc] at htext
  exact absurd (List.append_inj' htext (by decide)).2 (by decide)

/-- The query of a request for references stands behind its path. -/
theorem not_isReceivePack_infoRefs {env : Env} {mapping : RepoMappingRecord}
    {sent : UpstreamRequest} {query : Option String}
    (h : sent.url = forwardedUrl env mapping "/info/refs" query) :
    ¬ IsReceivePack env mapping sent := by
  obtain ⟨more, hmore⟩ : ∃ more, forwardedUrl env mapping "/info/refs" query =
      upstreamRepository env mapping.forgejoOwner mapping.forgejoRepo ++
        ("/info/refs" ++ more) := by
    cases query with
    | none =>
      refine ⟨"", ?_⟩
      rw [String.append_empty]
      rfl
    | some query =>
      refine ⟨"?" ++ query, ?_⟩
      unfold forwardedUrl
      simp only [String.append_assoc]
  rintro ⟨owner, name, hurl, ⟨rfl, rfl⟩ | ⟨howner, hname⟩⟩
  · -- the same repository, and two different services
    have htext := Str.append_left_cancel (hmore.symm.trans (h.symm.trans hurl))
    have hsecond := congrArg (fun text => text.toList[1]?) htext
    rw [String.toList_append] at hsecond
    exact absurd (Option.some.inj hsecond) (by decide)
  · -- too many slashes behind the URL of the server
    have htext := congrArg (fun text => text.toList.count '/')
      (hmore.symm.trans (h.symm.trans hurl))
    unfold receivePackUrl upstreamRepository at htext
    simp only [String.toList_append, List.count_append, List.count_eq_zero_of_not_mem howner,
      List.count_eq_zero_of_not_mem hname] at htext
    have hinfo : "/info/refs".toList.count '/' = 2 := by
      decide
    have hpush : "/git-receive-pack".toList.count '/' = 1 := by
      decide
    have hslash : "/".toList.count '/' = 1 := by
      decide
    have hgit : ".git".toList.count '/' = 0 := by
      decide
    omega

theorem quiet_authorizeRoute (env : Env) (turns : ℕ) (route : GitHttpRoute) (repo : NormalizedRepo)
    (request : RequestHead) (body : List UInt8) :
    Quiet (authorizeRoute env turns route repo request body) := by
  cases route with
  | receivePack _ => exact quiet_authorizeReceivePack env turns repo _ _ _ body
  | infoRefs _ _ | uploadPack _ | notFound => trivial

/-- A request is sent for the repository of the route, under its mapping, with the method and the
body that were received, and a push is sent only after it was authorised for all of these. -/
theorem authorized_of_send {env : Env} {turns : ℕ} {route : GitHttpRoute} {request : RequestHead}
    {past : List (Σ call, Call.Answer call)} {sent : UpstreamRequest}
    {next : Except String UpstreamResponse →
      Prog Call Call.Answer (Except (Option GitHttpHttpError) UpstreamResponse)}
    (h : Prog.Resumes (handleGitRoute env turns route request).run past (.call (.send sent) next)) :
    ∃ repo mapping body asked authorized, route.repo = some repo ∧
      past = asked ++ ⟨.readBody, .ok body⟩ :: authorized ∧
      Prog.Resumes (resolveMappingOf repo).run asked (.done (.ok mapping)) ∧
      sent.method = request.method ∧ sent.body = body ∧
      (IsReceivePack env mapping sent → Prog.Resumes
        (authorizeReceivePack env turns repo request.headers request.method request.uri body).run
        authorized (.done (.ok ()))) := by
  obtain ⟨_, _, ⟨repo, suffix, query⟩, rfl, hfirst, hmapped⟩ :=
    resumes_bind_of_send (quiet_pureResult _) h
  obtain ⟨rfl, hparts⟩ := resumes_pureResult hfirst
  obtain ⟨asked, _, mapping, rfl, hasked, hread⟩ :=
    resumes_bind_of_send (quiet_resolveMappingOf repo) hmapped
  obtain ⟨_, _, body, rfl, hbody, hrest⟩ := resumes_bind_of_send (quiet_asks id _) hread
  obtain ⟨answer, rfl, hanswer⟩ := resumes_asks hbody
  obtain rfl : answer = .ok body := Result.mapError_eq_ok.1 hanswer
  obtain ⟨authorized, _, _, rfl, hauthorized, hsend⟩ :=
    resumes_bind_of_send (quiet_authorizeRoute env turns route repo request body) hrest
  obtain ⟨rfl, rfl⟩ := resumes_send hsend
  refine ⟨repo, mapping, body, asked, authorized, ?_, ?_, hasked, rfl, rfl, ?_⟩
  · cases route <;> cases hparts <;> rfl
  · rw [List.append_nil]
    rfl
  · intro hpush
    cases route with
    | receivePack _ => exact hauthorized
    | infoRefs _ _ =>
      cases hparts
      exact absurd hpush (not_isReceivePack_infoRefs rfl)
    | uploadPack _ =>
      cases hparts
      exact absurd hpush (not_isReceivePack_uploadPack rfl)
    | notFound => cases hparts

end GitHttp

/-- Every route but the missing one is of a repository with the key of its `npub` and an identifier
that is not blank, and behind the canonical path of the repository the suffix of the route, or the
text behind two segments of the path, leads to the same route; the `npub` and the identifier decide
the canonical path; and no push is sent that was not authorised for the repository of the route, the
method and the body. -/
theorem routes_canonical_and_authorized (b : Bech32) (env : GitHttp.Env) :
    (∀ request, routeRequest b request ≠ .notFound → ∃ repo,
      (routeRequest b request).repo = some repo ∧
      (Str.isHexLen repo.pubkey 64 = true ∧ ∃ data, b.decode repo.npub = some ("npub", data) ∧
        Hex.decode repo.pubkey = some data) ∧
      Str.trim repo.identifier ≠ "" ∧
      routeRequest b
        { request with path := repo.canonicalPath ++ (routeRequest b request).suffix } =
          routeRequest b request ∧
      ∀ before suffix, request.path = before ++ suffix → Str.startsWith suffix "/" = true →
        (pathSegments before).length = 2 →
        routeRequest b { request with path := repo.canonicalPath ++ suffix } =
          routeRequest b request) ∧
    (∀ request request' repo repo', (routeRequest b request).repo = some repo →
      (routeRequest b request').repo = some repo' → repo.npub = repo'.npub →
      repo.identifier = repo'.identifier → repo.canonicalPath = repo'.canonicalPath) ∧
    ∀ turns route request past sent next, Prog.Resumes
        (GitHttp.handleGitRoute env turns route request).run past (.call (.send sent) next) →
      ∃ repo mapping body asked authorized, route.repo = some repo ∧
        past = asked ++ ⟨.readBody, .ok body⟩ :: authorized ∧
        Prog.Resumes (GitHttp.resolveMappingOf repo).run asked (.done (.ok mapping)) ∧
        sent.method = request.method ∧ sent.body = body ∧
        (GitHttp.IsReceivePack env mapping sent → Prog.Resumes
          (GitHttp.authorizeReceivePack env turns repo request.headers request.method request.uri
            body).run authorized (.done (.ok ()))) := by
  refine ⟨?_, ?_, ?_⟩
  · intro request hroute
    obtain ⟨⟨repo, hrepo⟩, hslash⟩ := exists_repo hroute
    obtain ⟨⟨data, hdecode, hlength, hkey⟩, htrim, -, -, -⟩ := of_repo_routeRequest hrepo
    refine ⟨repo, hrepo, ⟨?_, data, hdecode, ?_⟩, htrim, ?_, ?_⟩
    · rw [← hkey]
      exact Hex.isHexLen_iff_decode.2 ⟨data, Hex.decode_encode data, hlength⟩
    · rw [← hkey, Hex.decode_encode]
    · exact routeRequest_canonicalPath hrepo hslash rfl
    · exact fun before suffix hpath hsuffix hbefore =>
        routeRequest_canonicalPath_of_split hrepo hpath hsuffix hbefore
  · intro request request' repo repo' hrepo hrepo' hnpub hidentifier
    obtain ⟨-, -, hpath, -⟩ := of_repo_routeRequest hrepo
    obtain ⟨-, -, hpath', -⟩ := of_repo_routeRequest hrepo'
    rw [hpath, hpath', hnpub, hidentifier]
  · intro turns route request past sent next h
    exact GitHttp.authorized_of_send h

end Gittree
