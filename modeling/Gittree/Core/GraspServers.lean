import Gittree.Core.GraspUrls

/-!
# The servers of GRASP URLs

`normalize_grasp_server_url` and `format_grasp_server_url_as_relay_url` of `crates/core/src/grasp.rs`,
and `RepoAnnouncement::lists_grasp_host` of `nip34.rs`, on the texts of server URLs.

A normal form without a scheme is read once more with `https://` in front, unless the library reads it
as it is.

* `normalize_text`: the normal form of a server URL whose host has no `npub1`;
* `laws_iff`: the URLs and announcements for which the three functions keep to the server.
-/

namespace Gittree

open Rust

namespace Grasp

/-- `format_grasp_server_url_as_relay_url`. -/
def formatGraspServerUrlAsRelayUrl (parseUrl : String → Option Url) (url : String) :
    Except CoreError String := do
  let server ← normalizeGraspServerUrl parseUrl url
  if Str.contains server "http://" then return Str.replace server "http://" "ws://"
  else return "wss://" ++ server

/-! ### Server URLs that are read -/

section Reading

variable {parseUrl : String → Option Url} {input host : String} {url : Url}

theorem parseServerUrl_of_host (h : parseUrl input = some url) (hhost : url.hostStr = some host) :
    parseServerUrl parseUrl input = .ok url := by
  unfold parseServerUrl
  rw [h]
  show (if url.hostStr.isNone then _ else Except.ok url) = _
  rw [hhost]
  rfl

/-- A text without a host is read once more as one of `https`. -/
theorem parseServerUrl_of_bare (h : ∀ found, parseUrl input = some found → found.hostStr = none)
    (hhttps : parseUrl ("https://" ++ input) = some url) :
    parseServerUrl parseUrl input = .ok url := by
  unfold parseServerUrl
  rw [hhttps]
  cases hinput : parseUrl input with
  | none =>
    show (if url.hostStr.isNone then Except.ok url else Except.ok url) = _
    exact ite_self _
  | some found =>
    show (if found.hostStr.isNone then Except.ok url else Except.ok found) = _
    rw [h found hinput]
    rfl

/-- What is read has a host. -/
theorem UrlLibrary.of_parseServerUrl (hlib : UrlLibrary parseUrl)
    (h : parseServerUrl parseUrl input = .ok url) : ∃ text host, parseUrl text = some url ∧
      url.hostStr = some host := by
  have hfallback : ∀ {found : Url}, Result.okOr (parseUrl ("https://" ++ input))
      (CoreError.invalidField "grasp_url" input) = .ok found → ∃ text host,
        parseUrl text = some found ∧ found.hostStr = some host := by
    intro found hfound
    have hparse := Result.okOr_eq_ok.1 hfound
    obtain ⟨host, hhost⟩ := Option.isSome_iff_exists.1 (hlib.https input found hparse)
    exact ⟨_, host, hparse, hhost⟩
  unfold parseServerUrl at h
  cases hinput : parseUrl input with
  | none =>
    simp only [hinput] at h
    obtain ⟨parsed, hparsed, h⟩ := Result.bind_eq_ok.1 h
    split_ifs at h
    · exact hfallback h
    · cases h
      exact hfallback hparsed
  | some parsed =>
    simp only [hinput] at h
    obtain ⟨found, hfound, h⟩ := Result.bind_eq_ok.1 h
    cases hfound
    split_ifs at h with hnone
    · exact hfallback h
    · cases h
      rw [Option.isNone_iff_eq_none] at hnone
      obtain ⟨host, hhost⟩ := Option.ne_none_iff_exists'.1 hnone
      exact ⟨input, host, hinput, hhost⟩

/-- The host and the port that are read from a text. -/
def ReadsAs (parseUrl : String → Option Url) (text host : String) (port : Option ℕ) : Prop :=
  ∃ url, parseServerUrl parseUrl text = .ok url ∧ url.hostStr = some host ∧ url.port = port

end Reading

namespace ServerUrl

variable {parseUrl : String → Option Url} {url : ServerUrl}

/-- The host has no `npub1`. -/
def Unmarked (url : ServerUrl) : Prop := Str.contains url.host "npub1" = false

/-- The normal form of a server URL. -/
def normal (url : ServerUrl) : String :=
  marker url.scheme ++ (serverText url.host url.port ++ shorten url.path)

/-- The server under another scheme with the same default port, and with another path. -/
def under (url : ServerUrl) (scheme path : String)
    (hscheme : scheme ∈ ["ws", "wss", "http", "https"])
    (hport : defaultPort scheme = defaultPort url.scheme) (hpath : IsPath path) : ServerUrl where
  scheme
  host := url.host
  port := url.port
  path
  isScheme := hscheme
  isHost := url.isHost
  isPort := by
    rw [hport]
    exact url.isPort
  isPath := hpath

theorem slash_notMem (url : ServerUrl) : '/' ∉ url.host.toList :=
  url.isHost.notMem (by decide) (by decide)

theorem colon_notMem (url : ServerUrl) : ':' ∉ url.host.toList :=
  url.isHost.notMem (by decide) (by decide)

theorem slash_components (url : ServerUrl) : ∀ c ∈ url.components.path.toList.head?, c = '/' := by
  unfold components
  simp only
  split_ifs
  · intro c hc
    exact (Option.some.inj hc).symm
  · exact url.isPath.slash

theorem shorten_components (url : ServerUrl) : shorten url.components.path = shorten url.path := by
  unfold components
  simp only
  split_ifs with hempty
  · rw [hempty]
    decide
  · rfl

/-- A server is more than nothing. -/
theorem serverText_append_ne (url : ServerUrl) (text : String) :
    serverText url.host url.port ++ text ≠ "" := by
  intro h
  have hlist := congrArg String.toList h
  rw [String.toList_append, toList_serverText, String.toList_empty, List.append_eq_nil_iff,
    List.append_eq_nil_iff] at hlist
  exact url.isHost.ne_nil hlist.1.1

/-- What is left of the server and its path, if the host has no `npub1`. -/
theorem shorten_location (h : url.Unmarked) :
    shorten (serverText url.host url.port ++ url.components.path) =
      serverText url.host url.port ++ shorten url.path := by
  rw [shorten_server url.slash_notMem (Str.contains_eq_false_iff.1 h) url.slash_components,
    shorten_components]

/-- The normal form of what is read as the components of a server URL. -/
theorem normalize_of_parse {input : String} (h : url.Unmarked)
    (hparse : parseServerUrl parseUrl input = .ok url.components) :
    normalizeGraspServerUrl parseUrl input = .ok url.normal := by
  have hnormal := normalize_eq hparse
  show normalizeGraspServerUrl parseUrl input = .ok (marker url.scheme ++ _)
  rw [hnormal]
  show Except.ok (shorten (marker url.scheme ++
    (serverText url.host url.port ++ url.components.path))) = _
  rw [shorten_marker, shorten_location h, if_neg (url.serverText_append_ne _)]

theorem parseServerUrl_text (hlib : UrlLibrary parseUrl) (url : ServerUrl) :
    parseServerUrl parseUrl url.text = .ok url.components :=
  parseServerUrl_of_host (hlib.server url) rfl

/-- The normal form of a server URL whose host has no `npub1`. -/
theorem normalize_text (hlib : UrlLibrary parseUrl) (h : url.Unmarked) :
    normalizeGraspServerUrl parseUrl url.text = .ok url.normal :=
  normalize_of_parse h (parseServerUrl_text hlib url)

/-! ### Reading a normal form -/

/-- The server with the rest of its path. -/
def stored (url : ServerUrl) (scheme : String) (hscheme : scheme ∈ ["ws", "wss", "http", "https"])
    (hport : defaultPort scheme = defaultPort url.scheme) : ServerUrl :=
  url.under scheme (shorten url.path) hscheme hport (isPath_shorten url.isPath)

/-- A text that is read as the server with the rest of its path has the normal form again. -/
theorem normalize_of_stored (h : url.Unmarked) {input scheme : String}
    (hscheme : scheme ∈ ["ws", "wss", "http", "https"])
    (hport : defaultPort scheme = defaultPort url.scheme)
    (hmarker : marker scheme = marker url.scheme)
    (hparse : parseServerUrl parseUrl input = .ok (url.stored scheme hscheme hport).components) :
    normalizeGraspServerUrl parseUrl input = .ok url.normal := by
  have hunmarked : (url.stored scheme hscheme hport).Unmarked := h
  rw [normalize_of_parse hunmarked hparse]
  show Except.ok (marker scheme ++ (serverText url.host url.port ++ shorten (shorten url.path))) = _
  rw [hmarker, shorten_shorten]
  rfl

/-- The text of that server. -/
theorem text_stored {scheme : String} (hscheme : scheme ∈ ["ws", "wss", "http", "https"])
    (hport : defaultPort scheme = defaultPort url.scheme) : (url.stored scheme hscheme hport).text =
      scheme ++ "://" ++ (serverText url.host url.port ++ shorten url.path) := rfl

/-- With `http://` a normal form is a server URL itself. -/
theorem normalize_normal_plain (hlib : UrlLibrary parseUrl) (h : url.Unmarked)
    (hplain : IsPlain url.scheme) :
    normalizeGraspServerUrl parseUrl url.normal = .ok url.normal := by
  have hmarker : marker url.scheme = "http://" := if_pos hplain
  have hport : defaultPort "http" = defaultPort url.scheme := (if_pos hplain).symm
  have htext : (url.stored "http" (by decide) hport).text = url.normal := by
    rw [text_stored, normal, hmarker]
    rfl
  refine normalize_of_stored h (by decide) hport (by rw [hmarker]; decide) ?_
  rw [← htext]
  exact parseServerUrl_text hlib _

/-- A special host with a port is not left behind as a scheme. -/
def NotScheme (url : ServerUrl) : Prop :=
  ¬ (url.port.isSome = true ∧ ¬ IsPlain url.scheme ∧ url.host ∈ specialSchemes)

/-- Without it a normal form is read with `https://` in front. -/
theorem normalize_normal_secure (hlib : UrlLibrary parseUrl) (h : url.Unmarked)
    (hplain : ¬ IsPlain url.scheme) (hspecial : url.NotScheme) :
    normalizeGraspServerUrl parseUrl url.normal = .ok url.normal := by
  have hmarker : marker url.scheme = "" := if_neg hplain
  have hport : defaultPort "https" = defaultPort url.scheme := (if_neg hplain).symm
  have hnormal : url.normal = serverText url.host url.port ++ shorten url.path := by
    rw [normal, hmarker, String.empty_append]
  have htext : (url.stored "https" (by decide) hport).text = "https://" ++ url.normal := by
    rw [text_stored, hnormal]
    rfl
  refine normalize_of_stored h (by decide) hport (by rw [hmarker]; decide) ?_
  refine parseServerUrl_of_bare ?_ ?_
  · rw [hnormal]
    refine hlib.bare url.host url.port _ url.isHost (isPath_shorten url.isPath) ?_
    rintro ⟨hsome, hmem⟩
    exact hspecial ⟨hsome, hplain, hmem⟩
  · rw [← htext]
    exact hlib.server _

/-- A special host with a port is taken for a scheme, and the port for the host. -/
theorem not_idempotent_of_special (hlib : UrlLibrary parseUrl)
    (hspecial : ¬ url.NotScheme) : normalizeGraspServerUrl parseUrl url.normal ≠ .ok url.normal := by
  unfold NotScheme at hspecial
  rw [not_not] at hspecial
  obtain ⟨hsome, hplain, hmem⟩ := hspecial
  obtain ⟨value, hvalue⟩ := Option.isSome_iff_exists.1 hsome
  have hmarker : marker url.scheme = "" := if_neg hplain
  have hnormal : url.normal = serverText url.host (some value) ++ shorten url.path := by
    rw [normal, hmarker, String.empty_append, hvalue]
  obtain ⟨found, hfound, hhost⟩ := hlib.number url.host hmem value (url.isPort value hvalue).1 _
    (isPath_shorten url.isPath)
  have hparse : parseServerUrl parseUrl url.normal = .ok found := by
    rw [hnormal]
    exact parseServerUrl_of_host hfound hhost
  have hnot : ∀ c, c ≠ '.' → c.isDigit = false → c ∉ (numberHost value).toList :=
    fun c => notMem_numberHost value
  have hnpub : Str.splitAtFirst "npub1".toList (numberHost value).toList = none :=
    Str.splitAtFirst_of_notMem (c := 'n') (by decide) (hnot _ (by decide) (by decide))
  have hslash := hnot '/' (by decide) (by decide)
  have hpath := (hlib.host _ found _ hfound hhost).2
  have hlocation := @shorten_server (numberHost value) found.path found.port hslash hnpub hpath
  rw [normalize_eq hparse, hhost, Option.getD_some, shorten_marker, hlocation]
  intro heq
  obtain heq := Except.ok.inj heq
  have hne : serverText (numberHost value) found.port ++ shorten found.path ≠ "" := by
    intro hempty
    have hlist := congrArg String.toList hempty
    rw [String.toList_append, toList_serverText, numberHost] at hlist
    simp at hlist
  rw [if_neg hne, hnormal] at heq
  unfold marker at heq
  split_ifs at heq with hscheme
  · -- the host would begin with `http://`
    have hstarts : Str.startsWith (serverText url.host (some value) ++ shorten url.path)
        "http://" = true := Str.startsWith_iff.2 ⟨_, heq.symm⟩
    rw [not_startsWith_http url.slash_notMem (fun hc => absurd hc url.colon_notMem)
      (isPath_shorten url.isPath).slash] at hstarts
    cases hstarts
  · rw [String.empty_append] at heq
    obtain ⟨hserver, -⟩ := serverText_append_inj hslash url.slash_notMem (slash_shorten hpath)
      (isPath_shorten url.isPath).slash heq
    obtain ⟨hsame, -⟩ := serverText_inj (hnot ':' (by decide) (by decide)) url.colon_notMem hserver
    have hzero : url.host.toList.head? = some '0' := by
      rw [← hsame, numberHost]
      simp
    have hletters : ∀ special ∈ specialSchemes, special.toList.head? ≠ some '0' := by
      decide
    exact hletters _ hmem hzero

/-! ### Host and port -/

/-- The host and the port stand where the normal form of the scheme has them. -/
def KeptIn (url : ServerUrl) (normalized : String) : Prop :=
  ∃ rest, normalized = marker url.scheme ++ (serverText url.host url.port ++ rest) ∧
    ∀ c ∈ rest.toList.head?, c = '/'

theorem keptIn_normal (url : ServerUrl) : url.KeptIn url.normal :=
  ⟨shorten url.path, rfl, (isPath_shorten url.isPath).slash⟩

/-- A host with `npub1` is cut. -/
theorem not_keptIn_of_marked (hlib : UrlLibrary parseUrl) (h : ¬ url.Unmarked) {normalized : String}
    (hnormalized : normalizeGraspServerUrl parseUrl url.text = .ok normalized) :
    ¬ url.KeptIn normalized := by
  unfold Unmarked at h
  rw [Str.contains_eq_false_iff] at h
  obtain ⟨⟨before, found⟩, hcut⟩ := Option.ne_none_iff_exists'.1 h
  obtain ⟨hhost, hfound⟩ := Str.splitAtFirst_append hcut
  have hlocation : shorten (serverText url.host url.port ++ url.components.path) =
      String.ofList before := shorten_cut url.slash_notMem hcut
  rw [normalize_eq (parseServerUrl_text hlib url)] at hnormalized
  have hvalue : shorten (marker url.scheme ++
      (serverText url.host url.port ++ url.components.path)) = normalized :=
    Except.ok.inj hnormalized
  rw [shorten_marker, hlocation] at hvalue
  rintro ⟨rest, hrest, -⟩
  -- what is kept is too short for the host
  have hshort : normalized.toList.length ≤ (marker url.scheme).toList.length + before.length := by
    rw [← hvalue]
    split_ifs
    · exact le_trans (Str.trimEndMatches_prefix _ _).length_le (Nat.le_add_right _ _)
    · rw [String.toList_append, List.length_append, String.toList_ofList]
  have hlong : (marker url.scheme).toList.length + url.host.toList.length ≤
      normalized.toList.length := by
    rw [hrest, String.toList_append, String.toList_append, toList_serverText]
    simp only [List.length_append]
    omega
  have hpattern : "npub1".toList.length ≤ found.length := hfound.length_le
  rw [hhost, List.length_append] at hlong
  have hfive : "npub1".toList.length = 5 := by
    decide
  omega

/-! ### The URL of the relay -/

theorem formatRelay_eq {input normalized : String}
    (h : normalizeGraspServerUrl parseUrl input = .ok normalized) :
    formatGraspServerUrlAsRelayUrl parseUrl input =
      if Str.contains normalized "http://" = true then
        .ok (Str.replace normalized "http://" "ws://")
      else .ok ("wss://" ++ normalized) := by
  unfold formatGraspServerUrlAsRelayUrl
  rw [h]
  rfl

/-- What is asked of the relay URL of a server. -/
def HasRelay (parseUrl : String → Option Url) (url : ServerUrl) (normalized : String) : Prop :=
  ∃ relay, formatGraspServerUrlAsRelayUrl parseUrl url.text = .ok relay ∧
    (Str.startsWith relay "ws://" = true ∨ Str.startsWith relay "wss://" = true) ∧
      normalizeGraspServerUrl parseUrl relay = .ok normalized

/-- The rest of the path has no `http://`. -/
def PlainPath (url : ServerUrl) : Prop := Str.contains (shorten url.path) "http://" = false

theorem contains_normal_plain (hplain : IsPlain url.scheme) :
    Str.contains url.normal "http://" = true := by
  have hmarker : marker url.scheme = "http://" := if_pos hplain
  rw [Str.contains_iff]
  exact ⟨"", serverText url.host url.port ++ shorten url.path, by rw [normal, hmarker]; rfl⟩

theorem contains_normal_secure (hplain : ¬ IsPlain url.scheme) :
    Str.contains url.normal "http://" = Str.contains (shorten url.path) "http://" := by
  have hmarker : marker url.scheme = "" := if_neg hplain
  rw [normal, hmarker, String.empty_append,
    contains_serverText url.isHost (isPath_shorten url.isPath)]

theorem hasRelay_plain (hlib : UrlLibrary parseUrl) (h : url.Unmarked)
    (hplain : IsPlain url.scheme) : url.HasRelay parseUrl url.normal ↔ url.PlainPath := by
  have hmarker : marker url.scheme = "http://" := if_pos hplain
  have hport : defaultPort "ws" = defaultPort url.scheme := (if_pos hplain).symm
  have hpath := isPath_shorten url.isPath
  obtain ⟨n, hn, hreplace⟩ := @replace_marked url.host (shorten url.path) url.port url.isHost hpath
  have hformat : formatGraspServerUrlAsRelayUrl parseUrl url.text =
      .ok ("ws://" ++ (serverText url.host url.port ++ replaced n (shorten url.path))) := by
    rw [formatRelay_eq (normalize_text hlib h), if_pos (contains_normal_plain hplain), normal, hmarker,
      hreplace]
  -- the relay URL is a server URL with the replaced path
  let relay := url.under "ws" (replaced n (shorten url.path)) (by decide) hport
    (isPath_replaced hpath n)
  have hnormal : normalizeGraspServerUrl parseUrl
      ("ws://" ++ (serverText url.host url.port ++ replaced n (shorten url.path))) =
        .ok ("http://" ++ (serverText url.host url.port ++
          shorten (replaced n (shorten url.path)))) := by
    have hunmarked : relay.Unmarked := h
    exact normalize_text hlib hunmarked
  unfold PlainPath
  rw [Str.contains_eq_false_iff]
  constructor
  · rintro ⟨text, htext, -, hsame⟩
    rw [hformat] at htext
    cases htext
    rw [hnormal, normal, hmarker, Except.ok.injEq] at hsame
    have hrest : shorten (replaced n (shorten url.path)) = shorten url.path :=
      Str.append_left_cancel (Str.append_left_cancel hsame)
    by_contra hmarked
    have hlt := Str.length_replaceChars_lt (p := "http://".toList) (q := "ws://".toList) (by decide)
      hn hmarked
    have hle := (isPrefix_shorten (replaced n (shorten url.path))).length_le
    rw [hrest] at hle
    unfold replaced at hle
    rw [String.toList_ofList] at hle
    omega
  · intro hnone
    have hsame : replaced n (shorten url.path) = shorten url.path := by
      unfold replaced
      rw [Str.replaceChars_of_none hnone, String.ofList_toList]
    refine ⟨_, hformat, .inl (Str.startsWith_iff.2 ⟨_, rfl⟩), ?_⟩
    rw [hnormal, hsame, shorten_shorten, normal, hmarker]

theorem hasRelay_secure (hlib : UrlLibrary parseUrl) (h : url.Unmarked)
    (hplain : ¬ IsPlain url.scheme) : url.HasRelay parseUrl url.normal ↔ url.PlainPath := by
  have hmarker : marker url.scheme = "" := if_neg hplain
  have hport : defaultPort "wss" = defaultPort url.scheme := (if_neg hplain).symm
  have hpath := isPath_shorten url.isPath
  have hcontains := @contains_normal_secure url hplain
  unfold PlainPath
  constructor
  · rintro ⟨text, htext, hstarts, -⟩
    rw [← hcontains, Bool.eq_false_iff]
    intro hmarked
    obtain ⟨n, hreplace⟩ := @replace_unmarked url.host (shorten url.path) url.port url.isHost hpath
    rw [formatRelay_eq (normalize_text hlib h), if_pos hmarked, normal, hmarker, String.empty_append,
      hreplace] at htext
    obtain rfl := Except.ok.inj htext
    have hcolon : ':' ∈ url.host.toList → url.host.toList.head? = some '[' :=
      fun hc => absurd hc url.colon_notMem
    have hslash := (isPath_replaced hpath n).slash
    have hws := @not_startsWith_scheme url.host _ url.port "ws"
      (List.all_iff_forall_prop.1 (by decide)) url.slash_notMem hcolon hslash
    have hwss := @not_startsWith_scheme url.host _ url.port "wss"
      (List.all_iff_forall_prop.1 (by decide)) url.slash_notMem hcolon hslash
    rcases hstarts with hstarts | hstarts
    · exact absurd hstarts (by rw [show "ws://" = "ws" ++ "://" by decide, hws]; decide)
    · exact absurd hstarts (by rw [show "wss://" = "wss" ++ "://" by decide, hwss]; decide)
  · intro hnone
    have hnormal : url.normal = serverText url.host url.port ++ shorten url.path := by
      rw [normal, hmarker, String.empty_append]
    have htext : (url.stored "wss" (by decide) hport).text = "wss://" ++ url.normal := by
      rw [text_stored, hnormal]
      rfl
    refine ⟨"wss://" ++ url.normal, ?_, .inr (Str.startsWith_iff.2 ⟨_, rfl⟩), ?_⟩
    · rw [formatRelay_eq (normalize_text hlib h), if_neg (by rw [hcontains, hnone]; decide)]
    · refine normalize_of_stored h (by decide) hport (by rw [hmarker]; decide) ?_
      rw [← htext]
      exact parseServerUrl_text hlib _

/-- The relay URL leads back to the server exactly if the rest of the path has no `http://`. -/
theorem hasRelay_iff (hlib : UrlLibrary parseUrl) (h : url.Unmarked) :
    url.HasRelay parseUrl url.normal ↔ url.PlainPath := by
  by_cases hplain : IsPlain url.scheme
  · exact hasRelay_plain hlib h hplain
  · exact hasRelay_secure hlib h hplain

/-- A normal form is its own exactly if no special host with a port is in front. -/
theorem normalize_normal_iff (hlib : UrlLibrary parseUrl) (h : url.Unmarked) :
    normalizeGraspServerUrl parseUrl url.normal = .ok url.normal ↔ url.NotScheme := by
  constructor
  · intro hsame
    by_contra hspecial
    exact not_idempotent_of_special hlib hspecial hsame
  · intro hspecial
    by_cases hplain : IsPlain url.scheme
    · exact normalize_normal_plain hlib h hplain
    · exact normalize_normal_secure hlib h hplain hspecial

/-! ### Announcements that list the server -/

/-- The text that is compared of a server URL. -/
theorem compare_text (hlib : UrlLibrary parseUrl) (h : url.Unmarked) :
    normalizeGraspHostForCompare parseUrl url.text =
      .ok (serverText url.host url.port ++ shorten url.path) := by
  obtain ⟨text, htext, -, hvalue⟩ := compare_eq (parseServerUrl_text hlib url) rfl url.slash_notMem
    (fun hc => absurd hc url.colon_notMem) url.slash_components
  have hlocation : shorten (serverText url.host url.components.port ++ url.components.path) =
      serverText url.host url.port ++ shorten url.path := shorten_location h
  rw [hlocation] at hvalue
  rw [htext, hvalue (url.serverText_append_ne _)]

/-- It is not the rest of `http://`. -/
theorem serverText_append_ne_http (url : ServerUrl) :
    serverText url.host url.port ++ shorten url.path ≠ "http:" := by
  intro h
  have hlist : url.host.toList ++ ((url.port.map fun value => ':' :: Nat.toDigits 10 value).getD [] ++
      (shorten url.path).toList) = "http".toList ++ [':'] := by
    have hchars := congrArg String.toList h
    rw [String.toList_append, toList_serverText, List.append_assoc] at hchars
    exact hchars
  have hclass : ∀ c ∈ url.host.toList, ¬ (c = ':' ∨ c = '/') := by
    rintro c hc (rfl | rfl)
    · exact url.colon_notMem hc
    · exact url.slash_notMem hc
  have hscheme : ∀ c ∈ "http".toList, ¬ (c = ':' ∨ c = '/') :=
    List.all_iff_forall_prop.1 (by decide)
  have hcolon : ∀ c ∈ [':'].head?, c = ':' ∨ c = '/' := fun c hc => .inl (Option.some.inj hc).symm
  have hpath := (isPath_shorten url.isPath).slash
  obtain ⟨-, hafter⟩ := Str.append_inj_of_class hclass hscheme
    (fun c hc => head_port_append hpath hc) hcolon hlist
  cases hport : url.port with
  | none =>
    rw [hport, Option.map_none, Option.getD_none, List.nil_append] at hafter
    exact absurd (hpath ':' (by rw [hafter]; rfl)) (by decide)
  | some value =>
    rw [hport] at hafter
    obtain ⟨-, hdigits⟩ := List.cons.inj hafter
    exact Nat.toDigits_ne_nil (List.append_eq_nil_iff.1 hdigits).1

/-- The host that is read begins with that of the server and goes on with `npub1`. -/
def Disguised (parseUrl : String → Option Url) (url : ServerUrl) (relay : String) : Prop :=
  ∃ rest port, ReadsAs parseUrl relay (url.host ++ "npub1" ++ rest) port

/-- A bracket does not begin a text that begins with a domain name. -/
theorem head_ne_bracket (url : ServerUrl) {l : List Char} (h : url.host.toList <+: l) :
    l.head? ≠ some '[' := by
  obtain ⟨rest, rfl⟩ := h
  cases hhost : url.host.toList with
  | nil => exact absurd hhost url.isHost.ne_nil
  | cons c host =>
    intro hhead
    obtain rfl := Option.some.inj hhead
    refine url.isHost.notMem (c := '[') (by decide) (by decide) ?_
    rw [hhost]
    exact List.mem_cons_self

/-- A relay that compares equal has the host and the port of the server, or its host is cut to the
host of a server without a port and a path. -/
theorem readsAs_of_compare (hlib : UrlLibrary parseUrl) {relay : String}
    (h : normalizeGraspHostForCompare parseUrl relay =
      .ok (serverText url.host url.port ++ shorten url.path)) :
    ReadsAs parseUrl relay url.host url.port ∨
      url.port = none ∧ shorten url.path = "" ∧ url.Disguised parseUrl relay := by
  obtain ⟨normalized, hnormalized, -⟩ := Result.bind_eq_ok.1 h
  obtain ⟨found, hfound, -⟩ := Result.bind_eq_ok.1 hnormalized
  obtain ⟨text, host, hparse, hhost⟩ := hlib.of_parseServerUrl hfound
  obtain ⟨⟨hslash, hcolon⟩, hpath⟩ := hlib.host text found host hparse hhost
  obtain ⟨compared, hcompared, hvalue, -⟩ := compare_eq hfound hhost hslash hcolon hpath
  obtain rfl : compared = _ := Except.ok.inj (hcompared.symm.trans h)
  have hshort := hvalue.resolve_right url.serverText_append_ne_http
  have hstart : url.host.toList <+: (serverText url.host url.port ++ shorten url.path).toList := by
    rw [String.toList_append, toList_serverText, List.append_assoc]
    exact List.prefix_append _ _
  cases hcut : Str.splitAtFirst "npub1".toList host.toList with
  | none =>
    left
    rw [shorten_server hslash hcut hpath] at hshort
    have hplain : ':' ∉ host.toList := by
      intro hmem
      refine url.head_ne_bracket hstart ?_
      rw [hshort, String.toList_append, toList_serverText, List.append_assoc, List.head?_append,
        hcolon hmem]
      rfl
    obtain ⟨hserver, -⟩ := serverText_append_inj url.slash_notMem hslash
      (isPath_shorten url.isPath).slash (slash_shorten hpath) hshort
    obtain ⟨rfl, hport⟩ := serverText_inj url.colon_notMem hplain hserver
    exact ⟨found, hfound, hhost, hport.symm⟩
  | some parts =>
    right
    obtain ⟨before, after⟩ := parts
    rw [shorten_cut hslash hcut] at hshort
    obtain ⟨hsplit, ⟨rest, hrest⟩⟩ := Str.splitAtFirst_append hcut
    have hbefore : (serverText url.host url.port ++ shorten url.path).toList = before := by
      rw [hshort, String.toList_ofList]
    have hinside : ∀ c ∈ (serverText url.host url.port ++ shorten url.path).toList,
        c ∈ host.toList := by
      intro c hc
      rw [hbefore] at hc
      rw [hsplit]
      exact List.mem_append_left _ hc
    -- neither a path nor a port stands inside the host
    have hempty : shorten url.path = "" := by
      rcases path_cases (isPath_shorten url.isPath).slash with hchars | ⟨rest, hchars⟩
      · exact String.toList_inj.1 hchars
      · refine absurd (hinside '/' ?_) hslash
        rw [String.toList_append, hchars]
        exact List.mem_append_right _ List.mem_cons_self
    have hport : url.port = none := by
      cases hvalue : url.port with
      | none => rfl
      | some value =>
        have hmem : ':' ∈ host.toList := by
          refine hinside ':' ?_
          rw [String.toList_append, toList_serverText, hvalue]
          exact List.mem_append_left _ (List.mem_append_right _ List.mem_cons_self)
        refine absurd (hcolon hmem) (url.head_ne_bracket ?_)
        rw [hsplit, ← hbefore]
        exact hstart.trans (List.prefix_append _ _)
    refine ⟨hport, hempty, String.ofList rest, found.port, found, hfound, ?_, rfl⟩
    rw [hhost, Option.some.injEq, ← String.toList_inj, hsplit, ← hrest, ← hbefore, hempty,
      String.append_empty, toList_serverText, hport]
    simp

/-- A disguised relay compares equal to a server without a port and a path. -/
theorem compare_of_disguised (hlib : UrlLibrary parseUrl) (h : url.Unmarked)
    (hport : url.port = none) (hpath : shorten url.path = "") {relay : String}
    (hrelay : url.Disguised parseUrl relay) : normalizeGraspHostForCompare parseUrl relay =
      .ok (serverText url.host url.port ++ shorten url.path) := by
  obtain ⟨rest, port, found, hfound, hhost, -⟩ := hrelay
  obtain ⟨text, host, hparse, hhost'⟩ := hlib.of_parseServerUrl hfound
  obtain rfl : host = _ := Option.some.inj (hhost'.symm.trans hhost)
  obtain ⟨⟨hslash, hcolon⟩, hfoundPath⟩ := hlib.host text found _ hparse hhost
  have hcut : Str.splitAtFirst "npub1".toList (url.host ++ "npub1" ++ rest).toList =
      some (url.host.toList, "npub1".toList ++ rest.toList) := by
    have hclear : Str.Clear "npub1".toList url.host.toList ("npub1".toList ++ rest.toList) := by
      refine Str.clear_of_none (Str.contains_eq_false_iff.1 h) fun c hc => ?_
      obtain rfl : 'n' = c := Option.some.inj hc
      decide
    rw [String.toList_append, String.toList_append, List.append_assoc,
      Str.splitAtFirst_append_left hclear, Str.splitAtFirst_start, Option.map_some, List.append_nil]
  obtain ⟨compared, hcompared, -, hvalue⟩ := compare_eq hfound hhost hslash hcolon hfoundPath
  have hserver : serverText url.host url.port ++ shorten url.path = url.host := by
    rw [hport, hpath, String.append_empty]
    exact String.append_empty
  have hne := url.serverText_append_ne (shorten url.path)
  rw [shorten_cut hslash hcut, String.ofList_toList, ← hserver] at hvalue
  rw [hcompared, hvalue hne]

end ServerUrl

theorem listsGraspHost_eq_true {parseUrl : String → Option Url} {a : RepoAnnouncement}
    {input : String} : a.listsGraspHost parseUrl input = .ok true ↔
      ∃ text, normalizeGraspHostForCompare parseUrl input = .ok text ∧
        ∃ relay ∈ a.relays, normalizeGraspHostForCompare parseUrl relay = .ok text := by
  unfold RepoAnnouncement.listsGraspHost
  rw [Result.bind_eq_ok]
  refine exists_congr fun text => and_congr_right fun _ => ?_
  rw [Result.pure_eq_ok, List.any_eq_true]
  constructor
  · rintro ⟨normalized, hnormalized, hsame⟩
    obtain ⟨relay, hrelay, hcompare⟩ := List.mem_filterMap.1 hnormalized
    obtain rfl : normalized = text := beq_iff_eq.1 hsame
    exact ⟨relay, hrelay, Result.toOption_eq_some.1 hcompare⟩
  · rintro ⟨relay, hrelay, hcompare⟩
    exact ⟨text, List.mem_filterMap.2 ⟨relay, hrelay, Result.toOption_eq_some.2 hcompare⟩,
      beq_iff_eq.2 rfl⟩

/-! ### A reader of server URLs -/

/-- The characters that end a scheme or a host. -/
def isMark (c : Char) : Bool := c == ':' || c == '/'

/-- A path as it is read. -/
def readPath (text : List Char) : Option String :=
  if text = [] then some "/"
  else if text.head? = some '/' then some (String.ofList text) else none

/-- What follows a host. -/
def readPort (scheme host : String) : List Char → Option Url
  | ':' :: rest => (readPath (rest.dropWhile Char.isDigit)).map fun path =>
      { scheme, hostStr := some host, port := Str.parseDigits (rest.takeWhile Char.isDigit), path }
  | rest => (readPath rest).map fun path => { scheme, hostStr := some host, port := none, path }

/-- The number of an IPv4 address. -/
def readNumber (scheme : String) (text : List Char) : Option Url :=
  (Str.parseDigits (text.takeWhile Char.isDigit)).bind fun value =>
    (readPath (text.dropWhile Char.isDigit)).map fun path =>
      { scheme, hostStr := some (numberHost value), port := none, path }

/-- What follows a scheme. -/
def readRest (scheme : String) : List Char → Option Url
  | ':' :: '/' :: '/' :: rest =>
    if scheme ∈ ["ws", "wss", "http", "https"] then
      readPort scheme (String.ofList (rest.takeWhile fun c => !isMark c))
        (rest.dropWhile fun c => !isMark c)
    else none
  | ':' :: rest => if scheme ∈ specialSchemes then readNumber scheme rest else none
  | _ => none

/-- A reader with the properties of the library. -/
def readUrl (text : String) : Option Url :=
  readRest (String.ofList (text.toList.takeWhile fun c => !isMark c))
    (text.toList.dropWhile fun c => !isMark c)

section Reader

variable {scheme host path : String} {port : Option ℕ} {url : Url} {rest : List Char}

theorem readPath_toList (h : ∀ c ∈ path.toList.head?, c = '/') :
    readPath path.toList = some (if path = "" then "/" else path) := by
  unfold readPath
  rcases path_cases h with hpath | ⟨text, hpath⟩
  · have hempty : path = "" := String.toList_inj.1 hpath
    rw [if_pos hpath, if_pos hempty]
  · have hne : path ≠ "" := by
      rintro rfl
      cases hpath
    have hhead : path.toList.head? = some '/' := by
      rw [hpath]
      rfl
    rw [if_neg (by rw [hpath]; exact List.cons_ne_nil _ _), if_pos hhead, if_neg hne,
      String.ofList_toList]

theorem slash_readPath {text : List Char} (h : readPath text = some path) :
    ∀ c ∈ path.toList.head?, c = '/' := by
  unfold readPath at h
  intro c hc
  split_ifs at h with hempty hhead
  · cases h
    exact (Option.some.inj hc).symm
  · cases h
    rw [String.toList_ofList, hhead] at hc
    exact (Option.some.inj hc).symm

/-- Digits and a path are told apart. -/
theorem takeWhile_digits (value : ℕ) (h : ∀ c ∈ path.toList.head?, c = '/') :
    (Nat.toDigits 10 value ++ path.toList).takeWhile Char.isDigit = Nat.toDigits 10 value ∧
      (Nat.toDigits 10 value ++ path.toList).dropWhile Char.isDigit = path.toList := by
  refine Str.takeWhile_append_of_head (fun c hc => isDigit_of_mem_toDigits hc) fun c hc => ?_
  rw [h c hc]
  decide

theorem readPort_append (h : ∀ c ∈ path.toList.head?, c = '/') :
    readPort scheme host ((port.map fun value => ':' :: Nat.toDigits 10 value).getD [] ++
      path.toList) = some ⟨scheme, some host, port, if path = "" then "/" else path⟩ := by
  cases port with
  | none =>
    rw [Option.map_none, Option.getD_none, List.nil_append]
    have hread := readPath_toList h
    have hrest : ∀ text, path.toList ≠ ':' :: text := by
      rcases path_cases h with hpath | ⟨text, hpath⟩
      · simp [hpath]
      · simp [hpath]
    rw [readPort, hread]
    · rfl
    · exact hrest
  | some value =>
    obtain ⟨htake, hdrop⟩ := takeWhile_digits value h
    rw [Option.map_some, Option.getD_some, List.cons_append, readPort, htake, hdrop,
      readPath_toList h, Str.parseDigits_toDigits]
    rfl

/-- A mark or nothing follows a host. -/
theorem isMark_head (h : ∀ c ∈ path.toList.head?, c = '/') :
    ∀ c ∈ ((port.map fun value => ':' :: Nat.toDigits 10 value).getD [] ++ path.toList).head?,
      (!isMark c) = false := by
  intro c hc
  rcases head_port_append h hc with rfl | rfl <;> decide

theorem not_isMark_of_dnsName (h : DnsName host) : ∀ c ∈ host.toList, (!isMark c) = true := by
  intro c hc
  have hcolon : c ≠ ':' := by
    rintro rfl
    exact h.notMem (by decide) (by decide) hc
  have hslash : c ≠ '/' := by
    rintro rfl
    exact h.notMem (by decide) (by decide) hc
  simp [isMark, hcolon, hslash]

/-- The text up to the first mark is the scheme. -/
theorem readUrl_of_toList {text : String} (htext : text.toList = scheme.toList ++ rest)
    (hscheme : ∀ c ∈ scheme.toList, (!isMark c) = true)
    (hrest : ∀ c ∈ rest.head?, (!isMark c) = false) :
    readUrl text = readRest scheme rest := by
  obtain ⟨htake, hdrop⟩ := Str.takeWhile_append_of_head hscheme hrest
  rw [readUrl, htext, htake, hdrop, String.ofList_toList]

theorem readPort_eq_some (h : readPort scheme host rest = some url) :
    url.hostStr = some host ∧ ∀ c ∈ url.path.toList.head?, c = '/' := by
  unfold readPort at h
  split at h
  · obtain ⟨path, hpath, rfl⟩ := Option.map_eq_some_iff.1 h
    exact ⟨rfl, slash_readPath hpath⟩
  · obtain ⟨path, hpath, rfl⟩ := Option.map_eq_some_iff.1 h
    exact ⟨rfl, slash_readPath hpath⟩

/-- A host that is read is the text up to a mark, or an IPv4 address. -/
theorem readRest_eq_some (h : readRest scheme rest = some url) : ∃ host, url.hostStr = some host ∧
    (∀ c ∈ host.toList, isMark c = false) ∧ ∀ c ∈ url.path.toList.head?, c = '/' := by
  unfold readRest at h
  split at h
  · rename_i text
    split_ifs at h
    · obtain ⟨hhost, hpath⟩ := readPort_eq_some h
      refine ⟨_, hhost, fun c hc => ?_, hpath⟩
      rw [String.toList_ofList] at hc
      simpa using List.mem_takeWhile_imp hc
  · split_ifs at h
    · obtain ⟨value, -, h⟩ := Option.bind_eq_some_iff.1 h
      obtain ⟨path, hpath, rfl⟩ := Option.map_eq_some_iff.1 h
      refine ⟨_, rfl, fun c hc => ?_, slash_readPath hpath⟩
      rw [isMark, Bool.or_eq_false_iff, beq_eq_false_iff_ne, beq_eq_false_iff_ne]
      constructor
      · rintro rfl
        exact notMem_numberHost value (by decide) (by decide) hc
      · rintro rfl
        exact notMem_numberHost value (by decide) (by decide) hc
  · cases h

/-- A digit after the colon leaves the number to the scheme. -/
theorem readRest_number (value : ℕ) : readRest scheme (':' :: (Nat.toDigits 10 value ++ rest)) =
    if scheme ∈ specialSchemes then readNumber scheme (Nat.toDigits 10 value ++ rest) else none := by
  obtain ⟨c, digits, hdigits, hc⟩ := toDigits_eq_cons value
  rw [hdigits, List.cons_append, readRest]
  intro text htext
  exact hc (List.cons.inj htext).1

/-- What the laws ask of the library holds of the reader. -/
theorem urlLibrary_readUrl : UrlLibrary readUrl := by
  refine ⟨?server, ?bare, ?number, ?host, ?https⟩
  case server =>
    intro url
    have hmarks : ∀ scheme ∈ ["ws", "wss", "http", "https"],
        scheme.toList.all (fun c => !isMark c) = true := by
      decide
    have htext : url.text.toList = url.scheme.toList ++ (':' :: '/' :: '/' ::
        (url.host.toList ++ ((url.port.map fun value => ':' :: Nat.toDigits 10 value).getD [] ++
          url.path.toList))) := by
      rw [ServerUrl.text, String.toList_append, String.toList_append, String.toList_append,
        toList_serverText, List.append_assoc, List.append_assoc]
      rfl
    obtain ⟨htake, hdrop⟩ := Str.takeWhile_append_of_head (not_isMark_of_dnsName url.isHost)
      (@isMark_head url.path url.port url.isPath.slash)
    rw [readUrl_of_toList htext (List.all_eq_true.1 (hmarks _ url.isScheme))
      (fun c hc => by cases Option.some.inj hc; decide), readRest, if_pos url.isScheme, htake,
      hdrop, String.ofList_toList, readPort_append url.isPath.slash]
    rfl
  case bare =>
    intro host port path hhost hpath hspecial url hread
    have htext : (serverText host port ++ path).toList = host.toList ++
        ((port.map fun value => ':' :: Nat.toDigits 10 value).getD [] ++ path.toList) := by
      rw [String.toList_append, toList_serverText, List.append_assoc]
    rw [readUrl_of_toList htext (not_isMark_of_dnsName hhost) (isMark_head hpath.slash)] at hread
    cases port with
    | none =>
      rw [Option.map_none, Option.getD_none, List.nil_append] at hread
      rcases path_cases hpath.slash with hchars | ⟨text, hchars⟩
      · rw [hchars] at hread
        cases hread
      · rw [hchars] at hread
        cases hread
    | some value =>
      have hnot : host ∉ specialSchemes := fun hmem => hspecial ⟨rfl, hmem⟩
      rw [Option.map_some, Option.getD_some, List.cons_append, readRest_number, if_neg hnot] at hread
      cases hread
  case number =>
    intro special hspecial value _ path hpath
    have hmarks : ∀ scheme ∈ specialSchemes,
        scheme.toList.all (fun c => !isMark c) = true := by
      decide
    have htext : (serverText special (some value) ++ path).toList = special.toList ++
        (':' :: (Nat.toDigits 10 value ++ path.toList)) := by
      rw [String.toList_append, toList_serverText, List.append_assoc]
      rfl
    obtain ⟨htake, hdrop⟩ := takeWhile_digits value hpath.slash
    refine ⟨⟨special, some (numberHost value), none, if path = "" then "/" else path⟩, ?_, rfl⟩
    rw [readUrl_of_toList htext (List.all_eq_true.1 (hmarks _ hspecial))
      (fun c hc => by cases Option.some.inj hc; decide),
      readRest_number, if_pos hspecial, readNumber, htake, hdrop, Str.parseDigits_toDigits,
      readPath_toList hpath.slash]
    rfl
  case host =>
    intro text url host hread hhost
    obtain ⟨found, hfound, hmarks, hpath⟩ := readRest_eq_some hread
    obtain rfl : host = found := Option.some.inj (hhost.symm.trans hfound)
    refine ⟨⟨fun hslash => ?_, fun hcolon => ?_⟩, hpath⟩
    · exact absurd (hmarks _ hslash) (by decide)
    · exact absurd (hmarks _ hcolon) (by decide)
  case https =>
    intro text url hread
    obtain ⟨host, hhost, -⟩ := readRest_eq_some hread
    rw [hhost]
    rfl

end Reader

/-! ### The laws -/

section Laws

variable (parseUrl : String → Option Url) (url : ServerUrl) (a : RepoAnnouncement)

/-- The normal form is its own, keeps the host and the port and is that of its relay URL; and an
announcement that lists the server has a relay with its host and port. -/
structure Laws : Prop where
  normal : ∃ normalized, normalizeGraspServerUrl parseUrl url.text = .ok normalized ∧
    normalizeGraspServerUrl parseUrl normalized = .ok normalized ∧ url.KeptIn normalized ∧
      url.HasRelay parseUrl normalized
  listed : a.listsGraspHost parseUrl url.text = .ok true →
    ∃ relay ∈ a.relays, ReadsAs parseUrl relay url.host url.port

/-- The host has no `npub1` and is not taken for a scheme, the rest of the path has no `http://`, and a
server without a port and a path is not listed through a disguised relay only. -/
structure Safe : Prop where
  host : url.Unmarked
  scheme : url.NotScheme
  path : url.PlainPath
  relays : url.port = none → shorten url.path = "" →
    (∃ relay ∈ a.relays, url.Disguised parseUrl relay) →
      ∃ relay ∈ a.relays, ReadsAs parseUrl relay url.host url.port

variable {parseUrl url a}

/-- The URLs and announcements for which the three functions keep to the server. -/
theorem laws_iff (hlib : UrlLibrary parseUrl) : Laws parseUrl url a ↔ Safe parseUrl url a := by
  constructor
  · rintro ⟨⟨normalized, hnormalized, hsame, hkept, hrelay⟩, hlisted⟩
    have hhost : url.Unmarked := by
      by_contra hmarked
      exact url.not_keptIn_of_marked hlib hmarked hnormalized hkept
    obtain rfl : normalized = url.normal :=
      Except.ok.inj (hnormalized.symm.trans (url.normalize_text hlib hhost))
    refine ⟨hhost, (url.normalize_normal_iff hlib hhost).1 hsame,
      (url.hasRelay_iff hlib hhost).1 hrelay, ?_⟩
    rintro hport hpath ⟨relay, hmem, hdisguised⟩
    refine hlisted (listsGraspHost_eq_true.2 ⟨_, url.compare_text hlib hhost, relay, hmem, ?_⟩)
    exact url.compare_of_disguised hlib hhost hport hpath hdisguised
  · rintro ⟨hhost, hscheme, hpath, hrelays⟩
    refine ⟨⟨url.normal, url.normalize_text hlib hhost, ?_, url.keptIn_normal, ?_⟩, ?_⟩
    · exact (url.normalize_normal_iff hlib hhost).2 hscheme
    · exact (url.hasRelay_iff hlib hhost).2 hpath
    · intro hlists
      obtain ⟨text, htext, relay, hmem, hcompare⟩ := listsGraspHost_eq_true.1 hlists
      obtain rfl : text = _ := Except.ok.inj (htext.symm.trans (url.compare_text hlib hhost))
      rcases url.readsAs_of_compare hlib hcompare with hreads | ⟨hport, hempty, hdisguised⟩
      · exact ⟨relay, hmem, hreads⟩
      · exact hrelays hport hempty ⟨relay, hmem, hdisguised⟩

end Laws

/-- A server without a port and a path. -/
def sampleServer : ServerUrl where
  scheme := "https"
  host := "git.example"
  port := none
  path := ""
  isScheme := by decide
  isHost := ⟨["git".toList], "example".toList, rfl, by
    intro label hlabel
    cases List.mem_singleton.1 hlabel
    exact ⟨by decide, List.all_iff_forall_prop.1 (by decide), by decide, by decide⟩,
    ⟨by decide, List.all_iff_forall_prop.1 (by decide), by decide, by decide⟩, by
      rintro (hdigits | ⟨digits, hzero, -⟩)
      · exact absurd (hdigits 'e' (by decide)) (by decide)
      · exact absurd (Option.some.inj (congrArg List.head? hzero) : 'e' = '0') (by decide)⟩
  isPort := nofun
  isPath := ⟨nofun, nofun⟩

/-- An announcement with the given relays. -/
def sampleListing (relays : List String) : RepoAnnouncement where
  identifier := "repo"
  name := none
  description := none
  rootCommit := none
  clone := []
  web := []
  relays
  blossoms := []
  hashtags := []
  maintainers := []

theorem laws_sampleServer : Laws readUrl sampleServer
    (sampleListing ["wss://git.examplenpub1.evil", "wss://git.example"]) :=
  (laws_iff urlLibrary_readUrl).2
    { host := by
        rw [ServerUrl.Unmarked]
        decide
      scheme := fun h => absurd h.1 (by decide)
      path := by
        rw [ServerUrl.PlainPath]
        decide
      relays := fun _ _ _ => ⟨"wss://git.example", by decide,
        ⟨"wss", some "git.example", none, "/"⟩, by decide +kernel, rfl, rfl⟩ }

/-- A relay on another host is taken for the server. -/
theorem not_laws_sampleServer : UrlLibrary readUrl ∧
    ¬ Laws readUrl sampleServer (sampleListing ["wss://git.examplenpub1.evil"]) := by
  refine ⟨urlLibrary_readUrl, fun h => ?_⟩
  have hlists : (sampleListing ["wss://git.examplenpub1.evil"]).listsGraspHost readUrl
      sampleServer.text = .ok true := by
    decide +kernel
  obtain ⟨relay, hrelay, url, hurl, hhost, -⟩ := h.listed hlists
  obtain rfl : relay = "wss://git.examplenpub1.evil" := List.mem_singleton.1 hrelay
  have hread : parseServerUrl readUrl "wss://git.examplenpub1.evil" =
      .ok ⟨"wss", some "git.examplenpub1.evil", none, "/"⟩ := by
    decide +kernel
  cases Except.ok.inj (hread.symm.trans hurl)
  exact absurd hhost (by decide)

end Grasp
end Gittree
