import Mathlib.Data.Bool.AllAny
import Gittree.Services.Control
import Gittree.Services.Coordinator
import Gittree.Services.GitRoutes

/-!
# One identity from announcement to push

A repository passes four services: the control service asks for a clone URL in its announcement, the
coordinator stores the announcement and a mapping and provisions a directory, and the git server
reads the key and the identifier off the path of a request.  Each reads the names in its own way.

* `plain_of_receivePack`, `receivePack_of_plain`: the clone URLs that lead to a push for the
  identifier;
* `keepsIdentity_iff`: the announcements for which all four agree.
-/

namespace Gittree

open Rust

/-! ### The path of a clone URL -/

/-- The character ends the host of a URL. -/
def endsHost (c : Char) : Bool := c == '/' || c == '?' || c == '#'

/-- The character ends the path of a URL. -/
def endsPath (c : Char) : Bool := c == '?' || c == '#'

/-- What follows the scheme and the host in the text of a URL. -/
def afterHost (url : String) : List Char :=
  match Str.splitAtFirst "://".toList (Str.chars url) with
  | some (_, found) => (found.drop 3).dropWhile fun c => !endsHost c
  | none => []

/-- The path of a URL, taken verbatim from its text. -/
def urlPath (url : String) : String :=
  String.ofList ((afterHost url).takeWhile fun c => !endsPath c)

/-- What the clone URLs of a normalised server start with. -/
def cloneBase (server : String) : String :=
  (if Str.contains server "http://" then "" else "https://") ++ server

theorem formatGraspServerUrlAsCloneUrl_eq_ok {b : Bech32} {parseUrl : String → Option Url}
    {graspServer npub identifier url : String} :
    formatGraspServerUrlAsCloneUrl b parseUrl graspServer npub identifier = .ok url ↔
      (∃ data, b.decode npub = some ("npub", data)) ∧
        ∃ server, normalizeGraspServerUrl parseUrl graspServer = .ok server ∧
          cloneBase server ++ "/" ++ npub ++ "/" ++ identifier ++ ".git" = url := by
  unfold formatGraspServerUrlAsCloneUrl cloneBase
  simp only [Result.bind_eq_ok, Result.pure_eq_ok]
  constructor
  · rintro ⟨_, hnpub, server, hserver, rfl⟩
    exact ⟨validateNpub_eq_ok.1 hnpub, server, hserver, rfl⟩
  · rintro ⟨hnpub, server, hserver, rfl⟩
    exact ⟨(), validateNpub_eq_ok.2 hnpub, server, hserver, rfl⟩

/-- A normalised server mentions no `npub` and does not end in a slash. -/
theorem normalizeGraspServerUrl_eq_ok {parseUrl : String → Option Url} {input server : String}
    (h : normalizeGraspServerUrl parseUrl input = .ok server) :
    ¬ "npub1".toList <:+: server.toList ∧ server.toList.getLast? ≠ some '/' := by
  unfold normalizeGraspServerUrl at h
  obtain ⟨parsed, -, h⟩ := Result.bind_eq_ok.1 h
  rw [← Result.pure_eq_ok.1 h]
  generalize (if parsed.scheme = "ws" ∨ parsed.scheme = "http" then _ else _) = normalized
  constructor
  · intro hinside
    have htruncated := hinside.trans (Str.trimEndMatches_prefix _ _).isInfix
    obtain ⟨a, b, hab⟩ := htruncated
    rcases hsplit : Str.splitAtFirst "npub1".toList (Str.chars normalized) with _ | ⟨before, found⟩
    · rw [hsplit] at hab
      rw [Str.chars_eq_toList] at hsplit
      exact Str.splitAtFirst_eq_none_iff.1 hsplit a b hab.symm
    · rw [hsplit] at hab
      simp only [String.toList_ofList] at hab
      exact Str.splitAtFirst_eq_none_iff.1 (Str.splitAtFirst_before (by decide) hsplit) a b hab.symm
  · refine Str.trimEndMatches_eq_self_iff.1 ?_
    unfold Str.trimEndMatches
    rw [Str.chars_eq_toList (String.ofList _), String.toList_ofList, List.rdropWhile_idempotent]

/-- The scheme of a clone URL ends before or in its server. -/
theorem exists_split_cloneBase (server : String) : ∃ scheme found,
    Str.splitAtFirst "://".toList (Str.chars (cloneBase server)) = some (scheme, found) ∧
      3 ≤ found.length ∧ found.drop 3 <:+ server.toList := by
  unfold cloneBase
  rw [Str.chars_eq_toList]
  by_cases hhttp : Str.contains server "http://" = true
  · rw [if_pos hhttp, String.empty_append]
    obtain ⟨a, b, hab⟩ := Str.contains_iff.1 hhttp
    rcases hsplit : Str.splitAtFirst "://".toList server.toList with _ | ⟨scheme, found⟩
    · exfalso
      refine Str.splitAtFirst_eq_none_iff.1 hsplit (a.toList ++ "http".toList) b.toList ?_
      rw [hab, String.toList_append, String.toList_append,
        show "http://".toList = "http".toList ++ "://".toList by decide]
      simp only [List.append_assoc]
    · obtain ⟨heq, hpre⟩ := Str.splitAtFirst_append hsplit
      refine ⟨scheme, found, rfl, hpre.length_le, ?_⟩
      rw [heq]
      exact (List.drop_suffix 3 found).trans (List.suffix_append _ _)
  · rw [if_neg hhttp, String.toList_append]
    have hscheme : Str.splitAtFirst "://".toList "https://".toList =
        some ("https".toList, "://".toList) := by decide
    refine ⟨_, _, Str.splitAtFirst_append_right _ hscheme, ?_, List.suffix_refl _⟩
    rw [List.length_append]
    exact Nat.le_add_right 3 _

theorem afterHost_cloneBase (server : String) : afterHost (cloneBase server) <:+ server.toList := by
  obtain ⟨scheme, found, hsplit, -, hsuffix⟩ := exists_split_cloneBase server
  unfold afterHost
  rw [hsplit]
  exact (List.dropWhile_suffix _).trans hsuffix

/-- What follows the host of a longer URL. -/
theorem afterHost_append (server rest : String) : afterHost (cloneBase server ++ rest) =
    if afterHost (cloneBase server) = [] then rest.toList.dropWhile fun c => !endsHost c
    else afterHost (cloneBase server) ++ rest.toList := by
  obtain ⟨scheme, found, hsplit, hlen, -⟩ := exists_split_cloneBase server
  have hlonger : Str.splitAtFirst "://".toList (Str.chars (cloneBase server ++ rest)) =
      some (scheme, found ++ rest.toList) := by
    rw [Str.chars_eq_toList] at hsplit ⊢
    rw [String.toList_append]
    exact Str.splitAtFirst_append_right _ hsplit
  unfold afterHost
  rw [hlonger, hsplit]
  simp only
  rw [List.drop_append_of_le_length hlen, List.dropWhile_append]
  simp only [List.isEmpty_iff]

/-- The path of a clone URL of a server without one. -/
theorem urlPath_clone {server npub : String} (hhost : afterHost (cloneBase server) = [])
    (hnpub : ∀ c ∈ npub.toList, endsPath c = false) (name : String) :
    urlPath (cloneBase server ++ ("/" ++ npub ++ "/" ++ name)) =
      "/" ++ npub ++ "/" ++ String.ofList (name.toList.takeWhile fun c => !endsPath c) := by
  have hkeep : ∀ l : List Char, (∀ c ∈ l, endsPath c = false) → ∀ r : List Char,
      (l ++ r).takeWhile (fun c => !endsPath c) = l ++ r.takeWhile fun c => !endsPath c := by
    intro l hl r
    rw [List.takeWhile_append_of_pos]
    intro c hc
    rw [hl c hc, Bool.not_false]
  have hstart : ("/" ++ npub ++ "/" ++ name).toList =
      ("/" ++ npub ++ "/").toList ++ name.toList := String.toList_append
  have hhead : ∀ r : List Char, (("/" ++ npub ++ "/").toList ++ r).dropWhile
      (fun c => !endsHost c) = ("/" ++ npub ++ "/").toList ++ r := by
    intro r
    rw [String.toList_append, String.toList_append]
    rfl
  unfold urlPath
  rw [afterHost_append, if_pos hhost, hstart, hhead, hkeep, String.ofList_append,
    String.ofList_toList]
  intro c hc
  simp only [String.toList_append, List.mem_append] at hc
  rcases hc with (hc | hc) | hc
  · rw [List.mem_singleton.1 hc]
    rfl
  · exact hnpub c hc
  · rw [List.mem_singleton.1 hc]
    rfl

/-- Only slashes make no segment. -/
theorem eq_slash_of_pathSegments_eq_nil {path : String} (h : pathSegments path = []) :
    ∀ c ∈ path.toList, c = '/' := by
  rw [pathSegments_eq] at h
  unfold Str.split at h
  rw [Str.chars_eq_toList] at h
  generalize path.toList = l at h
  induction l with
  | nil => exact fun c hc => absurd hc List.not_mem_nil
  | cons c l ih =>
    by_cases hc : c = '/'
    · subst hc
      rw [← List.nil_append ('/' :: l), List.splitOn_append_cons_self, List.map_append,
        List.filter_append] at h
      intro d hd
      rcases List.mem_cons.1 hd with rfl | hd
      · rfl
      · exact ih (List.append_eq_nil_iff.1 h).2 d hd
    · -- the first segment is not empty
      obtain ⟨first, rest, hsplit⟩ := List.exists_cons_of_ne_nil (List.splitOn_ne_nil '/' l)
      rw [List.splitOn_cons_eq_if_modifyHead, if_neg (by simpa using hc), hsplit,
        List.modifyHead_cons, List.map_cons, List.filter_cons_of_pos] at h
      · cases h
      · simp

/-- An identifier that the path of a clone URL and `.git` do not change. -/
structure Plain (identifier : String) : Prop where
  suffix : Str.endsWith identifier ".git" = false
  chars : ∀ c ∈ identifier.toList, endsHost c = false

theorem Plain.slash {identifier : String} (h : Plain identifier) : '/' ∉ identifier.toList := by
  intro hmem
  have hslash := h.chars _ hmem
  cases hslash

theorem endsHost_eq_false {c : Char} : endsHost c = false ↔ c ≠ '/' ∧ endsPath c = false := by
  simp [endsHost, endsPath, and_assoc]

theorem endsPath_of_alphanumeric {c : Char} (h : Str.isAsciiAlphanumeric c = true) :
    endsPath c = false := by
  rw [← Bool.not_eq_true]
  intro hc
  simp only [endsPath, Bool.or_eq_true, beq_iff_eq] at hc
  rcases hc with rfl | rfl
  · cases h
  · cases h

section Routes

variable {b : Bech32} {parseUrl : String → Option Url} {graspServer server npub identifier : String}
  {repo : NormalizedRepo} {data : List UInt8}

theorem endsPath_of_decode (hb : b.Lawful "npub" 32) (h : b.decode npub = some ("npub", data)) :
    ∀ c ∈ npub.toList, endsPath c = false := by
  have hmark : ∀ c ∈ ("npub" ++ "1").toList, endsPath c = false :=
    List.all_iff_forall_prop.1 (by decide)
  obtain ⟨rest, rfl, hrest⟩ := hb.form _ _ h
  intro c hc
  rw [String.toList_append, List.mem_append] at hc
  rcases hc with hc | hc
  · exact hmark c hc
  · exact endsPath_of_alphanumeric (hrest c hc)

/-- The path of a request to push to a clone URL. -/
theorem pathSegments_push (path : String) :
    pathSegments (path ++ "/git-receive-pack") = pathSegments path ++ ["git-receive-pack"] := by
  have hservice : pathSegments "git-receive-pack" = ["git-receive-pack"] :=
    pathSegments_of_notMem (by decide) (by decide)
  rw [show path ++ "/git-receive-pack" = path ++ "/" ++ "git-receive-pack" by
    rw [String.append_assoc]
    rfl, pathSegments_append, hservice]

/-- A request to push is routed by the `npub` and the name before the service. -/
theorem segments_of_receivePack (hb : b.Lawful "npub" 32) {path : String}
    (h : routeRequest b ⟨"POST", path ++ "/git-receive-pack", none⟩ = .receivePack repo) :
    ∃ n, pathSegments path = [n, repo.identifier ++ ".git"] ∧ "npub1".toList <:+: n.toList := by
  obtain ⟨n, name, hsegments, hgit, hrepo⟩ := routeRequest_receivePack_iff.1 h
  rw [pathSegments_push] at hsegments
  have hpath : pathSegments path = [n, name] :=
    List.append_cancel_right hsegments
  obtain ⟨stem, rfl⟩ := Str.endsWith_iff.1 hgit
  have hmem : ∀ segment ∈ [n, stem ++ ".git"], '/' ∉ segment.toList := by
    intro segment hsegment
    exact (of_mem_pathSegments (hpath ▸ hsegment)).1
  have hn := hmem n List.mem_cons_self
  have hstem : '/' ∉ stem.toList := by
    intro hslash
    refine hmem (stem ++ ".git") (List.mem_cons_of_mem _ List.mem_cons_self) ?_
    rw [String.toList_append]
    exact List.mem_append_left _ hslash
  obtain ⟨-, key, hkey, rfl⟩ := (normalizeRepoPath_segments hb hn hstem).1 hrepo
  obtain ⟨data, hdecode, -⟩ := decodeNpubPubkey_eq_ok.1 hkey
  obtain ⟨rest, rfl, -⟩ := hb.form _ _ hdecode
  refine ⟨_, hpath, ?_⟩
  rw [String.toList_append]
  exact (List.prefix_append _ _).isInfix

/-- A clone URL that leads to a push for the identifier is one of a server without a path, and the
identifier is plain. -/
theorem plain_of_receivePack (hb : b.Lawful "npub" 32)
    (hserver : normalizeGraspServerUrl parseUrl graspServer = .ok server)
    (hdecode : b.decode npub = some ("npub", data))
    (h : routeRequest b ⟨"POST", urlPath (cloneBase server ++ ("/" ++ npub ++ "/" ++
      (normalizeIdentifier identifier ++ ".git"))) ++ "/git-receive-pack", none⟩ =
        .receivePack repo) (hidentifier : repo.identifier = identifier) :
    afterHost (cloneBase server) = [] ∧ Plain identifier := by
  obtain ⟨n, hsegments, hn⟩ := segments_of_receivePack hb h
  rw [hidentifier] at hsegments
  obtain ⟨hnpub, hlast⟩ := normalizeGraspServerUrl_eq_ok hserver
  -- no segment is taken from the server, which mentions no `npub`
  have hforeign : ∀ l : List Char, l <:+: server.toList →
      ∀ rest, pathSegments (String.ofList l) ++ rest = [n, identifier ++ ".git"] →
        pathSegments (String.ofList l) = [] := by
    intro l hl rest heq
    rcases hhead : pathSegments (String.ofList l) with _ | ⟨first, others⟩
    · rfl
    · rw [hhead, List.cons_append] at heq
      obtain ⟨rfl, -⟩ := List.cons.inj heq
      have hmem : first ∈ pathSegments (String.ofList l) := by
        rw [hhead]
        exact List.mem_cons_self
      have hinside := (of_mem_pathSegments hmem).2.2
      rw [String.toList_ofList] at hinside
      exact absurd (hn.trans (hinside.trans hl)) hnpub
  have hhost : afterHost (cloneBase server) = [] := by
    by_contra hne
    have hsuffix := afterHost_cloneBase server
    unfold urlPath at hsegments
    rw [afterHost_append, if_neg hne] at hsegments
    by_cases hall : ∀ c ∈ afterHost (cloneBase server), endsPath c = false
    · rw [List.takeWhile_append_of_pos (fun c hc => by rw [hall c hc, Bool.not_false]),
        String.ofList_append] at hsegments
      have hslash : ("/" ++ npub ++ "/" ++ (normalizeIdentifier identifier ++ ".git")).toList =
          '/' :: (npub ++ "/" ++ (normalizeIdentifier identifier ++ ".git")).toList := by
        simp only [String.toList_append]
        rfl
      rw [hslash, List.takeWhile_cons_of_pos (by rfl), ← List.singleton_append,
        String.ofList_append, ← String.append_assoc] at hsegments
      have hsplit := hsegments
      rw [show String.ofList ['/'] = "/" from rfl, pathSegments_append] at hsplit
      have hempty := hforeign _ hsuffix.isInfix _ hsplit
      -- the server ends in a slash
      obtain ⟨before, c, hend⟩ := (List.eq_nil_or_concat' _).resolve_left hne
      have hc : c = '/' := by
        refine eq_slash_of_pathSegments_eq_nil hempty c ?_
        rw [String.toList_ofList, hend]
        exact List.mem_append_right _ List.mem_cons_self
      obtain ⟨front, hfront⟩ := hsuffix
      apply hlast
      rw [← hfront, hend, hc, ← List.append_assoc, List.getLast?_concat]
    · have hstop : (afterHost (cloneBase server) ++ ("/" ++ npub ++ "/" ++
          (normalizeIdentifier identifier ++ ".git")).toList).takeWhile (fun c => !endsPath c) =
          (afterHost (cloneBase server)).takeWhile fun c => !endsPath c := by
        rw [List.takeWhile_append, if_neg]
        intro hlen
        apply hall
        intro c hc
        have heq := (List.takeWhile_prefix (l := afterHost (cloneBase server))
          fun c => !endsPath c).eq_of_length hlen
        rw [← heq] at hc
        simpa using List.mem_takeWhile_imp hc
      rw [hstop] at hsegments
      have hempty := hforeign _ ((List.takeWhile_prefix _).isInfix.trans hsuffix.isInfix) []
        (by rw [List.append_nil, hsegments])
      rw [hempty] at hsegments
      cases hsegments
  refine ⟨hhost, ?_⟩
  obtain ⟨hslash, hempty, -, -⟩ := isNormal_of_decode hb hdecode
  rw [urlPath_clone hhost (endsPath_of_decode hb hdecode), pathSegments_append, pathSegments_slash,
    pathSegments_of_notMem hslash hempty, List.singleton_append] at hsegments
  have hname := (List.cons.inj hsegments).2
  generalize hcut : (normalizeIdentifier identifier ++ ".git").toList.takeWhile
    (fun c => !endsPath c) = cut at hname
  have hmem : identifier ++ ".git" ∈ pathSegments (String.ofList cut) := by
    rw [hname]
    exact List.mem_cons_self
  obtain ⟨hnot, -, hinside⟩ := of_mem_pathSegments hmem
  rw [String.toList_ofList, ← hcut] at hinside
  constructor
  · -- the name of an identifier without its suffix is shorter
    rw [← Bool.not_eq_true]
    intro hgit
    obtain ⟨stem, rfl⟩ := Str.endsWith_iff.1 hgit
    rw [normalizeIdentifier, withoutGitSuffix_append] at hinside
    have hlen := hinside.length_le.trans (List.takeWhile_prefix _).length_le
    simp only [String.toList_append, List.length_append] at hlen
    have hfour : ".git".toList.length = 4 := by decide
    omega
  · intro c hc
    have hin : c ∈ (identifier ++ ".git").toList := by
      rw [String.toList_append]
      exact List.mem_append_left _ hc
    rw [endsHost_eq_false]
    refine ⟨?_, ?_⟩
    · rintro rfl
      exact hnot hin
    · simpa using List.mem_takeWhile_imp (hinside.subset hin)

/-- A plain identifier of a key with a server without a path leads to a push for them. -/
theorem receivePack_of_plain (hb : b.Lawful "npub" 32)
    (hhost : afterHost (cloneBase server) = []) (hplain : Plain identifier)
    (hblank : Str.trim identifier ≠ "") (hdecode : b.decode npub = some ("npub", data))
    (hlength : data.length = 32) :
    routeRequest b ⟨"POST", urlPath (cloneBase server ++ ("/" ++ npub ++ "/" ++
      (normalizeIdentifier identifier ++ ".git"))) ++ "/git-receive-pack", none⟩ =
        .receivePack ⟨npub, identifier, "/" ++ npub ++ "/" ++ identifier ++ ".git",
          Hex.encode data⟩ := by
  obtain ⟨hslash, hempty, -, -⟩ := isNormal_of_decode hb hdecode
  have hsame : normalizeIdentifier identifier = identifier := by
    rw [normalizeIdentifier, withoutGitSuffix, Str.stripSuffix_eq_none.2 hplain.suffix,
      Option.getD_none]
  have hsuffix : ∀ c ∈ ".git".toList, endsHost c = false := List.all_iff_forall_prop.1 (by decide)
  have hchars : ∀ c ∈ (identifier ++ ".git").toList, endsHost c = false := by
    intro c hc
    rw [String.toList_append, List.mem_append] at hc
    rcases hc with hc | hc
    · exact hplain.chars c hc
    · exact hsuffix c hc
  have hname : '/' ∉ (identifier ++ ".git").toList := by
    intro hmem
    exact (endsHost_eq_false.1 (hchars _ hmem)).1 rfl
  have hfirst : '/' ∉ identifier.toList := by
    intro hmem
    exact (endsHost_eq_false.1 (hplain.chars _ hmem)).1 rfl
  refine routeRequest_receivePack_iff.2 ⟨npub, identifier ++ ".git", ?_,
    Str.endsWith_iff.2 ⟨_, rfl⟩,
    (normalizeRepoPath_segments hb hslash hfirst).2 ⟨hblank, Hex.encode data, ?_, rfl⟩⟩
  · rw [pathSegments_push, urlPath_clone hhost (endsPath_of_decode hb hdecode), hsame,
      List.takeWhile_eq_self_iff.2, String.ofList_toList, pathSegments_append, pathSegments_slash,
      pathSegments_of_notMem hslash hempty, pathSegments_of_notMem hname]
    · rfl
    · exact (isNormal_git.2 hfirst).2.1
    · intro c hc
      rw [(endsHost_eq_false.1 (hchars c hc)).2, Bool.not_false]
  · exact decodeNpubPubkey_eq_ok.2 ⟨data, hdecode, hlength, rfl⟩

end Routes

/-! ### The four services -/

/-- The four services agree on the repository of an announcement whose job is finalised: a push to
the required clone URL is routed to a repository for which the mapping and the announcement that the
job stores are found, and the directory of the repository is read back as the same key and
identifier. -/
def KeepsIdentity (env : ServiceEnv) (config : ControlConfig) (event : NostrEvent)
    (a : RepoAnnouncement) (job : RelayPublishJob) (w t : World) : Prop :=
  ∃ npub url repo record key action path parsed,
    npubFromHex env.host.bech32 event.pubkey = some npub ∧
    formatGraspServerUrlAsCloneUrl env.host.bech32 env.host.parseUrl config.publicGitUrl npub
      (normalizeIdentifier a.identifier) = .ok url ∧
    routeRequest env.host.bech32 ⟨"POST", urlPath url ++ "/git-receive-pack", none⟩ =
      .receivePack repo ∧
    RepoAnnouncementRecord.new (relayEventFromJob job).eventId (relayEventFromJob job).pubkey
      (relayEventFromJob job).createdAt a = .ok record ∧
    resolveMapping t.store.mappings repo =
      .ok ⟨job.forgejoOwner, job.forgejoRepo, record.pubkey, a.identifier⟩ ∧
    Hex.decode (Str.toAsciiLowercase repo.pubkey) = some key ∧
    t.store.announcements.latestAnnouncement key repo.identifier = some record ∧
    (handleAnnouncementEvent env.host env.root env.hooks (relayEventFromJob job) w.files).1 =
      .ok action ∧
    action.repoPath = some path ∧ parseRepoPath env.host.bech32 path = .ok parsed ∧
    parsed.pubkey = repo.pubkey ∧ parsed.identifier = repo.identifier

/-- The announcements for which they do: the identifier is plain, the git server has no path, the
first `npub` of the clone URLs is that of the key, and no newer announcement of the repository is
stored. -/
structure Unambiguous (env : ServiceEnv) (config : ControlConfig) (event : NostrEvent)
    (a : RepoAnnouncement) (key : List UInt8) (announcements : Announcements) : Prop where
  plain : Plain a.identifier
  server : ∃ server, normalizeGraspServerUrl env.host.parseUrl config.publicGitUrl = .ok server ∧
    afterHost (cloneBase server) = []
  first : ∃ npub, firstNpub env.host.bech32 a.clone = some npub ∧
    env.host.bech32.decode npub = some ("npub", key)
  newest : ∀ old ∈ announcements.listAnnouncements key a.identifier, old.createdAt ≤ event.createdAt

theorem clone_assoc (server npub name : String) :
    server ++ "/" ++ npub ++ "/" ++ name ++ ".git" =
      server ++ ("/" ++ npub ++ "/" ++ (name ++ ".git")) := by
  simp only [String.append_assoc]

section Services

variable {env : ServiceEnv} {crypto : Crypto} {config : ControlConfig} {authPubkey : String}
  {event : NostrEvent} {valid : Control.ValidAnnouncement} {job : RelayPublishJob} {now : ℤ}
  {w t : World}

/-- The job of an accepted event is for the event. -/
structure JobOf (event : NostrEvent) (job : RelayPublishJob) : Prop where
  kind : job.kind = event.kind
  tags : job.tags = event.tags
  createdAt : job.createdAt = event.createdAt
  pubkey : Hex.decode event.pubkey = some job.pubkey
  key : Str.isHexLen event.pubkey 64 = true

theorem JobOf.of_eq {claimed : RelayPublishJob} (h : JobOf event job)
    (heq : claimed.toRelayPublishEntry = job.toRelayPublishEntry) : JobOf event claimed := by
  obtain ⟨hkind, htags, hcreated, hpubkey, hkey⟩ := h
  rw [← heq] at hkind htags hcreated hpubkey
  exact ⟨hkind, htags, hcreated, hpubkey, hkey⟩

theorem jobOf_publishRequest {owner repo identifier relayUrl : String}
    (h : (Control.publishRequest event owner repo identifier relayUrl).decode =
      .ok job.toRelayPublishEntry) : JobOf event job := by
  obtain ⟨-, ⟨hkey, hpubkey⟩, hcreated, hkind, htags, -⟩ := RelayPublishRequest.decode_eq_ok h
  exact ⟨hkind, htags, hcreated, hpubkey, hkey⟩

theorem le_of_latestAnnouncement {s : Announcements} {key : List UInt8} {identifier : String}
    {record old : RepoAnnouncementRecord} (h : s.latestAnnouncement key identifier = some record)
    (hold : old ∈ s.listAnnouncements key identifier) : old.createdAt ≤ record.createdAt :=
  @le_of_newest _ RepoAnnouncementRecord.createdAt _ _ _ h hold

/-- A plan that is carried out is answered with its path. -/
theorem repoPath_of_provision {host : Host} {hooks : HookInstallConfig} {plan : RepoProvisionPlan}
    {fs : FileSystem} {action : CoordinatorAction}
    (h : (provision host hooks plan fs).1 = .ok action) : action.repoPath = some plan.repoPath := by
  unfold provision at h
  split_ifs at h
  · cases h
    rfl
  · split at h
    · cases h
    · split at h
      · cases h
      · cases h
        rfl

/-- An announcement that is handled is answered with the path of its first `npub` and its
identifier. -/
theorem repoPath_of_handle {host : Host} {root : String} {hooks : HookInstallConfig}
    {event : RelayEvent} {a : RepoAnnouncement} {fs : FileSystem} {action : CoordinatorAction}
    (hkind : event.kind = kindGitRepoAnnouncement)
    (ha : RepoAnnouncement.fromTags event.tags = .ok a) (hvalid : a.Valid)
    (h : (handleAnnouncementEvent host root hooks event fs).1 = .ok action) :
    ∃ npub, firstNpub host.bech32 a.clone = some npub ∧
      action.repoPath = some (repoPathOf root npub a.identifier) := by
  unfold handleAnnouncementEvent at h
  split at h
  · cases h
  · -- an announcement is planned for
    rename_i hplan
    exfalso
    unfold planOf at hplan
    obtain ⟨parsed, hparsed, hplan⟩ := Result.bind_eq_ok.1 hplan
    rw [Result.mapError_eq_ok] at hparsed
    cases hparsed.symm.trans (Nip34Event.parseValidated_announcement.2 ⟨hkind, ha, hvalid⟩)
    obtain ⟨npub, -, hplan⟩ := Result.bind_eq_ok.1 hplan
    obtain ⟨plan, -, hplan⟩ := Result.bind_eq_ok.1 hplan
    cases Result.pure_eq_ok.1 hplan
  · rename_i plan hplan
    obtain ⟨a', npub, -, ha', -, hfirst, hbuild⟩ := planOf_eq_some hplan
    cases ha.symm.trans ha'
    exact ⟨npub, hfirst, by rw [repoPath_of_provision h, (buildProvisionPlan_eq_ok hbuild).1]⟩

/-- What finalising the job of an accepted announcement stores, and the directory it answers. -/
theorem finalized {a : RepoAnnouncement} (hjob : JobOf event job)
    (hkind : event.kind = kindGitRepoAnnouncement)
    (ha : RepoAnnouncement.fromTags event.tags = .ok a) (hvalid : a.Valid)
    (hfinal : (finalizeOutboxJob env job).run.run (handle env now) w = (.ok (), t)) :
    ∃ record action npub,
      RepoAnnouncementRecord.new (relayEventFromJob job).eventId (relayEventFromJob job).pubkey
        (relayEventFromJob job).createdAt a = .ok record ∧ record.pubkey = job.pubkey ∧
      t.store.announcements = w.store.announcements.insertAnnouncement record ∧
      t.store.mappings = w.store.mappings.upsertMapping
        ⟨job.forgejoOwner, job.forgejoRepo, record.pubkey, a.identifier⟩ ∧
      (handleAnnouncementEvent env.host env.root env.hooks (relayEventFromJob job) w.files).1 =
        .ok action ∧ firstNpub env.host.bech32 a.clone = some npub ∧
      action.repoPath = some (repoPathOf env.root npub a.identifier) := by
  have hevent : (relayEventFromJob job).kind = kindGitRepoAnnouncement := hjob.kind.trans hkind
  have htags : RepoAnnouncement.fromTags (relayEventFromJob job).tags = .ok a := by
    rw [← ha, ← hjob.tags]
    rfl
  have hparse : parseEvent env (relayEventFromJob job) = .ok (.repoAnnouncement a) :=
    Result.mapError_eq_ok.2 (Nip34Event.parseValidated_announcement.2 ⟨hevent, htags, hvalid⟩)
  obtain ⟨-, hprocessed⟩ := (post_finalizeOutboxJob job).of_ok hfinal
  obtain ⟨⟨record, hrecord, hstore⟩, action, haction⟩ := hprocessed a hparse
  have hpubkey : record.pubkey = job.pubkey := by
    have hkey := (RepoAnnouncementRecord.madeOf hrecord).pubkey
    rw [relayEventFromJob, Hex.decode_encode] at hkey
    exact (Option.some.inj hkey).symm
  obtain ⟨npub, hfirst, hpath⟩ := repoPath_of_handle hevent htags hvalid haction
  refine ⟨record, action, npub, hrecord, hpubkey, ?_, ?_, haction, hfirst, hpath⟩
  · rw [hstore]
  · rw [hstore]
    rfl

/-- The four services agree exactly on the unambiguous announcements. -/
theorem keepsIdentity_iff_of_job (hb : env.host.bech32.Lawful "npub" 32)
    (hvalid : Control.validateRepoAnnouncementEvent env.host crypto event authPubkey
      config.relayUrls config.publicGitUrl = .ok valid) (hjob : JobOf event job)
    (hfinal : (finalizeOutboxJob env job).run.run (handle env now) w = (.ok (), t)) :
    KeepsIdentity env config event valid.announcement job w t ↔
      Unambiguous env config event valid.announcement job.pubkey w.store.announcements := by
  have haccepts := Control.validateRepoAnnouncementEvent_eq_ok.1 hvalid
  have hblank := haccepts.wellFormed.identifier
  obtain ⟨record, action, npub, hrecord, hpubkey, hannouncements, hmappings, haction, hfirst,
      hpath⟩ :=
    finalized hjob haccepts.kind haccepts.announcement haccepts.wellFormed hfinal
  have hmade := RepoAnnouncementRecord.madeOf hrecord
  have hidentifier : record.identifier = valid.announcement.identifier := hmade.identifier
  have hcreated : record.createdAt = event.createdAt := hmade.createdAt.trans hjob.createdAt
  -- the signer's own `npub`
  obtain ⟨bytes, hbytes, hlength, hnpub⟩ := npubFromHex_of_isHexLen (b := env.host.bech32) hjob.key
  obtain rfl : job.pubkey = bytes := Option.some.inj (hjob.pubkey.symm.trans hbytes)
  have hdecode := hb.decode_encode job.pubkey hlength
  obtain ⟨cloneUrl, -, hextract⟩ := firstNpub_eq_some hfirst
  have hnormal := isNormal_of_extractNpub hextract
  constructor
  · rintro ⟨npub', url, repo, record', key, action', path, parsed, hnpub', hurl, hroute, hrecord',
      hmapping, hkey, hlatest, haction', hpath', hparsed, hparsedKey, hparsedId⟩
    cases hnpub.symm.trans hnpub'
    cases hrecord.symm.trans hrecord'
    cases haction.symm.trans haction'
    cases hpath.symm.trans hpath'
    obtain ⟨-, server, hserver, rfl⟩ := formatGraspServerUrlAsCloneUrl_eq_ok.1 hurl
    rw [Hex.decode_toAsciiLowercase] at hkey
    obtain ⟨key', hkey', hfound⟩ := resolveMapping_eq_ok.1 hmapping
    cases hkey.symm.trans hkey'
    obtain ⟨hrepoKey, hrepoId⟩ := Mappings.of_mappingByRepo hfound
    obtain rfl : job.pubkey = key := hpubkey.symm.trans hrepoKey
    rw [clone_assoc] at hroute
    obtain ⟨hhost, hplain⟩ := plain_of_receivePack hb hserver hdecode hroute hrepoId.symm
    refine ⟨hplain, ⟨server, hserver, hhost⟩, ⟨npub, hfirst, ?_⟩, ?_⟩
    · -- the directory is read back as the first `npub` of the clone URLs
      obtain ⟨root, name, hcomponents, -, -, hparsedNpub⟩ := parseRepoPath_eq_ok.1 hparsed
      rw [components_repoPathOf env.root hnormal hplain.slash] at hcomponents
      have hparent := (List.append_inj' (List.append_inj' hcomponents rfl).1 rfl).2
      cases Path.Component.normal.inj (List.singleton_inj.1 hparent)
      obtain ⟨bytes, hbytesDecode, -, hencode⟩ := decodeNpubPubkey_eq_ok.1 hparsedNpub
      rw [hparsedKey] at hencode
      rw [← hencode, Hex.decode_encode, Option.some.injEq] at hkey
      rw [hbytesDecode, hkey]
    · intro old hold
      rw [← hcreated]
      refine le_of_latestAnnouncement hlatest ?_
      rw [hannouncements, Announcements.listAnnouncements_insert,
        if_pos ⟨hpubkey, hidentifier.trans hrepoId⟩, ← hrepoId]
      exact List.mem_append_left _ hold
  · rintro ⟨hplain, ⟨server, hserver, hhost⟩, ⟨npub', hfirst', hdecode'⟩, hnewest⟩
    cases hfirst.symm.trans hfirst'
    have hroute := receivePack_of_plain hb hhost hplain hblank hdecode hlength
    rw [← clone_assoc] at hroute
    refine ⟨_, _, _, record, job.pubkey, action, _,
      ⟨npub, valid.announcement.identifier, Hex.encode job.pubkey⟩, hnpub,
      formatGraspServerUrlAsCloneUrl_eq_ok.2 ⟨⟨_, hdecode⟩, server, hserver, rfl⟩, hroute, hrecord,
      resolveMapping_eq_ok.2 ⟨job.pubkey, Hex.decode_encode _, ?_⟩, ?_, ?_, haction, hpath, ?_, rfl,
      rfl⟩
    · rw [hmappings, Mappings.mappingByRepo_upsert, if_pos ⟨hpubkey, rfl⟩]
    · rw [Hex.decode_toAsciiLowercase, Hex.decode_encode]
    · rw [hannouncements, ← hpubkey, ← hidentifier]
      refine Announcements.latestAnnouncement_insert fun old hold => ?_
      rw [hpubkey, hidentifier] at hold
      rw [hcreated]
      exact hnewest old hold
    · refine parseRepoPath_eq_ok.2 ⟨Path.components env.root, _,
        components_repoPathOf env.root hnormal hplain.slash, withoutGitSuffix_append _, hblank, ?_⟩
      exact decodeNpubPubkey_eq_ok.2 ⟨job.pubkey, hdecode', hlength, rfl⟩

/-- The new jobs after the creation of a repository are for its event. -/
theorem jobOf_of_created {isPrivate : Option Bool} {created : ℤ} {before : World}
    {entry : OutboxEntry}
    (hentry : entry ∈ ((Control.createRepoFromSignedEvent env crypto config authPubkey event
      isPrivate).run.run (handle env created) before).2.store.outbox.entries)
    (hnew : entry ∉ before.store.outbox.entries) : JobOf event entry.job := by
  obtain ⟨owner, repo, identifier, jobs, hentries, hjobs⟩ :=
    (Control.post_createRepoFromSignedEvent crypto config authPubkey event isPrivate).final
  rw [hentries] at hentry
  obtain ⟨relayUrl, hdecode⟩ := hjobs entry ((List.mem_append.1 hentry).resolve_left hnew)
  exact jobOf_publishRequest hdecode

/-- The four services agree exactly on the unambiguous announcements, for every job that is enqueued
for an accepted event. -/
theorem keepsIdentity_iff (hb : env.host.bech32.Lawful "npub" 32)
    (hvalid : Control.validateRepoAnnouncementEvent env.host crypto event authPubkey
      config.relayUrls config.publicGitUrl = .ok valid)
    {isPrivate : Option Bool} {created : ℤ} {before : World} {entry : OutboxEntry}
    (hentry : entry ∈ ((Control.createRepoFromSignedEvent env crypto config authPubkey event
      isPrivate).run.run (handle env created) before).2.store.outbox.entries)
    (hnew : entry ∉ before.store.outbox.entries)
    (hjob : job.toRelayPublishEntry = entry.job.toRelayPublishEntry)
    (hfinal : (finalizeOutboxJob env job).run.run (handle env now) w = (.ok (), t)) :
    KeepsIdentity env config event valid.announcement job w t ↔
      Unambiguous env config event valid.announcement job.pubkey w.store.announcements := by
  exact keepsIdentity_iff_of_job hb hvalid ((jobOf_of_created hentry hnew).of_eq hjob) hfinal

end Services

/-- The storage before the signer announces a repository. -/
def signerWorld : World :=
  let account : AccountRecord := ⟨signerKey, "signer"⟩
  let accounts : Accounts :=
    ⟨(∅ : Map AccountRecord).insert (Hex.encode signerKey) account,
      (∅ : Map AccountRecord).insert "signer" account⟩
  { emptyWorld with store := { emptyWorld.store with accounts } }

/-- The world after the announcement of a repository of the signer. -/
def announcedWorld (event : NostrEvent) : World :=
  ((Control.createRepoFromSignedEvent signerEnv (NostrEvent.signedBy [event]) signerConfig
    event.pubkey event none).run.run (handle signerEnv 0) signerWorld).2

theorem entry_created {event : NostrEvent} {entry : OutboxEntry}
    (h : entry ∈ (announcedWorld event).store.outbox.entries) :
    entry ∈ ((Control.createRepoFromSignedEvent signerEnv (NostrEvent.signedBy [event])
      signerConfig event.pubkey event none).run.run (handle signerEnv 0)
        signerWorld).2.store.outbox.entries := by
  unfold announcedWorld at h
  exact h

/-- The world after a job is finalised, unless that fails. -/
def finalizedWorld (job : RelayPublishJob) (w : World) : Option World :=
  match (finalizeOutboxJob signerEnv job).run.run (handle signerEnv 1) w with
  | (.ok _, t) => some t
  | (.error _, _) => none

theorem finalizedWorld_eq_some {job : RelayPublishJob} {w t : World}
    (h : finalizedWorld job w = some t) :
    (finalizeOutboxJob signerEnv job).run.run (handle signerEnv 1) w = (.ok (), t) := by
  unfold finalizedWorld at h
  split at h
  · rename_i hrun
    cases h
    exact hrun
  · cases h

/-- The announcement of the signer keeps its identity. -/
theorem keepsIdentity_signed : ∃ valid entry t,
    Control.validateRepoAnnouncementEvent signerEnv.host (NostrEvent.signedBy [signedAnnouncement])
      signedAnnouncement signedAnnouncement.pubkey signerConfig.relayUrls
      signerConfig.publicGitUrl = .ok valid ∧
    entry ∈ (announcedWorld signedAnnouncement).store.outbox.entries ∧
    (finalizeOutboxJob signerEnv entry.job).run.run (handle signerEnv 1)
      (announcedWorld signedAnnouncement) = (.ok (), t) ∧
    KeepsIdentity signerEnv signerConfig signedAnnouncement valid.announcement entry.job
      (announcedWorld signedAnnouncement) t := by
  have hvalid : ((Result.toOption (Control.validateRepoAnnouncementEvent signerEnv.host
      (NostrEvent.signedBy [signedAnnouncement]) signedAnnouncement signedAnnouncement.pubkey
      signerConfig.relayUrls signerConfig.publicGitUrl)).map fun valid =>
        (valid.announcement.identifier, firstNpub signerBech32 valid.announcement.clone)) =
      some ("repo", some signerNpub) := by
    decide +kernel
  have hrun : ((announcedWorld signedAnnouncement).store.outbox.entries.head?.map fun entry =>
      (entry.job.pubkey, (finalizedWorld entry.job (announcedWorld signedAnnouncement)).isSome,
        (announcedWorld signedAnnouncement).store.announcements.listAnnouncements signerKey "repo"))
      = some (signerKey, true, []) := by
    decide +kernel
  obtain ⟨valid, hvalid, hclone⟩ := Option.map_eq_some_iff.1 hvalid
  obtain ⟨entry, hentry, hfinal⟩ := Option.map_eq_some_iff.1 hrun
  obtain ⟨hidentifier, hfirst⟩ := Prod.mk.inj hclone
  obtain ⟨hkey, hfinal⟩ := Prod.mk.inj hfinal
  obtain ⟨hfinal, hold⟩ := Prod.mk.inj hfinal
  obtain ⟨t, ht⟩ := Option.isSome_iff_exists.1 hfinal
  have hmem := List.mem_of_head? hentry
  have hnew : entry ∉ signerWorld.store.outbox.entries := by
    rw [show signerWorld.store.outbox.entries = [] from rfl]
    exact List.not_mem_nil
  rw [Result.toOption_eq_some] at hvalid
  refine ⟨valid, entry, t, hvalid, hmem, finalizedWorld_eq_some ht, ?_⟩
  have hkeeps := keepsIdentity_iff signerBech32_lawful hvalid
    (entry_created hmem) hnew rfl (finalizedWorld_eq_some ht)
  refine hkeeps.2 ⟨?_, ?_, ⟨signerNpub, hfirst, ?_⟩, ?_⟩
  · rw [hidentifier]
    exact ⟨by decide, List.all_iff_forall_prop.1 (by decide)⟩
  · exact ⟨"git.example", by decide +kernel, by decide +kernel⟩
  · rw [hkey]
    decide +kernel
  · rw [hkey, hidentifier, hold]
    exact List.forall_mem_nil _

/-- The announcement of the signer's repository `repo.git`, signed. -/
def suffixedAnnouncement : NostrEvent := { signedAnnouncement with
  id := "d0458ae38711ba30e8197aa6b319e576baadab1184ab11bc3847af25e7b81628"
  tags := [["d", "repo.git"], ["name", "repo"],
    ["clone", "https://git.example/" ++ signerNpub ++ "/repo.git"],
    ["relays", "wss://relay.example"],
    ["maintainers", "f9308a019258c31049344f85f89d5229b531c845836f99b08601f113bce036f9"]]
  sig := "62433e073ffd0ce6d4f7a92a2c14381d57cf9050df3988960f6f4b3299f79b4f" ++
    "ab13bff95b9b48164a09ae58dd467cb8d99e44ebab7aec4f57da5fa9dfda7d05" }

/-- An identifier that ends in `.git` is accepted, but the required clone URL leads to a repository
without a mapping. -/
theorem suffixed_identity_lost : ∃ valid entry t,
    Control.validateRepoAnnouncementEvent signerEnv.host
      (NostrEvent.signedBy [suffixedAnnouncement]) suffixedAnnouncement suffixedAnnouncement.pubkey
      signerConfig.relayUrls signerConfig.publicGitUrl = .ok valid ∧
    entry ∈ (announcedWorld suffixedAnnouncement).store.outbox.entries ∧
    (finalizeOutboxJob signerEnv entry.job).run.run (handle signerEnv 1)
      (announcedWorld suffixedAnnouncement) = (.ok (), t) ∧
    (∃ url ∈ valid.announcement.clone, ∃ repo, routeRequest signerEnv.host.bech32
      ⟨"POST", urlPath url ++ "/git-receive-pack", none⟩ = .receivePack repo ∧
        resolveMapping t.store.mappings repo = .error (.notFound "missing repo mapping")) ∧
    ¬ KeepsIdentity signerEnv signerConfig suffixedAnnouncement valid.announcement entry.job
      (announcedWorld suffixedAnnouncement) t := by
  have hvalid : ((Result.toOption (Control.validateRepoAnnouncementEvent signerEnv.host
      (NostrEvent.signedBy [suffixedAnnouncement]) suffixedAnnouncement suffixedAnnouncement.pubkey
      signerConfig.relayUrls signerConfig.publicGitUrl)).map fun valid =>
        (valid.announcement.identifier, valid.announcement.clone)) =
      some ("repo.git", ["https://git.example/" ++ signerNpub ++ "/repo.git"]) := by
    decide +kernel
  have hrun : ((announcedWorld suffixedAnnouncement).store.outbox.entries.head?.bind fun entry =>
      (finalizedWorld entry.job (announcedWorld suffixedAnnouncement)).map fun t =>
        resolveMapping t.store.mappings ⟨signerNpub, "repo", "/" ++ signerNpub ++ "/repo.git",
          Hex.encode signerKey⟩) = some (.error (.notFound "missing repo mapping")) := by
    decide +kernel
  have hroute : routeRequest signerEnv.host.bech32 ⟨"POST",
      urlPath ("https://git.example/" ++ signerNpub ++ "/repo.git") ++ "/git-receive-pack", none⟩ =
        .receivePack ⟨signerNpub, "repo", "/" ++ signerNpub ++ "/repo.git",
          Hex.encode signerKey⟩ := by
    decide +kernel
  obtain ⟨valid, hvalid, hclone⟩ := Option.map_eq_some_iff.1 hvalid
  obtain ⟨entry, hentry, hfinal⟩ := Option.bind_eq_some_iff.1 hrun
  obtain ⟨t, ht, hmapping⟩ := Option.map_eq_some_iff.1 hfinal
  obtain ⟨hidentifier, hclone⟩ := Prod.mk.inj hclone
  have hmem := List.mem_of_head? hentry
  have hnew : entry ∉ signerWorld.store.outbox.entries := by
    rw [show signerWorld.store.outbox.entries = [] from rfl]
    exact List.not_mem_nil
  rw [Result.toOption_eq_some] at hvalid
  refine ⟨valid, entry, t, hvalid, hmem, finalizedWorld_eq_some ht, ?_, ?_⟩
  · rw [hclone]
    exact ⟨_, List.mem_cons_self, _, hroute, hmapping⟩
  · intro hkeeps
    have hjob := jobOf_of_created (entry_created hmem) hnew
    have hplain := ((keepsIdentity_iff_of_job signerBech32_lawful hvalid hjob
      (finalizedWorld_eq_some ht)).1 hkeeps).plain.suffix
    rw [hidentifier] at hplain
    exact absurd hplain (by decide)

end Gittree
