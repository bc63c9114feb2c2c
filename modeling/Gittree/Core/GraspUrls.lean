import Mathlib.Data.Bool.AllAny
import Gittree.Core.Admission
import Gittree.Lib.Occurrences

/-!
# Server URLs

The texts of server URLs (a scheme, a host that is a domain name, a port other than that of the scheme,
and a path) and what `normalize_grasp_server_url` of `crates/core/src/grasp.rs` makes of a URL that was
read.

A normal form is cut before the first `npub1` in it, be that in the host; it has `http://` in front
for the schemes without encryption.

* `normalize_eq`: the normal form in terms of the components that were read;
* `shorten_server`, `shorten_cut`: what is left of a server, without and with `npub1` in the host;
* `replace_marked`, `replace_unmarked`: the replacement of the scheme by that of a relay.
-/

namespace Gittree

open Rust

namespace Grasp

/-! ### Server URLs -/

/-- Lower-case letters, digits and hyphens. -/
def isLabelChar (c : Char) : Bool :=
  ('a' ≤ c && c ≤ 'z') || ('0' ≤ c && c ≤ '9') || c == '-'

/-- A label of a domain name. -/
structure IsLabel (label : List Char) : Prop where
  nonempty : label ≠ []
  chars : ∀ c ∈ label, isLabelChar c = true
  first : label.head? ≠ some '-'
  last : label.getLast? ≠ some '-'

/-- A label that is read as part of an IPv4 address. -/
def IsNumber (label : List Char) : Prop :=
  (∀ c ∈ label, ('0' ≤ c && c ≤ '9') = true) ∨
    ∃ digits, label = '0' :: 'x' :: digits ∧ ∀ c ∈ digits, Str.isAsciiHexdigit c = true

/-- A lower-case DNS name: labels with dots between them, of which the last is not a number. -/
def DnsName (host : String) : Prop :=
  ∃ (labels : List (List Char)) (last : List Char),
    host.toList = labels.flatMap (· ++ ['.']) ++ last ∧
      (∀ label ∈ labels, IsLabel label) ∧ IsLabel last ∧ ¬ IsNumber last

/-- Letters, digits, `/`, `.`, `:` and `-`. -/
def isPathChar (c : Char) : Bool :=
  Str.isAsciiAlphanumeric c || c == '/' || c == '.' || c == ':' || c == '-'

/-- A path: nothing, or a slash and what follows it. -/
structure IsPath (path : String) : Prop where
  chars : ∀ c ∈ path.toList, isPathChar c = true
  slash : ∀ c ∈ path.toList.head?, c = '/'

/-- The port that a scheme does without. -/
def defaultPort (scheme : String) : ℕ := if scheme = "ws" ∨ scheme = "http" then 80 else 443

/-- A server URL. -/
structure ServerUrl where
  scheme : String
  host : String
  port : Option ℕ
  path : String
  isScheme : scheme ∈ ["ws", "wss", "http", "https"]
  isHost : DnsName host
  isPort : ∀ value ∈ port, value < 2 ^ 16 ∧ value ≠ defaultPort scheme
  isPath : IsPath path

/-- A host and a port, as a URL has them. -/
def serverText (host : String) (port : Option ℕ) : String :=
  host ++ match port with
    | some value => ":" ++ toString value
    | none => ""

/-- The text of a server URL. -/
def ServerUrl.text (url : ServerUrl) : String :=
  url.scheme ++ "://" ++ (serverText url.host url.port ++ url.path)

/-- What the library reads from it. -/
def ServerUrl.components (url : ServerUrl) : Url where
  scheme := url.scheme
  hostStr := some url.host
  port := url.port
  path := if url.path = "" then "/" else url.path

/-- The schemes whose URLs have a host even without the two slashes. -/
def specialSchemes : List String := ["http", "https", "ws", "wss", "ftp"]

/-- The IPv4 address of a number of two bytes. -/
def numberHost (value : ℕ) : String :=
  "0.0." ++ toString (value / 256) ++ "." ++ toString (value % 256)

/-- What is known of `url::Url::parse`. -/
structure UrlLibrary (parseUrl : String → Option Url) : Prop where
  /-- A server URL is read as its components. -/
  server : ∀ url : ServerUrl, parseUrl url.text = some url.components
  /-- A host in front, with a port or not, is no scheme or one of URLs without a host. -/
  bare : ∀ host port path, DnsName host → IsPath path →
    ¬ (port.isSome = true ∧ host ∈ specialSchemes) →
    ∀ url, parseUrl (serverText host port ++ path) = some url → url.hostStr = none
  /-- A special scheme in front of digits takes them as the number of an IPv4 address. -/
  number : ∀ special ∈ specialSchemes, ∀ value < 2 ^ 16, ∀ path, IsPath path →
    ∃ url, parseUrl (serverText special (some value) ++ path) = some url ∧
      url.hostStr = some (numberHost value)
  /-- Hosts have no slashes, and colons in brackets only; paths begin with a slash. -/
  host : ∀ text url host, parseUrl text = some url → url.hostStr = some host →
    ('/' ∉ host.toList ∧ (':' ∈ host.toList → host.toList.head? = some '[')) ∧
      ∀ c ∈ url.path.toList.head?, c = '/'
  /-- A URL of `https` has a host. -/
  https : ∀ text url, parseUrl ("https://" ++ text) = some url → url.hostStr.isSome = true

/-! ### The parts of a text -/

/-- The two schemes without encryption. -/
def IsPlain (scheme : String) : Prop := scheme = "ws" ∨ scheme = "http"

instance (scheme : String) : Decidable (IsPlain scheme) := inferInstanceAs (Decidable (_ ∨ _))

/-- What stands in front of a normal form. -/
def marker (scheme : String) : String := if IsPlain scheme then "http://" else ""

/-- A text before its first `npub1`, without the slashes at its end. -/
def shorten (text : String) : String :=
  Str.trimEndMatches (String.ofList (Str.cutAt "npub1".toList text.toList)) '/'

theorem toList_shorten (text : String) :
    (shorten text).toList = (Str.cutAt "npub1".toList text.toList).rdropWhile (· == '/') := by
  unfold shorten Str.trimEndMatches
  rw [Str.chars_eq_toList, String.toList_ofList, String.toList_ofList]

theorem isPrefix_shorten (text : String) : (shorten text).toList <+: text.toList := by
  rw [toList_shorten]
  exact (List.rdropWhile_prefix _ _).trans (Str.cutAt_prefix _ _)

theorem slash_shorten {path : String} (h : ∀ c ∈ path.toList.head?, c = '/') :
    ∀ c ∈ (shorten path).toList.head?, c = '/' := by
  intro c hc
  obtain ⟨rest, hrest⟩ := isPrefix_shorten path
  refine h c ?_
  rw [← hrest, List.head?_append, Option.mem_def.1 hc]
  rfl

/-- Cutting at a pattern, as the source writes it. -/
theorem cut_eq (p : List Char) (text : String) :
    (match Str.splitAtFirst p (Str.chars text) with
      | some (before, _) => String.ofList before
      | none => text) = String.ofList (Str.cutAt p text.toList) := by
  unfold Str.cutAt
  rw [Str.chars_eq_toList]
  rcases Str.splitAtFirst p text.toList with _ | ⟨before, found⟩
  · exact String.ofList_toList.symm
  · rfl

/-- The normal form in terms of the URL that is read. -/
theorem normalize_eq {parseUrl : String → Option Url} {input : String} {url : Url}
    (h : parseServerUrl parseUrl input = .ok url) :
    normalizeGraspServerUrl parseUrl input = .ok (shorten (marker url.scheme ++
      (serverText (url.hostStr.getD "") url.port ++ url.path))) := by
  unfold normalizeGraspServerUrl
  rw [Result.bind_eq_ok]
  refine ⟨url, h, ?_⟩
  unfold shorten marker IsPlain serverText
  rw [← cut_eq]
  by_cases hplain : url.scheme = "ws" ∨ url.scheme = "http"
  · simp only [hplain, if_true]
    rfl
  · simp only [hplain, if_false, String.empty_append]
    rfl

section Parts

variable {host path scheme : String} {port : Option ℕ}

theorem DnsName.chars (h : DnsName host) :
    ∀ c ∈ host.toList, isLabelChar c = true ∨ c = '.' := by
  obtain ⟨labels, last, hhost, hlabels, hlast, -⟩ := h
  intro c hc
  rw [hhost, List.mem_append, List.mem_flatMap] at hc
  rcases hc with ⟨label, hlabel, hc⟩ | hc
  · rcases List.mem_append.1 hc with hc | hc
    · exact .inl ((hlabels label hlabel).chars c hc)
    · exact .inr (List.mem_singleton.1 hc)
  · exact .inl (hlast.chars c hc)

/-- The characters that are in no domain name. -/
theorem DnsName.notMem (h : DnsName host) {c : Char} (hc : isLabelChar c = false) (hdot : c ≠ '.') :
    c ∉ host.toList := by
  intro hmem
  rcases h.chars c hmem with hlabel | hdot'
  · rw [hc] at hlabel
    cases hlabel
  · exact hdot hdot'

theorem DnsName.ne_nil (h : DnsName host) : host.toList ≠ [] := by
  obtain ⟨labels, last, hhost, -, hlast, -⟩ := h
  rw [hhost]
  exact List.append_ne_nil_of_right_ne_nil _ hlast.nonempty

/-- A path is empty or begins with a slash. -/
theorem path_cases (h : ∀ c ∈ path.toList.head?, c = '/') :
    path.toList = [] ∨ ∃ rest, path.toList = '/' :: rest := by
  cases hpath : path.toList with
  | nil => exact .inl rfl
  | cons c rest =>
    obtain rfl : c = '/' := h c (by rw [hpath]; rfl)
    exact .inr ⟨rest, rfl⟩

/-- The port as characters. -/
theorem toList_serverText (host : String) (port : Option ℕ) :
    (serverText host port).toList =
      host.toList ++ (port.map fun value => ':' :: Nat.toDigits 10 value).getD [] := by
  unfold serverText
  cases port with
  | none => simp
  | some value =>
    rw [String.toList_append, String.toList_append, Nat.toString_eq_repr, Nat.toList_repr]
    rfl

theorem isDigit_of_mem_toDigits {n : ℕ} {c : Char} (h : c ∈ Nat.toDigits 10 n) :
    c.isDigit = true :=
  Nat.isDigit_of_mem_toDigits (by decide) (by decide) h

/-- A number does not begin with a slash. -/
theorem toDigits_eq_cons (value : ℕ) :
    ∃ c digits, Nat.toDigits 10 value = c :: digits ∧ c ≠ '/' := by
  obtain ⟨c, digits, hdigits⟩ := List.exists_cons_of_ne_nil (@Nat.toDigits_ne_nil value 10)
  refine ⟨c, digits, hdigits, ?_⟩
  rintro rfl
  exact absurd (isDigit_of_mem_toDigits (n := value) (c := '/')
    (by rw [hdigits]; exact List.mem_cons_self)) (by decide)

theorem mem_numberHost {value : ℕ} {c : Char} (h : c ∈ (numberHost value).toList) :
    c = '.' ∨ c.isDigit = true := by
  have hzeros : ∀ c ∈ "0.0.".toList, c = '.' ∨ c.isDigit = true :=
    List.all_iff_forall_prop.1 (by decide)
  unfold numberHost at h
  simp only [String.toList_append, List.mem_append, Nat.toString_eq_repr, Nat.toList_repr] at h
  rcases h with ((hc | hc) | hc) | hc
  · exact hzeros c hc
  · exact .inr (isDigit_of_mem_toDigits hc)
  · exact .inl (List.mem_singleton.1 hc)
  · exact .inr (isDigit_of_mem_toDigits hc)

/-- The characters that are in no IPv4 address. -/
theorem notMem_numberHost (value : ℕ) {c : Char} (hdot : c ≠ '.') (hdigit : c.isDigit = false) :
    c ∉ (numberHost value).toList := by
  intro hc
  rcases mem_numberHost hc with hdot' | hdigit'
  · exact hdot hdot'
  · rw [hdigit] at hdigit'
    cases hdigit'

/-- What a port is written with. -/
theorem mem_port {c : Char}
    (h : c ∈ (port.map fun value => ':' :: Nat.toDigits 10 value).getD []) :
    c = ':' ∨ c.isDigit = true := by
  cases port with
  | none => cases h
  | some value =>
    rcases List.mem_cons.1 h with rfl | hdigit
    · exact .inl rfl
    · exact .inr (isDigit_of_mem_toDigits hdigit)

/-- A character other than a colon and a digit is in a server text if it is in the host. -/
theorem mem_serverText {c : Char} (hcolon : c ≠ ':') (hdigit : c.isDigit = false) :
    c ∈ (serverText host port).toList ↔ c ∈ host.toList := by
  rw [toList_serverText, List.mem_append]
  constructor
  · rintro (hc | hc)
    · exact hc
    · rcases mem_port hc with rfl | hd
      · exact absurd rfl hcolon
      · rw [hdigit] at hd
        cases hd
  · exact .inl

/-- A server text and the path are told apart by the first slash. -/
theorem serverText_append_inj {host' path' : String} {port' : Option ℕ}
    (hhost : '/' ∉ host.toList) (hhost' : '/' ∉ host'.toList)
    (hpath : ∀ c ∈ path.toList.head?, c = '/') (hpath' : ∀ c ∈ path'.toList.head?, c = '/')
    (h : serverText host port ++ path = serverText host' port' ++ path') :
    serverText host port = serverText host' port' ∧ path = path' := by
  have hslash : ∀ {host : String} {port : Option ℕ}, '/' ∉ host.toList →
      ∀ c ∈ (serverText host port).toList, ¬ c = '/' := by
    rintro host port hnot c hc rfl
    exact hnot ((mem_serverText (by decide) (by decide)).1 hc)
  have hlists := congrArg String.toList h
  rw [String.toList_append, String.toList_append] at hlists
  obtain ⟨hserver, hrest⟩ :=
    Str.append_inj_of_class (hslash hhost) (hslash hhost') hpath hpath' hlists
  exact ⟨String.toList_inj.1 hserver, String.toList_inj.1 hrest⟩

/-- Without colons in the hosts, the ports are told apart too. -/
theorem serverText_inj {host' : String} {port' : Option ℕ} (hhost : ':' ∉ host.toList)
    (hhost' : ':' ∉ host'.toList) (h : serverText host port = serverText host' port') :
    host = host' ∧ port = port' := by
  have hne : ∀ {host : String}, ':' ∉ host.toList → ∀ c ∈ host.toList, ¬ c = ':' := by
    rintro host hnot c hc rfl
    exact hnot hc
  have hhead : ∀ port : Option ℕ, ∀ c ∈
      ((port.map fun value => ':' :: Nat.toDigits 10 value).getD []).head?, c = ':' := by
    intro port c hc
    cases port with
    | none => cases hc
    | some value => exact (Option.some.inj hc).symm
  have hlists := congrArg String.toList h
  rw [toList_serverText, toList_serverText] at hlists
  obtain ⟨hserver, hrest⟩ :=
    Str.append_inj_of_class (hne hhost) (hne hhost') (hhead port) (hhead port') hlists
  refine ⟨String.toList_inj.1 hserver, ?_⟩
  cases port with
  | none =>
    cases port' with
    | none => rfl
    | some value' => cases hrest
  | some value =>
    cases port' with
    | none => cases hrest
    | some value' =>
      have hdigits : Nat.toDigits 10 value = Nat.toDigits 10 value' := (List.cons.inj hrest).2
      have hparse := congrArg Str.parseDigits hdigits
      rw [Str.parseDigits_toDigits, Str.parseDigits_toDigits] at hparse
      exact hparse

/-! ### Normal forms -/

theorem rdropWhile_of_notMem {l : List Char} (h : '/' ∉ l) : l.rdropWhile (· == '/') = l := by
  rw [Str.rdropWhile_eq_self_iff_getLast]
  intro c hc
  rw [beq_eq_false_iff_ne]
  rintro rfl
  exact h (List.mem_of_getLast? hc)

/-- What stands in front has no `npub1`, and its slashes are trimmed only if nothing follows. -/
theorem shorten_marker (scheme text : String) : shorten (marker scheme ++ text) =
    if shorten text = "" then Str.trimEndMatches (marker scheme) '/'
    else marker scheme ++ shorten text := by
  have hnone : 'n' ∉ (marker scheme).toList := by
    unfold marker
    split_ifs <;> decide
  have hcut : Str.cutAt "npub1".toList ((marker scheme).toList ++ text.toList) =
      (marker scheme).toList ++ Str.cutAt "npub1".toList text.toList :=
    Str.cutAt_append (Str.clear_of_head_notMem hnone _)
  have hempty : shorten text = "" ↔
      (Str.cutAt "npub1".toList text.toList).rdropWhile (· == '/') = [] := by
    rw [← String.toList_inj, toList_shorten, String.toList_empty]
  rw [← String.toList_inj, toList_shorten, String.toList_append, hcut, Str.rdropWhile_append]
  simp only [hempty]
  split_ifs
  · unfold Str.trimEndMatches
    rw [Str.chars_eq_toList, String.toList_ofList]
  · rw [String.toList_append, toList_shorten]

/-- A port and a path begin with characters that `npub1` does not have. -/
theorem head_port_append (hpath : ∀ c ∈ path.toList.head?, c = '/') {c : Char}
    (hc : c ∈ ((port.map fun value => ':' :: Nat.toDigits 10 value).getD [] ++
      path.toList).head?) : c = ':' ∨ c = '/' := by
  cases port with
  | none => exact .inr (hpath c hc)
  | some value => exact .inl (Option.some.inj hc).symm

/-- A host without `npub1` stays, with the port and what is left of the path. -/
theorem shorten_server (hslash : '/' ∉ host.toList)
    (hnpub : Str.splitAtFirst "npub1".toList host.toList = none)
    (hpath : ∀ c ∈ path.toList.head?, c = '/') :
    shorten (serverText host port ++ path) = serverText host port ++ shorten path := by
  have hhost := Str.clear_of_none hnpub (b := (port.map fun value =>
    ':' :: Nat.toDigits 10 value).getD [] ++ path.toList) fun c hc => by
      rcases head_port_append hpath hc with rfl | rfl <;> decide
  have hport : 'n' ∉ (port.map fun value => ':' :: Nat.toDigits 10 value).getD [] := by
    intro hmem
    rcases mem_port hmem with hcolon | hdigit
    · exact absurd hcolon (by decide)
    · exact absurd hdigit (by decide)
  have hcut : Str.cutAt "npub1".toList ((serverText host port).toList ++ path.toList) =
      (serverText host port).toList ++ Str.cutAt "npub1".toList path.toList := by
    rw [toList_serverText, List.append_assoc, Str.cutAt_append hhost, List.append_assoc]
    exact congrArg _ (Str.cutAt_append (Str.clear_of_head_notMem hport _))
  have hserver : '/' ∉ (serverText host port).toList := by
    rwa [mem_serverText (by decide) (by decide)]
  rw [← String.toList_inj, toList_shorten, String.toList_append, hcut, Str.rdropWhile_append,
    String.toList_append, toList_shorten]
  split_ifs with hempty
  · rw [hempty, List.append_nil, rdropWhile_of_notMem hserver]
  · rfl

/-- Of a host with `npub1` the part before it is left, and nothing else. -/
theorem shorten_cut (hslash : '/' ∉ host.toList) {before found : List Char}
    (hnpub : Str.splitAtFirst "npub1".toList host.toList = some (before, found)) :
    shorten (serverText host port ++ path) = String.ofList before := by
  have hcut : Str.cutAt "npub1".toList (serverText host port ++ path).toList = before := by
    rw [String.toList_append, toList_serverText, List.append_assoc]
    exact Str.cutAt_append_of_some hnpub _
  have hbefore : '/' ∉ before := by
    intro hmem
    rw [(Str.splitAtFirst_append hnpub).1] at hslash
    exact hslash (List.mem_append_left _ hmem)
  rw [← String.toList_inj, toList_shorten, hcut, rdropWhile_of_notMem hbefore, String.toList_ofList]

/-- A host and what follows it do not begin with a scheme and two slashes. -/
theorem not_startsWith_scheme {scheme : String}
    (hscheme : ∀ c ∈ scheme.toList, c ≠ ':' ∧ c ≠ '/' ∧ c ≠ '[') (hslash : '/' ∉ host.toList)
    (hcolon : ':' ∈ host.toList → host.toList.head? = some '[')
    (hpath : ∀ c ∈ path.toList.head?, c = '/') :
    Str.startsWith (serverText host port ++ path) (scheme ++ "://") = false := by
  rw [Bool.eq_false_iff]
  intro hstarts
  obtain ⟨rest, hrest⟩ := Str.startsWith_iff.1 hstarts
  have hlist : host.toList ++ ((port.map fun value => ':' :: Nat.toDigits 10 value).getD [] ++
      path.toList) = scheme.toList ++ (':' :: '/' :: '/' :: rest.toList) := by
    have h := congrArg String.toList hrest
    rw [String.toList_append, toList_serverText, List.append_assoc, String.toList_append,
      String.toList_append, List.append_assoc] at h
    exact h
  have hplain : ':' ∉ host.toList := by
    intro hmem
    have hhead := congrArg List.head? hlist
    rw [List.head?_append, hcolon hmem] at hhead
    cases htext : scheme.toList with
    | nil =>
      rw [htext] at hhead
      exact absurd (Option.some.inj hhead) (by decide)
    | cons c text =>
      rw [htext] at hhead hscheme
      exact (hscheme c List.mem_cons_self).2.2 (Option.some.inj hhead).symm
  have hclass : ∀ c ∈ host.toList, ¬ (c = ':' ∨ c = '/') := by
    rintro c hc (rfl | rfl)
    · exact hplain hc
    · exact hslash hc
  have hclass' : ∀ c ∈ scheme.toList, ¬ (c = ':' ∨ c = '/') :=
    fun c hc => not_or.2 ⟨(hscheme c hc).1, (hscheme c hc).2.1⟩
  have hhead : ∀ c ∈ (':' :: '/' :: '/' :: rest.toList).head?, c = ':' ∨ c = '/' :=
    fun c hc => .inl (Option.some.inj hc).symm
  obtain ⟨-, hafter⟩ := Str.append_inj_of_class hclass hclass'
    (fun c hc => head_port_append hpath hc) hhead hlist
  cases port with
  | none => exact absurd (hpath ':' (by rw [show path.toList = _ from hafter]; rfl)) (by decide)
  | some value =>
    -- a digit stands after the colon
    obtain ⟨c, digits, htext, hc⟩ := toDigits_eq_cons value
    rw [Option.map_some, Option.getD_some, htext] at hafter
    exact hc (List.cons.inj (List.cons.inj hafter).2).1

theorem not_startsWith_http (hslash : '/' ∉ host.toList)
    (hcolon : ':' ∈ host.toList → host.toList.head? = some '[')
    (hpath : ∀ c ∈ path.toList.head?, c = '/') :
    Str.startsWith (serverText host port ++ path) "http://" = false :=
  @not_startsWith_scheme host path port "http" (List.all_iff_forall_prop.1 (by decide)) hslash
    hcolon hpath

end Parts

theorem trimHttpScheme_of_not {text : String} (h : Str.startsWith text "http://" = false) (n : ℕ) :
    trimHttpScheme n text = text := by
  cases n with
  | zero => rfl
  | succ n => rw [trimHttpScheme, Str.stripPrefix_eq_none.2 h]

/-- The text that is compared, of a URL with a host. -/
theorem compare_eq {parseUrl : String → Option Url} {input host : String} {url : Url}
    (h : parseServerUrl parseUrl input = .ok url) (hhost : url.hostStr = some host)
    (hslash : '/' ∉ host.toList) (hcolon : ':' ∈ host.toList → host.toList.head? = some '[')
    (hpath : ∀ c ∈ url.path.toList.head?, c = '/') :
    ∃ text, normalizeGraspHostForCompare parseUrl input = .ok text ∧
      (text = shorten (serverText host url.port ++ url.path) ∨ text = "http:") ∧
      (shorten (serverText host url.port ++ url.path) ≠ "" →
        text = shorten (serverText host url.port ++ url.path)) := by
  have hnormal := normalize_eq h
  rw [hhost, Option.getD_some, shorten_marker] at hnormal
  set short := shorten (serverText host url.port ++ url.path) with hshort
  have hplain : Str.startsWith short "http://" = false := by
    rw [Bool.eq_false_iff]
    intro hstarts
    have hwhole := Str.startsWith_of_prefix (isPrefix_shorten _) hstarts
    rw [not_startsWith_http hslash hcolon hpath] at hwhole
    cases hwhole
  have hcompare : ∀ normalized, normalizeGraspServerUrl parseUrl input = .ok normalized →
      normalizeGraspHostForCompare parseUrl input =
        .ok (trimHttpScheme (Str.len normalized) normalized) := by
    intro normalized hnormalized
    unfold normalizeGraspHostForCompare
    rw [hnormalized]
    rfl
  rw [hcompare _ hnormal]
  refine ⟨_, rfl, ?_⟩
  unfold marker
  by_cases hscheme : IsPlain url.scheme
  · rw [if_pos hscheme]
    by_cases hempty : short = ""
    · rw [if_pos hempty]
      exact ⟨.inr (by decide), fun hne => absurd hempty hne⟩
    · rw [if_neg hempty]
      have hlen : Str.len ("http://" ++ short) = (6 + Str.len short) + 1 := by
        rw [Str.len_append, show Str.len "http://" = 7 by decide]
        omega
      have hstrip : trimHttpScheme (Str.len ("http://" ++ short)) ("http://" ++ short) = short := by
        rw [hlen, trimHttpScheme, Str.stripPrefix_append]
        exact trimHttpScheme_of_not hplain _
      rw [hstrip]
      exact ⟨.inl rfl, fun _ => rfl⟩
  · rw [if_neg hscheme]
    by_cases hempty : short = ""
    · rw [if_pos hempty, hempty]
      exact ⟨.inl (by decide), fun hne => absurd rfl hne⟩
    · rw [if_neg hempty, String.empty_append, trimHttpScheme_of_not hplain]
      exact ⟨.inl rfl, fun _ => rfl⟩

/-! ### Paths -/

theorem isPath_shorten {path : String} (h : IsPath path) : IsPath (shorten path) :=
  ⟨fun c hc => h.chars c ((isPrefix_shorten path).subset hc), slash_shorten h.slash⟩

theorem shorten_shorten (text : String) : shorten (shorten text) = shorten text := by
  have hnone : Str.splitAtFirst "npub1".toList (shorten text).toList = none := by
    rw [toList_shorten]
    exact Str.splitAtFirst_of_prefix (List.rdropWhile_prefix _ _)
      (Str.splitAtFirst_cutAt (by decide) _)
  rw [← String.toList_inj, toList_shorten, Str.cutAt_of_none hnone, toList_shorten,
    List.rdropWhile_idempotent]

/-- The path with `ws://` in place of `http://`. -/
def replaced (n : ℕ) (path : String) : String :=
  String.ofList (Str.replaceChars "http://".toList "ws://".toList n path.toList)

theorem isPath_replaced {path : String} (h : IsPath path) (n : ℕ) : IsPath (replaced n path) := by
  unfold replaced
  constructor
  · intro c hc
    rw [String.toList_ofList] at hc
    rcases Str.mem_replaceChars hc with hws | hpath
    · have hchars : ∀ c ∈ "ws://".toList, isPathChar c = true :=
        List.all_iff_forall_prop.1 (by decide)
      exact hchars c hws
    · exact h.chars c hpath
  · intro c hc
    rw [String.toList_ofList] at hc
    rcases path_cases h.slash with htext | ⟨text, htext⟩
    · rw [htext, Str.replaceChars_of_none rfl] at hc
      cases hc
    · have hclear : Str.Clear "http://".toList ['/'] text :=
        Str.clear_of_head_notMem (by decide) text
      rw [htext, ← List.singleton_append, Str.replaceChars_append hclear] at hc
      exact (Option.some.inj hc).symm

section Replacing

variable {host path : String} {port : Option ℕ}

/-- No `http://` starts before the path. -/
theorem clear_serverText (hhost : DnsName host) (hpath : IsPath path) :
    Str.Clear "http://".toList (serverText host port).toList path.toList := by
  rintro x y hxy hy ⟨rest, hrest⟩
  have hslash : ∀ c ∈ y, ¬ c = '/' := by
    rintro c hc rfl
    refine hhost.notMem (c := '/') (by decide) (by decide) ?_
    rw [← @mem_serverText host port '/' (by decide) (by decide), hxy]
    exact List.mem_append_right _ hc
  have hhead : ∀ c ∈ ('/' :: '/' :: rest).head?, c = '/' := fun c hc => (Option.some.inj hc).symm
  -- the pattern would reach the path with its colon at the end of the server
  have hpattern : ∀ c ∈ "http:".toList, ¬ c = '/' := List.all_iff_forall_prop.1 (by decide)
  have hcolon : y = "http:".toList :=
    (Str.append_inj_of_class hslash hpattern hpath.slash hhead hrest.symm).1
  have hlast : (serverText host port).toList.getLast? = some ':' := by
    rw [hxy, hcolon, List.getLast?_append]
    rfl
  rw [toList_serverText] at hlast
  cases port with
  | none =>
    rw [Option.map_none, Option.getD_none, List.append_nil] at hlast
    exact hhost.notMem (c := ':') (by decide) (by decide) (List.mem_of_getLast? hlast)
  | some value =>
    rw [Option.map_some, Option.getD_some, ← List.singleton_append, ← List.append_assoc,
      List.getLast?_append_of_ne_nil _ Nat.toDigits_ne_nil] at hlast
    exact absurd (isDigit_of_mem_toDigits (List.mem_of_getLast? hlast)) (by decide)

/-- Only the path decides whether there is `http://` behind the server. -/
theorem contains_serverText (hhost : DnsName host) (hpath : IsPath path) :
    Str.contains (serverText host port ++ path) "http://" = Str.contains path "http://" := by
  unfold Str.contains
  rw [Str.chars_eq_toList, Str.chars_eq_toList, Str.chars_eq_toList, String.toList_append,
    Str.splitAtFirst_append_left (clear_serverText hhost hpath), Option.isSome_map]

/-- A marked normal form gets the scheme of a relay. -/
theorem replace_marked (hhost : DnsName host) (hpath : IsPath path) : ∃ n, n ≠ 0 ∧
    Str.replace ("http://" ++ (serverText host port ++ path)) "http://" "ws://" =
      "ws://" ++ (serverText host port ++ replaced n path) := by
  refine ⟨6 + (serverText host port ++ path).toList.length, by omega, ?_⟩
  have hlen : ("http://" ++ (serverText host port ++ path)).toList.length =
      (6 + (serverText host port ++ path).toList.length) + 1 := by
    rw [String.toList_append, List.length_append, show "http://".toList.length = 7 by decide]
    omega
  unfold Str.replace replaced
  simp only [Str.chars_eq_toList]
  rw [hlen]
  generalize 6 + (serverText host port ++ path).toList.length = n
  rw [String.toList_append, Str.replaceChars_start, String.toList_append,
    Str.replaceChars_append (clear_serverText hhost hpath), String.ofList_append,
    String.ofList_append, String.ofList_toList, String.ofList_toList]

/-- Another one stays as it is up to the path. -/
theorem replace_unmarked (hhost : DnsName host) (hpath : IsPath path) : ∃ n,
    Str.replace (serverText host port ++ path) "http://" "ws://" =
      serverText host port ++ replaced n path := by
  refine ⟨(serverText host port ++ path).toList.length, ?_⟩
  unfold Str.replace replaced
  simp only [Str.chars_eq_toList]
  rw [String.toList_append, Str.replaceChars_append (clear_serverText hhost hpath),
    String.ofList_append, String.ofList_toList]

end Replacing

end Grasp
end Gittree
