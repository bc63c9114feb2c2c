import Gittree.Core.Nip34
import Gittree.Lib.Bech32
import Gittree.Lib.Path
import Gittree.Lib.Url

/-!
# GRASP URLs

`crates/core/src/grasp.rs`: the server part of a URL, and the first `npub` in a text.
`extract_npub` reads from the first `npub1` to the end of the ASCII alphanumeric characters and asks
`bech32::decode` about what it read.

* `extractNpub_eq_ok`: what is found decodes under the prefix `npub`;
* `isNormal_of_extractNpub`: and is one path component.
-/

namespace Gittree

open Rust

/-- `validate_npub`. -/
def validateNpub (b : Bech32) (npub : String) : Except CoreError Unit := do
  let decoded ← Result.okOr (b.decode npub) (.invalidField "npub" npub)
  Result.ensure (decoded.1 = "npub") (.invalidField "npub" npub)

/-- `extract_npub`. -/
def extractNpub (b : Bech32) (input : String) : Except CoreError String :=
  match Str.splitAtFirst "npub1".toList (Str.chars input) with
  | some (_, found) => do
    let npub := "npub1" ++ String.ofList ((found.drop 5).takeWhile Str.isAsciiAlphanumeric)
    validateNpub b npub
    return npub
  | none => .error (.invalidField "npub" input)

/-- The URL that `normalize_grasp_server_url` reads: the input itself, or the input as a host. -/
def parseServerUrl (parseUrl : String → Option Url) (input : String) : Except CoreError Url := do
  let fallback := Result.okOr (parseUrl ("https://" ++ input)) (CoreError.invalidField "grasp_url" input)
  let parsed ← match parseUrl input with
    | some url => .ok url
    | none => fallback
  if parsed.hostStr.isNone then fallback else .ok parsed

/-- `normalize_grasp_server_url`. -/
def normalizeGraspServerUrl (parseUrl : String → Option Url) (input : String) :
    Except CoreError String := do
  let parsed ← parseServerUrl parseUrl input
  let port := match parsed.port with
    | some value => ":" ++ toString value
    | none => ""
  let location := parsed.hostStr.getD "" ++ port ++ parsed.path
  let normalized :=
    if parsed.scheme = "ws" ∨ parsed.scheme = "http" then "http://" ++ location else location
  let truncated :=
    match Str.splitAtFirst "npub1".toList (Str.chars normalized) with
    | some (before, _) => String.ofList before
    | none => normalized
  return Str.trimEndMatches truncated '/'

/-- `format_grasp_server_url_as_clone_url`. -/
def formatGraspServerUrlAsCloneUrl (b : Bech32) (parseUrl : String → Option Url)
    (graspServer npub identifier : String) : Except CoreError String := do
  validateNpub b npub
  let server ← normalizeGraspServerUrl parseUrl graspServer
  let scheme := if Str.contains server "http://" then "" else "https://"
  return scheme ++ server ++ "/" ++ npub ++ "/" ++ identifier ++ ".git"

theorem validateNpub_eq_ok {b : Bech32} {npub : String} :
    validateNpub b npub = .ok () ↔ ∃ data, b.decode npub = some ("npub", data) := by
  unfold validateNpub
  simp only [Result.bind_eq_ok, Result.okOr_eq_ok, Result.ensure_eq_ok]
  constructor
  · rintro ⟨⟨hrp, data⟩, hd, rfl⟩
    exact ⟨data, hd⟩
  · rintro ⟨data, hd⟩
    exact ⟨_, hd, rfl⟩

/-- What is found decodes under the prefix `npub` and is alphanumeric. -/
theorem extractNpub_eq_ok {b : Bech32} {input npub : String} (h : extractNpub b input = .ok npub) :
    (∃ data, b.decode npub = some ("npub", data)) ∧
      ∃ rest, npub = "npub1" ++ rest ∧ ∀ c ∈ rest.toList, Str.isAsciiAlphanumeric c = true := by
  unfold extractNpub at h
  split at h
  · obtain ⟨u, hvalid, h⟩ := Result.bind_eq_ok.1 h
    rw [← Result.pure_eq_ok.1 h]
    refine ⟨validateNpub_eq_ok.1 hvalid, _, rfl, ?_⟩
    intro c hc
    rw [String.toList_ofList] at hc
    exact List.mem_takeWhile_imp hc
  · cases h

theorem not_slash_of_alphanumeric {c : Char} (h : Str.isAsciiAlphanumeric c = true) : c ≠ '/' := by
  rintro rfl
  cases h

/-- An `npub` text is one path component. -/
theorem isNormal_of_npub {rest : String} (h : ∀ c ∈ rest.toList, Str.isAsciiAlphanumeric c = true) :
    Path.IsNormal ("npub1" ++ rest) := by
  have hhead : ∀ name : String, name.toList.head? ≠ some 'n' → "npub1" ++ rest ≠ name := by
    rintro name hname rfl
    apply hname
    rw [String.toList_append]
    rfl
  refine ⟨?_, hhead "" (by decide), hhead "." (by decide), hhead ".." (by decide)⟩
  rw [String.toList_append, List.mem_append]
  rintro (hc | hc)
  · revert hc
    decide
  · exact not_slash_of_alphanumeric (h _ hc) rfl

/-- What is found is one path component. -/
theorem isNormal_of_extractNpub {b : Bech32} {input npub : String}
    (h : extractNpub b input = .ok npub) : Path.IsNormal npub := by
  obtain ⟨-, rest, rfl, hrest⟩ := extractNpub_eq_ok h
  exact isNormal_of_npub hrest

end Gittree
