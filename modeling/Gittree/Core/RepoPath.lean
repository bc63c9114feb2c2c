import Gittree.Core.Nip34
import Gittree.Lib.Bech32
import Gittree.Lib.Path

/-!
# Repository paths

`crates/core/src/repo_path.rs`: a repository lives at `<anything>/<npub>/<identifier>.git`, and its
path is read back from the last two components.
-/

namespace Gittree

open Rust

/-- `RepoPath`. -/
structure RepoPath where
  npub : String
  identifier : String
  pubkey : String
  deriving DecidableEq, Repr

/-- `decode_npub_pubkey`. -/
def decodeNpubPubkey (b : Bech32) (npub : String) : Except CoreError String := do
  let decoded ← Result.okOr (b.decode npub) (.invalidField "npub" npub)
  Result.ensure (decoded.1 = "npub") (.invalidField "npub" npub)
  Result.ensure (decoded.2.length = 32) (.invalidField "npub" npub)
  return Hex.encode decoded.2

/-- `name.strip_suffix(".git").unwrap_or(name)`. -/
def withoutGitSuffix (name : String) : String := (Str.stripSuffix name ".git").getD name

/-- `parse_repo_path`. -/
def parseRepoPath (b : Bech32) (path : String) : Except CoreError RepoPath := do
  let components := Path.components path
  let name ← Result.okOr (Path.fileName components) (.missingField "repo_path")
  let identifier := withoutGitSuffix name
  Result.ensure (Str.trim identifier ≠ "") (.missingField "identifier")
  let npub ← Result.okOr ((Path.parent components).bind Path.fileName) (.missingField "npub")
  let pubkey ← decodeNpubPubkey b npub
  return { npub, identifier, pubkey }

@[simp] theorem withoutGitSuffix_append (identifier : String) :
    withoutGitSuffix (identifier ++ ".git") = identifier := by
  simp [withoutGitSuffix]

/-- A name with the suffix is a path component unless it has a slash. -/
theorem isNormal_git {identifier : String} :
    Path.IsNormal (identifier ++ ".git") ↔ '/' ∉ identifier.toList := by
  have hlen : 4 ≤ (identifier ++ ".git").toList.length := by
    rw [String.toList_append, List.length_append]
    exact Nat.le_add_left _ _
  have hne : ∀ name : String, name.toList.length < 4 → identifier ++ ".git" ≠ name := by
    rintro name hname rfl
    omega
  unfold Path.IsNormal
  constructor
  · intro h hmem
    exact h.1 (by rw [String.toList_append]; exact List.mem_append_left _ hmem)
  · intro h
    refine ⟨?_, hne "" (by decide), hne "." (by decide), hne ".." (by decide)⟩
    rw [String.toList_append, List.mem_append]
    rintro (hm | hm)
    · exact h hm
    · revert hm
      decide

/-- The names that decode to a key. -/
theorem decodeNpubPubkey_eq_ok {b : Bech32} {npub pubkey : String} :
    decodeNpubPubkey b npub = .ok pubkey ↔
      ∃ data, b.decode npub = some ("npub", data) ∧ data.length = 32 ∧ Hex.encode data = pubkey := by
  unfold decodeNpubPubkey
  simp only [Result.bind_eq_ok, Result.okOr_eq_ok, Result.ensure_eq_ok, Result.pure_eq_ok,
    exists_const]
  constructor
  · rintro ⟨⟨hrp, data⟩, hd, rfl, hl, hx⟩
    exact ⟨data, hd, hl, hx⟩
  · rintro ⟨data, hd, hl, hx⟩
    exact ⟨("npub", data), hd, rfl, hl, hx⟩

/-- A path that parses ends in the `npub` and a name that gives the identifier. -/
theorem parseRepoPath_eq_ok {b : Bech32} {path : String} {repo : RepoPath} :
    parseRepoPath b path = .ok repo ↔
      ∃ root name, Path.components path = root ++ [.normal repo.npub] ++ [.normal name] ∧
        withoutGitSuffix name = repo.identifier ∧ Str.trim repo.identifier ≠ "" ∧
        decodeNpubPubkey b repo.npub = .ok repo.pubkey := by
  unfold parseRepoPath
  simp only [Result.bind_eq_ok, Result.okOr_eq_ok, Result.ensure_eq_ok, Result.pure_eq_ok,
    exists_const]
  constructor
  · rintro ⟨name, hname, hid, npub, hnpub, pubkey, hpub, rfl⟩
    obtain ⟨init, hinit⟩ := Path.fileName_eq_some hname
    rw [hinit, Path.parent_append_normal, Option.bind_some] at hnpub
    obtain ⟨root, rfl⟩ := Path.fileName_eq_some hnpub
    exact ⟨root, name, hinit, rfl, hid, hpub⟩
  · rintro ⟨root, name, hc, hid, ht, hpub⟩
    refine ⟨name, ?_, by rwa [hid], repo.npub, ?_, repo.pubkey, hpub, by rw [hid]⟩
    · rw [hc, Path.fileName_append_normal]
    · rw [hc, Path.parent_append_normal, Option.bind_some, Path.fileName_append_normal]

/-! ### Two keys and their names -/

/-- The key of `sampleNpub`. -/
def sampleKey : List UInt8 :=
  [68, 150, 177, 231, 40, 176, 137, 3, 203, 247, 108, 211, 184, 131, 49, 45, 212, 139, 119, 197,
    192, 102, 214, 190, 80, 220, 40, 155, 121, 124, 190, 39]

/-- The name used by the tests of `repo_path.rs`. -/
def sampleNpub : String := "npub1gjttreegkzys8jlhdnfm3qe39h2gka79cpndd0jsms5fk7tuhcnsdw56jq"

/-- The key `0x11` repeated 32 times. -/
def otherKey : List UInt8 := List.replicate 32 17

def otherNpub : String := "npub1zyg3zyg3zyg3zyg3zyg3zyg3zyg3zyg3zyg3zyg3zyg3zyg3zygse4sl3h"

/-- A bech32 implementation that agrees with the real one on the two keys. -/
def sampleBech32 : Bech32 :=
  Bech32.ofTable "npub" [(sampleKey, sampleNpub), (otherKey, otherNpub)]

theorem sampleBech32_lawful : sampleBech32.Lawful "npub" 32 := by
  apply Bech32.lawful_ofTable
  refine ⟨by decide, by decide, ?_⟩
  intro e he
  simp only [List.mem_cons, List.not_mem_nil, or_false] at he
  rcases he with rfl | rfl
  · exact ⟨"gjttreegkzys8jlhdnfm3qe39h2gka79cpndd0jsms5fk7tuhcnsdw56jq", by decide, by
      rw [← Str.chars_eq_toList, ← List.all_eq_true]
      decide +kernel⟩
  · exact ⟨"zyg3zyg3zyg3zyg3zyg3zyg3zyg3zyg3zyg3zyg3zyg3zyg3zygse4sl3h", by decide, by
      rw [← Str.chars_eq_toList, ← List.all_eq_true]
      decide +kernel⟩

example : parseRepoPath sampleBech32 ("/srv/" ++ sampleNpub ++ "/repo.git") =
    .ok ⟨sampleNpub, "repo", Hex.encode sampleKey⟩ := by
  decide +kernel

end Gittree
