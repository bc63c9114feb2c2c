import Gittree.Core.RepoPath

/-!
# Names shared by the services

`crates/app-core/src/lib.rs`: identifiers without their `.git` suffix, the clone URL of a repository,
and keys as `npub` texts.  `bech32::encode` does not fail on a payload of 32 bytes.
-/

namespace Gittree

open Rust

/-- `normalize_identifier`. -/
def normalizeIdentifier (identifier : String) : String := withoutGitSuffix identifier

/-- `clone_url`. -/
def cloneUrl (publicGitUrl npub identifier : String) : String :=
  Str.trimEndMatches publicGitUrl '/' ++ "/" ++ npub ++ "/" ++ identifier ++ ".git"

/-- `npub_from_bytes`. -/
def npubFromBytes (b : Bech32) (bytes : List UInt8) : String := b.encode "npub" bytes

/-- `pubkey_bytes_from_npub`. -/
def pubkeyBytesFromNpub (b : Bech32) (npub : String) : Option (List UInt8) := do
  let (hrp, data) ← b.decode npub
  if hrp ≠ "npub" ∨ data.length ≠ 32 then none else some data

end Gittree
