import Gittree.Core.Nip34

/-!
# Names of Forgejo repositories

`crates/core/src/repo_mapping.rs`: the name of a Forgejo repository, and its mapping to the key and
identifier of a repository.  Both are checked when they are made.
-/

namespace Gittree

open Rust

/-- `ForgejoRepo`: neither part is blank or contains a slash or white space. -/
structure ForgejoRepo where
  owner : String
  name : String
  deriving DecidableEq, Repr

/-- `ForgejoRepo::new`. -/
def ForgejoRepo.new (owner name : String) : Except CoreError ForgejoRepo := do
  Result.ensure (¬ (Str.trim owner = "" ∨ Str.trim name = "")) (.missingField "forgejo_repo")
  let invalid := CoreError.invalidField "forgejo_repo" (owner ++ "/" ++ name)
  Result.ensure (¬ (Str.containsChar owner '/' ∨ Str.containsChar name '/')) invalid
  Result.ensure
    (¬ ((Str.chars owner).any Str.isWhitespace ∨ (Str.chars name).any Str.isWhitespace)) invalid
  return { owner, name }

/-- `RepoMapping`. -/
structure RepoMapping where
  forgejo : ForgejoRepo
  pubkey : String
  identifier : String
  deriving DecidableEq, Repr

/-- `RepoMapping::new`. -/
def RepoMapping.new (forgejoOwner forgejoRepo pubkey identifier : String) :
    Except CoreError RepoMapping := do
  Result.ensure (Str.trim identifier ≠ "") (.missingField "identifier")
  Result.ensure (Str.isHexLen pubkey 64 = true) (.invalidField "pubkey" pubkey)
  let forgejo ← ForgejoRepo.new forgejoOwner forgejoRepo
  return { forgejo, pubkey, identifier }

theorem ForgejoRepo.new_eq_ok {owner name : String} {repo : ForgejoRepo}
    (h : ForgejoRepo.new owner name = .ok repo) : repo = ⟨owner, name⟩ := by
  obtain ⟨-, -, h⟩ := Result.bind_eq_ok.1 h
  obtain ⟨-, -, h⟩ := Result.bind_eq_ok.1 h
  obtain ⟨-, -, h⟩ := Result.bind_eq_ok.1 h
  exact (Result.pure_eq_ok.1 h).symm

/-- A mapping keeps the parts it is made of. -/
theorem RepoMapping.new_eq_ok {forgejoOwner forgejoRepo pubkey identifier : String} {m : RepoMapping}
    (h : RepoMapping.new forgejoOwner forgejoRepo pubkey identifier = .ok m) :
    m = ⟨⟨forgejoOwner, forgejoRepo⟩, pubkey, identifier⟩ := by
  obtain ⟨-, -, h⟩ := Result.bind_eq_ok.1 h
  obtain ⟨-, -, h⟩ := Result.bind_eq_ok.1 h
  obtain ⟨repo, hrepo, h⟩ := Result.bind_eq_ok.1 h
  rw [← Result.pure_eq_ok.1 h, ForgejoRepo.new_eq_ok hrepo]

end Gittree
