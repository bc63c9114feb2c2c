import Gittree.Lib.Map
import Gittree.Storage.Repos
import Gittree.Storage.Tenants

/-!
# Profiles

`crates/storage/src/profile.rs`, whose texts are normalised as those of a tenant,
`AccountRecord::new` of `account.rs` and the profiles of `InMemoryRepositories`.  A text that is
taken from a record and normalised again is the same text.

* `normalizeOptional_normal`, `normalizeOptionalUrl_normal`: a normalised text is normal;
* `ProfileRecord.new_eq_ok`: the records that are made;
* `Profiles.profileByPubkey_upsert`: what is stored for a key is its last record.
-/

namespace Gittree

open Rust

/-- `ProfileVisibility`, of either crate. -/
inductive ProfileVisibility
  | «private»
  | «public»
  deriving DecidableEq, Repr

/-! ### Texts -/

/-- The text begins with the scheme of a web address. -/
def HasWebScheme (url : String) : Prop :=
  Str.startsWith (Str.toAsciiLowercase url) "http://" = true ∨
    Str.startsWith (Str.toAsciiLowercase url) "https://" = true

instance (url : String) : Decidable (HasWebScheme url) := inferInstanceAs (Decidable (_ ∨ _))

/-- What is left of an optional text once it is trimmed. -/
def trimmedText (value : Option String) : Option String :=
  (value.map Str.trim).filter (· ≠ "")

theorem trimmedText_some {value : String} :
    trimmedText (some value) = if Str.trim value = "" then none else some (Str.trim value) := by
  unfold trimmedText
  rw [Option.map_some, Option.filter_some]
  by_cases h : Str.trim value = "" <;> simp [h]

theorem trimmedText_trimmedText (value : Option String) :
    trimmedText (trimmedText value) = trimmedText value := by
  cases value with
  | none => rfl
  | some value =>
    rw [trimmedText_some]
    split_ifs with h
    · rfl
    · rw [trimmedText_some, Str.trim_trim, if_neg h]

section

variable {field : String} {maxLen : ℕ} {value stored : Option String}

/-- A value is taken for its trimmed text. -/
theorem normalizeOptional_eq_ok : normalizeOptional field value maxLen = .ok stored ↔
    trimmedText value = stored ∧ ∀ text, stored = some text → Str.len text ≤ maxLen := by
  cases value with
  | none =>
    show Except.ok none = Except.ok stored ↔ none = stored ∧ _
    rw [Except.ok.injEq, iff_self_and]
    rintro rfl text htext
    cases htext
  | some value =>
    unfold normalizeOptional
    rw [trimmedText_some, Option.map_some]
    simp only
    split_ifs with hempty hlen
    · rw [Except.ok.injEq, iff_self_and]
      rintro rfl text htext
      cases htext
    · constructor
      · rintro ⟨⟩
      · rintro ⟨rfl, hfits⟩
        exact absurd (hfits _ rfl) (Nat.not_le.2 hlen)
    · rw [Except.ok.injEq, iff_self_and]
      rintro rfl text htext
      cases htext
      exact Nat.le_of_not_lt hlen

/-- A normal text is normal. -/
theorem normalizeOptional_normal (h : normalizeOptional field value maxLen = .ok stored) :
    normalizeOptional field stored maxLen = .ok stored := by
  rw [normalizeOptional_eq_ok] at h ⊢
  rw [← h.1, trimmedText_trimmedText, h.1]
  exact ⟨rfl, h.2⟩

/-- An address is taken for its trimmed text. -/
theorem normalizeOptionalUrl_eq_ok : normalizeOptionalUrl field value maxLen = .ok stored ↔
    normalizeOptional field value maxLen = .ok stored ∧
      ∀ text, stored = some text → HasWebScheme text := by
  unfold normalizeOptionalUrl
  rw [Result.bind_eq_ok]
  constructor
  · rintro ⟨found, hfound, h⟩
    cases found with
    | none =>
      obtain rfl : none = stored := Result.pure_eq_ok.1 h
      refine ⟨hfound, fun text htext => ?_⟩
      cases htext
    | some url =>
      obtain ⟨_, hscheme, h⟩ := Result.bind_eq_ok.1 h
      obtain rfl : some url = stored := Result.pure_eq_ok.1 h
      refine ⟨hfound, fun text htext => ?_⟩
      cases htext
      exact Result.ensure_eq_ok.1 hscheme
  · rintro ⟨hfound, hscheme⟩
    refine ⟨stored, hfound, ?_⟩
    cases stored with
    | none => rfl
    | some url =>
      exact Result.bind_eq_ok.2 ⟨(), Result.ensure_eq_ok.2 (hscheme url rfl), rfl⟩

theorem normalizeOptionalUrl_normal (h : normalizeOptionalUrl field value maxLen = .ok stored) :
    normalizeOptionalUrl field stored maxLen = .ok stored := by
  rw [normalizeOptionalUrl_eq_ok] at h ⊢
  exact ⟨normalizeOptional_normal h.1, h.2⟩

theorem trimmedText_of_normalizeOptional (h : normalizeOptional field value maxLen = .ok stored) :
    stored = trimmedText value :=
  (normalizeOptional_eq_ok.1 h).1.symm

end

/-! ### Records -/

/-- `ProfileRecord`, with normal texts. -/
@[ext] structure ProfileRecord where
  pubkey : List UInt8
  displayName : Option String
  bio : Option String
  avatarUrl : Option String
  websiteUrl : Option String
  location : Option String
  visibility : ProfileVisibility
  createdAt : ℤ
  updatedAt : ℤ
  createdAt_le : createdAt ≤ updatedAt
  length_pubkey : pubkey.length = 32
  displayName_normal : normalizeOptional "display_name" displayName 80 = .ok displayName
  bio_normal : normalizeOptional "bio" bio 500 = .ok bio
  avatarUrl_normal : normalizeOptionalUrl "avatar_url" avatarUrl 300 = .ok avatarUrl
  websiteUrl_normal : normalizeOptionalUrl "website_url" websiteUrl 300 = .ok websiteUrl
  location_normal : normalizeOptional "location" location 120 = .ok location
  deriving DecidableEq

/-- `ProfileRecord::new`. -/
def ProfileRecord.new (pubkey : String)
    (displayName bio avatarUrl websiteUrl location : Option String)
    (visibility : ProfileVisibility) (createdAt updatedAt : ℤ) :
    Except StorageError ProfileRecord :=
  if createdAt_le : createdAt ≤ updatedAt then do
    let pubkey ← Result.attach (decodeHex32 "pubkey" pubkey)
    let displayName ← Result.attach (normalizeOptional "display_name" displayName 80)
    let bio ← Result.attach (normalizeOptional "bio" bio 500)
    let avatarUrl ← Result.attach (normalizeOptionalUrl "avatar_url" avatarUrl 300)
    let websiteUrl ← Result.attach (normalizeOptionalUrl "website_url" websiteUrl 300)
    let location ← Result.attach (normalizeOptional "location" location 120)
    return {
      pubkey := pubkey.1
      displayName := displayName.1
      bio := bio.1
      avatarUrl := avatarUrl.1
      websiteUrl := websiteUrl.1
      location := location.1
      visibility, createdAt, updatedAt, createdAt_le
      length_pubkey := length_of_decodeHex32 pubkey.2
      displayName_normal := normalizeOptional_normal displayName.2
      bio_normal := normalizeOptional_normal bio.2
      avatarUrl_normal := normalizeOptionalUrl_normal avatarUrl.2
      websiteUrl_normal := normalizeOptionalUrl_normal websiteUrl.2
      location_normal := normalizeOptional_normal location.2 }
  else .error (.invalidField "updated_at" (toString updatedAt))

/-- `AccountRecord::new`. -/
def AccountRecord.new (pubkey forgejoUsername : String) : Except StorageError AccountRecord := do
  Result.ensure (Str.trim forgejoUsername ≠ "") (.invalidField "forgejo_username" forgejoUsername)
  let pubkey ← decodeHex32 "pubkey" pubkey
  return { pubkey, forgejoUsername }

theorem AccountRecord.new_eq_ok {pubkey forgejoUsername : String} {record : AccountRecord} :
    AccountRecord.new pubkey forgejoUsername = .ok record ↔ Str.trim forgejoUsername ≠ "" ∧
      decodeHex32 "pubkey" pubkey = .ok record.pubkey ∧
        record.forgejoUsername = forgejoUsername := by
  unfold AccountRecord.new
  simp only [Result.bind_eq_ok, Result.ensure_eq_ok, Result.pure_eq_ok, exists_const]
  constructor
  · rintro ⟨hname, bytes, hbytes, rfl⟩
    exact ⟨hname, hbytes, rfl⟩
  · rintro ⟨hname, hbytes, rfl⟩
    exact ⟨hname, _, hbytes, rfl⟩

/-- What is stored for a key is its last account. -/
theorem Accounts.accountByPubkey_upsert {t t' : Accounts} {record : AccountRecord}
    (h : t.upsertAccount record = .ok t') (pubkey : List UInt8) :
    t'.accountByPubkey pubkey =
      if record.pubkey = pubkey then some record else t.accountByPubkey pubkey := by
  obtain ⟨_, -, h⟩ := Result.bind_eq_ok.1 h
  rw [← Result.pure_eq_ok.1 h]
  unfold accountByPubkey
  rw [Map.get_insert]
  by_cases hkey : record.pubkey = pubkey
  · rw [if_pos (by rw [hkey]), if_pos hkey]
  · rw [if_neg (fun hk => hkey (Hex.encode_injective hk)), if_neg hkey]

/-- The texts of a profile. -/
inductive ProfileField
  | displayName
  | bio
  | avatarUrl
  | websiteUrl
  | location
  deriving DecidableEq, Repr

namespace ProfileRecord

/-- The text in a field. -/
def text (record : ProfileRecord) : ProfileField → Option String
  | .displayName => record.displayName
  | .bio => record.bio
  | .avatarUrl => record.avatarUrl
  | .websiteUrl => record.websiteUrl
  | .location => record.location

/-- The texts of a record are trimmed. -/
theorem trimmedText_text (record : ProfileRecord) (field : ProfileField) :
    trimmedText (record.text field) = record.text field := by
  cases field with
  | displayName => exact (normalizeOptional_eq_ok.1 record.displayName_normal).1
  | bio => exact (normalizeOptional_eq_ok.1 record.bio_normal).1
  | avatarUrl =>
    exact (normalizeOptional_eq_ok.1 (normalizeOptionalUrl_eq_ok.1 record.avatarUrl_normal).1).1
  | websiteUrl =>
    exact (normalizeOptional_eq_ok.1 (normalizeOptionalUrl_eq_ok.1 record.websiteUrl_normal).1).1
  | location => exact (normalizeOptional_eq_ok.1 record.location_normal).1

/-- A record that is made has the key and the trimmed texts. -/
structure MadeOf (record : ProfileRecord) (pubkey : String) (texts : ProfileField → Option String)
    (visibility : ProfileVisibility) (createdAt updatedAt : ℤ) : Prop where
  pubkey : decodeHex32 "pubkey" pubkey = .ok record.pubkey
  texts : ∀ field, record.text field = trimmedText (texts field)
  visibility : record.visibility = visibility
  createdAt : record.createdAt = createdAt
  updatedAt : record.updatedAt = updatedAt

theorem new_eq_ok {pubkey : String} {texts : ProfileField → Option String}
    {visibility : ProfileVisibility} {createdAt updatedAt : ℤ} {record : ProfileRecord} :
    ProfileRecord.new pubkey (texts .displayName) (texts .bio) (texts .avatarUrl)
        (texts .websiteUrl) (texts .location) visibility createdAt updatedAt = .ok record ↔
      record.MadeOf pubkey texts visibility createdAt updatedAt := by
  unfold ProfileRecord.new
  constructor
  · intro h
    split_ifs at h with hle
    simp only [Result.attach_bind_eq_ok, Result.pure_eq_ok] at h
    obtain ⟨key, hkey, displayName, hname, bio, hbio, avatarUrl, havatar, websiteUrl, hwebsite,
      location, hlocation, rfl⟩ := h
    refine ⟨hkey, fun field => ?_, rfl, rfl, rfl⟩
    cases field with
    | displayName => exact trimmedText_of_normalizeOptional hname
    | bio => exact trimmedText_of_normalizeOptional hbio
    | avatarUrl =>
      exact trimmedText_of_normalizeOptional (normalizeOptionalUrl_eq_ok.1 havatar).1
    | websiteUrl =>
      exact trimmedText_of_normalizeOptional (normalizeOptionalUrl_eq_ok.1 hwebsite).1
    | location => exact trimmedText_of_normalizeOptional hlocation
  · rintro ⟨hkey, htexts, rfl, rfl, rfl⟩
    have htext : ∀ {name : String} {maxLen : ℕ} (field : ProfileField),
        normalizeOptional name (record.text field) maxLen = .ok (record.text field) →
          normalizeOptional name (texts field) maxLen = .ok (record.text field) := by
      intro name maxLen field h
      rw [normalizeOptional_eq_ok] at h ⊢
      exact ⟨(htexts field).symm, h.2⟩
    have hurl : ∀ {name : String} {maxLen : ℕ} (field : ProfileField),
        normalizeOptionalUrl name (record.text field) maxLen = .ok (record.text field) →
          normalizeOptionalUrl name (texts field) maxLen = .ok (record.text field) := by
      intro name maxLen field h
      rw [normalizeOptionalUrl_eq_ok] at h ⊢
      exact ⟨htext field h.1, h.2⟩
    rw [dif_pos record.createdAt_le]
    simp only [Result.attach_bind_eq_ok, Result.pure_eq_ok]
    exact ⟨_, hkey, _, htext .displayName record.displayName_normal,
      _, htext .bio record.bio_normal, _, hurl .avatarUrl record.avatarUrl_normal,
      _, hurl .websiteUrl record.websiteUrl_normal,
      _, htext .location record.location_normal, rfl⟩

end ProfileRecord

/-! ### The table -/

/-- The profiles of `InMemoryRepositories`, each under its key. -/
structure Profiles where
  table : Map ProfileRecord
  keyed : ∀ (k : String) (record : ProfileRecord), table[k]? = some record →
    k = Hex.encode record.pubkey

namespace Profiles

instance : EmptyCollection Profiles := ⟨⟨∅, by simp⟩⟩

/-- `upsert_profile`. -/
def upsertProfile (t : Profiles) (record : ProfileRecord) : Profiles where
  table := t.table.insert (Hex.encode record.pubkey) record
  keyed := by
    intro k found h
    rw [Map.get_insert] at h
    split_ifs at h with hk
    · cases h
      exact hk.symm
    · exact t.keyed k found h

/-- `profile_by_pubkey`. -/
def profileByPubkey (t : Profiles) (pubkey : List UInt8) : Option ProfileRecord :=
  t.table[Hex.encode pubkey]?

/-- What is stored for a key is its last record. -/
theorem profileByPubkey_upsert (t : Profiles) (record : ProfileRecord) (pubkey : List UInt8) :
    (t.upsertProfile record).profileByPubkey pubkey =
      if record.pubkey = pubkey then some record else t.profileByPubkey pubkey := by
  unfold upsertProfile profileByPubkey
  rw [Map.get_insert]
  by_cases h : record.pubkey = pubkey
  · rw [if_pos (by rw [h]), if_pos h]
  · rw [if_neg (fun hk => h (Hex.encode_injective hk)), if_neg h]

end Profiles
end Gittree
