import Gittree.Services.AuthProfiles

/-!
# The form of a profile

`crates/app-ui/src/profile_validation.rs`: the form checks an update before it is sent, with the
bounds and schemes that the record of `crates/storage/src/profile.rs` checks.

* `agrees_normalizeOptional`, `agrees_normalizeOptionalUrl`: a field is refused on one side when it
  is on the other;
* `validateProfileUpdate_agrees`: the server takes the updates that the form sends, and refuses the
  others for the field of the first message.
-/

namespace Gittree

open Rust

namespace AuthService

/-- `ProfileValidationError`. -/
inductive ProfileValidationError
  | displayNameTooLong
  | bioTooLong
  | avatarUrlTooLong
  | avatarUrlInvalid
  | websiteUrlTooLong
  | websiteUrlInvalid
  | locationTooLong
  deriving DecidableEq, Repr

/-- The field that an error is about, as the server names it. -/
def ProfileValidationError.field : ProfileValidationError → String
  | .displayNameTooLong => "display_name"
  | .bioTooLong => "bio"
  | .avatarUrlTooLong | .avatarUrlInvalid => "avatar_url"
  | .websiteUrlTooLong | .websiteUrlInvalid => "website_url"
  | .locationTooLong => "location"

/-- `is_http_url`. -/
def isHttpUrl (value : String) : Bool :=
  let lower := Str.toAsciiLowercase (Str.trim value)
  Str.startsWith lower "http://" || Str.startsWith lower "https://"

/-- The errors of a text; `normalized` is `trimmedText`. -/
def lengthErrors (value : Option String) (maxLen : ℕ) (tooLong : ProfileValidationError) :
    List ProfileValidationError :=
  match trimmedText value with
  | some value => if maxLen < Str.len value then [tooLong] else []
  | none => []

/-- The errors of an address. -/
def urlErrors (value : Option String) (maxLen : ℕ) (tooLong invalid : ProfileValidationError) :
    List ProfileValidationError :=
  match trimmedText value with
  | some value => (if maxLen < Str.len value then [tooLong] else []) ++
      if isHttpUrl value then [] else [invalid]
  | none => []

/-- `validate_profile_update`. -/
def validateProfileUpdate (update : ProfileUpdate) : List ProfileValidationError :=
  lengthErrors update.displayName 80 .displayNameTooLong ++
    lengthErrors update.bio 500 .bioTooLong ++
    urlErrors update.avatarUrl 300 .avatarUrlTooLong .avatarUrlInvalid ++
    urlErrors update.websiteUrl 300 .websiteUrlTooLong .websiteUrlInvalid ++
    lengthErrors update.location 120 .locationTooLong

/-! ### Fields -/

/-- The server takes a value that the form has no errors for, and refuses the others for the field
of the first error. -/
inductive Agrees {α : Type} : List ProfileValidationError → Except StorageError α → Prop
  | taken (stored : α) : Agrees [] (.ok stored)
  | refused (err : ProfileValidationError) (errors : List ProfileValidationError) (value : String) :
    Agrees (err :: errors) (.error (.invalidField err.field value))

section

variable {field : String} {maxLen : ℕ} {value old : Option String}
  {tooLong invalid : ProfileValidationError}

theorem isHttpUrl_iff {value : String} (h : Str.trim value = value) : isHttpUrl value = true ↔
    Str.startsWith (Str.toAsciiLowercase value) "http://" = true ∨
      Str.startsWith (Str.toAsciiLowercase value) "https://" = true := by
  unfold isHttpUrl
  simp only [h, Bool.or_eq_true]

/-- A text is trimmed, or too long. -/
theorem normalizeOptional_eq (field : String) (value : Option String) (maxLen : ℕ) :
    normalizeOptional field value maxLen =
      match trimmedText value with
      | some text => if maxLen < Str.len text then .error (.invalidField field text)
          else .ok (some text)
      | none => .ok none := by
  cases value with
  | none => rfl
  | some value =>
    rw [trimmedText_some]
    unfold normalizeOptional
    rw [Option.map_some]
    by_cases hempty : Str.trim value = ""
    · simp only [if_pos hempty]
    · simp only [if_neg hempty]

/-- A text is refused on one side when it is on the other. -/
theorem agrees_normalizeOptional (hfield : tooLong.field = field) (value : Option String)
    (maxLen : ℕ) :
    Agrees (lengthErrors value maxLen tooLong) (normalizeOptional field value maxLen) := by
  rw [normalizeOptional_eq]
  unfold lengthErrors
  cases trimmedText value with
  | none => exact .taken none
  | some text =>
    simp only
    split_ifs with hlen
    · rw [← hfield]
      exact .refused tooLong [] text
    · exact .taken (some text)

/-- The scheme of an address that is trimmed. -/
theorem agrees_scheme {text : String} (hinvalid : invalid.field = field)
    (htrim : Str.trim text = text) :
    Agrees (if isHttpUrl text then [] else [invalid])
      (Result.ensure (Str.startsWith (Str.toAsciiLowercase text) "http://" = true ∨
        Str.startsWith (Str.toAsciiLowercase text) "https://" = true) (.invalidField field text) >>=
          fun _ => pure (some text)) := by
  have hscheme := isHttpUrl_iff htrim
  unfold Result.ensure
  cases hurl : isHttpUrl text with
  | true =>
    rw [if_pos (hscheme.1 hurl)]
    exact .taken (some text)
  | false =>
    have hnot := mt hscheme.2 (by rw [hurl]; exact Bool.false_ne_true)
    rw [if_neg Bool.false_ne_true, if_neg hnot, ← hinvalid]
    exact .refused invalid [] text

/-- An address is refused on one side when it is on the other. -/
theorem agrees_normalizeOptionalUrl (hlong : tooLong.field = field)
    (hinvalid : invalid.field = field) (value : Option String) (maxLen : ℕ) :
    Agrees (urlErrors value maxLen tooLong invalid) (normalizeOptionalUrl field value maxLen) := by
  have htrim := trimmedText_trimmedText value
  unfold normalizeOptionalUrl urlErrors
  rw [normalizeOptional_eq]
  cases htext : trimmedText value with
  | none => exact .taken none
  | some text =>
    rw [htext, trimmedText_some] at htrim
    have hnormal : Str.trim text = text := by
      split_ifs at htrim
      exact Option.some.inj htrim
    simp only
    by_cases hlen : maxLen < Str.len text
    · rw [if_pos hlen, if_pos hlen, ← hlong]
      exact .refused tooLong _ text
    · rw [if_neg hlen, if_neg hlen, List.nil_append]
      exact agrees_scheme hinvalid hnormal

/-- A text that an update does not mention is one of the record. -/
theorem agrees_or (hfield : tooLong.field = field)
    (hold : normalizeOptional field old maxLen = .ok old) :
    Agrees (lengthErrors value maxLen tooLong) (normalizeOptional field (value.or old) maxLen) := by
  cases value with
  | none =>
    rw [Option.none_or, hold]
    exact .taken old
  | some text => exact agrees_normalizeOptional hfield (some text) maxLen

theorem agrees_or_url (hlong : tooLong.field = field) (hinvalid : invalid.field = field)
    (hold : normalizeOptionalUrl field old maxLen = .ok old) :
    Agrees (urlErrors value maxLen tooLong invalid)
      (normalizeOptionalUrl field (value.or old) maxLen) := by
  cases value with
  | none =>
    rw [Option.none_or, hold]
    exact .taken old
  | some text => exact agrees_normalizeOptionalUrl hlong hinvalid (some text) maxLen

/-- The fields are checked one after the other. -/
theorem Agrees.attach_bind {α β : Type} {errors rest : List ProfileValidationError}
    {x : Except StorageError α} {f : {a : α // x = .ok a} → Except StorageError β}
    (h : Agrees errors x) (hrest : ∀ a, Agrees rest (f a)) :
    Agrees (errors ++ rest) (Result.attach x >>= f) := by
  cases h with
  | taken stored => exact hrest ⟨stored, rfl⟩
  | refused err errors value => exact .refused err (errors ++ rest) value

end

/-! ### Updates -/

/-- The server takes the updates that the form sends, of a key and at a time that the record allows;
it refuses the others for the field of the first message. -/
theorem validateProfileUpdate_agrees {pubkey : String} {profile : ProfileRecord}
    {update : ProfileUpdate} {now : ℤ} (hpubkey : Str.isHexLen pubkey 64 = true)
    (htime : profile.createdAt ≤ now) :
    Agrees (validateProfileUpdate update) (applyProfileUpdate pubkey profile update now) := by
  obtain ⟨key, hdecode, -⟩ := (Hex.isHexLen_iff_decode (n := 32)).1 hpubkey
  have hkey : Agrees [] (decodeHex32 "pubkey" pubkey) := by
    rw [decodeHex32_eq_ok.2 ⟨hpubkey, hdecode⟩]
    exact .taken key
  unfold applyProfileUpdate ProfileRecord.new validateProfileUpdate
  simp only [dif_pos htime, List.append_assoc]
  refine hkey.attach_bind fun _ => ?_
  refine (agrees_or (.refl ProfileValidationError.displayNameTooLong.field)
    profile.displayName_normal).attach_bind fun _ => ?_
  refine (agrees_or (.refl ProfileValidationError.bioTooLong.field)
    profile.bio_normal).attach_bind fun _ => ?_
  refine (agrees_or_url (.refl ProfileValidationError.avatarUrlTooLong.field)
    (.refl ProfileValidationError.avatarUrlInvalid.field)
    profile.avatarUrl_normal).attach_bind fun _ => ?_
  refine (agrees_or_url (.refl ProfileValidationError.websiteUrlTooLong.field)
    (.refl ProfileValidationError.websiteUrlInvalid.field)
    profile.websiteUrl_normal).attach_bind fun _ => ?_
  rw [← List.append_nil (lengthErrors _ _ _)]
  exact (agrees_or (.refl ProfileValidationError.locationTooLong.field)
    profile.location_normal).attach_bind fun _ => .taken _

/-- A name and an address without a scheme, for a profile with nothing in it. -/
theorem validateProfileUpdate_agrees_sample :
    ∃ profile, ProfileRecord.new (Hex.encode sampleKey) none none none none none .private 1 1 =
        .ok profile ∧
      Agrees [.avatarUrlInvalid] (applyProfileUpdate (Hex.encode sampleKey) profile
        ⟨some " Ada ", none, some "example.com", none, none, none⟩ 2) := by
  have hkey : Str.isHexLen (Hex.encode sampleKey) 64 = true := by decide +kernel
  obtain ⟨profile, hprofile, hcreated⟩ : ∃ profile,
      ProfileRecord.new (Hex.encode sampleKey) none none none none none .private 1 1 =
        .ok profile ∧ profile.createdAt = 1 :=
    ⟨_, rfl, rfl⟩
  have herrors : validateProfileUpdate
      ⟨some " Ada ", none, some "example.com", none, none, none⟩ = [.avatarUrlInvalid] := by
    decide +kernel
  refine ⟨profile, hprofile, herrors ▸ validateProfileUpdate_agrees hkey ?_⟩
  rw [hcreated]
  decide

end AuthService
end Gittree
