import Gittree.Lib.Map
import Gittree.Storage.Error

/-!
# Memberships and invites

`crates/storage/src/relay_membership.rs` and the `RelayMembershipRepository` of
`InMemoryRepositories`: memberships are keyed by tenant and key, invites by their code alone.

`membershipKey_injective`: different pairs of tenant and key have different table keys.
-/

namespace Gittree

open Rust

/-- `RelayMembershipRecord`. -/
structure RelayMembershipRecord where
  tenantId : String
  pubkey : List UInt8
  role : String
  status : String
  createdAt : ℤ
  updatedAt : ℤ
  deriving DecidableEq, Repr

/-- `RelayInviteRecord`. -/
structure RelayInviteRecord where
  tenantId : String
  inviteCode : String
  role : String
  inviterPubkey : List UInt8
  inviteePubkey : Option (List UInt8)
  expiresAt : Option ℤ
  createdAt : ℤ
  deriving DecidableEq, Repr

/-- `membership_key`. -/
def membershipKey (tenantId : String) (pubkey : List UInt8) : String :=
  tenantId ++ ":" ++ Hex.encode pubkey

/-- No encoded key contains the separator, so the last `:` of a table key ends the tenant. -/
theorem membershipKey_injective {t t' : String} {p p' : List UInt8}
    (h : membershipKey t p = membershipKey t' p') : t = t' ∧ p = p' := by
  unfold membershipKey at h
  have hcolon : ∀ bytes : List UInt8, ':' ∉ (Hex.encode bytes).toList :=
    fun bytes hm => (Hex.mem_encode hm).2.2 rfl
  obtain ⟨ht, hp⟩ := Str.append_char_inj (hcolon p) (hcolon p') h
  exact ⟨ht, Hex.encode_injective hp⟩

/-- The memberships and invites of `InMemoryRepositories`, each under its own key. -/
structure Memberships where
  members : Map RelayMembershipRecord
  invites : Map RelayInviteRecord
  keyed : ∀ (k : String) (record : RelayMembershipRecord), members[k]? = some record →
    k = membershipKey record.tenantId record.pubkey
  coded : ∀ (k : String) (record : RelayInviteRecord), invites[k]? = some record →
    k = record.inviteCode

namespace Memberships

instance : EmptyCollection Memberships := ⟨⟨∅, ∅, by simp, by simp⟩⟩

@[simp] theorem members_empty : (∅ : Memberships).members = ∅ := rfl
@[simp] theorem invites_empty : (∅ : Memberships).invites = ∅ := rfl

/-- `upsert_membership`. -/
def upsertMembership (m : Memberships) (record : RelayMembershipRecord) : Memberships where
  members := m.members.insert (membershipKey record.tenantId record.pubkey) record
  invites := m.invites
  keyed := by
    intro k found h
    rw [Map.get_insert] at h
    split_ifs at h with hk
    · cases h
      exact hk.symm
    · exact m.keyed k found h
  coded := m.coded

/-- `membership_by_pubkey`. -/
def membershipByPubkey (m : Memberships) (tenantId : String) (pubkey : List UInt8) :
    Option RelayMembershipRecord :=
  m.members[membershipKey tenantId pubkey]?

/-- `list_memberships`. -/
def listMemberships (m : Memberships) (tenantId : String) : List RelayMembershipRecord :=
  m.members.values.filter fun record => record.tenantId == tenantId

/-- `insert_invite`. -/
def insertInvite (m : Memberships) (record : RelayInviteRecord) : Memberships where
  members := m.members
  invites := m.invites.insert record.inviteCode record
  keyed := m.keyed
  coded := by
    intro k found h
    rw [Map.get_insert] at h
    split_ifs at h with hk
    · cases h
      exact hk.symm
    · exact m.coded k found h

/-- `invite_by_code`. -/
def inviteByCode (m : Memberships) (tenantId inviteCode : String) : Option RelayInviteRecord :=
  m.invites[inviteCode]?.filter fun record => record.tenantId == tenantId

/-- `delete_invite`. -/
def deleteInvite (m : Memberships) (tenantId inviteCode : String) : Memberships where
  members := m.members
  invites :=
    if (m.inviteByCode tenantId inviteCode).isSome then m.invites.erase inviteCode else m.invites
  keyed := m.keyed
  coded := by
    intro k found h
    split_ifs at h
    · rw [Map.get_erase] at h
      split_ifs at h
      exact m.coded k found h
    · exact m.coded k found h

/-! ### Look-ups after an update -/

theorem membershipByPubkey_upsert (m : Memberships) (record : RelayMembershipRecord)
    (tenantId : String) (pubkey : List UInt8) :
    (m.upsertMembership record).membershipByPubkey tenantId pubkey =
      if record.tenantId = tenantId ∧ record.pubkey = pubkey then some record
      else m.membershipByPubkey tenantId pubkey := by
  unfold upsertMembership membershipByPubkey
  rw [Map.get_insert]
  by_cases h : record.tenantId = tenantId ∧ record.pubkey = pubkey
  · rw [if_pos (by rw [h.1, h.2]), if_pos h]
  · rw [if_neg (fun hk => h (membershipKey_injective hk)), if_neg h]

@[simp] theorem membershipByPubkey_insertInvite (m : Memberships) (record : RelayInviteRecord)
    (tenantId : String) (pubkey : List UInt8) :
    (m.insertInvite record).membershipByPubkey tenantId pubkey =
      m.membershipByPubkey tenantId pubkey := rfl

@[simp] theorem membershipByPubkey_deleteInvite (m : Memberships) (t code tenantId : String)
    (pubkey : List UInt8) :
    (m.deleteInvite t code).membershipByPubkey tenantId pubkey =
      m.membershipByPubkey tenantId pubkey := rfl

@[simp] theorem inviteByCode_upsertMembership (m : Memberships) (record : RelayMembershipRecord)
    (tenantId code : String) :
    (m.upsertMembership record).inviteByCode tenantId code = m.inviteByCode tenantId code := rfl

theorem inviteByCode_insertInvite (m : Memberships) (record : RelayInviteRecord)
    (tenantId code : String) :
    (m.insertInvite record).inviteByCode tenantId code =
      if record.inviteCode = code then
        if record.tenantId = tenantId then some record else none
      else m.inviteByCode tenantId code := by
  unfold insertInvite inviteByCode
  rw [Map.get_insert]
  split_ifs with hc ht
  · simp [Option.filter, ht]
  · simp [Option.filter, ht]
  · rfl

theorem inviteByCode_deleteInvite (m : Memberships) (t c tenantId code : String) :
    (m.deleteInvite t c).inviteByCode tenantId code =
      if t = tenantId ∧ c = code then none else m.inviteByCode tenantId code := by
  unfold deleteInvite inviteByCode
  simp only
  split_ifs with hstored hk hk
  · rw [Map.get_erase, if_pos hk.2]
    rfl
  · rw [Map.get_erase]
    split_ifs with hc
    -- the code is stored for another tenant only
    · subst hc
      obtain ⟨record, hrecord⟩ := Option.isSome_iff_exists.1 hstored
      rw [Option.filter_eq_some_iff] at hrecord
      rw [hrecord.1]
      have ht : record.tenantId ≠ tenantId := fun h => hk ⟨(beq_iff_eq.1 hrecord.2).symm.trans h, rfl⟩
      simp [Option.filter, ht]
    · rfl
  · obtain ⟨rfl, rfl⟩ := hk
    exact Option.not_isSome_iff_eq_none.1 hstored
  · rfl

/-- A record that is found belongs to the tenant and the key it was found under. -/
theorem of_membershipByPubkey {m : Memberships} {tenantId : String} {pubkey : List UInt8}
    {record : RelayMembershipRecord} (h : m.membershipByPubkey tenantId pubkey = some record) :
    record.tenantId = tenantId ∧ record.pubkey = pubkey := by
  obtain ⟨ht, hp⟩ := membershipKey_injective (m.keyed _ _ h)
  exact ⟨ht.symm, hp.symm⟩

end Memberships
end Gittree
