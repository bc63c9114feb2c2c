import Gittree.Lib.Map
import Gittree.Storage.Error

/-!
# Tenants

`crates/storage/src/relay_tenant.rs` and the `RelayTenantRepository` of `InMemoryRepositories`: the
tenants by id, and the id that each host belongs to.

* `fields_of_new`: the id, host and key that a record is made with;
* `tenantByHost_upsertTenant_self`: the tenant just stored is found under its host.
-/

namespace Gittree

open Rust

/-- The fields of `RelayTenantRecord` that a session depends on. -/
structure RelayTenantRecord where
  id : String
  host : String
  relayPubkey : List UInt8
  relaySecret : List UInt8
  authRequired : Bool
  publicRead : Bool
  publicWrite : Bool
  deriving DecidableEq, Repr

/-- `RelayTenantRecord` with all its fields, as it is stored. -/
structure StoredTenant extends RelayTenantRecord where
  relaySecretNonce : List UInt8
  relaySecretKid : String
  name : Option String
  description : Option String
  icon : Option String
  banner : Option String
  contact : Option String
  createdAt : ℤ
  updatedAt : ℤ
  deriving DecidableEq, Repr

/-- `normalize_optional`. -/
def normalizeOptional (field : String) (value : Option String) (maxLen : ℕ) :
    Except StorageError (Option String) :=
  match value.map Str.trim with
  | none => .ok none
  | some value =>
    if value = "" then .ok none
    else if Str.len value > maxLen then .error (.invalidField field value)
    else .ok (some value)

/-- `normalize_optional_url`. -/
def normalizeOptionalUrl (field : String) (value : Option String) (maxLen : ℕ) :
    Except StorageError (Option String) := do
  let value ← normalizeOptional field value maxLen
  if let some url := value then
    let lower := Str.toAsciiLowercase url
    Result.ensure (Str.startsWith lower "http://" = true ∨ Str.startsWith lower "https://" = true)
      (.invalidField field url)
  return value

/-- `RelayTenantRecord::new`. -/
def RelayTenantRecord.new (id host relayPubkey : String) (relaySecret relaySecretNonce : List UInt8)
    (relaySecretKid : String) (name description icon banner contact : Option String)
    (authRequired publicRead publicWrite : Bool) (createdAt updatedAt : ℤ) :
    Except StorageError StoredTenant := do
  let host := Str.toAsciiLowercase (Str.trim host)
  Result.ensure (Str.trim id ≠ "") (.invalidField "tenant_id" "empty")
  Result.ensure (host ≠ "" ∧ Str.len host ≤ 255 ∧ Str.containsChar host ' ' = false)
    (.invalidField "host" host)
  Result.ensure (relaySecret ≠ []) (.invalidField "relay_secret" "empty")
  Result.ensure (relaySecretNonce ≠ []) (.invalidField "relay_secret_nonce" "empty")
  Result.ensure (Str.trim relaySecretKid ≠ "") (.invalidField "relay_secret_kid" relaySecretKid)
  Result.ensure (createdAt ≤ updatedAt) (.invalidField "updated_at" (toString updatedAt))
  let relayPubkey ← decodeHex32 "relay_pubkey" relayPubkey
  let name ← normalizeOptional "name" name 120
  let description ← normalizeOptional "description" description 500
  let icon ← normalizeOptionalUrl "icon" icon 300
  let banner ← normalizeOptionalUrl "banner" banner 300
  let contact ← normalizeOptional "contact" contact 300
  return { id, host, relayPubkey, relaySecret, relaySecretNonce, relaySecretKid, name, description,
           icon, banner, contact, authRequired, publicRead, publicWrite, createdAt, updatedAt }

/-- The parts of a record that are taken from the arguments. -/
theorem fields_of_new {id host relayPubkey : String} {relaySecret relaySecretNonce : List UInt8}
    {relaySecretKid : String} {name description icon banner contact : Option String}
    {authRequired publicRead publicWrite : Bool} {createdAt updatedAt : ℤ} {record : StoredTenant}
    (h : RelayTenantRecord.new id host relayPubkey relaySecret relaySecretNonce relaySecretKid name
      description icon banner contact authRequired publicRead publicWrite createdAt updatedAt =
        .ok record) :
    record.id = id ∧ record.host = Str.toAsciiLowercase (Str.trim host) ∧
      Hex.decode relayPubkey = some record.relayPubkey := by
  unfold RelayTenantRecord.new at h
  simp only [Result.bind_eq_ok, Result.pure_eq_ok, decodeHex32_eq_ok] at h
  obtain ⟨_, -, _, -, _, -, _, -, _, -, _, -, pubkey, ⟨-, hpub⟩, _, -, _, -, _, -, _, -, _, -, rfl⟩ := h
  exact ⟨rfl, rfl, hpub⟩

/-- The tenants of `InMemoryRepositories`: every host leads to a stored tenant. -/
structure Tenants where
  byId : Map StoredTenant
  byHost : Map String
  keyed : ∀ (k : String) (record : StoredTenant), byId[k]? = some record → k = record.id
  linked : ∀ host id : String, byHost[host]? = some id → (byId[id]?).isSome = true

namespace Tenants

instance : EmptyCollection Tenants := ⟨⟨∅, ∅, by simp, by simp⟩⟩

@[simp] theorem byId_empty : (∅ : Tenants).byId = ∅ := rfl

/-- `upsert_tenant`. -/
def upsertTenant (t : Tenants) (record : StoredTenant) : Tenants where
  byId := t.byId.insert record.id record
  byHost := t.byHost.insert record.host record.id
  keyed := by
    intro k found h
    rw [Map.get_insert] at h
    split_ifs at h with hk
    · cases h
      exact hk.symm
    · exact t.keyed k found h
  linked := by
    intro host id h
    rw [Map.get_insert] at h ⊢
    split_ifs at h ⊢ with hid hhost hhost
    · rfl
    · rfl
    · cases h
      exact absurd rfl hid
    · exact t.linked host id h

/-- `tenant_by_id`. -/
def tenantById (t : Tenants) (tenantId : String) : Option StoredTenant := t.byId[tenantId]?

/-- `tenant_by_host`. -/
def tenantByHost (t : Tenants) (host : String) : Option StoredTenant :=
  t.byHost[host]?.bind fun tenantId => t.byId[tenantId]?

/-- The tenant just stored is found under its host. -/
@[simp] theorem tenantByHost_upsertTenant_self (t : Tenants) (record : StoredTenant) :
    (t.upsertTenant record).tenantByHost record.host = some record := by
  unfold tenantByHost upsertTenant
  rw [Map.get_insert_self, Option.bind_some, Map.get_insert_self]

theorem tenantById_upsertTenant (t : Tenants) (record : StoredTenant) (tenantId : String) :
    (t.upsertTenant record).tenantById tenantId =
      if record.id = tenantId then some record else t.tenantById tenantId :=
  Map.get_insert _ _ _ _

/-- A host under which no tenant is found is not in the table. -/
theorem byHost_of_tenantByHost {t : Tenants} {host : String} (h : t.tenantByHost host = none) :
    t.byHost[host]? = none := by
  cases hid : t.byHost[host]? with
  | none => rfl
  | some id =>
    obtain ⟨record, hrecord⟩ := Option.isSome_iff_exists.1 (t.linked host id hid)
    rw [tenantByHost, hid, Option.bind_some, hrecord] at h
    cases h

end Tenants
end Gittree
