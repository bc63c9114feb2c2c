import Gittree.Lib.Runs
import Gittree.Storage.Repos
import Gittree.Storage.Tenants

/-!
# Tables with two indexes

`InMemoryRepositories` of `crates/storage/src/repositories.rs` keeps mappings, tenants and accounts
each in two hash maps.  An account that is renamed gives its old name up.  A mapping or a tenant that
is stored under a new name stays under the old one too.

* `agree_of_reach`: in which runs the indexes of mappings and tenants agree, and the steps that end
  this;
* `accounts_of_reach`: in every run the accounts are a bijection of keys and names.
-/

namespace Gittree

open Rust

/-! ### Mappings -/

namespace Mappings

/-- What is found in one index is found in the other. -/
structure Agree (t : Mappings) : Prop where
  forgejo : ∀ owner repo m, t.mappingByForgejo owner repo = some m →
    m.forgejoOwner = owner ∧ m.forgejoRepo = repo ∧
      t.mappingByRepo m.pubkey m.identifier = some m
  repo : ∀ pubkey identifier m, t.mappingByRepo pubkey identifier = some m →
    m.pubkey = pubkey ∧ m.identifier = identifier ∧
      t.mappingByForgejo m.forgejoOwner m.forgejoRepo = some m

/-- A record that keeps the agreement: its Forgejo name can be read off its key, and neither its
repository nor its Forgejo name is part of another mapping. -/
structure Fits (t : Mappings) (record : RepoMappingRecord) : Prop where
  owner : '/' ∉ record.forgejoOwner.toList
  name : '/' ∉ record.forgejoRepo.toList
  repo : ∀ m, t.mappingByRepo record.pubkey record.identifier = some m →
    m.forgejoOwner = record.forgejoOwner ∧ m.forgejoRepo = record.forgejoRepo
  forgejo : ∀ m, t.mappingByForgejo record.forgejoOwner record.forgejoRepo = some m →
    m.pubkey = record.pubkey ∧ m.identifier = record.identifier

theorem forgejoKey_inj {owner repo owner' repo' : String} (howner : '/' ∉ owner.toList)
    (howner' : '/' ∉ owner'.toList) (h : forgejoKey owner repo = forgejoKey owner' repo') :
    owner = owner' ∧ repo = repo' :=
  Str.append_char_inj_left howner howner' h

/-- A name with a slash shares its key with another name. -/
theorem exists_forgejoKey_eq {owner repo : String}
    (h : '/' ∈ owner.toList ∨ '/' ∈ repo.toList) :
    ∃ owner' repo', forgejoKey owner' repo' = forgejoKey owner repo ∧ owner' ≠ owner := by
  have hsplit : ∀ s : String, '/' ∈ s.toList → ∃ a b, s = a ++ "/" ++ b := by
    intro s hs
    obtain ⟨a, b, hab⟩ := List.append_of_mem hs
    refine ⟨String.ofList a, String.ofList b, ?_⟩
    rw [← String.toList_inj, hab]
    simp
  have hlonger : ∀ a b : String, a ≠ a ++ "/" ++ b := by
    intro a b heq
    have hlen := congrArg String.length heq
    simp only [String.length_append] at hlen
    have hslash : "/".length = 1 := by decide
    omega
  rcases h with h | h
  · obtain ⟨a, b, rfl⟩ := hsplit owner h
    refine ⟨a, b ++ "/" ++ repo, ?_, hlonger a b⟩
    unfold forgejoKey
    simp only [String.append_assoc]
  · obtain ⟨a, b, rfl⟩ := hsplit repo h
    refine ⟨owner ++ "/" ++ a, b, ?_, (hlonger owner a).symm⟩
    unfold forgejoKey
    simp only [String.append_assoc]

/-- Where the indexes agree, no Forgejo name has a slash. -/
theorem Agree.not_slash {t : Mappings} (h : t.Agree) {owner repo : String}
    {m : RepoMappingRecord} (hm : t.mappingByForgejo owner repo = some m) :
    '/' ∉ owner.toList ∧ '/' ∉ repo.toList := by
  rw [← not_or]
  intro hslash
  obtain ⟨owner', repo', hkey, hne⟩ := exists_forgejoKey_eq hslash
  have hm' : t.mappingByForgejo owner' repo' = some m := by
    rw [mappingByForgejo, hkey]
    exact hm
  exact hne ((h.forgejo _ _ _ hm').1.symm.trans (h.forgejo _ _ _ hm).1)

theorem mappingByForgejo_upsert (t : Mappings) (record : RepoMappingRecord) (owner repo : String) :
    (t.upsertMapping record).mappingByForgejo owner repo =
      if forgejoKey record.forgejoOwner record.forgejoRepo = forgejoKey owner repo then some record
      else t.mappingByForgejo owner repo :=
  Map.get_insert _ _ _ _

theorem agree_empty : (∅ : Mappings).Agree := by
  constructor
  · intro owner repo m h
    cases (Std.ExtTreeMap.getElem?_empty (a := forgejoKey owner repo)).symm.trans h
  · intro pubkey identifier m h
    cases (Std.ExtTreeMap.getElem?_empty (a := repoKey pubkey identifier)).symm.trans h

theorem Agree.upsert {t : Mappings} (h : t.Agree) {record : RepoMappingRecord}
    (hfits : t.Fits record) : (t.upsertMapping record).Agree := by
  constructor
  · intro owner repo m hm
    rw [mappingByForgejo_upsert] at hm
    split_ifs at hm with hkey
    · cases hm
      have hslash : '/' ∉ owner.toList := by
        intro hmem
        -- the key of the record has one slash, which ends the owner in every reading
        obtain ⟨a, b, hab⟩ := List.append_of_mem hmem
        have hcount := congrArg (fun s : String => s.toList.count '/') hkey
        simp only [forgejoKey, String.toList_append, List.count_append,
          List.count_eq_zero.2 hfits.owner, List.count_eq_zero.2 hfits.name] at hcount
        have hpos := List.count_pos_iff.2 hmem
        have hone : "/".toList.count '/' = 1 := by decide
        omega
      obtain ⟨rfl, rfl⟩ := forgejoKey_inj hfits.owner hslash hkey
      refine ⟨rfl, rfl, ?_⟩
      rw [mappingByRepo_upsert, if_pos ⟨rfl, rfl⟩]
    · obtain ⟨rfl, rfl, hrepo⟩ := h.forgejo _ _ _ hm
      refine ⟨rfl, rfl, ?_⟩
      rw [mappingByRepo_upsert, if_neg]
      · exact hrepo
      · rintro ⟨hpubkey, hidentifier⟩
        rw [← hpubkey, ← hidentifier] at hrepo
        obtain ⟨howner, hname⟩ := hfits.repo m hrepo
        exact hkey (by rw [howner, hname])
  · intro pubkey identifier m hm
    rw [mappingByRepo_upsert] at hm
    split_ifs at hm with hkey
    · cases hm
      refine ⟨hkey.1, hkey.2, ?_⟩
      rw [mappingByForgejo_upsert, if_pos rfl]
    · obtain ⟨rfl, rfl, hforgejo⟩ := h.repo _ _ _ hm
      refine ⟨rfl, rfl, ?_⟩
      rw [mappingByForgejo_upsert, if_neg]
      · exact hforgejo
      · intro heq
        refine hkey ?_
        obtain ⟨hpubkey, hidentifier⟩ := hfits.forgejo m (by
          rw [mappingByForgejo, heq]
          exact hforgejo)
        exact ⟨hpubkey.symm, hidentifier.symm⟩

/-- Storing a record keeps the agreement exactly if the record fits. -/
theorem Agree.upsert_iff {t : Mappings} (h : t.Agree) {record : RepoMappingRecord} :
    (t.upsertMapping record).Agree ↔ t.Fits record := by
  refine ⟨fun hafter => ?_, h.upsert⟩
  have hself : (t.upsertMapping record).mappingByForgejo record.forgejoOwner record.forgejoRepo =
      some record := by
    rw [mappingByForgejo_upsert, if_pos rfl]
  obtain ⟨howner, hname⟩ := hafter.not_slash hself
  refine ⟨howner, hname, ?_, ?_⟩
  · intro m hm
    obtain ⟨hpubkey, hidentifier, hforgejo⟩ := h.repo _ _ _ hm
    by_cases hkey : forgejoKey record.forgejoOwner record.forgejoRepo =
        forgejoKey m.forgejoOwner m.forgejoRepo
    · obtain ⟨ho, hn⟩ := forgejoKey_inj howner (h.not_slash hforgejo).1 hkey
      exact ⟨ho.symm, hn.symm⟩
    · -- the repository keeps its old Forgejo name
      have hstays : (t.upsertMapping record).mappingByForgejo m.forgejoOwner m.forgejoRepo =
          some m := by
        rw [mappingByForgejo_upsert, if_neg hkey]
        exact hforgejo
      have hrepo := (hafter.forgejo _ _ _ hstays).2.2
      rw [mappingByRepo_upsert, if_pos ⟨hpubkey.symm, hidentifier.symm⟩] at hrepo
      cases hrepo
      exact ⟨rfl, rfl⟩
  · intro m hm
    obtain ⟨ho, hn, hrepo⟩ := h.forgejo _ _ _ hm
    by_cases hsame : record.pubkey = m.pubkey ∧ record.identifier = m.identifier
    · exact ⟨hsame.1.symm, hsame.2.symm⟩
    · -- the other repository keeps its mapping
      have hstays : (t.upsertMapping record).mappingByRepo m.pubkey m.identifier = some m := by
        rw [mappingByRepo_upsert, if_neg hsame]
        exact hrepo
      have hforgejo := (hafter.repo _ _ _ hstays).2.2
      rw [ho, hn, hself] at hforgejo
      cases hforgejo
      exact ⟨rfl, rfl⟩

end Mappings

/-! ### Tenants -/

namespace Tenants

/-- What is found under a host has that host, and is found under its id. -/
def Agree (t : Tenants) : Prop :=
  ∀ host record, t.tenantByHost host = some record →
    record.host = host ∧ t.tenantById record.id = some record

/-- A record that keeps the agreement: its id is not found under another host. -/
def Fits (t : Tenants) (record : StoredTenant) : Prop :=
  ∀ host found, t.tenantByHost host = some found → found.id = record.id → record.host = host

theorem tenantByHost_eq_some {t : Tenants} {host : String} {record : StoredTenant} :
    t.tenantByHost host = some record ↔
      t.byHost[host]? = some record.id ∧ t.tenantById record.id = some record := by
  unfold tenantByHost tenantById
  rw [Option.bind_eq_some_iff]
  constructor
  · rintro ⟨id, hid, hrecord⟩
    obtain rfl := t.keyed id record hrecord
    exact ⟨hid, hrecord⟩
  · rintro ⟨hid, hrecord⟩
    exact ⟨record.id, hid, hrecord⟩

theorem agree_empty : (∅ : Tenants).Agree := by
  intro host record h
  cases (Std.ExtTreeMap.getElem?_empty (a := host)).symm.trans (tenantByHost_eq_some.1 h).1

/-- Storing a record keeps the agreement exactly if the record fits. -/
theorem Agree.upsert_iff {t : Tenants} (h : t.Agree) {record : StoredTenant} :
    (t.upsertTenant record).Agree ↔ t.Fits record := by
  have hhost : ∀ host, (t.upsertTenant record).byHost[host]? =
      if record.host = host then some record.id else t.byHost[host]? :=
    fun host => Map.get_insert _ _ _ _
  constructor
  · intro hafter host found hfound hid
    by_contra hne
    -- the old host leads to the id, and so to the new record
    obtain ⟨hold, -⟩ := tenantByHost_eq_some.1 hfound
    have hleads : (t.upsertTenant record).tenantByHost host = some record := by
      rw [tenantByHost_eq_some, hhost, if_neg hne, hold, hid, tenantById_upsertTenant, if_pos rfl]
      exact ⟨rfl, rfl⟩
    exact hne (hafter host record hleads).1
  · intro hfits host found hfound
    obtain ⟨hid, hrecord⟩ := tenantByHost_eq_some.1 hfound
    refine ⟨?_, hrecord⟩
    rw [tenantById_upsertTenant] at hrecord
    rw [hhost] at hid
    by_cases hsame : record.id = found.id
    · rw [if_pos hsame] at hrecord
      cases hrecord
      split_ifs at hid with hself
      · exact hself
      · -- another host that leads to the id would not fit
        obtain ⟨old, hold⟩ := Option.isSome_iff_exists.1 (t.linked host record.id hid)
        have hkeyed := t.keyed _ old hold
        refine hfits host old ?_ hkeyed.symm
        rw [tenantByHost_eq_some, ← hkeyed]
        exact ⟨hid, hold⟩
    · rw [if_neg hsame] at hrecord
      split_ifs at hid with hself
      · exact absurd (Option.some.inj hid) hsame
      · exact (h host found (tenantByHost_eq_some.2 ⟨hid, hrecord⟩)).1

end Tenants

/-! ### Runs -/

namespace Indexes

/-- The mappings and the tenants of `InMemoryRepositories`. -/
structure Tables where
  mappings : Mappings
  tenants : Tenants

/-- The calls that change them. -/
inductive Call
  | upsertMapping (record : RepoMappingRecord)
  | upsertTenant (record : StoredTenant)

/-- A call always succeeds. -/
def step (s : Tables) : Call → Option (Tables × Unit)
  | .upsertMapping record => some ({ s with mappings := s.mappings.upsertMapping record }, ())
  | .upsertTenant record => some ({ s with tenants := s.tenants.upsertTenant record }, ())

/-- The tables before the first call. -/
def empty : Tables := ⟨∅, ∅⟩

/-- The two indexes of each table agree. -/
structure Agree (s : Tables) : Prop where
  mappings : s.mappings.Agree
  tenants : s.tenants.Agree

/-- The record of a call fits the tables. -/
def Fits (s : Tables) : Call → Prop
  | .upsertMapping record => s.mappings.Fits record
  | .upsertTenant record => s.tenants.Fits record

/-- A call keeps the agreement exactly if its record fits. -/
theorem Agree.step_iff {s t : Tables} {call : Call} {o : Unit} (h : Agree s)
    (hstep : step s call = some (t, o)) : Agree t ↔ Fits s call := by
  cases call with
  | upsertMapping record =>
    cases hstep
    exact ⟨fun ht => h.mappings.upsert_iff.1 ht.mappings,
      fun hfits => ⟨h.mappings.upsert_iff.2 hfits, h.tenants⟩⟩
  | upsertTenant record =>
    cases hstep
    exact ⟨fun ht => h.tenants.upsert_iff.1 ht.tenants,
      fun hfits => ⟨h.mappings, h.tenants.upsert_iff.2 hfits⟩⟩

/-- The indexes agree throughout a run of calls that fit, and the next call keeps this exactly if it
fits. -/
theorem agree_of_reach {s : Tables} (h : Runs.Reach step Fits (· = empty) s) :
    Agree s ∧ ∀ call t o, step s call = some (t, o) → (Agree t ↔ Fits s call) := by
  have hagree : Agree s := by
    refine h.invariant ?_ fun s call t o hs hfits hstep => (hs.step_iff hstep).2 hfits
    rintro s rfl
    exact ⟨Mappings.agree_empty, Tenants.agree_empty⟩
  exact ⟨hagree, fun call t o hstep => hagree.step_iff hstep⟩

/-- A mapping of a repository. -/
def sampleMapping : RepoMappingRecord where
  forgejoOwner := "forge"
  forgejoRepo := "repo"
  pubkey := List.replicate 32 17
  identifier := "repo"

/-- A tenant. -/
def sampleTenant : StoredTenant where
  id := "tenant"
  host := "relay.example"
  relayPubkey := List.replicate 32 17
  relaySecret := [1]
  relaySecretNonce := [2]
  relaySecretKid := "kid"
  authRequired := false
  publicRead := true
  publicWrite := true
  name := none
  description := none
  icon := none
  banner := none
  contact := none
  createdAt := 0
  updatedAt := 0

theorem fits_sampleMapping : (∅ : Mappings).Fits sampleMapping where
  owner := by decide
  name := by decide
  repo := fun m hm => by cases (Mappings.agree_empty.repo _ _ m hm).2.2
  forgejo := fun m hm => by cases (Mappings.agree_empty.forgejo _ _ m hm).2.2

/-- A mapping and a tenant, each stored twice. -/
theorem agree_of_reach_sample : ∃ s, Runs.Reach step Fits (· = empty) s ∧
    s.mappings.mappingByForgejo "forge" "repo" = some sampleMapping ∧
    s.tenants.tenantByHost "relay.example" = some sampleTenant ∧ Agree s := by
  have hmapping : Runs.Reach step Fits (· = empty) _ :=
    .step (a := .upsertMapping sampleMapping) (.start rfl) fits_sampleMapping rfl
  have htenant : Runs.Reach step Fits (· = empty) _ :=
    .step (a := .upsertTenant sampleTenant) hmapping (by
      intro host found hfound
      cases (Tenants.agree_empty host found hfound).2) rfl
  refine ⟨_, htenant, ?_, Tenants.tenantByHost_upsertTenant_self _ _, (agree_of_reach htenant).1⟩
  exact (Mappings.mappingByForgejo_upsert _ _ _ _).trans (if_pos rfl)

/-- A repository that is mapped to another Forgejo repository stays mapped to the first one as well. -/
theorem not_agree_remapped :
    ¬ ∀ s, Runs.Reach step (fun _ _ => True) (· = empty) s → Agree s := by
  intro hall
  have hfirst : Runs.Reach step (fun _ _ => True) (· = empty) _ :=
    .step (a := .upsertMapping sampleMapping) (.start rfl) trivial rfl
  have hsecond : Runs.Reach step (fun _ _ => True) (· = empty) _ :=
    .step (a := .upsertMapping { sampleMapping with forgejoRepo := "moved" }) hfirst trivial rfl
  have hfits := ((hall _ hfirst).mappings.upsert_iff).1 (hall _ hsecond).mappings
  have hstored := hfits.repo sampleMapping
    ((Mappings.mappingByRepo_upsert _ _ _ _).trans (if_pos ⟨rfl, rfl⟩))
  exact absurd hstored.2 (by decide)

end Indexes

/-! ### Accounts -/

namespace Accounts

/-- `account_by_username`. -/
def accountByUsername (t : Accounts) (username : String) : Option AccountRecord :=
  t.byUsername[username]?

/-- The part of `upsert_account` that removes the old name of a renamed account. -/
def releaseName (t : Accounts) (record : AccountRecord) : Accounts :=
  match t.byPubkey[Hex.encode record.pubkey]? with
  | some existing =>
    if existing.forgejoUsername ≠ record.forgejoUsername then
      { t with byUsername := t.byUsername.erase existing.forgejoUsername }
    else t
  | none => t

/-- `upsert_account` on the two maps, statement by statement; an error is returned with the maps as
they are then. -/
def upsert (t : Accounts) (record : AccountRecord) : Except StorageError Unit × Accounts :=
  let key := Hex.encode record.pubkey
  if ∃ existing ∈ t.byUsername[record.forgejoUsername]?, existing.pubkey ≠ record.pubkey then
    (.error (.internal "account username already exists"), t)
  else
    let t := t.releaseName record
    let t := { t with byPubkey := t.byPubkey.insert key record }
    let t := { t with byUsername := t.byUsername.insert record.forgejoUsername record }
    (.ok (), t)

/-- `upsertAccount` is what a call makes of the maps, or its error. -/
theorem upsert_eq (t : Accounts) (record : AccountRecord) : t.upsert record =
    match t.upsertAccount record with
    | .ok u => (.ok (), u)
    | .error err => (.error err, t) := by
  unfold upsert upsertAccount releaseName
  by_cases htaken : ∃ existing ∈ t.byUsername[record.forgejoUsername]?,
      existing.pubkey ≠ record.pubkey
  · have hnot : ¬ ∀ existing ∈ t.byUsername[record.forgejoUsername]?,
        existing.pubkey = record.pubkey := by
      obtain ⟨existing, hexisting, hne⟩ := htaken
      exact fun h => hne (h existing hexisting)
    simp only [if_pos htaken, Result.ensure, if_neg hnot]
    rfl
  · have hall : ∀ existing ∈ t.byUsername[record.forgejoUsername]?,
        existing.pubkey = record.pubkey :=
      fun existing hexisting => by_contra fun hne => htaken ⟨existing, hexisting, hne⟩
    simp only [if_neg htaken, Result.ensure, if_pos hall]
    cases hfound : t.byPubkey[Hex.encode record.pubkey]? with
    | none => rfl
    | some existing =>
      by_cases hsame : existing.forgejoUsername ≠ record.forgejoUsername
      · simp only [if_pos hsame]
        rfl
      · simp only [if_neg hsame]
        rfl

/-- The name that a record frees: that of the account with its key, if it differs. -/
def freed (t : Accounts) (record : AccountRecord) : Option String :=
  (t.accountByPubkey record.pubkey).bind fun existing =>
    if existing.forgejoUsername ≠ record.forgejoUsername then some existing.forgejoUsername else none

@[simp] theorem byPubkey_releaseName (t : Accounts) (record : AccountRecord) :
    (t.releaseName record).byPubkey = t.byPubkey := by
  unfold releaseName
  split
  · split_ifs <;> rfl
  · rfl

theorem byUsername_releaseName (t : Accounts) (record : AccountRecord) (username : String) :
    (t.releaseName record).byUsername[username]? =
      if t.freed record = some username then none else t.byUsername[username]? := by
  unfold releaseName freed accountByPubkey
  split
  · rename_i existing hexisting
    rw [hexisting, Option.bind_some]
    by_cases hne : existing.forgejoUsername ≠ record.forgejoUsername
    · rw [if_pos hne, if_pos hne, Map.get_erase]
      simp only [Option.some.injEq]
    · rw [if_neg hne, if_neg hne, if_neg (by simp)]
  · rename_i hnone
    rw [hnone, Option.bind_none, if_neg (by simp)]

/-- Everything that a call can do. -/
theorem upsert_cases {t u : Accounts} {record : AccountRecord} {o : Except StorageError Unit}
    (h : t.upsert record = (o, u)) :
    (u = t ∧ ∃ err, o = .error err) ∨
    (o = .ok () ∧
      (∀ a, t.accountByUsername record.forgejoUsername = some a → a.pubkey = record.pubkey) ∧
      (∀ pubkey, u.accountByPubkey pubkey =
        if record.pubkey = pubkey then some record else t.accountByPubkey pubkey) ∧
      ∀ username, u.accountByUsername username =
        if record.forgejoUsername = username then some record
        else if t.freed record = some username then none else t.accountByUsername username) := by
  unfold upsert at h
  simp only at h
  split_ifs at h with htaken
  · cases h
    exact .inl ⟨rfl, _, rfl⟩
  · obtain ⟨rfl, rfl⟩ := Prod.mk.inj h
    refine .inr ⟨rfl, ?_, ?_, ?_⟩
    · intro a ha
      by_contra hne
      exact htaken ⟨a, ha, hne⟩
    · intro pubkey
      have hinj : Hex.encode record.pubkey = Hex.encode pubkey ↔ record.pubkey = pubkey :=
        ⟨fun he => Hex.encode_injective he, fun he => by rw [he]⟩
      unfold accountByPubkey
      rw [byPubkey_releaseName, Map.get_insert]
      simp only [hinj]
    · intro username
      unfold accountByUsername
      rw [Map.get_insert, byUsername_releaseName]

/-- The two indexes hold the same accounts, each under its key and its name. -/
structure Paired (t : Accounts) : Prop where
  keyed : ∀ pubkey a, t.accountByPubkey pubkey = some a → a.pubkey = pubkey
  named : ∀ username a, t.accountByUsername username = some a ↔
    a.forgejoUsername = username ∧ t.accountByPubkey a.pubkey = some a

theorem paired_empty : (∅ : Accounts).Paired := by
  constructor
  · intro pubkey a h
    cases (Std.ExtTreeMap.getElem?_empty (a := Hex.encode pubkey)).symm.trans h
  · intro username a
    constructor
    · intro h
      cases (Std.ExtTreeMap.getElem?_empty (a := username)).symm.trans h
    · rintro ⟨-, h⟩
      cases (Std.ExtTreeMap.getElem?_empty (a := Hex.encode a.pubkey)).symm.trans h

/-- A name that is freed is that of the account with the key. -/
theorem freed_eq_some {t : Accounts} {record : AccountRecord} {username : String} :
    t.freed record = some username ↔ ∃ existing, t.accountByPubkey record.pubkey = some existing ∧
      existing.forgejoUsername = username ∧ username ≠ record.forgejoUsername := by
  unfold freed
  rw [Option.bind_eq_some_iff]
  constructor
  · rintro ⟨existing, hexisting, h⟩
    split_ifs at h with hne
    cases h
    exact ⟨existing, hexisting, rfl, hne⟩
  · rintro ⟨existing, hexisting, rfl, hne⟩
    exact ⟨existing, hexisting, if_pos hne⟩

/-- The step keeps the pairing. -/
theorem Paired.upsert {t u : Accounts} {record : AccountRecord} {o : Except StorageError Unit}
    (ht : t.Paired) (h : t.upsert record = (o, u)) : u.Paired := by
  obtain ⟨rfl, -⟩ | ⟨-, hown, hkey, hname⟩ := upsert_cases h
  · exact ht
  · constructor
    · intro pubkey a ha
      rw [hkey] at ha
      split_ifs at ha with hsame
      · cases ha
        exact hsame
      · exact ht.keyed pubkey a ha
    · intro username a
      rw [hname, hkey]
      by_cases hu : record.forgejoUsername = username
      · subst hu
        rw [if_pos rfl]
        constructor
        · intro ha
          cases ha
          exact ⟨rfl, if_pos rfl⟩
        · rintro ⟨hau, ha⟩
          split_ifs at ha with hsame
          · exact ha
          · -- the name belongs to no other key
            exact absurd (hown a ((ht.named _ a).2 ⟨hau, ha⟩)).symm hsame
      · rw [if_neg hu]
        constructor
        · intro ha
          split_ifs at ha with hfreed
          obtain ⟨hau, hstored⟩ := (ht.named username a).1 ha
          refine ⟨hau, ?_⟩
          rw [if_neg]
          · exact hstored
          · intro hsame
            refine hfreed (freed_eq_some.2 ⟨a, ?_, hau, fun he => hu he.symm⟩)
            rw [hsame]
            exact hstored
        · rintro ⟨hau, ha⟩
          split_ifs at ha with hsame
          · cases ha
            exact absurd hau hu
          · rw [if_neg]
            · exact (ht.named username a).2 ⟨hau, ha⟩
            · intro hfreed
              obtain ⟨existing, hexisting, hold, -⟩ := freed_eq_some.1 hfreed
              have hkeyed := ht.keyed _ _ hexisting
              rw [← hkeyed] at hexisting
              -- the freed name is that of one account only
              have hfirst := (ht.named username existing).2 ⟨hold, hexisting⟩
              have hsecond := (ht.named username a).2 ⟨hau, ha⟩
              cases hfirst.symm.trans hsecond
              exact hsame hkeyed.symm

/-- The system of calls of `upsert_account`. -/
def step (t : Accounts) (record : AccountRecord) :
    Option (Accounts × Except StorageError Unit) :=
  some ((t.upsert record).2, (t.upsert record).1)

/-- After every run of calls the accounts are a bijection of keys and names, and a call that fails
changes neither index. -/
theorem accounts_of_reach {t : Accounts}
    (h : Runs.Reach step (fun _ _ => True) (· = (∅ : Accounts)) t) :
    (∀ username a, t.accountByUsername username = some a ↔
      a.forgejoUsername = username ∧ t.accountByPubkey a.pubkey = some a) ∧
    (∀ pubkey pubkey' a b, t.accountByPubkey pubkey = some a → t.accountByPubkey pubkey' = some b →
      a.forgejoUsername = b.forgejoUsername → pubkey = pubkey') ∧
    ∀ record u err, step t record = some (u, .error err) →
      u.byPubkey = t.byPubkey ∧ u.byUsername = t.byUsername := by
  have hpaired : t.Paired := by
    refine h.invariant ?_ fun t record u o ht _ hstep => ?_
    · rintro t rfl
      exact paired_empty
    · cases hstep
      exact ht.upsert rfl
  refine ⟨hpaired.named, ?_, ?_⟩
  · intro pubkey pubkey' a b ha hb hnames
    obtain rfl := hpaired.keyed _ _ ha
    obtain rfl := hpaired.keyed _ _ hb
    have hfirst := (hpaired.named _ a).2 ⟨rfl, ha⟩
    have hsecond := (hpaired.named _ b).2 ⟨hnames.symm, hb⟩
    cases hfirst.symm.trans hsecond
    rfl
  · intro record u err hstep
    obtain ⟨hu, ho⟩ := Prod.mk.inj (Option.some.inj hstep)
    obtain ⟨hsame, -⟩ | ⟨hok, -⟩ := upsert_cases (t := t) (u := u) (Prod.ext ho hu)
    · rw [hsame]
      exact ⟨rfl, rfl⟩
    · cases hok

/-- A name that one account gives up is taken by another, and cannot be taken back. -/
theorem accounts_of_reach_renamed : ∃ t, Runs.Reach step (fun _ _ => True) (· = (∅ : Accounts)) t ∧
    t.accountByUsername "alice" = some ⟨[2], "alice"⟩ ∧
    t.accountByUsername "carol" = some ⟨[1], "carol"⟩ ∧
    step t ⟨[1], "alice"⟩ = some (t, .error (.internal "account username already exists")) ∧
    (∀ username a, t.accountByUsername username = some a ↔
      a.forgejoUsername = username ∧ t.accountByPubkey a.pubkey = some a) := by
  have hrun : (Runs.exec step ∅ [⟨[1], "alice"⟩, ⟨[1], "carol"⟩, ⟨[2], "alice"⟩]).map
      (fun r => (r.1.accountByUsername "alice", r.1.accountByUsername "carol",
        (step r.1 ⟨[1], "alice"⟩).map Prod.snd)) =
      some (some ⟨[2], "alice"⟩, some ⟨[1], "carol"⟩,
        some (.error (.internal "account username already exists"))) := by
    decide +kernel
  obtain ⟨⟨t, outputs⟩, hexec, hread⟩ := Option.map_eq_some_iff.1 hrun
  obtain ⟨halice, hrest⟩ := Prod.mk.inj hread
  obtain ⟨hcarol, hfails⟩ := Prod.mk.inj hrest
  obtain ⟨⟨u, o⟩, hstep, rfl⟩ := Option.map_eq_some_iff.1 hfails
  have hreach : Runs.Reach step (fun _ _ => True) (· = (∅ : Accounts)) t :=
    .of_exec (.start rfl) (fun _ _ _ => trivial) hexec
  obtain ⟨hnamed, -, hkept⟩ := accounts_of_reach hreach
  obtain ⟨hkeys, hnames⟩ := hkept _ _ _ hstep
  refine ⟨t, hreach, halice, hcarol, ?_, hnamed⟩
  obtain ⟨byPubkey, byUsername⟩ := u
  cases hkeys
  cases hnames
  exact hstep

end Accounts
end Gittree
