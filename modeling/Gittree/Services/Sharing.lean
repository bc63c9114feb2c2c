import Gittree.Lib.Runs
import Gittree.Services.Control
import Gittree.Services.Coordinator
import Gittree.Services.GitHttp

/-!
# Shared Forgejo repositories

The coordinator and the control service together, as a transition system over announcements that
arrive, repositories that are created and jobs that are finalised, in any order and with any faults.
A Forgejo repository is found by its name and adopted whoever it was made for, so a mapping can lead
to the Forgejo repository of another mapping: when two keys share their first eight digits, or when
a request names a Forgejo repository that exists.

* `Unshared`: no two stored mappings share a Forgejo repository;
* `Unclaimed`: the Forgejo repository of a step has no mapping of another repository;
* `forgejoRepoName_eq_iff`: the repositories that get one name;
* `RepoSystem.unshared_of_unclaimed`: runs of unclaimed steps;
* `shared_forgejo_repo`: a run with two keys that share their first eight digits.
-/

namespace Gittree

open Rust

namespace Mappings

/-- The records of both tables. -/
def Stored (t : Mappings) (record : RepoMappingRecord) : Prop :=
  (∃ k : String, t.byRepo[k]? = some record) ∨ ∃ k : String, t.byForgejo[k]? = some record

/-- Mappings with the same Forgejo repository belong to the same repository. -/
def Unshared (t : Mappings) : Prop :=
  ∀ m m', t.Stored m → t.Stored m' → m.forgejoOwner = m'.forgejoOwner →
    m.forgejoRepo = m'.forgejoRepo → m.pubkey = m'.pubkey ∧ m.identifier = m'.identifier

/-- No mapping of another repository leads to a Forgejo repository. -/
def Unclaimed (t : Mappings) (owner name : String) (pubkey : List UInt8) (identifier : String) :
    Prop :=
  ∀ m ∈ t.byRepo.values, m.forgejoOwner = owner → m.forgejoRepo = name →
    m.pubkey = pubkey ∧ m.identifier = identifier

instance (t : Mappings) (owner name : String) (pubkey : List UInt8) (identifier : String) :
    Decidable (t.Unclaimed owner name pubkey identifier) :=
  inferInstanceAs (Decidable (∀ m ∈ t.byRepo.values, _))

/-- The invariant: every record by Forgejo name is under its name, and a mapping leads to the Forgejo
repository of such a record only if it belongs to the same repository. -/
structure Separate (t : Mappings) : Prop where
  named : ∀ (k : String) (m : RepoMappingRecord), t.byForgejo[k]? = some m →
    k = forgejoKey m.forgejoOwner m.forgejoRepo
  unclaimed : ∀ (k : String) (m : RepoMappingRecord),
    t.byRepo[k]? = some m ∨ t.byForgejo[k]? = some m →
    t.Unclaimed m.forgejoOwner m.forgejoRepo m.pubkey m.identifier

theorem separate_empty : (∅ : Mappings).Separate where
  named := fun k m h => by cases h.symm.trans Std.ExtTreeMap.getElem?_empty
  unclaimed := fun k m h => by
    rcases h with h | h <;> cases h.symm.trans Std.ExtTreeMap.getElem?_empty

theorem Separate.unshared {t : Mappings} (h : t.Separate) : t.Unshared := by
  rintro m m' hm hm' howner hrepo
  rcases hm with ⟨k, hk⟩ | ⟨k, hk⟩
  · rcases hm' with ⟨k', hk'⟩ | ⟨k', hk'⟩
    · exact h.unclaimed k' m' (.inl hk') m (Map.mem_values.2 ⟨k, hk⟩) howner hrepo
    · exact h.unclaimed k' m' (.inr hk') m (Map.mem_values.2 ⟨k, hk⟩) howner hrepo
  · rcases hm' with ⟨k', hk'⟩ | ⟨k', hk'⟩
    · obtain ⟨hp, hi⟩ := h.unclaimed k m (.inr hk) m' (Map.mem_values.2 ⟨k', hk'⟩) howner.symm
        hrepo.symm
      exact ⟨hp.symm, hi.symm⟩
    · -- two records under one name are one record
      have hname : k = k' := by rw [h.named k m hk, h.named k' m' hk', howner, hrepo]
      subst hname
      cases hk.symm.trans hk'
      exact ⟨rfl, rfl⟩

/-- A mapping to an unclaimed Forgejo repository keeps the tables separate. -/
theorem Separate.upsert {t : Mappings} (h : t.Separate) {record : RepoMappingRecord}
    (hfree : t.Unclaimed record.forgejoOwner record.forgejoRepo record.pubkey record.identifier) :
    (t.upsertMapping record).Separate := by
  have hvalues : ∀ m ∈ (t.upsertMapping record).byRepo.values, m = record ∨ m ∈ t.byRepo.values := by
    intro m hm
    obtain ⟨k, hk⟩ := Map.mem_values.1 hm
    simp only [upsertMapping, Map.get_insert] at hk
    split_ifs at hk
    · exact .inl (Option.some.inj hk).symm
    · exact .inr (Map.mem_values.2 ⟨k, hk⟩)
  constructor
  · intro k m hk
    simp only [upsertMapping, Map.get_insert] at hk
    split_ifs at hk with hkey
    · cases hk
      exact hkey.symm
    · exact h.named k m hk
  · intro k m hk m' hm' howner hrepo
    have hold : (m = record) ∨ (t.byRepo[k]? = some m ∧ m ∈ t.byRepo.values) ∨
        t.byForgejo[k]? = some m ∧ k ≠ forgejoKey record.forgejoOwner record.forgejoRepo := by
      rcases hk with hk | hk <;> simp only [upsertMapping, Map.get_insert] at hk <;>
        split_ifs at hk with hkey
      · exact .inl (Option.some.inj hk).symm
      · exact .inr (.inl ⟨hk, Map.mem_values.2 ⟨k, hk⟩⟩)
      · exact .inl (Option.some.inj hk).symm
      · exact .inr (.inr ⟨hk, fun hk' => hkey hk'.symm⟩)
    rcases hvalues m' hm' with rfl | hmem
    · rcases hold with rfl | ⟨-, hmem⟩ | ⟨hk, hne⟩
      · exact ⟨rfl, rfl⟩
      · obtain ⟨hp, hi⟩ := hfree m hmem howner.symm hrepo.symm
        exact ⟨hp.symm, hi.symm⟩
      · exact absurd (by rw [h.named k m hk, howner, hrepo]) hne
    · rcases hold with rfl | ⟨hk, -⟩ | ⟨hk, -⟩
      · exact hfree m' hmem howner hrepo
      · exact h.unclaimed k m (.inl hk) m' hmem howner hrepo
      · exact h.unclaimed k m (.inr hk) m' hmem howner hrepo

end Mappings

/-! ### Names that collide -/

/-- The name for a key is made of its first four bytes. -/
theorem forgejoRepoName_encode (identifier : String) {pubkey : List UInt8}
    (hlen : pubkey.length = 32) :
    forgejoRepoName identifier (Hex.encode pubkey) =
      identifier ++ "--" ++ Hex.encode (pubkey.take 4) := by
  have hdecode := Hex.decode_encode (pubkey.take 4)
  have hfirst : Str.len (Hex.encode (pubkey.take 4)) = 8 := by
    rw [Str.len_eq_length_of_hex (List.all_eq_true.2 (Hex.hexdigit_of_decode hdecode)),
      Hex.length_of_decode hdecode, List.length_take, hlen]
    rfl
  have hsplit : Hex.encode pubkey = Hex.encode (pubkey.take 4) ++ Hex.encode (pubkey.drop 4) := by
    rw [← Hex.encode_append, List.take_append_drop]
  rw [forgejoRepoName, Str.getTo_eq_some.2 ⟨hfirst, _, hsplit⟩, Option.getD_some]

/-- Two repositories get one name exactly if they have the same identifier and their keys begin with
the same eight digits. -/
theorem forgejoRepoName_eq_iff {identifier identifier' : String} {pubkey pubkey' : List UInt8}
    (hlen : pubkey.length = 32) (hlen' : pubkey'.length = 32) :
    forgejoRepoName identifier (Hex.encode pubkey) =
        forgejoRepoName identifier' (Hex.encode pubkey') ↔
      identifier = identifier' ∧ pubkey.take 4 = pubkey'.take 4 := by
  rw [forgejoRepoName_encode identifier hlen, forgejoRepoName_encode identifier' hlen']
  constructor
  · intro h
    -- the name is cut at its last hyphen: no digit is one
    have hhyphen : ∀ bs : List UInt8, '-' ∉ (Hex.encode bs).toList := by
      intro bs hm
      exact absurd (Hex.hexdigit_of_decode (Hex.decode_encode bs) '-' hm) (by decide)
    have hsplit : ∀ (i x : String), i ++ "--" ++ x = i ++ "-" ++ String.singleton '-' ++ x := by
      intro i x
      rw [@String.append_assoc i "-"]
      rfl
    rw [hsplit, hsplit] at h
    obtain ⟨hid, hfirst⟩ := Str.append_char_inj (hhyphen _) (hhyphen _) h
    exact ⟨(String.append_left_inj "-").1 hid, Hex.encode_injective hfirst⟩
  · rintro ⟨rfl, h⟩
    rw [h]

/-- A mapping named by the coordinator, after its identifier and the first digits of its key. -/
def RepoMappingRecord.Named (m : RepoMappingRecord) : Prop :=
  m.pubkey.length = 32 ∧ m.forgejoRepo = forgejoRepoName m.identifier (Hex.encode m.pubkey)

/-- Where no request has chosen its name, the Forgejo repository of an announcement is unclaimed exactly
if no other key with the same first eight digits has announced the same identifier. -/
theorem Mappings.unclaimed_forgejoRepoName_iff {t : Mappings} {owner identifier : String}
    {pubkey : List UInt8} (hlen : pubkey.length = 32)
    (hchosen : ∀ m ∈ t.byRepo.values,
      m.Named ∨ m.forgejoRepo ≠ forgejoRepoName identifier (Hex.encode pubkey)) :
    t.Unclaimed owner (forgejoRepoName identifier (Hex.encode pubkey)) pubkey identifier ↔
      ∀ m ∈ t.byRepo.values, m.forgejoOwner = owner → m.Named → m.identifier = identifier →
        m.pubkey.take 4 = pubkey.take 4 → m.pubkey = pubkey := by
  refine forall₂_congr fun m hm => imp_congr_right fun _ => ?_
  constructor
  · rintro h ⟨hmlen, hname⟩ hid hfirst
    exact (h (hname.trans ((forgejoRepoName_eq_iff hmlen hlen).2 ⟨hid, hfirst⟩))).1
  · intro h hsame
    obtain ⟨hmlen, hname⟩ := (hchosen m hm).resolve_right fun hother => hother hsame
    obtain ⟨hid, hfirst⟩ := (forgejoRepoName_eq_iff hmlen hlen).1 (hname.symm.trans hsame)
    exact ⟨h ⟨hmlen, hname⟩ hid hfirst, hid⟩

/-! ### The system -/

/-- The steps of the system. -/
inductive RepoAction
  | announce (event : RelayEvent)
  | create (input : Control.CreateRepoInput) (now : ℤ)
  | finalize (id : ℕ)

/-- The answers of the steps. -/
inductive RepoOutput
  | announced (result : Except CoordinatorEventError CoordinatorAction)
  | created (result : Except ControlHttpError Forgejo.Repo)
  | finalized (result : Except CoordinatorEventError Unit)

/-- The services with their settings. -/
structure RepoSystem where
  env : ServiceEnv
  signing : Signing
  config : ControlConfig

namespace RepoSystem

/-- One step; only a job of the outbox is finalised. -/
def step (sys : RepoSystem) (w : World) : RepoAction → Option (World × RepoOutput)
  | .announce event =>
    let answered := (handleAnnouncementEventWithStorage sys.env event).run.run (handle sys.env 0) w
    some (answered.2, .announced answered.1)
  | .create input now =>
    let answered := (Control.createRepoWithAnnouncement sys.env sys.signing sys.config now
      input).run.run (handle sys.env now) w
    some (answered.2, .created answered.1)
  | .finalize id =>
    (w.store.outbox.job id).map fun job =>
      let answered := (finalizeOutboxJob sys.env job).run.run (handle sys.env 0) w
      (answered.2, .finalized answered.1)

/-- The states before the first mapping and the first job. -/
def Start (w : World) : Prop := w.store.mappings = ∅ ∧ w.store.outbox = ∅

/-- The Forgejo repository that an event is registered under is unclaimed. -/
def UnclaimedEvent (t : Mappings) (event : RelayEvent)
    (target : RepoAnnouncement → String × String) : Prop :=
  match RepoAnnouncement.fromTags event.tags, Hex.decode event.pubkey with
  | .ok a, some pubkey => t.Unclaimed (target a).1 (target a).2 pubkey a.identifier
  | _, _ => True

instance (t : Mappings) (event : RelayEvent) (target : RepoAnnouncement → String × String) :
    Decidable (UnclaimedEvent t event target) := by
  unfold UnclaimedEvent
  split <;> infer_instance

/-- The steps that lead to no Forgejo repository of another mapping. -/
def UnclaimedStep (sys : RepoSystem) (w : World) : RepoAction → Prop
  | .announce event => UnclaimedEvent w.store.mappings event (announcedTarget sys.env event)
  | .create _ _ => True
  | .finalize id => ∀ job ∈ w.store.outbox.job id,
    UnclaimedEvent w.store.mappings (relayEventFromJob job) fun _ => jobTarget job

/-- An announcement whose name no request has chosen is unclaimed exactly if no other key with the same
first eight digits has announced its identifier. -/
theorem unclaimedStep_announce_iff {sys : RepoSystem} {w : World} {event : RelayEvent}
    {a : RepoAnnouncement} {pubkey : List UInt8} (htags : RepoAnnouncement.fromTags event.tags = .ok a)
    (hkey : event.pubkey = Hex.encode pubkey) (hlen : pubkey.length = 32)
    (hchosen : ∀ m ∈ w.store.mappings.byRepo.values,
      m.Named ∨ m.forgejoRepo ≠ forgejoRepoName a.identifier event.pubkey) :
    sys.UnclaimedStep w (.announce event) ↔ ∀ m ∈ w.store.mappings.byRepo.values,
      m.forgejoOwner = sys.env.forgejo.config.owner → m.Named → m.identifier = a.identifier →
        m.pubkey.take 4 = pubkey.take 4 → m.pubkey = pubkey := by
  rw [hkey] at hchosen
  rw [← Mappings.unclaimed_forgejoRepoName_iff hlen hchosen]
  show UnclaimedEvent w.store.mappings event (announcedTarget sys.env event) ↔ _
  unfold UnclaimedEvent announcedTarget
  rw [htags, hkey, Hex.decode_encode]

/-- What processing an unclaimed event can store keeps the mappings separate. -/
theorem separate_of_stored {sys : RepoSystem} {event : RelayEvent}
    {target : RepoAnnouncement → String × String} {s t : Store} (h : s.mappings.Separate)
    (hfree : UnclaimedEvent s.mappings event target) (hstored : Stored sys.env event target s t) :
    t.mappings.Separate := by
  rcases hstored with ⟨hm, -⟩ | ⟨a, hparsed, record, hrecord, rfl⟩
  · rwa [hm]
  · obtain ⟨-, htags, -⟩ := parseEvent_announcement hparsed
    have hpubkey : Hex.decode event.pubkey = some record.pubkey :=
      (RepoAnnouncementRecord.madeOf hrecord).pubkey
    unfold UnclaimedEvent at hfree
    rw [htags, hpubkey] at hfree
    exact h.upsert hfree

theorem step_separate {sys : RepoSystem} {w t : World} {action : RepoAction} {o : RepoOutput}
    (h : w.store.mappings.Separate) (hfree : sys.UnclaimedStep w action)
    (hstep : sys.step w action = some (t, o)) : t.store.mappings.Separate := by
  cases action with
  | announce event =>
    rw [step, Option.some.injEq, Prod.mk.injEq] at hstep
    rw [← hstep.1]
    exact separate_of_stored h hfree (stored_handleAnnouncementEventWithStorage event)
  | create input now =>
    rw [step, Option.some.injEq, Prod.mk.injEq] at hstep
    rw [← hstep.1, (Control.post_createRepoWithAnnouncement sys.signing sys.config input).final]
    exact h
  | finalize id =>
    obtain ⟨job, hjob, hstep⟩ := Option.map_eq_some_iff.1 hstep
    rw [Prod.mk.injEq] at hstep
    rw [← hstep.1]
    exact separate_of_stored h (hfree job hjob) (stored_finalizeOutboxJob job)

/-- In a run of unclaimed steps no two mappings share a Forgejo repository, and the git server
forwards different repositories to different ones. -/
theorem unshared_of_unclaimed (sys : RepoSystem) {w : World}
    (h : Runs.Reach sys.step sys.UnclaimedStep Start w) :
    w.store.mappings.Unshared ∧ ∀ repo repo' m m',
      resolveMapping w.store.mappings repo = .ok m → resolveMapping w.store.mappings repo' = .ok m' →
      m.forgejoOwner = m'.forgejoOwner → m.forgejoRepo = m'.forgejoRepo →
      Hex.decode repo.pubkey = Hex.decode repo'.pubkey ∧ repo.identifier = repo'.identifier := by
  have hsep : w.store.mappings.Separate := by
    refine h.invariant (I := fun w => w.store.mappings.Separate) ?_ ?_
    · rintro s ⟨hs, -⟩
      rw [hs]
      exact Mappings.separate_empty
    · exact fun s a t o hs hok ht => step_separate hs hok ht
  refine ⟨hsep.unshared, ?_⟩
  intro repo repo' m m' hm hm' howner hrepo
  obtain ⟨pubkey, hpubkey, hfound⟩ := resolveMapping_eq_ok.1 hm
  obtain ⟨pubkey', hpubkey', hfound'⟩ := resolveMapping_eq_ok.1 hm'
  obtain ⟨hp, hi⟩ := hsep.unshared m m' (.inl ⟨_, hfound⟩) (.inl ⟨_, hfound'⟩) howner hrepo
  obtain ⟨rfl, hid⟩ := Mappings.of_mappingByRepo hfound
  obtain ⟨rfl, hid'⟩ := Mappings.of_mappingByRepo hfound'
  rw [hpubkey, hpubkey', hp, ← hid, ← hid', hi]
  exact ⟨rfl, rfl⟩

/-! ### Two keys with the same first digits -/

/-- Services of one signer. -/
def sample : RepoSystem := ⟨signerEnv, signerSigning, signerConfig⟩

theorem start_emptyWorld : Start emptyWorld := ⟨rfl, rfl⟩

/-- A request for the signer's repository `repo`. -/
def sampleInput : Control.CreateRepoInput where
  owner := none
  name := "repo"
  identifier := none
  description := none
  isPrivate := none
  autoInit := none
  pubkey := Hex.encode signerKey
  privkey := Hex.encode (List.replicate 31 0 ++ [3])

/-- A key that shares its first four bytes with `otherKey`. -/
def twinKey : List UInt8 := List.replicate 4 17 ++ List.replicate 28 34

instance (w : World) (action : RepoAction) : Decidable (sample.UnclaimedStep w action) := by
  cases action <;> unfold UnclaimedStep <;> infer_instance

theorem unshared_of_unclaimed_sample : ∃ w, Runs.Reach sample.step sample.UnclaimedStep Start w ∧
    w.store.mappings.byRepo.values = [⟨"forge", "repo--11111111", otherKey, "repo"⟩,
      ⟨"forge", "repo", signerKey, "repo"⟩] ∧ w.store.mappings.Unshared := by
  have hrun : (Runs.exec (Runs.guarded sample.step sample.UnclaimedStep) emptyWorld
      [.announce (sampleAnnouncement otherKey signerNpub "repo"), .create sampleInput 1700000000,
        .finalize 1]).map (fun r => r.1.store.mappings.byRepo.values) =
      some [⟨"forge", "repo--11111111", otherKey, "repo"⟩, ⟨"forge", "repo", signerKey, "repo"⟩] := by
    decide +kernel
  obtain ⟨⟨w, outputs⟩, hexec, hvalues⟩ := Option.map_eq_some_iff.1 hrun
  have hreach := Runs.Reach.of_exec_guarded start_emptyWorld hexec
  exact ⟨w, hreach, hvalues, (unshared_of_unclaimed sample hreach).1⟩

/-- Two keys that share their first eight digits get one Forgejo repository for two repositories. -/
theorem shared_forgejo_repo : ¬ ∀ (sys : RepoSystem) (w : World),
    Runs.Reach sys.step (fun _ _ => True) Start w → w.store.mappings.Unshared := by
  intro hall
  have hrun : (Runs.exec sample.step emptyWorld
      [.announce (sampleAnnouncement otherKey signerNpub "repo"),
        .announce (sampleAnnouncement twinKey signerNpub "repo")]).map
        (fun r => r.1.store.mappings.byRepo.values) =
      some [⟨"forge", "repo--11111111", otherKey, "repo"⟩,
        ⟨"forge", "repo--11111111", twinKey, "repo"⟩] := by
    decide +kernel
  obtain ⟨⟨w, outputs⟩, hexec, hvalues⟩ := Option.map_eq_some_iff.1 hrun
  have hreach : Runs.Reach sample.step (fun _ _ => True) Start w :=
    .of_exec (.start start_emptyWorld) (fun _ _ _ => trivial) hexec
  have hstored : ∀ m ∈ w.store.mappings.byRepo.values, w.store.mappings.Stored m :=
    fun m hm => .inl (Map.mem_values.1 hm)
  rw [show w.store.mappings.byRepo.values = _ from hvalues] at hstored
  obtain ⟨hsame, -⟩ := hall sample w hreach _ _ (hstored _ List.mem_cons_self)
    (hstored _ (List.mem_cons_of_mem _ List.mem_cons_self)) rfl rfl
  exact absurd hsame (by decide)

end RepoSystem
end Gittree
