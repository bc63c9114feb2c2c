import Gittree.Dispatch.Convergence

/-!
# How commands go about their records

What a command does with its records is one of three plans: it reads a record and writes it, it looks
at a repository and its maintainers and writes the repository, or it finds no repository and writes
it with its first maintainer.

* `Fits`: a program follows a plan;
* `exists_plan`: a command that can write has a plan;
* `run_plan`: what a program does that follows a plan;
* `effect_maintain`, `effect_change`, `effect_create`: the plans on the rows of a repository.
-/

namespace Gittree

open Rust

namespace Command

variable {α : Type} {b : Bech32} {input : Input} {s : CommandTables} {x : Subject}

/-- Programs over the store. -/
abbrev Calls (α : Type) : Type := Prog StoreCall StoreCall.Response α

/-! ### Plans -/

/-- Nothing is written any more. -/
def Silent (p : Calls α) : Prop := p.Calls Honest fun call => call.writes = false

/-- A call that writes, and nothing that writes after it. -/
def LastWrite (call : StoreCall) (p : Calls α) : Prop :=
  ∃ next, p = .call call next ∧ ∀ response, Silent (next response)

/-- A call, and what follows its answer; nothing is written when it fails. -/
def Then (call : StoreCall) (follows : call.Answer → Calls α → Prop) (p : Calls α) : Prop :=
  ∃ next, p = .call call next ∧ (∀ err, Silent (next (.error err))) ∧
    ∀ answer, Honest call (.ok answer) → follows answer (next (.ok answer))

/-- What a command does with its records. -/
inductive Plan
  | once (read : StoreCall) (write : read.Answer → Option StoreCall)
  | change (ownerPubkey : List UInt8) (repoName : String)
      (changed : RepoStateV1Record → RepoStateV1Record)
  | create (record : RepoStateV1Record)

/-- The record of a new repository. -/
def newRepo (input : Input) (repoName : String) : RepoStateV1Record where
  ownerPubkey := input.actorPubkey
  repoName
  description := none
  websiteUrl := none
  visibility := .isPrivate
  defaultBranch := "main"
  archived := false
  updatedAt := input.createdAt

/-- The first maintainer of a repository is its owner. -/
def firstMaintainer (record : RepoStateV1Record) : RepoMaintainerV1Record where
  ownerPubkey := record.ownerPubkey
  repoName := record.repoName
  maintainerPubkey := record.ownerPubkey
  active := true
  updatedAt := record.updatedAt

/-- The plan of `repo maintainers`. -/
def maintain (ownerPubkey : List UInt8) (repoName : String) (record : RepoMaintainerV1Record) : Plan :=
  .once (.listActiveRepoMaintainers ownerPubkey repoName) fun maintainers : List (List UInt8) =>
    if maintainers.contains ownerPubkey then some (.setRepoMaintainer record) else none

/-- After the maintainers have been read. -/
def ChangeListed (ownerPubkey : List UInt8) (record : RepoStateV1Record)
    (maintainers : List (List UInt8)) (p : Calls α) : Prop :=
  if maintainers.contains ownerPubkey then LastWrite (.upsertRepoState record) p else Silent p

/-- After the repository has been read that is to be changed. -/
def ChangeFound (ownerPubkey : List UInt8) (repoName : String)
    (changed : RepoStateV1Record → RepoStateV1Record) (existing : Option RepoStateV1Record)
    (p : Calls α) : Prop :=
  match existing with
  | none => Silent p
  | some state => Then (.listActiveRepoMaintainers ownerPubkey repoName)
      (ChangeListed ownerPubkey (changed state)) p

/-- After the repository has not been found that is to be created. -/
def Creates (record : RepoStateV1Record) (p : Calls α) : Prop :=
  Then (.upsertRepoState record) (fun _ => LastWrite (.setRepoMaintainer (firstMaintainer record))) p

/-- After the repository has been looked for that is to be created. -/
def CreateFound (record : RepoStateV1Record) (existing : Option RepoStateV1Record) (p : Calls α) :
    Prop :=
  match existing with
  | some _ => Silent p
  | none => Creates record p

/-- After it is known what is to be written, if anything. -/
def Decided (write : Option StoreCall) (p : Calls α) : Prop :=
  match write with
  | none => Silent p
  | some call => LastWrite call p

/-- A program follows a plan. -/
def Plan.Fits (plan : Plan) (p : Calls α) : Prop :=
  match plan with
  | .once read write => Then read (fun answer => Decided (write answer)) p
  | .change ownerPubkey repoName changed =>
    Then (.repoState ownerPubkey repoName) (ChangeFound ownerPubkey repoName changed) p
  | .create record => Then (.repoState record.ownerPubkey record.repoName) (CreateFound record) p

/-- The command makes somebody a maintainer, or no longer one. -/
def Appoints (b : Bech32) (input : Input) (record : RepoMaintainerV1Record) : Prop :=
  input.parsed.ns = .repo ∧ input.parsed.action = "maintainers" ∧ ∃ action npub,
    input.parsed.args = [.positional action, .positional npub] ∧
      pubkeyBytesFromNpub b npub = some record.maintainerPubkey ∧ record.active = (action == "add")

/-- The plans that a command can have. -/
inductive Plan.For (b : Bech32) (input : Input) : Subject → Plan → Prop
  | once {x : Subject} {read : StoreCall} {write : read.Answer → Option StoreCall}
      (hread : read.subject = some x) (hreads : read.writes = false)
      (hwrites : ∀ answer call, write answer = some call → call.writes = true)
      (hrepo : ∀ ownerPubkey repoName, x ≠ .repo ownerPubkey repoName) :
      For b input x (.once read write)
  | maintain {ownerPubkey : List UInt8} {repoName : String} {record : RepoMaintainerV1Record}
      (htime : record.updatedAt = input.createdAt) (hkey : record.ownerPubkey = ownerPubkey ∧
        record.repoName = repoName) (happoints : Appoints b input record) :
      For b input (.repo ownerPubkey repoName) (maintain ownerPubkey repoName record)
  | change {ownerPubkey : List UInt8} {repoName : String}
      {changed : RepoStateV1Record → RepoStateV1Record}
      (htime : ∀ state, (changed state).updatedAt = input.createdAt) :
      For b input (.repo ownerPubkey repoName) (.change ownerPubkey repoName changed)
  | create {record : RepoStateV1Record} (htime : record.updatedAt = input.createdAt)
      (hcreate : input.parsed.ns = .repo ∧ input.parsed.action = "create") :
      For b input (.repo record.ownerPubkey record.repoName) (.create record)

theorem for_create {record : RepoStateV1Record} (h : Plan.For b input x (.create record)) :
    x = .repo record.ownerPubkey record.repoName ∧ record.updatedAt = input.createdAt ∧
      input.parsed.ns = .repo ∧ input.parsed.action = "create" := by
  cases h with
  | create hupdated hcreate => exact ⟨rfl, hupdated, hcreate⟩

/-! ### The plan of a command -/

section Fits

variable {β : Type} {tail : Except DispatchError α → Calls β}

theorem then_ask {call : StoreCall} {f : call.Answer → Command α}
    {follows : call.Answer → Calls β → Prop} (htail : ∀ err, Silent (tail (.error err)))
    (hf : ∀ answer, Honest call (.ok answer) → follows answer ((f answer).run >>= tail)) :
    Then call follows ((ask call >>= f).run >>= tail) :=
  ⟨_, rfl, htail, hf⟩

theorem fits_once {read : StoreCall} {write : read.Answer → Option StoreCall}
    {f : read.Answer → Command α} (htail : ∀ err, Silent (tail (.error err)))
    (hf : ∀ answer, Decided (write answer) ((f answer).run >>= tail)) :
    (Plan.once read write).Fits ((ask read >>= f).run >>= tail) :=
  show Then read (fun answer => Decided (write answer)) _ from
    then_ask htail fun answer _ => hf answer

theorem lastWrite_ask {call : StoreCall} {f : call.Answer → Command α}
    (htail : ∀ err, Silent (tail (.error err)))
    (hf : ∀ answer, Silent ((f answer).run >>= tail)) :
    LastWrite call ((ask call >>= f).run >>= tail) := by
  refine ⟨_, rfl, fun response => ?_⟩
  cases response with
  | error err => exact htail err
  | ok answer => exact hf answer

end Fits

section

variable {tail : Except DispatchError Output → Calls α}
  (htail : ∀ applied, Silent (tail applied))

include htail

theorem plan_applyAccount
    (h : input.parsed.action = "create" ∨ input.parsed.action = "delete") :
    ∃ write : Option AccountStateRecord → Option StoreCall,
      (∀ answer call, write answer = some call → call.writes = true) ∧
        (Plan.once (.accountState input.actorPubkey) write).Fits
          ((applyAccount input).run >>= tail) := by
  rcases h with haction | haction
  · refine ⟨fun existing => existing.elim (some (.upsertAccountState ⟨input.actorPubkey, .active,
      input.createdAt, input.createdAt, none⟩)) fun _ => none, ?_, ?_⟩
    · rintro (_ | record) call hcall
      · cases hcall
        rfl
      · cases hcall
    unfold applyAccount accountState
    refine fits_once (fun _ => htail _) fun existing => ?_
    rw [if_pos haction]
    cases existing with
    | none => exact lastWrite_ask (fun _ => htail _) fun _ => htail _
    | some record => exact htail _
  · refine ⟨fun existing => some (.upsertAccountState ⟨input.actorPubkey, .deleted,
      (existing.map AccountStateRecord.createdAt).getD input.createdAt, input.createdAt,
      some input.createdAt⟩), ?_, ?_⟩
    · rintro existing call ⟨⟩
      rfl
    unfold applyAccount accountState
    refine fits_once (fun _ => htail _) fun existing => ?_
    rw [if_neg (by rw [haction]; decide), if_pos haction]
    exact lastWrite_ask (fun _ => htail _) fun _ => htail _

theorem plan_applyProfile (h : input.parsed.action = "set" ∨
      input.parsed.action = "visibility" ∧ namesVisibility input.parsed.args) :
    ∃ write : Option ProfileStateRecord → Option StoreCall,
      (∀ answer call, write answer = some call → call.writes = true) ∧
        (Plan.once (.profileState input.actorPubkey) write).Fits
          ((applyProfile input).run >>= tail) := by
  rcases h with haction | ⟨haction, hargs⟩
  · refine ⟨fun existing : Option ProfileStateRecord => some (.upsertProfileState
      { (keyValues input.parsed.args).foldl setProfileField (existing.getD (emptyProfile input)) with
        updatedAt := input.createdAt }), ?_, ?_⟩
    · rintro existing call ⟨⟩
      rfl
    unfold applyProfile profileState
    refine fits_once (fun _ => htail _) fun existing => ?_
    simp only [if_pos haction]
    exact lastWrite_ask (fun _ => htail _) fun _ => htail _
  · unfold namesVisibility at hargs
    split at hargs
    · rename_i value hvalue
      refine ⟨fun existing : Option ProfileStateRecord => some (.upsertProfileState
        { existing.getD (emptyProfile input) with
          visibility := .ofText value, updatedAt := input.createdAt }), ?_, ?_⟩
      · rintro existing call ⟨⟩
        rfl
      unfold applyProfile profileState
      refine fits_once (fun _ => htail _) fun existing => ?_
      have hset : ¬ input.parsed.action = "set" := by
        rw [haction]
        decide
      simp only [if_neg hset, if_pos haction, hvalue]
      exact lastWrite_ask (fun _ => htail _) fun _ => htail _
    · cases hargs

variable {repoName : String}

theorem plan_createRepo :
    (Plan.create (newRepo input repoName)).Fits ((createRepo input repoName).run >>= tail) := by
  refine then_ask (fun _ => htail _) fun existing _ => ?_
  cases existing with
  | some state => exact htail _
  | none =>
    exact then_ask (fun _ => htail _) fun _ _ =>
      lastWrite_ask (fun _ => htail _) fun _ => htail _

theorem then_actorIsMaintainer {f : Bool → Command Output}
    {follows : List (List UInt8) → Calls α → Prop}
    (hf : ∀ maintainers : List (List UInt8), follows maintainers
      ((f (maintainers.contains input.actorPubkey)).run >>= tail)) :
    Then (.listActiveRepoMaintainers input.actorPubkey repoName) follows
      ((actorIsMaintainer input.actorPubkey repoName >>= f).run >>= tail) :=
  ⟨_, rfl, fun _ => htail _, fun answer _ => hf answer⟩

theorem plan_changeRepo {change : RepoStateV1Record → RepoStateV1Record} {done : Output} :
    (Plan.change input.actorPubkey repoName fun state =>
      { change state with updatedAt := input.createdAt }).Fits
      ((changeRepo input repoName change done).run >>= tail) := by
  refine then_ask (fun _ => htail _) fun existing _ => ?_
  cases existing with
  | none => exact htail _
  | some state =>
    refine then_actorIsMaintainer htail fun maintainers => ?_
    unfold ChangeListed
    cases maintainers.contains input.actorPubkey with
    | false => exact htail _
    | true => exact lastWrite_ask (fun _ => htail _) fun _ => htail _

theorem plan_changeMaintainers (hns : input.parsed.ns = .repo)
    (haction : input.parsed.action = "maintainers") (h : namesMaintainer b input.parsed.args) :
    ∃ record : RepoMaintainerV1Record, record.updatedAt = input.createdAt ∧
      (record.ownerPubkey = input.actorPubkey ∧ record.repoName = repoName) ∧
      Appoints b input record ∧ (maintain input.actorPubkey repoName record).Fits
      ((changeMaintainers b input repoName).run >>= tail) := by
  unfold namesMaintainer at h
  split at h
  · rename_i action npub hargs
    obtain ⟨key, hkey⟩ := Option.isSome_iff_exists.1 h
    refine ⟨⟨input.actorPubkey, repoName, key, action == "add", input.createdAt⟩, rfl, ⟨rfl, rfl⟩,
      ⟨hns, haction, action, npub, hargs, hkey, rfl⟩, ?_⟩
    unfold changeMaintainers
    refine then_actorIsMaintainer htail fun maintainers => ?_
    by_cases hlisted : maintainers.contains input.actorPubkey = true
    · simp only [hlisted, if_true, hargs, hkey]
      exact lastWrite_ask (fun _ => htail _) fun _ => htail _
    · simp only [hlisted, Bool.false_eq_true, if_false]
      exact htail _
  · cases h

/-- A command that can write has a plan. -/
theorem exists_plan (h : changes b input = some x) : ∃ plan, Plan.For b input x plan ∧
    plan.Fits ((applyCommand b input).run >>= tail) := by
  have hsubject := subject_of_changes h
  have hwrite : canWrite b input = true := by
    unfold changes at h
    split_ifs at h with hwrite
    exact hwrite
  unfold canWrite at hwrite
  unfold Input.subject at hsubject
  unfold applyCommand
  cases hns : input.parsed.ns with
  | account =>
    rw [hns] at hsubject hwrite
    obtain rfl := Option.some.inj hsubject
    obtain ⟨write, hwrites, hfits⟩ := plan_applyAccount htail (of_decide_eq_true hwrite)
    exact ⟨.once (.accountState input.actorPubkey) write, .once rfl rfl hwrites nofun, hfits⟩
  | profile =>
    rw [hns] at hsubject hwrite
    obtain rfl := Option.some.inj hsubject
    obtain ⟨write, hwrites, hfits⟩ := plan_applyProfile htail (of_decide_eq_true hwrite)
    exact ⟨.once (.profileState input.actorPubkey) write, .once rfl rfl hwrites nofun, hfits⟩
  | repo =>
    rw [hns] at hsubject hwrite
    obtain ⟨repoName, htarget, rfl⟩ := Option.map_eq_some_iff.1 hsubject
    have hwrite := of_decide_eq_true hwrite
    simp only [applyRepo, htarget]
    split_ifs with hcreate hupdate harchive hmaintainers
    · have hfor : Plan.For b input (.repo (newRepo input repoName).ownerPubkey
          (newRepo input repoName).repoName) (.create (newRepo input repoName)) :=
        .create rfl ⟨hns, hcreate⟩
      exact ⟨_, hfor, plan_createRepo htail⟩
    · exact ⟨_, .change fun _ => rfl, plan_changeRepo htail⟩
    · exact ⟨_, .change fun _ => rfl, plan_changeRepo htail⟩
    · rcases hwrite with hmem | ⟨-, hargs⟩
      · rw [hmaintainers] at hmem
        exact absurd hmem (by decide)
      · obtain ⟨record, htime, hkey, happoints, hfits⟩ :=
          plan_changeMaintainers htail hns hmaintainers hargs
        exact ⟨_, .maintain htime hkey happoints, hfits⟩
    all_goals
      exfalso
      simp only [List.mem_cons, List.not_mem_nil, or_false] at hwrite
      tauto

end

/-! ### What a plan does -/

/-- The tables after a call that is carried out. -/
def after (t : CommandTables) (call : StoreCall) : CommandTables := (t.perform call).2

/-- The record of a repository. -/
def repoAt (t : CommandTables) (ownerPubkey : List UInt8) (repoName : String) :
    Option RepoStateV1Record :=
  t.repos.find? fun row => row.ownerPubkey == ownerPubkey && row.repoName == repoName

/-- The active maintainers of a repository. -/
def activeAt (t : CommandTables) (ownerPubkey : List UInt8) (repoName : String) : List (List UInt8) :=
  (t.maintainers.filter fun row => row.ownerPubkey == ownerPubkey && row.repoName == repoName &&
    row.active).map RepoMaintainerV1Record.maintainerPubkey

/-- The tables after a plan that no other command interferes with. -/
def Plan.effect (plan : Plan) (t : CommandTables) : CommandTables :=
  match plan with
  | .once read write =>
    match (t.perform read).1 with
    | .error _ => t
    | .ok answer => ((write answer).map (after t)).getD t
  | .change ownerPubkey repoName changed =>
    match repoAt t ownerPubkey repoName with
    | none => t
    | some state =>
      if (activeAt t ownerPubkey repoName).contains ownerPubkey then
        after t (.upsertRepoState (changed state))
      else t
  | .create record =>
    match repoAt t record.ownerPubkey record.repoName with
    | some _ => t
    | none =>
      after (after t (.upsertRepoState record)) (.setRepoMaintainer (firstMaintainer record))

section Effect

variable {p : Calls α} {t : CommandTables} {call : StoreCall}

/-- A read leaves the tables as they are. -/
theorem respond_read (hcall : call.subject = some x) (hreads : call.writes = false) :
    ∃ answer, respond none call t = (.ok answer, t) := by
  cases call with
  | insertCommandLog record => cases hcall
  | updateCommandLogOutcome eventId status code message => cases hcall
  | upsertAccountState record => cases hreads
  | upsertProfileState record => cases hreads
  | upsertRepoState record => cases hreads
  | setRepoMaintainer record => cases hreads
  | _ => exact ⟨_, rfl⟩

theorem run_silent (h : Silent p) (t : CommandTables) :
    (p.run (respond none) t).2.only x = t.only x :=
  Prog.run_view (respond none) (CommandTables.only x) h (honest_respond none)
    (fun _ hcall _ => only_of_sameState (CommandTables.sameState_respond hcall)) t

theorem run_lastWrite (h : LastWrite call p) (t : CommandTables) :
    (p.run (respond none) t).2.only x = (after t call).only x := by
  obtain ⟨next, rfl, hnext⟩ := h
  rw [Prog.run_call, run_silent (hnext _)]
  rfl

theorem run_then {follows : call.Answer → Calls α → Prop} {answer : call.Answer}
    {u : CommandTables} (h : Then call follows p) (hcall : respond none call t = (.ok answer, u)) :
    ∃ q, follows answer q ∧ p.run (respond none) t = q.run (respond none) u := by
  obtain ⟨next, rfl, -, hnext⟩ := h
  have hhonest : Honest call (.ok answer) := by
    have hall := honest_respond none call t
    rw [hcall] at hall
    exact hall
  refine ⟨_, hnext answer hhonest, ?_⟩
  rw [Prog.run_call, hcall]

theorem respond_repoState (ownerPubkey : List UInt8) (repoName : String) :
    respond none (.repoState ownerPubkey repoName) t = (.ok (repoAt t ownerPubkey repoName), t) := rfl

theorem respond_listActive (ownerPubkey : List UInt8) (repoName : String) :
    respond none (.listActiveRepoMaintainers ownerPubkey repoName) t =
      (.ok (activeAt t ownerPubkey repoName), t) := rfl

/-- A repository is written when its time stamp is in range. -/
theorem respond_upsertRepoState {record : RepoStateV1Record} {time : ℤ}
    (htime : toOffsetDatetime record.updatedAt = .ok time) :
    respond none (.upsertRepoState record) t = (.ok (), after t (.upsertRepoState record)) := by
  have hok : (t.upsertRepoState record).1 = .ok () := by
    unfold CommandTables.upsertRepoState
    rw [htime]
  show ((t.upsertRepoState record).1.mapError DispatchError.storage, _) = _
  rw [hok]
  rfl

/-- A program that follows a plan does what the plan says. -/
theorem run_plan {plan : Plan} {time : ℤ} (hfor : Plan.For b input x plan)
    (htime : toOffsetDatetime input.createdAt = .ok time) (hfits : plan.Fits p)
    (t : CommandTables) : (p.run (respond none) t).2.only x = (plan.effect t).only x := by
  cases plan with
  | once read write =>
    have hread : ∃ answer, respond none read t = (.ok answer, t) := by
      cases hfor with
      | once hread hreads _ _ => exact respond_read hread hreads
      | maintain _ _ _ => exact ⟨_, rfl⟩
    obtain ⟨answer, hanswer⟩ := hread
    obtain ⟨q, hq, hrun⟩ := run_then hfits hanswer
    have hperform : (t.perform read).1 = .ok answer :=
      Result.mapError_eq_ok.1 (congrArg Prod.fst hanswer)
    rw [hrun]
    simp only [Plan.effect, hperform]
    cases hwrite : write answer with
    | none =>
      rw [hwrite] at hq
      exact run_silent hq t
    | some call =>
      rw [hwrite] at hq
      exact run_lastWrite hq t
  | change ownerPubkey repoName changed =>
    obtain ⟨q, hq, hrun⟩ := run_then hfits (respond_repoState ownerPubkey repoName)
    rw [hrun]
    simp only [Plan.effect]
    cases hfind : repoAt t ownerPubkey repoName with
    | none =>
      rw [hfind] at hq
      exact run_silent hq t
    | some state =>
      rw [hfind] at hq
      obtain ⟨q', hq', hrun'⟩ := run_then hq (respond_listActive ownerPubkey repoName)
      rw [hrun']
      unfold ChangeListed at hq'
      split_ifs at hq' ⊢
      · exact run_lastWrite hq' t
      · exact run_silent hq' t
  | create record =>
    obtain ⟨q, hq, hrun⟩ := run_then hfits (respond_repoState record.ownerPubkey record.repoName)
    rw [hrun]
    simp only [Plan.effect]
    cases hfind : repoAt t record.ownerPubkey record.repoName with
    | some state =>
      rw [hfind] at hq
      exact run_silent hq t
    | none =>
      rw [hfind] at hq
      have hrecord : toOffsetDatetime record.updatedAt = .ok time := by
        cases hfor with
        | create hupdated _ => exact hupdated ▸ htime
      obtain ⟨q', hq', hrun'⟩ := run_then hq (respond_upsertRepoState hrecord)
      rw [hrun']
      exact run_lastWrite hq' _

/-- A command does what its plan says. -/
theorem applied_plan {plan : Plan} {time : ℤ} {tail : Except DispatchError Output → Calls α}
    (hfor : Plan.For b input x plan) (htime : toOffsetDatetime input.createdAt = .ok time)
    (htail : ∀ applied, Silent (tail applied))
    (hfits : plan.Fits ((applyCommand b input).run >>= tail)) (t : CommandTables) :
    (applied b t input).only x = (plan.effect t).only x := by
  have hrun := run_plan hfor htime hfits t
  rw [Prog.run_bind, run_silent (htail _)] at hrun
  exact hrun

end Effect

/-! ### Repositories and maintainers -/

/-- The rows of a repository. -/
def repoPart (repos : List RepoStateV1Record) (maintainers : List RepoMaintainerV1Record) :
    CommandTables :=
  ⟨[], [], [], repos, maintainers⟩

/-- The owner is an active maintainer. -/
def owned (ownerPubkey : List UInt8) (repoName : String)
    (maintainers : List RepoMaintainerV1Record) : Bool :=
  (activeAt (repoPart [] maintainers) ownerPubkey repoName).contains ownerPubkey

def putRepo (record : RepoStateV1Record) (repos : List RepoStateV1Record) : List RepoStateV1Record :=
  upsertRow (fun row => row.ownerPubkey == record.ownerPubkey && row.repoName == record.repoName)
    (fun _ => record) record repos

def putMaintainer (record : RepoMaintainerV1Record) (maintainers : List RepoMaintainerV1Record) :
    List RepoMaintainerV1Record :=
  upsertRow (fun row => row.ownerPubkey == record.ownerPubkey && row.repoName == record.repoName &&
    row.maintainerPubkey == record.maintainerPubkey) (fun _ => record) record maintainers

section Parts

variable {ownerPubkey : List UInt8} {repoName : String} {repos : List RepoStateV1Record}
  {maintainers : List RepoMaintainerV1Record} {time : ℤ}

theorem only_repo (s : CommandTables) : s.only (.repo ownerPubkey repoName) =
    repoPart (s.only (.repo ownerPubkey repoName)).repos
      (s.only (.repo ownerPubkey repoName)).maintainers := by
  simp [CommandTables.only, repoPart]

theorem only_only (s : CommandTables) : (s.only x).only x = s.only x := by
  simp [CommandTables.only]

/-- A record that is written is a row. -/
theorem mem_upsertRow {α : Type} {same : α → Bool} {record : α} (rows : List α) :
    record ∈ upsertRow same (fun _ => record) record rows := by
  unfold upsertRow
  split_ifs with hany
  · obtain ⟨row, hrow, hsame⟩ := List.any_eq_true.1 hany
    exact List.mem_map.2 ⟨row, hrow, if_pos hsame⟩
  · exact List.mem_append_right _ List.mem_cons_self

theorem after_upsertRepoState {record : RepoStateV1Record}
    (htime : toOffsetDatetime record.updatedAt = .ok time) :
    after (repoPart repos maintainers) (.upsertRepoState record) =
      repoPart (putRepo record repos) maintainers := by
  show ((repoPart repos maintainers).upsertRepoState record).2 = _
  unfold CommandTables.upsertRepoState
  rw [htime]
  rfl

theorem after_setRepoMaintainer {record : RepoMaintainerV1Record}
    (htime : toOffsetDatetime record.updatedAt = .ok time) :
    after (repoPart repos maintainers) (.setRepoMaintainer record) =
      repoPart repos (putMaintainer record maintainers) := by
  show ((repoPart repos maintainers).setRepoMaintainer record).2 = _
  unfold CommandTables.setRepoMaintainer
  rw [htime]
  rfl

theorem repoAt_isSome_iff : (repoAt (repoPart repos maintainers) ownerPubkey repoName).isSome ↔
    ∃ row ∈ repos, row.ownerPubkey = ownerPubkey ∧ row.repoName = repoName := by
  simp [repoAt, repoPart]

theorem mem_of_mem_upsertRow {α : Type} {same : α → Bool} {record row : α} {rows : List α}
    (h : row ∈ upsertRow same (fun _ => record) record rows) : row ∈ rows ∨ row = record := by
  unfold upsertRow at h
  split_ifs at h with hany
  · obtain ⟨other, hother, heq⟩ := List.mem_map.1 h
    split_ifs at heq
    · exact .inr heq.symm
    · exact .inl (heq ▸ hother)
  · exact (List.mem_append.1 h).imp_right List.mem_singleton.1

/-- A repository that is there stays when one is written. -/
theorem repoAt_putRepo {record : RepoStateV1Record}
    (h : (repoAt (repoPart repos maintainers) ownerPubkey repoName).isSome) :
    (repoAt (repoPart (putRepo record repos) maintainers) ownerPubkey repoName).isSome := by
  obtain ⟨row, hrow, howner, hname⟩ := repoAt_isSome_iff.1 h
  refine repoAt_isSome_iff.2 ?_
  by_cases hsame : row.ownerPubkey = record.ownerPubkey ∧ row.repoName = record.repoName
  · exact ⟨record, mem_upsertRow repos, hsame.1 ▸ howner, hsame.2 ▸ hname⟩
  · refine ⟨row, ?_, howner, hname⟩
    unfold putRepo upsertRow
    split_ifs
    · refine List.mem_map.2 ⟨row, hrow, if_neg ?_⟩
      simpa using hsame
    · exact List.mem_append_left _ hrow

/-- A repository that is written is there. -/
theorem repoAt_putRepo_self {record : RepoStateV1Record} :
    (repoAt (repoPart (putRepo record repos) maintainers) record.ownerPubkey
      record.repoName).isSome :=
  repoAt_isSome_iff.2 ⟨record, mem_upsertRow repos, rfl, rfl⟩

/-- The first maintainer of a repository is its owner. -/
theorem owned_putMaintainer {record : RepoStateV1Record} :
    owned record.ownerPubkey record.repoName
      (putMaintainer (firstMaintainer record) maintainers) = true := by
  refine List.contains_iff_mem.2 (List.mem_map.2 ⟨firstMaintainer record, ?_, rfl⟩)
  refine List.mem_filter.2 ⟨mem_upsertRow maintainers, ?_⟩
  simp [firstMaintainer]

/-! ### Plans on a repository -/

theorem effect_maintain {record : RepoMaintainerV1Record}
    (htime : toOffsetDatetime record.updatedAt = .ok time) :
    (maintain ownerPubkey repoName record).effect (repoPart repos maintainers) =
      if owned ownerPubkey repoName maintainers then
        repoPart repos (putMaintainer record maintainers)
      else repoPart repos maintainers := by
  unfold maintain Plan.effect owned
  simp only [CommandTables.perform]
  show Option.getD (Option.map _ (if (activeAt (repoPart [] maintainers) ownerPubkey
    repoName).contains ownerPubkey = true then _ else none)) _ = _
  split_ifs
  · exact after_setRepoMaintainer htime
  · rfl

theorem effect_change {changed : RepoStateV1Record → RepoStateV1Record}
    {state : RepoStateV1Record}
    (hstate : repoAt (repoPart repos maintainers) ownerPubkey repoName = some state)
    (htime : toOffsetDatetime (changed state).updatedAt = .ok time) :
    (Plan.change ownerPubkey repoName changed).effect (repoPart repos maintainers) =
      if owned ownerPubkey repoName maintainers then
        repoPart (putRepo (changed state) repos) maintainers
      else repoPart repos maintainers := by
  unfold Plan.effect
  simp only [hstate, after_upsertRepoState htime]
  rfl

theorem effect_create {record : RepoStateV1Record} {t : CommandTables}
    (h : (repoAt t record.ownerPubkey record.repoName).isSome) :
    (Plan.create record).effect t = t := by
  obtain ⟨state, hstate⟩ := Option.isSome_iff_exists.1 h
  unfold Plan.effect
  simp only [hstate]

end Parts

end Command

end Gittree
