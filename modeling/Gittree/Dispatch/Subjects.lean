import Gittree.Dispatch.Redelivery
import Gittree.Lib.Tasks

/-!
# What a command is about

A command is about one account, one profile, or one repository with its maintainers: its subject.
The rows of a subject are a part of the command tables; the calls that apply a command concern the
part of its subject only, whether they are carried out or fail.

* `parts`: the command tables in parts;
* `calls_applyCommand`: the calls that apply a command;
* `only_deliver`, `only_deliver_of_ne`: what a delivery does to each part.
-/

namespace Gittree

open Rust

/-- The records that belong together. -/
inductive Subject
  | account (pubkey : List UInt8)
  | profile (pubkey : List UInt8)
  | repo (ownerPubkey : List UInt8) (repoName : String)
  deriving DecidableEq, Repr

/-- The key that a subject belongs to. -/
def Subject.owner : Subject → List UInt8
  | .account pubkey => pubkey
  | .profile pubkey => pubkey
  | .repo ownerPubkey _ => ownerPubkey

/-- What a call is about; the log is of no subject. -/
def StoreCall.subject : StoreCall → Option Subject
  | .insertCommandLog _ => none
  | .updateCommandLogOutcome _ _ _ _ => none
  | .accountState pubkey => some (.account pubkey)
  | .upsertAccountState record => some (.account record.pubkey)
  | .profileState pubkey => some (.profile pubkey)
  | .upsertProfileState record => some (.profile record.pubkey)
  | .repoState ownerPubkey repoName => some (.repo ownerPubkey repoName)
  | .upsertRepoState record => some (.repo record.ownerPubkey record.repoName)
  | .setRepoMaintainer record => some (.repo record.ownerPubkey record.repoName)
  | .listActiveRepoMaintainers ownerPubkey repoName => some (.repo ownerPubkey repoName)

/-- The calls that write something but the log. -/
def StoreCall.writes : StoreCall → Bool
  | .upsertAccountState _ => true
  | .upsertProfileState _ => true
  | .upsertRepoState _ => true
  | .setRepoMaintainer _ => true
  | _ => false

/-! ### Rows of a subject -/

section Rows

variable {α : Type} {p : α → Bool}

/-- A row of the part is written in the part. -/
theorem filter_upsertRow (p same : α → Bool) (merge : α → α) (record : α)
    (hrecord : p record = true) (hsame : ∀ row, same row = true → p row = true)
    (hmerge : ∀ row, same row = true → p (merge row) = true) (rows : List α) :
    (upsertRow same merge record rows).filter p =
      upsertRow same merge record (rows.filter p) := by
  have hkept : (p ∘ fun row => if same row then merge row else row) = p := by
    funext row
    by_cases hrow : same row = true
    · simp only [Function.comp_apply, hrow, if_true, hmerge row hrow, hsame row hrow]
    · simp only [Function.comp_apply, hrow, if_false, Bool.false_eq_true]
  have hany : (rows.filter p).any same = rows.any same := by
    rw [List.any_filter]
    congr 1
    funext row
    by_cases hrow : same row = true
    · rw [hrow, hsame row hrow, Bool.and_true]
    · rw [Bool.not_eq_true] at hrow
      rw [hrow, Bool.and_false]
  unfold upsertRow
  rw [hany]
  split_ifs
  · rw [List.filter_map, hkept]
  · rw [List.filter_append, List.filter_cons_of_pos hrecord, List.filter_nil]

/-- Rows of another part are changed outside the part. -/
theorem filter_map_of_not (p same : α → Bool) (merge : α → α)
    (hsame : ∀ row, same row = true → p row = false)
    (hmerge : ∀ row, same row = true → p (merge row) = false) (rows : List α) :
    (rows.map fun row => if same row then merge row else row).filter p = rows.filter p := by
  have hkept : (p ∘ fun row => if same row then merge row else row) = p := by
    funext row
    by_cases hrow : same row = true
    · simp only [Function.comp_apply, hrow, if_true, hmerge row hrow, hsame row hrow]
    · simp only [Function.comp_apply, hrow, if_false, Bool.false_eq_true]
  rw [List.filter_map, hkept]
  refine (List.map_congr_left fun row hrow => ?_).trans (List.map_id _)
  have hnot : ¬ same row = true := by
    intro hsamerow
    rw [List.mem_filter, hsame row hsamerow] at hrow
    cases hrow.2
  exact if_neg hnot

/-- A row of another part is not written in the part. -/
theorem filter_upsertRow_of_not (p same : α → Bool) (merge : α → α) (record : α)
    (hrecord : p record = false)
    (hsame : ∀ row, same row = true → p row = false)
    (hmerge : ∀ row, same row = true → p (merge row) = false) (rows : List α) :
    (upsertRow same merge record rows).filter p = rows.filter p := by
  unfold upsertRow
  split_ifs
  · exact filter_map_of_not p same merge hsame hmerge rows
  · rw [List.filter_append, List.filter_cons_of_neg (by rw [hrecord]; exact Bool.false_ne_true),
      List.filter_nil, List.append_nil]

/-- A row of the part is found in the part. -/
theorem find?_filter_of_imp {q : α → Bool} (h : ∀ row, q row = true → p row = true) (rows : List α) :
    (rows.filter p).find? q = rows.find? q := by
  rw [List.find?_filter]
  congr 1
  funext row
  by_cases hrow : q row = true
  · simp only [hrow, h row hrow, and_self, decide_true]
  · simp only [hrow, Bool.false_eq_true, and_false, decide_false]

end Rows

namespace CommandTables

variable {s t : CommandTables} {x y : Subject}

/-- The rows of a subject. -/
def only (x : Subject) (s : CommandTables) : CommandTables where
  log := []
  accounts := s.accounts.filter fun row => decide (Subject.account row.pubkey = x)
  profiles := s.profiles.filter fun row => decide (Subject.profile row.pubkey = x)
  repos := s.repos.filter fun row => decide (Subject.repo row.ownerPubkey row.repoName = x)
  maintainers := s.maintainers.filter fun row =>
    decide (Subject.repo row.ownerPubkey row.repoName = x)

/-- The tables hold the same rows, in some order. -/
def SameRows (s t : CommandTables) : Prop :=
  (∀ row, row ∈ s.accounts ↔ row ∈ t.accounts) ∧ (∀ row, row ∈ s.profiles ↔ row ∈ t.profiles) ∧
    (∀ row, row ∈ s.repos ↔ row ∈ t.repos) ∧ ∀ row, row ∈ s.maintainers ↔ row ∈ t.maintainers

/-- Tables with the same parts hold the same rows. -/
theorem sameRows_of_only (h : ∀ x, s.only x = t.only x) : SameRows s t := by
  refine ⟨fun row => ?_, fun row => ?_, fun row => ?_, fun row => ?_⟩
  · have hrows := congrArg (row ∈ CommandTables.accounts ·) (h (.account row.pubkey))
    simpa [only] using hrows
  · have hrows := congrArg (row ∈ CommandTables.profiles ·) (h (.profile row.pubkey))
    simpa [only] using hrows
  · have hrows := congrArg (row ∈ CommandTables.repos ·) (h (.repo row.ownerPubkey row.repoName))
    simpa [only] using hrows
  · have hrows := congrArg (row ∈ CommandTables.maintainers ·)
      (h (.repo row.ownerPubkey row.repoName))
    simpa [only] using hrows

/-! ### Calls on a part -/

theorem upsertAccountState_only {record : AccountStateRecord} (h : Subject.account record.pubkey = x) :
    (s.only x).upsertAccountState record =
      ((s.upsertAccountState record).1, (s.upsertAccountState record).2.only x) := by
  unfold upsertAccountState
  simp only
  split
  · rfl
  · have hrows := filter_upsertRow (fun row => decide (Subject.account row.pubkey = x))
      (fun row => row.pubkey == record.pubkey)
      (fun row : AccountStateRecord => { record with createdAt := row.createdAt })
      record (by simp [h]) (by rintro row hrow; simp [eq_of_beq hrow, h])
      (by simp [h]) s.accounts
    simp only [only, hrows]

theorem upsertAccountState_only_of_ne {record : AccountStateRecord}
    (h : Subject.account record.pubkey ≠ x) :
    (s.upsertAccountState record).2.only x = s.only x := by
  unfold upsertAccountState
  simp only
  split
  · rfl
  · have hrows := filter_upsertRow_of_not
      (fun row => decide (Subject.account row.pubkey = x))
      (fun row => row.pubkey == record.pubkey)
      (fun row : AccountStateRecord => { record with createdAt := row.createdAt })
      record (by simp [h]) (by rintro row hrow; simp [eq_of_beq hrow, h])
      (by simp [h]) s.accounts
    simp only [only, hrows]

theorem upsertProfileState_only {record : ProfileStateRecord} (h : Subject.profile record.pubkey = x) :
    (s.only x).upsertProfileState record =
      ((s.upsertProfileState record).1, (s.upsertProfileState record).2.only x) := by
  unfold upsertProfileState
  split
  · rfl
  · have hrows := filter_upsertRow (fun row => decide (Subject.profile row.pubkey = x))
      (fun row => row.pubkey == record.pubkey) (fun _ => record)
      record (by simp [h]) (by rintro row hrow; simp [eq_of_beq hrow, h])
      (by simp [h]) s.profiles
    simp only [only, hrows]

theorem upsertProfileState_only_of_ne {record : ProfileStateRecord}
    (h : Subject.profile record.pubkey ≠ x) :
    (s.upsertProfileState record).2.only x = s.only x := by
  unfold upsertProfileState
  split
  · rfl
  · have hrows := filter_upsertRow_of_not
      (fun row => decide (Subject.profile row.pubkey = x))
      (fun row => row.pubkey == record.pubkey) (fun _ => record)
      record (by simp [h]) (by rintro row hrow; simp [eq_of_beq hrow, h])
      (by simp [h]) s.profiles
    simp only [only, hrows]

theorem upsertRepoState_only {record : RepoStateV1Record}
    (h : Subject.repo record.ownerPubkey record.repoName = x) :
    (s.only x).upsertRepoState record =
      ((s.upsertRepoState record).1, (s.upsertRepoState record).2.only x) := by
  unfold upsertRepoState
  split
  · rfl
  · have hrows := filter_upsertRow
      (fun row => decide (Subject.repo row.ownerPubkey row.repoName = x))
      (fun row => row.ownerPubkey == record.ownerPubkey && row.repoName == record.repoName)
      (fun _ => record) record (by simp [h])
      (by rintro row hrow; simp_all) (by simp [h]) s.repos
    simp only [only, hrows]

theorem upsertRepoState_only_of_ne {record : RepoStateV1Record}
    (h : Subject.repo record.ownerPubkey record.repoName ≠ x) :
    (s.upsertRepoState record).2.only x = s.only x := by
  unfold upsertRepoState
  split
  · rfl
  · have hrows := filter_upsertRow_of_not
      (fun row => decide (Subject.repo row.ownerPubkey row.repoName = x))
      (fun row => row.ownerPubkey == record.ownerPubkey && row.repoName == record.repoName)
      (fun _ => record) record (by simp [h])
      (by rintro row hrow; simp_all) (by simp [h]) s.repos
    simp only [only, hrows]

theorem setRepoMaintainer_only {record : RepoMaintainerV1Record}
    (h : Subject.repo record.ownerPubkey record.repoName = x) :
    (s.only x).setRepoMaintainer record =
      ((s.setRepoMaintainer record).1, (s.setRepoMaintainer record).2.only x) := by
  unfold setRepoMaintainer
  split
  · rfl
  · have hrows := filter_upsertRow
      (fun row => decide (Subject.repo row.ownerPubkey row.repoName = x))
      (fun row => row.ownerPubkey == record.ownerPubkey && row.repoName == record.repoName &&
        row.maintainerPubkey == record.maintainerPubkey)
      (fun _ => record) record (by simp [h])
      (by rintro row hrow; simp_all) (by simp [h]) s.maintainers
    simp only [only, hrows]

theorem setRepoMaintainer_only_of_ne {record : RepoMaintainerV1Record}
    (h : Subject.repo record.ownerPubkey record.repoName ≠ x) :
    (s.setRepoMaintainer record).2.only x = s.only x := by
  unfold setRepoMaintainer
  split
  · rfl
  · have hrows := filter_upsertRow_of_not
      (fun row => decide (Subject.repo row.ownerPubkey row.repoName = x))
      (fun row => row.ownerPubkey == record.ownerPubkey && row.repoName == record.repoName &&
        row.maintainerPubkey == record.maintainerPubkey)
      (fun _ => record) record (by simp [h])
      (by rintro row hrow; simp_all) (by simp [h]) s.maintainers
    simp only [only, hrows]

/-- A call on a part answers and does what it does on all tables. -/
theorem perform_only {call : StoreCall} (h : call.subject = some x) :
    (s.only x).perform call = ((s.perform call).1, (s.perform call).2.only x) := by
  cases call with
  | insertCommandLog record => cases h
  | updateCommandLogOutcome eventId status code message => cases h
  | accountState pubkey =>
    cases h
    have hfind := find?_filter_of_imp
      (p := fun row => decide (Subject.account row.pubkey = .account pubkey))
      (q := fun row => row.pubkey == pubkey) (by simp) s.accounts
    simp only [perform, only, hfind]
  | upsertAccountState record => exact upsertAccountState_only (Option.some.inj h)
  | profileState pubkey =>
    cases h
    have hfind := find?_filter_of_imp
      (p := fun row => decide (Subject.profile row.pubkey = .profile pubkey))
      (q := fun row => row.pubkey == pubkey) (by simp) s.profiles
    simp only [perform, only, hfind]
  | upsertProfileState record => exact upsertProfileState_only (Option.some.inj h)
  | repoState ownerPubkey repoName =>
    cases h
    have hfind := find?_filter_of_imp
      (p := fun row => decide (Subject.repo row.ownerPubkey row.repoName = .repo ownerPubkey repoName))
      (q := fun row => row.ownerPubkey == ownerPubkey && row.repoName == repoName) (by simp) s.repos
    simp only [perform, only, hfind]
  | upsertRepoState record => exact upsertRepoState_only (Option.some.inj h)
  | setRepoMaintainer record => exact setRepoMaintainer_only (Option.some.inj h)
  | listActiveRepoMaintainers ownerPubkey repoName =>
    cases h
    have hfilter : (s.maintainers.filter fun row =>
        decide (Subject.repo row.ownerPubkey row.repoName = .repo ownerPubkey repoName)).filter
          (fun row => row.ownerPubkey == ownerPubkey && row.repoName == repoName && row.active) =
        s.maintainers.filter fun row =>
          row.ownerPubkey == ownerPubkey && row.repoName == repoName && row.active := by
      rw [List.filter_filter]
      refine List.filter_congr fun row _ => ?_
      by_cases hrow : row.ownerPubkey = ownerPubkey ∧ row.repoName = repoName
      · simp [hrow]
      · simp [hrow]
    simp only [perform, only, hfilter]

/-- A call leaves the other parts as they are. -/
theorem perform_only_of_ne {call : StoreCall} (h : call.subject ≠ some x) :
    (s.perform call).2.only x = s.only x := by
  cases call with
  | insertCommandLog record =>
    show (s.insertCommandLog record).2.only x = s.only x
    unfold insertCommandLog
    split
    · rfl
    · split_ifs
      · rfl
      · rfl
  | upsertAccountState record => exact upsertAccountState_only_of_ne fun hx => h (congrArg some hx)
  | upsertProfileState record => exact upsertProfileState_only_of_ne fun hx => h (congrArg some hx)
  | upsertRepoState record => exact upsertRepoState_only_of_ne fun hx => h (congrArg some hx)
  | setRepoMaintainer record => exact setRepoMaintainer_only_of_ne fun hx => h (congrArg some hx)
  | _ => rfl

end CommandTables

namespace Command

variable {b : Bech32} {input : Input} {faults : Faults} {fault : Option StoreFault}
  {s : CommandTables} {x : Subject}

/-- How a call is answered: it is carried out, or fails. -/
def respond (fault : Option StoreFault) (call : StoreCall) (s : CommandTables) :
    call.Response × CommandTables :=
  match fault with
  | none => ((s.perform call).1.mapError .storage, (s.perform call).2)
  | some (.refused err) => (.error (.storage err), s)
  | some (.unanswered err) => (.error (.storage err), (s.perform call).2)

/-- The tables after a call are those before it, or those of the call carried out. -/
theorem respond_snd (fault : Option StoreFault) (call : StoreCall) (s : CommandTables) :
    (respond fault call s).2 = s ∨ (respond fault call s).2 = (s.perform call).2 := by
  unfold respond
  split
  · exact .inr rfl
  · exact .inl rfl
  · exact .inr rfl

theorem handle_eq (faults : Faults) (call : StoreCall) (w : CommandTables × ℕ) :
    handle faults call w = ((respond (faults w.2) call w.1).1,
      ((respond (faults w.2) call w.1).2, w.2 + 1)) := by
  unfold handle respond
  rcases faults w.2 with _ | ⟨err⟩ | ⟨err⟩
  · rfl
  · rfl
  · rfl

/-- A record that a read answers has the key that was asked for. -/
def Honest : (call : StoreCall) → call.Response → Prop
  | .accountState pubkey, .ok (some record) => record.pubkey = pubkey
  | .profileState pubkey, .ok (some record) => record.pubkey = pubkey
  | .repoState ownerPubkey repoName, .ok (some record) =>
    record.ownerPubkey = ownerPubkey ∧ record.repoName = repoName
  | _, _ => True

theorem honest_error (call : StoreCall) (err : DispatchError) : Honest call (.error err) := by
  cases call with
  | _ => trivial

theorem honest_perform (call : StoreCall) (s : CommandTables) :
    Honest call ((s.perform call).1.mapError .storage) := by
  cases call with
  | accountState pubkey =>
    show Honest (.accountState pubkey) (.ok (s.accounts.find? _))
    cases hfind : s.accounts.find? fun row => row.pubkey == pubkey with
    | none => trivial
    | some record =>
      have hrow := List.find?_some hfind
      exact eq_of_beq hrow
  | profileState pubkey =>
    show Honest (.profileState pubkey) (.ok (s.profiles.find? _))
    cases hfind : s.profiles.find? fun row => row.pubkey == pubkey with
    | none => trivial
    | some record =>
      have hrow := List.find?_some hfind
      exact eq_of_beq hrow
  | repoState ownerPubkey repoName =>
    show Honest (.repoState ownerPubkey repoName) (.ok (s.repos.find? _))
    cases hfind : s.repos.find? fun row =>
        row.ownerPubkey == ownerPubkey && row.repoName == repoName with
    | none => trivial
    | some record =>
      have hrow := List.find?_some hfind
      rw [Bool.and_eq_true] at hrow
      exact ⟨eq_of_beq hrow.1, eq_of_beq hrow.2⟩
  | _ => trivial

theorem honest_respond (fault : Option StoreFault) (call : StoreCall) (s : CommandTables) :
    Honest call (respond fault call s).1 := by
  unfold respond
  split
  · exact honest_perform call s
  · exact honest_error call _
  · exact honest_error call _

/-- The command tables in parts. -/
def parts (fault : Option StoreFault) : Parts (respond fault) Subject where
  part := CommandTables.only
  key := StoreCall.subject
  Honest := Honest
  honest := honest_respond fault
  same call x s h := by
    unfold respond
    split
    · rw [CommandTables.perform_only h]
    · rfl
    · rw [CommandTables.perform_only h]
  other call x s h := by
    rcases respond_snd fault call s with heq | heq
    · rw [heq]
    · rw [heq, CommandTables.perform_only_of_ne h]

/-! ### The calls of a command -/

/-- What a command is about; a repository command without a name is about nothing. -/
def Input.subject (input : Input) : Option Subject :=
  match input.parsed.ns with
  | .account => some (.account input.actorPubkey)
  | .profile => some (.profile input.actorPubkey)
  | .repo => input.parsed.target.map (.repo input.actorPubkey)

theorem owner_of_subject (h : input.subject = some x) : x.owner = input.actorPubkey := by
  unfold Input.subject at h
  split at h
  · cases h
    rfl
  · cases h
    rfl
  · obtain ⟨name, -, rfl⟩ := Option.map_eq_some_iff.1 h
    rfl

theorem target_of_subject {ownerPubkey : List UInt8} {repoName : String}
    (h : input.subject = some (.repo ownerPubkey repoName)) : input.parsed.target = some repoName := by
  unfold Input.subject at h
  split at h
  · cases h
  · cases h
  · obtain ⟨name, htarget, heq⟩ := Option.map_eq_some_iff.1 h
    rw [htarget, (Subject.repo.inj heq).2]

section Calls

variable {P : StoreCall → Prop}

/-- A call, and what follows when it is answered honestly. -/
theorem calls_ask {α : Type} {call : StoreCall} {f : call.Answer → Command α} (hcall : P call)
    (hf : ∀ answer, Honest call (.ok answer) → (f answer).run.Calls Honest P) :
    (ask call >>= f).run.Calls Honest P :=
  Prog.calls_ask_bind hcall fun _ a hanswer ha => hf a (ha ▸ hanswer)

theorem calls_applyAccount (h : ∀ call, call.subject = some (.account input.actorPubkey) → P call) :
    (applyAccount input).run.Calls Honest P := by
  refine calls_ask (h _ rfl) fun existing _ => ?_
  split_ifs
  · cases existing with
    | none => exact calls_ask (h _ rfl) fun _ _ => trivial
    | some record => trivial
  · exact calls_ask (h _ rfl) fun _ _ => trivial
  · trivial
  · trivial

/-- The arguments of `profile set` do not change whose profile it is. -/
theorem pubkey_setProfileField (kvs : List (String × String)) (profile : ProfileStateRecord) :
    (kvs.foldl setProfileField profile).pubkey = profile.pubkey := by
  induction kvs generalizing profile with
  | nil => rfl
  | cons kv rest ih =>
    rw [List.foldl_cons, ih]
    unfold setProfileField
    split_ifs
    · rfl
    · rfl
    · rfl
    · rfl
    · rfl
    · rfl

/-- The profile that a profile command starts from. -/
theorem pubkey_profile {answer : Option ProfileStateRecord}
    (h : Honest (.profileState input.actorPubkey) (.ok answer)) :
    (answer.getD (emptyProfile input)).pubkey = input.actorPubkey := by
  cases answer with
  | none => rfl
  | some record => exact h

theorem calls_applyProfile (h : ∀ call, call.subject = some (.profile input.actorPubkey) → P call) :
    (applyProfile input).run.Calls Honest P := by
  refine calls_ask (h _ rfl) fun answer hanswer => ?_
  have hprofile := pubkey_profile hanswer
  split_ifs
  · refine calls_ask (h _ ?_) fun _ _ => trivial
    show some (Subject.profile _) = _
    rw [pubkey_setProfileField, hprofile]
  · split
    · refine calls_ask (h _ ?_) fun _ _ => trivial
      show some (Subject.profile _) = _
      rw [hprofile]
    · trivial
  · trivial

/-- The arguments of `repo update` do not change whose repository it is, nor its name. -/
theorem key_setRepoField (kvs : List (String × String)) (state : RepoStateV1Record) :
    (kvs.foldl setRepoField state).ownerPubkey = state.ownerPubkey ∧
      (kvs.foldl setRepoField state).repoName = state.repoName := by
  induction kvs generalizing state with
  | nil => exact ⟨rfl, rfl⟩
  | cons kv rest ih =>
    rw [List.foldl_cons]
    refine (ih _).imp (fun howner => howner.trans ?_) fun hname => hname.trans ?_
    · unfold setRepoField
      split_ifs
      · rfl
      · rfl
      · rfl
      · rfl
      · rfl
    · unfold setRepoField
      split_ifs
      · rfl
      · rfl
      · rfl
      · rfl
      · rfl

variable {repoName : String}

theorem calls_createRepo (h : ∀ call, call.subject = some (.repo input.actorPubkey repoName) → P call) :
    (createRepo input repoName).run.Calls Honest P := by
  refine calls_ask (h _ rfl) fun existing _ => ?_
  cases existing with
  | some state => trivial
  | none => exact calls_ask (h _ rfl) fun _ _ => calls_ask (h _ rfl) fun _ _ => trivial

theorem calls_actorIsMaintainer {α : Type} {f : Bool → Command α}
    (h : P (.listActiveRepoMaintainers input.actorPubkey repoName))
    (hf : ∀ isMaintainer, (f isMaintainer).run.Calls Honest P) :
    (actorIsMaintainer input.actorPubkey repoName >>= f).run.Calls Honest P :=
  Prog.calls_bind (calls_ask h fun _ _ => trivial) hf

theorem calls_changeRepo {change : RepoStateV1Record → RepoStateV1Record} {done : Output}
    (hchange : ∀ state, (change state).ownerPubkey = state.ownerPubkey ∧
      (change state).repoName = state.repoName)
    (h : ∀ call, call.subject = some (.repo input.actorPubkey repoName) → P call) :
    (changeRepo input repoName change done).run.Calls Honest P := by
  refine calls_ask (h _ rfl) fun existing hexisting => ?_
  cases existing with
  | none => trivial
  | some state =>
    refine calls_actorIsMaintainer (h _ rfl) fun isMaintainer => ?_
    cases isMaintainer with
    | false => trivial
    | true =>
      refine calls_ask (h _ ?_) fun _ _ => trivial
      obtain ⟨howner, hname⟩ := hchange state
      show some (Subject.repo (change state).ownerPubkey (change state).repoName) = _
      rw [howner, hname, hexisting.1, hexisting.2]

theorem calls_changeMaintainers
    (h : ∀ call, call.subject = some (.repo input.actorPubkey repoName) → P call) :
    (changeMaintainers b input repoName).run.Calls Honest P := by
  refine calls_actorIsMaintainer (h _ rfl) fun isMaintainer => ?_
  cases isMaintainer with
  | false => trivial
  | true =>
    simp only [if_true]
    split
    · split
      · trivial
      · exact calls_ask (h _ rfl) fun _ _ => trivial
    · trivial

theorem calls_applyRepo (h : ∀ call name, input.parsed.target = some name →
      call.subject = some (.repo input.actorPubkey name) → P call) :
    (applyRepo b input).run.Calls Honest P := by
  unfold applyRepo
  split
  · trivial
  · rename_i repoName htarget
    have hcall := fun call => h call repoName htarget
    simp only
    split_ifs
    · exact calls_createRepo hcall
    · exact calls_changeRepo (key_setRepoField _) hcall
    · exact calls_changeRepo (fun _ => ⟨rfl, rfl⟩) hcall
    · exact calls_changeMaintainers hcall
    · trivial
    · trivial
    · trivial

/-- A command is applied with calls on its subject. -/
theorem calls_applyCommand : (applyCommand b input).run.Calls Honest fun call =>
    ∃ x, call.subject = some x ∧ input.subject = some x := by
  unfold applyCommand
  have hsubject : input.subject = match input.parsed.ns with
    | .account => some (.account input.actorPubkey)
    | .profile => some (.profile input.actorPubkey)
    | .repo => input.parsed.target.map (.repo input.actorPubkey) := rfl
  cases hns : input.parsed.ns with
  | account =>
    rw [hns] at hsubject
    exact calls_applyAccount fun call hcall => ⟨_, hcall, hsubject⟩
  | profile =>
    rw [hns] at hsubject
    exact calls_applyProfile fun call hcall => ⟨_, hcall, hsubject⟩
  | repo =>
    rw [hns] at hsubject
    refine calls_applyRepo fun call name htarget hcall => ⟨_, hcall, ?_⟩
    rw [hsubject, htarget]
    rfl

end Calls

end Command

end Gittree
