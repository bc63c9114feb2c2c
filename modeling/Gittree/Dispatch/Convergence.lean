import Gittree.Dispatch.Confinement

/-!
# Orders of execution

Commands that are executed one after the other, without errors of the store.  A part of the tables
changes as the commands that write it do, in their order; no command looks at the time stamps of what
it overwrites.

* `changes`: what a command writes, if anything;
* `only_executeAll`: a part after a list of commands;
* `executeAll_of_sorted`: two orders in which the commands that write one part keep the order of
  their time stamps have the same outcome.
-/

namespace Gittree

open Rust

namespace Command

variable {b : Bech32} {input : Input} {s : CommandTables} {x : Subject}

/-! ### One command -/

/-- The arguments with which `repo maintainers` writes. -/
def namesMaintainer (b : Bech32) (args : List CommandArg) : Bool :=
  match args with
  | [.positional _, .positional npub] => (pubkeyBytesFromNpub b npub).isSome
  | _ => false

/-- The arguments with which `profile visibility` writes. -/
def namesVisibility (args : List CommandArg) : Bool :=
  match args with
  | [.positional _] => true
  | _ => false

/-- The command can write. -/
def canWrite (b : Bech32) (input : Input) : Bool :=
  match input.parsed.ns with
  | .account => input.parsed.action = "create" ∨ input.parsed.action = "delete"
  | .profile => input.parsed.action = "set" ∨
      input.parsed.action = "visibility" ∧ namesVisibility input.parsed.args
  | .repo => input.parsed.action ∈ ["create", "update", "archive", "unarchive"] ∨
      input.parsed.action = "maintainers" ∧ namesMaintainer b input.parsed.args

/-- What a command writes: its subject, or nothing. -/
def changes (b : Bech32) (input : Input) : Option Subject :=
  if canWrite b input then input.subject else none

theorem subject_of_changes (h : changes b input = some x) : input.subject = some x := by
  unfold changes at h
  split_ifs at h
  exact h

/-- A call that writes nothing, and what follows. -/
theorem calls_read {call : StoreCall} {f : call.Answer → Command Output}
    (hcall : call.writes = false)
    (hf : ∀ answer, (f answer).run.Calls Honest fun call => call.writes = false) :
    (ask call >>= f).run.Calls Honest fun call => call.writes = false :=
  calls_ask hcall fun answer _ => hf answer

/-- A command that writes nothing makes no call that does. -/
theorem calls_of_not_canWrite (h : canWrite b input = false) :
    (applyCommand b input).run.Calls Honest fun call => call.writes = false := by
  unfold canWrite at h
  unfold applyCommand
  cases hns : input.parsed.ns with
  | account =>
    simp only [hns, decide_eq_false_iff_not, not_or] at h
    refine calls_read rfl fun existing => ?_
    rw [if_neg h.1, if_neg h.2]
    split_ifs
    · trivial
    · trivial
  | profile =>
    simp only [hns, decide_eq_false_iff_not, not_or, not_and] at h
    refine calls_read rfl fun profile => ?_
    simp only [if_neg h.1]
    split_ifs with hvisibility
    · split
      · rename_i value hargs
        rw [hargs] at h
        exact absurd rfl (h.2 hvisibility)
      · trivial
    · trivial
  | repo =>
    simp only [hns, decide_eq_false_iff_not, not_or, not_and, List.mem_cons, List.not_mem_nil,
      or_false] at h
    obtain ⟨⟨hcreate, hupdate, harchive, hunarchive⟩, hmaintainers⟩ := h
    simp only
    unfold applyRepo
    split
    · trivial
    · simp only [if_neg hcreate, if_neg hupdate, if_neg (not_or_intro harchive hunarchive)]
      split_ifs with haction
      · refine calls_actorIsMaintainer rfl fun isMaintainer => ?_
        cases isMaintainer with
        | false => trivial
        | true =>
          simp only [if_true]
          split
          · rename_i action npub hargs
            split
            · trivial
            · rename_i key hkey
              have hnames := hmaintainers haction
              rw [hargs] at hnames
              exact absurd (by simp [namesMaintainer, hkey]) hnames
          · trivial
      · trivial
      · trivial
      · trivial

/-! ### One execution -/

/-- The store accepts the entry of a command. -/
def accepts (s : CommandTables) (input : Input) : Bool :=
  (toOffsetDatetime input.createdAt).toOption.isSome && !s.logged input.eventId

theorem time_of_accepts (h : accepts s input = true) :
    ∃ time, toOffsetDatetime input.createdAt = .ok time := by
  unfold accepts at h
  cases htime : toOffsetDatetime input.createdAt with
  | ok time => exact ⟨time, rfl⟩
  | error err =>
    rw [htime] at h
    cases h

/-- The tables after a command has been applied to them, apart from its entry. -/
def applied (b : Bech32) (s : CommandTables) (input : Input) : CommandTables :=
  ((applyCommand b input).run.run (respond none) s).2

/-- An execution without errors of the store needs no numbers for its calls. -/
theorem deliver_eq : deliver b input (fun _ => none) s =
    (executeCommand b input).run.run (respond none) s := by
  have hmap := Prog.run_map (handle fun _ => none) (respond none) Prod.fst
    (Q := fun _ _ => True) (P := fun _ => True) (p := (executeCommand b input).run)
    (Prog.calls_of_forall fun _ => trivial) (fun _ _ => trivial)
    (fun call _ w => by rw [handle_eq]) (s, 0)
  exact hmap.symm

/-- The entry is accepted when it is inserted. -/
theorem respond_insert_iff : (respond none (.insertCommandLog (logRecord input)) s).1 = .ok true ↔
    accepts s input = true := by
  unfold respond accepts
  simp only [perform_insert]
  cases toOffsetDatetime input.createdAt with
  | error err => exact iff_of_false nofun nofun
  | ok time =>
    cases s.logged input.eventId with
    | true => exact iff_of_false nofun nofun
    | false => exact iff_of_true rfl rfl

theorem respond_accepted (h : accepts s input = true) :
    respond none (.insertCommandLog (logRecord input)) s =
      (.ok true, { s with log := s.log ++ [logRecord input] }) := by
  unfold accepts at h
  unfold respond
  simp only [perform_insert]
  cases htime : toOffsetDatetime input.createdAt with
  | error err =>
    rw [htime] at h
    cases h
  | ok time =>
    cases hlogged : s.logged input.eventId with
    | true =>
      rw [hlogged, Bool.not_true, Bool.and_false] at h
      cases h
    | false => rfl

/-- What is refused leaves no trace. -/
theorem respond_refused_snd (h : accepts s input = false) :
    (respond none (.insertCommandLog (logRecord input)) s).2 = s := by
  unfold accepts at h
  unfold respond
  simp only [perform_insert]
  cases htime : toOffsetDatetime input.createdAt with
  | error err => rfl
  | ok time =>
    cases hlogged : s.logged input.eventId with
    | true => rfl
    | false =>
      rw [htime, hlogged] at h
      cases h

/-- The tables after an execution. -/
theorem deliver_snd : (deliver b input (fun _ => none) s).2 =
    if accepts s input then
      let r := (applyCommand b input).run.run (respond none)
        { s with log := s.log ++ [logRecord input] }
      r.2.updateCommandLogOutcome input.eventId (caught r.1).status (caught r.1).code
        (caught r.1).message
    else s := by
  rw [deliver_eq, run_executeCommand]
  by_cases haccepts : accepts s input = true
  · rw [respond_accepted haccepts, if_pos haccepts]
    rfl
  · have hsame := respond_refused_snd (eq_false_of_ne_true haccepts)
    rw [if_neg haccepts]
    rcases hresponse : respond none (.insertCommandLog (logRecord input)) s with ⟨err | _ | _, t⟩
    · rw [hresponse] at hsame
      exact hsame
    · rw [hresponse] at hsame
      exact hsame
    · exact absurd (respond_insert_iff.1 (congrArg Prod.fst hresponse)) haccepts

/-- The answer of an execution. -/
theorem deliver_fst (h : accepts s input = true) : (deliver b input (fun _ => none) s).1 =
    .ok (caught ((applyCommand b input).run.run (respond none)
      { s with log := s.log ++ [logRecord input] }).1) := by
  rw [deliver_eq, run_executeCommand, respond_accepted h]
  rfl

/-- A part after a command has been applied. -/
theorem only_applied (h : input.subject = some x) :
    (applied b s input).only x = applied b (s.only x) input := by
  have hpart := (parts none).run_part (p := (applyCommand b input).run) (k := x)
    (calls_applyCommand.mono fun call ⟨y, hcall, hinput⟩ => hcall.trans (hinput.symm.trans h)) s
  exact (congrArg Prod.snd hpart).symm

/-- A command writes no part but its own. -/
theorem calls_elsewhere (h : changes b input ≠ some x) : (applyCommand b input).run.Calls Honest
    fun call => call.writes = true → call.subject ≠ some x := by
  by_cases hwrite : canWrite b input = true
  · refine calls_applyCommand.mono ?_
    rintro call ⟨y, hcall, hinput⟩ - hx
    refine h ?_
    unfold changes
    rw [if_pos hwrite, hinput, ← hcall, hx]
  · exact (calls_of_not_canWrite (eq_false_of_ne_true hwrite)).mono fun call hcall hwrites =>
      absurd hwrites (ne_true_of_eq_false hcall)

theorem only_of_sameState {t : CommandTables} (h : SameState s t) : t.only x = s.only x := by
  obtain ⟨haccounts, hprofiles, hrepos, hmaintainers⟩ := h
  unfold CommandTables.only
  rw [haccounts, hprofiles, hrepos, hmaintainers]

/-- A call that writes no part but others. -/
theorem only_respond_elsewhere {fault : Option StoreFault} {call : StoreCall} {t : CommandTables}
    (h : call.writes = true → call.subject ≠ some x) : (respond fault call t).2.only x = t.only x := by
  by_cases hwrites : call.writes = true
  · exact (parts fault).other call x t (h hwrites)
  · exact only_of_sameState (CommandTables.sameState_respond (eq_false_of_ne_true hwrites))

/-- A command leaves the other parts as they are. -/
theorem only_applied_of_ne (h : changes b input ≠ some x) :
    (applied b s input).only x = s.only x :=
  Prog.run_view (respond none) (CommandTables.only x) (calls_elsewhere h)
    (honest_respond none) (fun _ hcall _ => only_respond_elsewhere hcall) s

/-- A part after an execution. -/
theorem only_deliver : (deliver b input (fun _ => none) s).2.only x =
    if accepts s input = true ∧ changes b input = some x then applied b (s.only x) input
    else s.only x := by
  rw [deliver_snd]
  by_cases haccepts : accepts s input = true
  · rw [if_pos haccepts]
    show (applied b { s with log := s.log ++ [logRecord input] } input).only x = _
    by_cases hchanges : changes b input = some x
    · rw [if_pos ⟨haccepts, hchanges⟩, only_applied (subject_of_changes hchanges)]
      rfl
    · rw [if_neg fun h => hchanges h.2, only_applied_of_ne hchanges]
      rfl
  · rw [if_neg haccepts, if_neg fun h => haccepts h.1]

/-- A permitted call writes no entry but that of its command. -/
theorem logged_of_confined {t : CommandTables} {eventId : List UInt8} (h : eventId ≠ input.eventId)
    (hconfined : CommandTables.Confined input s t) : t.logged eventId = s.logged eventId := by
  have hany : ∀ u : CommandTables, u.logged eventId =
      (u.log.filter fun row => row.eventId != input.eventId).any
        fun row => row.eventId == eventId := by
    intro u
    rw [List.any_filter]
    unfold CommandTables.logged
    congr 1
    funext row
    by_cases hrow : row.eventId = eventId
    · simp [hrow, h]
    · simp [hrow]
  rw [hany, hconfined.log, ← hany]

/-- An execution writes no entry but its own. -/
theorem logged_deliver_of_ne {eventId : List UInt8} (h : eventId ≠ input.eventId) :
    (deliver b input (fun _ => none) s).2.logged eventId = s.logged eventId := by
  rw [deliver_eq]
  exact Prog.run_view (respond none) (CommandTables.logged · eventId)
    permitted_executeCommand (honest_respond none)
    (fun call hcall t => logged_of_confined h (CommandTables.confined_respond hcall)) s

/-! ### Executions in a row -/

/-- Commands executed one after the other. -/
def executeAll (b : Bech32) (s : CommandTables) (inputs : List Input) : CommandTables :=
  inputs.foldl (fun s input => (deliver b input (fun _ => none) s).2) s

/-- A part after commands with different events: only those that write the part count. -/
theorem only_executeAll {inputs : List Input} (hids : (inputs.map Input.eventId).Nodup) :
    (executeAll b s inputs).only x =
      (inputs.filter fun input => accepts s input && changes b input == some x).foldl (applied b)
        (s.only x) := by
  induction inputs generalizing s with
  | nil => rfl
  | cons input rest ih =>
    obtain ⟨hnew, hids⟩ := List.nodup_cons.1 hids
    have haccepts : ∀ other ∈ rest,
        accepts (deliver b input (fun _ => none) s).2 other = accepts s other := by
      intro other hother
      unfold accepts
      rw [logged_deliver_of_ne fun heq => hnew (heq ▸ List.mem_map_of_mem hother)]
    have hrest : (rest.filter fun other =>
        accepts (deliver b input (fun _ => none) s).2 other && changes b other == some x) =
          rest.filter fun other => accepts s other && changes b other == some x :=
      List.filter_congr fun other hother => by rw [haccepts other hother]
    show (executeAll b (deliver b input (fun _ => none) s).2 rest).only x = _
    rw [ih hids, hrest, only_deliver]
    by_cases hinput : accepts s input = true ∧ changes b input = some x
    · rw [if_pos hinput, List.filter_cons_of_pos (by simp [hinput.1, hinput.2]), List.foldl_cons]
    · rw [if_neg hinput, List.filter_cons_of_neg (by simpa using hinput)]

/-- Commands executed in two orders: when the commands that write one part keep the order of their
time stamps, the outcome is the same. -/
theorem executeAll_of_sorted {inputs order : List Input} (hperm : order.Perm inputs)
    (hids : (inputs.map Input.eventId).Nodup)
    (hsorted : inputs.Pairwise fun i j => i.createdAt < j.createdAt)
    (horder : order.Pairwise fun i j => ∀ x, changes b i = some x → changes b j = some x →
      i.createdAt < j.createdAt) :
    (executeAll b s order).SameRows (executeAll b s inputs) := by
  refine CommandTables.sameRows_of_only fun x => ?_
  have hids' : (order.map Input.eventId).Nodup := (hperm.map Input.eventId).nodup_iff.2 hids
  rw [only_executeAll hids', only_executeAll hids]
  congr 1
  refine List.Perm.eq_of_pairwise
    (fun (i j : Input) _ _ (hij : i.createdAt < j.createdAt) hji => absurd hij hji.asymm) ?_
    (hsorted.filter _) (hperm.filter _)
  refine List.pairwise_filter.2 (horder.imp fun hij hi hj => ?_)
  rw [Bool.and_eq_true, beq_iff_eq] at hi hj
  exact hij x hi.2 hj.2

/-- A command that sets the name of a profile. -/
def setName (eventId : UInt8) (name : String) (createdAt : ℤ) : Input where
  eventId := List.replicate 32 eventId
  actorPubkey := List.replicate 32 34
  parsed := ⟨.profile, "set", none, [.keyValue "name" name]⟩
  createdAt

/-- The newer name is lost when the older command comes last. -/
theorem not_sameRows_setName :
    ¬ (executeAll sampleBech32 .empty [setName 2 "new" 20, setName 1 "old" 10]).SameRows
      (executeAll sampleBech32 .empty [setName 1 "old" 10, setName 2 "new" 20]) := by
  intro h
  have hlate : (executeAll sampleBech32 .empty
      [setName 1 "old" 10, setName 2 "new" 20]).profiles.map
        ProfileStateRecord.displayName = [some "new"] := by
    decide +kernel
  have hearly : (executeAll sampleBech32 .empty
      [setName 2 "new" 20, setName 1 "old" 10]).profiles.map
        ProfileStateRecord.displayName = [some "old"] := by
    decide +kernel
  obtain ⟨row, hrow, hname⟩ := List.mem_map.1 (hlate ▸ List.mem_singleton_self (some "new"))
  have hmem := List.mem_map_of_mem (f := ProfileStateRecord.displayName) ((h.2.1 row).2 hrow)
  rw [hearly, hname] at hmem
  exact absurd (List.mem_singleton.1 hmem) (by decide)

/-- A repository and a name of a profile, in either order. -/
theorem sameRows_of_different_parts :
    (executeAll sampleBech32 .empty [createDemo, setName 2 "new" 20]).SameRows
      (executeAll sampleBech32 .empty [setName 2 "new" 20, createDemo]) :=
  executeAll_of_sorted (List.Perm.swap _ _ _) (by decide) (by decide) (by
    refine List.pairwise_pair.2 fun x hrepo hprofile => ?_
    have hne : changes sampleBech32 createDemo ≠ changes sampleBech32 (setName 2 "new" 20) := by
      decide
    exact absurd (hrepo.trans hprofile.symm) hne)

end Command

end Gittree
