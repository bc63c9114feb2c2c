import Gittree.Lib.Prog
import Gittree.Lib.Runs
import Gittree.Storage.Error

/-!
# Migrations

`crates/storage/src/migrations.rs`: a list of scripts with versions, and the run that executes those
above the greatest version of the `migrations` table, one after the other, and records each of them.

A script is executed and its version recorded in two calls.  Any call may fail; a script that fails has
no effect, and any other call that fails may have been carried out.

* `run_applyMigrations`: the scripts that a run executes, and the versions that it records;
* `exactlyOnce_of_reach`: what is recorded is what was executed, in every run of runs none of which
  fails between the two.
-/

namespace Gittree

open Rust

/-- `Migration`. -/
structure Migration where
  version : ℤ
  description : String
  sql : String
  deriving DecidableEq, Repr

/-- The loop of `MigrationRunner::new`. -/
def checkMigrations : List ℤ → List Migration → Except StorageError Unit
  | _, [] => .ok ()
  | seen, m :: rest => do
    Result.ensure (0 < m.version) (.migration ("invalid migration version: " ++ toString m.version))
    Result.ensure (m.version ∉ seen)
      (.migration ("duplicate migration version: " ++ toString m.version))
    checkMigrations (m.version :: seen) rest

theorem checkMigrations_eq_ok {seen : List ℤ} {migrations : List Migration} {u : Unit} :
    checkMigrations seen migrations = .ok u ↔ (∀ m ∈ migrations, 0 < m.version ∧ m.version ∉ seen) ∧
      migrations.Pairwise fun m n => m.version ≠ n.version := by
  induction migrations generalizing seen with
  | nil => simp [checkMigrations]
  | cons m rest ih =>
    rw [List.forall_mem_cons, List.pairwise_cons]
    simp only [checkMigrations, Result.bind_eq_ok, Result.ensure_eq_ok, exists_const, ih,
      List.mem_cons, not_or]
    constructor
    · rintro ⟨hpositive, hnew, hrest, hpairwise⟩
      exact ⟨⟨⟨hpositive, hnew⟩, fun n hn => ⟨(hrest n hn).1, (hrest n hn).2.2⟩⟩,
        fun n hn => Ne.symm (hrest n hn).2.1, hpairwise⟩
    · rintro ⟨⟨⟨hpositive, hnew⟩, hrest⟩, hdistinct, hpairwise⟩
      exact ⟨hpositive, hnew, fun n hn => ⟨(hrest n hn).1, Ne.symm (hdistinct n hn), (hrest n hn).2⟩,
        hpairwise⟩

/-- `MigrationRunner`: migrations with positive versions, in increasing order. -/
structure MigrationRunner where
  migrations : List Migration
  positive : ∀ m ∈ migrations, 0 < m.version
  ordered : migrations.Pairwise fun m n => m.version < n.version

namespace MigrationRunner

/-- `sort_by_key` on the version. -/
def sortByVersion (migrations : List Migration) : List Migration :=
  migrations.insertionSort fun m n => m.version ≤ n.version

theorem ordered_of_check {migrations : List Migration}
    (h : checkMigrations [] (sortByVersion migrations) = .ok ()) :
    (sortByVersion migrations).Pairwise fun m n => m.version < n.version := by
  have hsorted : (sortByVersion migrations).Pairwise fun m n => m.version ≤ n.version :=
    List.pairwise_insertionSort (fun m n : Migration => m.version ≤ n.version) migrations
  exact (hsorted.and (checkMigrations_eq_ok.1 h).2).imp fun hmn => lt_of_le_of_ne hmn.1 hmn.2

/-- `MigrationRunner::new`. -/
def new (migrations : List Migration) : Except StorageError MigrationRunner :=
  match h : checkMigrations [] (sortByVersion migrations) with
  | .error err => .error err
  | .ok () => .ok
    { migrations := sortByVersion migrations
      positive := fun m hm => ((checkMigrations_eq_ok.1 h).1 m hm).1
      ordered := ordered_of_check h }

/-- A runner has the migrations that it was made from. -/
theorem perm_of_new {migrations : List Migration} {runner : MigrationRunner}
    (h : new migrations = .ok runner) : runner.migrations.Perm migrations := by
  unfold new at h
  split at h
  · cases h
  · cases h
    exact List.perm_insertionSort _ migrations

/-- `latest_version`. -/
def latestVersion (runner : MigrationRunner) : ℤ :=
  (runner.migrations.getLast?.map Migration.version).getD 0

end MigrationRunner

/-! ### The backend -/

/-- The calls of `MigrationBackend`. -/
inductive MigrationCall
  | ensureMigrationsTable
  | currentVersion
  | executeSql (sql : String)
  | recordVersion (version : ℤ)

/-- What a call answers. -/
def MigrationCall.Answer : MigrationCall → Type
  | .currentVersion => ℤ
  | _ => Unit

/-- What a call answers, or why it fails. -/
def MigrationCall.Response (call : MigrationCall) : Type := Except StorageError call.Answer

/-- Programs over the backend that may fail. -/
abbrev Migrating (α : Type) : Type :=
  ExceptT StorageError (Prog MigrationCall MigrationCall.Response) α

namespace Migrating

def ask (call : MigrationCall) : Migrating call.Answer := ExceptT.mk (Prog.ask call)

def ensureMigrationsTable : Migrating Unit := ask .ensureMigrationsTable
def currentVersion : Migrating ℤ := ask .currentVersion
def executeSql (sql : String) : Migrating Unit := ask (.executeSql sql)
def recordVersion (version : ℤ) : Migrating Unit := ask (.recordVersion version)

/-- The loop of `run_with_backend`. -/
def applyMigrations (current : ℤ) : ℤ → List Migration → Migrating ℤ
  | applied, [] => pure applied
  | applied, m :: rest =>
    if m.version ≤ current then applyMigrations current applied rest
    else do
      executeSql m.sql
      recordVersion m.version
      applyMigrations current m.version rest

/-- `run_with_backend`. -/
def runWithBackend (runner : MigrationRunner) : Migrating ℤ := do
  ensureMigrationsTable
  let current ← currentVersion
  applyMigrations current current runner.migrations

end Migrating

/-- A database: whether it has the `migrations` table, the rows of that table, and the scripts that were
executed, in their order. -/
structure MigrationDatabase where
  hasTable : Bool
  versions : List ℤ
  executed : List String
  deriving DecidableEq, Repr

namespace MigrationDatabase

/-- `SELECT max(serial_number)`, or 0. -/
def current (db : MigrationDatabase) : ℤ := db.versions.max?.getD 0

/-- A call of `PgMigrationBackend` that is carried out. -/
def perform (db : MigrationDatabase) :
    (call : MigrationCall) → call.Response × MigrationDatabase
  | .ensureMigrationsTable => (.ok (), { db with hasTable := true })
  | .currentVersion =>
    if db.hasTable then (.ok db.current, db) else (.error (.database "undefined table"), db)
  | .executeSql sql => (.ok (), { db with executed := db.executed ++ [sql] })
  | .recordVersion version =>
    if !db.hasTable then (.error (.database "undefined table"), db)
    else if version ∈ db.versions then (.error (.database "duplicate key"), db)
    else (.ok (), { db with versions := db.versions ++ [version] })

/-- How a call fails: it is not carried out, or its answer is lost. -/
inductive Fault
  | refused (err : StorageError)
  | unanswered (err : StorageError)
  deriving DecidableEq, Repr

/-- The state after a call whose answer is lost; a script that fails has no effect. -/
def afterUnanswered (db : MigrationDatabase) : MigrationCall → MigrationDatabase
  | .executeSql _ => db
  | call => (db.perform call).2

/-- The calls of a run, which fail by their number. -/
def handle (faults : ℕ → Option Fault) (call : MigrationCall) (w : MigrationDatabase × ℕ) :
    call.Response × (MigrationDatabase × ℕ) :=
  match faults w.2 with
  | none => ((w.1.perform call).1, ((w.1.perform call).2, w.2 + 1))
  | some (.refused err) => (.error err, (w.1, w.2 + 1))
  | some (.unanswered err) => (.error err, (w.1.afterUnanswered call, w.2 + 1))

/-- A run of the migrations on a database. -/
def migrate (runner : MigrationRunner) (db : MigrationDatabase) (faults : ℕ → Option Fault) :
    Except StorageError ℤ × MigrationDatabase :=
  let r := (Migrating.runWithBackend runner).run.run (handle faults) (db, 0)
  (r.1, r.2.1)

/-! ### One run -/

/-- From the call `n` on, the first call that fails records one of so many migrations, and it is not
carried out. -/
def LosesFrom (faults : ℕ → Option Fault) (n count : ℕ) : Prop :=
  ∃ k < count, (∀ j < 2 * k + 1, faults (n + j) = none) ∧
    ∃ err, faults (n + (2 * k + 1)) = some (.refused err)

section Loop

variable {faults : ℕ → Option Fault} {db : MigrationDatabase} {n : ℕ} {current applied : ℤ}

theorem not_losesFrom_zero : ¬ LosesFrom faults n 0 := fun ⟨_, hk, _⟩ => absurd hk (by omega)

/-- The first of the migrations is executed and not recorded, or it is recorded and a later one is
not. -/
theorem losesFrom_succ {count : ℕ} : LosesFrom faults n (count + 1) ↔ faults n = none ∧
    ((∃ err, faults (n + 1) = some (.refused err)) ∨
      faults (n + 1) = none ∧ LosesFrom faults (n + 2) count) := by
  constructor
  · rintro ⟨k, hk, hnone, err, hrefused⟩
    refine ⟨hnone 0 (by omega), ?_⟩
    cases k with
    | zero => exact .inl ⟨err, hrefused⟩
    | succ k =>
      refine .inr ⟨hnone 1 (by omega), k, by omega, fun j hj => ?_, err, ?_⟩
      · rw [show n + 2 + j = n + (j + 2) by omega]
        exact hnone (j + 2) (by omega)
      · rw [show n + 2 + (2 * k + 1) = n + (2 * (k + 1) + 1) by omega]
        exact hrefused
  · rintro ⟨hfirst, ⟨err, hrefused⟩ | ⟨hsecond, k, hk, hnone, err, hrefused⟩⟩
    · refine ⟨0, by omega, fun j hj => ?_, err, hrefused⟩
      rw [show j = 0 by omega]
      exact hfirst
    · refine ⟨k + 1, by omega, fun j hj => ?_, err, ?_⟩
      · by_cases hzero : j = 0
        · rw [hzero]
          exact hfirst
        · by_cases hone : j = 1
          · rw [hone]
            exact hsecond
          · rw [show n + j = n + 2 + (j - 2) by omega]
            exact hnone (j - 2) (by omega)
      · rw [show n + (2 * (k + 1) + 1) = n + 2 + (2 * k + 1) by omega]
        exact hrefused

theorem run_ask (call : MigrationCall) (w : MigrationDatabase × ℕ) :
    (Migrating.ask call).run.run (handle faults) w = handle faults call w := rfl

theorem run_ensureMigrationsTable :
    Migrating.ensureMigrationsTable.run.run (handle faults) (db, n) =
      match faults n with
      | none => (.ok (), { db with hasTable := true }, n + 1)
      | some (.refused err) => (.error err, db, n + 1)
      | some (.unanswered err) => (.error err, { db with hasTable := true }, n + 1) :=
  run_ask .ensureMigrationsTable (db, n)

theorem run_currentVersion (htable : db.hasTable = true) :
    Migrating.currentVersion.run.run (handle faults) (db, n) =
      match faults n with
      | none => (.ok db.current, db, n + 1)
      | some (.refused err) => (.error err, db, n + 1)
      | some (.unanswered err) => (.error err, db, n + 1) := by
  have hperform : db.perform .currentVersion = (.ok db.current, db) := if_pos htable
  refine (run_ask .currentVersion (db, n)).trans ?_
  unfold handle afterUnanswered
  simp only [hperform]
  rfl

theorem run_executeSql (sql : String) :
    (Migrating.executeSql sql).run.run (handle faults) (db, n) =
      match faults n with
      | none => (.ok (), { db with executed := db.executed ++ [sql] }, n + 1)
      | some (.refused err) => (.error err, db, n + 1)
      | some (.unanswered err) => (.error err, db, n + 1) :=
  run_ask (.executeSql sql) (db, n)

theorem run_recordVersion {version : ℤ} (htable : db.hasTable = true)
    (hnew : version ∉ db.versions) :
    (Migrating.recordVersion version).run.run (handle faults) (db, n) =
      match faults n with
      | none => (.ok (), { db with versions := db.versions ++ [version] }, n + 1)
      | some (.refused err) => (.error err, db, n + 1)
      | some (.unanswered err) =>
        (.error err, { db with versions := db.versions ++ [version] }, n + 1) := by
  have hperform : db.perform (.recordVersion version) =
      (.ok (), { db with versions := db.versions ++ [version] }) :=
    (if_neg (by rw [htable]; decide)).trans (if_neg hnew)
  refine (run_ask (.recordVersion version) (db, n)).trans ?_
  unfold handle afterUnanswered
  simp only [hperform]
  rfl

/-- The migrations above a version. -/
def pending (current : ℤ) (migrations : List Migration) : List Migration :=
  migrations.filter fun m => current < m.version

/-- What the loop executes is the beginning of what is pending, and all of it when the run succeeds; it
records the same, apart from the last one when its recording is lost. -/
theorem run_applyMigrations {migrations : List Migration}
    (hordered : migrations.Pairwise fun m n => m.version < n.version) (htable : db.hasTable = true)
    (hnew : ∀ m ∈ pending current migrations, m.version ∉ db.versions) :
    let r := (Migrating.applyMigrations current applied migrations).run.run (handle faults) (db, n)
    ∃ done, done <+: pending current migrations ∧
      r.2.1.executed = db.executed ++ done.map Migration.sql ∧
      (∀ v, r.1 = .ok v → ¬ LosesFrom faults n (pending current migrations).length ∧
        done = pending current migrations ∧
          v = ((pending current migrations).getLast?.map Migration.version).getD applied) ∧
      (¬ LosesFrom faults n (pending current migrations).length ∧
          r.2.1.versions = db.versions ++ done.map Migration.version ∨
        LosesFrom faults n (pending current migrations).length ∧
          ∃ recorded last, done = recorded ++ [last] ∧
            r.2.1.versions = db.versions ++ recorded.map Migration.version) := by
  induction migrations generalizing db n applied with
  | nil =>
    refine ⟨[], List.nil_prefix, (List.append_nil _).symm, fun v hv => ?_,
      .inl ⟨not_losesFrom_zero, (List.append_nil _).symm⟩⟩
    cases hv
    exact ⟨not_losesFrom_zero, rfl, rfl⟩
  | cons m rest ih =>
    obtain ⟨hfirstVersion, hrest⟩ := List.pairwise_cons.1 hordered
    by_cases hold : m.version ≤ current
    · have hpending : pending current (m :: rest) = pending current rest :=
        List.filter_cons_of_neg (by simpa using hold)
      rw [hpending] at hnew ⊢
      unfold Migrating.applyMigrations
      rw [if_pos hold]
      exact ih hrest htable hnew
    · have hpending : pending current (m :: rest) = m :: pending current rest :=
        List.filter_cons_of_pos (by simpa using hold)
      rw [hpending] at hnew ⊢
      obtain ⟨hnotRecorded, hnewRest⟩ := List.forall_mem_cons.1 hnew
      unfold Migrating.applyMigrations
      rw [if_neg hold, List.length_cons]
      simp only [losesFrom_succ]
      have hexecute : (Migrating.executeSql m.sql).run.run (handle faults) (db, n) = _ :=
        run_executeSql m.sql
      rcases hfirst : faults n with _ | ⟨err⟩ | ⟨err⟩
      · rw [hfirst] at hexecute
        rw [Prog.run_bind_of_ok hexecute]
        have hrecord : (Migrating.recordVersion m.version).run.run (handle faults)
            ({ db with executed := db.executed ++ [m.sql] }, n + 1) = _ :=
          run_recordVersion htable hnotRecorded
        rcases hsecond : faults (n + 1) with _ | ⟨err⟩ | ⟨err⟩
        · -- both calls are carried out, and the loop goes on
          rw [hsecond] at hrecord
          rw [Prog.run_bind_of_ok hrecord]
          have hnewer : ∀ k ∈ pending current rest, k.version ∉ db.versions ++ [m.version] := by
            intro k hk hmem
            rcases List.mem_append.1 hmem with hmem | hmem
            · exact hnewRest k hk hmem
            · exact (hfirstVersion k (List.mem_filter.1 hk).1).ne (List.mem_singleton.1 hmem).symm
          obtain ⟨done, hdone, hexecuted, hok, hrecorded⟩ := @ih { db with
              executed := db.executed ++ [m.sql], versions := db.versions ++ [m.version] }
            (n + 1 + 1) m.version hrest htable hnewer
          refine ⟨m :: done, (List.cons_prefix_cons).2 ⟨rfl, hdone⟩, ?_, fun v hv => ?_, ?_⟩
          · rw [hexecuted]
            simp
          · obtain ⟨hkept, rfl, hversion⟩ := hok v hv
            refine ⟨by simpa using hkept, rfl, hversion.trans ?_⟩
            cases pending current rest with
            | nil => rfl
            | cons k more =>
              rw [List.getLast?_cons_cons, List.getLast?_cons]
              rfl
          · refine hrecorded.imp (fun ⟨hkept, hversions⟩ => ⟨by simpa using hkept, ?_⟩)
              fun ⟨hlost, recorded, last, hsplit, hversions⟩ =>
                ⟨⟨rfl, .inr ⟨rfl, hlost⟩⟩, m :: recorded, last, by rw [hsplit]; rfl, ?_⟩
            · rw [hversions]
              simp
            · rw [hversions]
              simp
        · rw [hsecond] at hrecord
          rw [Prog.run_bind_of_error hrecord]
          exact ⟨[m], List.cons_prefix_cons.2 ⟨rfl, List.nil_prefix⟩, rfl, nofun,
            .inr ⟨⟨rfl, .inl ⟨err, rfl⟩⟩, [], m, rfl, (List.append_nil _).symm⟩⟩
        · rw [hsecond] at hrecord
          rw [Prog.run_bind_of_error hrecord]
          exact ⟨[m], List.cons_prefix_cons.2 ⟨rfl, List.nil_prefix⟩, rfl, nofun,
            .inl ⟨by simp, rfl⟩⟩
      · rw [hfirst] at hexecute
        rw [Prog.run_bind_of_error hexecute]
        exact ⟨[], List.nil_prefix, (List.append_nil _).symm, nofun,
          .inl ⟨nofun, (List.append_nil _).symm⟩⟩
      · rw [hfirst] at hexecute
        rw [Prog.run_bind_of_error hexecute]
        exact ⟨[], List.nil_prefix, (List.append_nil _).symm, nofun,
          .inl ⟨nofun, (List.append_nil _).symm⟩⟩

end Loop

section Versions

variable {db : MigrationDatabase} {runner : MigrationRunner}

theorem le_current {v : ℤ} (h : v ∈ db.versions) : v ≤ db.current := by
  unfold current
  cases hmax : db.versions.max? with
  | none =>
    rw [List.max?_eq_none_iff.1 hmax] at h
    cases h
  | some greatest => exact (List.max?_eq_some_iff.1 hmax).2 v h

/-- The current version is recorded, or nothing is. -/
theorem current_cases (db : MigrationDatabase) :
    db.current ∈ db.versions ∨ db.versions = [] ∧ db.current = 0 := by
  unfold current
  cases hmax : db.versions.max? with
  | none => exact .inr ⟨List.max?_eq_none_iff.1 hmax, rfl⟩
  | some greatest => exact .inl (List.max?_eq_some_iff.1 hmax).1

theorem not_mem_versions {m : Migration} (h : m ∈ pending db.current runner.migrations) :
    m.version ∉ db.versions := by
  have habove : db.current < m.version := by simpa using (List.mem_filter.1 h).2
  exact fun hmem => absurd (le_current hmem) (by omega)

/-- The greatest of the versions that are pending, or else the current one. -/
theorem latest_pending (hcurrent : 0 ≤ db.current) :
    ((pending db.current runner.migrations).getLast?.map Migration.version).getD db.current =
      max runner.latestVersion db.current := by
  unfold MigrationRunner.latestVersion pending
  rcases List.eq_nil_or_concat runner.migrations with hnil | ⟨front, last, hsplit⟩
  · rw [hnil]
    exact (max_eq_right hcurrent).symm
  · have hordered := runner.ordered
    rw [hsplit, List.concat_eq_append] at hordered ⊢
    rw [List.filter_append, List.getLast?_concat]
    by_cases hlast : db.current < last.version
    · rw [List.filter_cons_of_pos (by simpa using hlast), List.filter_nil, List.getLast?_concat]
      exact (max_eq_left hlast.le).symm
    · have hfront : front.filter (fun m => decide (db.current < m.version)) = [] := by
        refine List.filter_eq_nil_iff.2 fun m hm => ?_
        have hless := (List.pairwise_append.1 hordered).2.2 m hm last (List.mem_singleton_self last)
        simp only [decide_eq_true_eq]
        omega
      rw [hfront, List.filter_cons_of_neg (by simpa using hlast)]
      exact (max_eq_right (not_lt.1 hlast)).symm

end Versions

/-- A run executes a migration whose record is lost. -/
def LosesRecord (runner : MigrationRunner) (db : MigrationDatabase) (faults : ℕ → Option Fault) :
    Prop :=
  faults 0 = none ∧ faults 1 = none ∧
    LosesFrom faults 2 (pending db.current runner.migrations).length

/-- What a run does to a database. -/
theorem migrate_cases (runner : MigrationRunner) (db : MigrationDatabase)
    (faults : ℕ → Option Fault) : ∃ done, done <+: pending db.current runner.migrations ∧
      (migrate runner db faults).2.executed = db.executed ++ done.map Migration.sql ∧
      (∀ v, (migrate runner db faults).1 = .ok v → ¬ LosesRecord runner db faults ∧
        done = pending db.current runner.migrations ∧
          v = ((pending db.current runner.migrations).getLast?.map
            Migration.version).getD db.current) ∧
      (¬ LosesRecord runner db faults ∧
          (migrate runner db faults).2.versions = db.versions ++ done.map Migration.version ∨
        LosesRecord runner db faults ∧ ∃ recorded last, done = recorded ++ [last] ∧
          (migrate runner db faults).2.versions = db.versions ++ recorded.map Migration.version) := by
  have hcreate : Migrating.ensureMigrationsTable.run.run (handle faults) (db, 0) = _ :=
    run_ensureMigrationsTable
  unfold migrate LosesRecord Migrating.runWithBackend
  rcases hfirst : faults 0 with _ | ⟨err⟩ | ⟨err⟩
  · rw [hfirst] at hcreate
    rw [Prog.run_bind_of_ok hcreate]
    have hread : Migrating.currentVersion.run.run (handle faults)
        ({ db with hasTable := true }, 0 + 1) = _ := run_currentVersion rfl
    rcases hsecond : faults 1 with _ | ⟨err⟩ | ⟨err⟩
    · rw [hsecond] at hread
      rw [Prog.run_bind_of_ok hread]
      obtain ⟨done, hdone, hexecuted, hok, hversions⟩ :=
        @run_applyMigrations faults { db with hasTable := true } 2 db.current db.current
          runner.migrations runner.ordered rfl fun m hm => not_mem_versions hm
      refine ⟨done, hdone, hexecuted, ?_, ?_⟩
      · simp only [eq_self, true_and]
        exact hok
      · simp only [eq_self, true_and]
        exact hversions
    · rw [hsecond] at hread
      rw [Prog.run_bind_of_error hread]
      exact ⟨[], List.nil_prefix, (List.append_nil _).symm, nofun,
        .inl ⟨nofun, (List.append_nil _).symm⟩⟩
    · rw [hsecond] at hread
      rw [Prog.run_bind_of_error hread]
      exact ⟨[], List.nil_prefix, (List.append_nil _).symm, nofun,
        .inl ⟨nofun, (List.append_nil _).symm⟩⟩
  · rw [hfirst] at hcreate
    rw [Prog.run_bind_of_error hcreate]
    exact ⟨[], List.nil_prefix, (List.append_nil _).symm, nofun,
      .inl ⟨nofun, (List.append_nil _).symm⟩⟩
  · rw [hfirst] at hcreate
    rw [Prog.run_bind_of_error hcreate]
    exact ⟨[], List.nil_prefix, (List.append_nil _).symm, nofun,
      .inl ⟨nofun, (List.append_nil _).symm⟩⟩

/-! ### Runs of runs -/

/-- The scripts were executed in the order of their versions, each once, and their versions are recorded
after those that were recorded at the beginning. -/
def ExactlyOnce (runner : MigrationRunner) (base : List ℤ) (db : MigrationDatabase) : Prop :=
  ∃ executions : List Migration, executions.Pairwise (fun m n => m.version < n.version) ∧
    (∀ m ∈ executions, m ∈ runner.migrations ∧ ∀ v ∈ base, v < m.version) ∧
      db.executed = executions.map Migration.sql ∧
        db.versions = base ++ executions.map Migration.version

/-- The migrations up to the versions that are recorded are recorded. -/
def Complete (runner : MigrationRunner) (db : MigrationDatabase) : Prop :=
  ∀ m ∈ runner.migrations, ∀ v ∈ db.versions, m.version ≤ v → m.version ∈ db.versions

/-- A database with some versions, in which earlier runs have left no gap: no version is recorded, for
one. -/
structure Starts (runner : MigrationRunner) (base : List ℤ) (db : MigrationDatabase) : Prop where
  versions : db.versions = base
  executed : db.executed = []
  positive : ∀ v ∈ base, 0 < v
  complete : Complete runner db

/-- The invariant. -/
structure Inv (runner : MigrationRunner) (base : List ℤ) (db : MigrationDatabase) : Prop where
  exactlyOnce : ExactlyOnce runner base db
  positive : ∀ v ∈ base, 0 < v
  complete : Complete runner db

section Runs

variable {runner : MigrationRunner} {base : List ℤ} {db : MigrationDatabase}
  {faults : ℕ → Option Fault}

theorem Starts.inv (h : Starts runner base db) : Inv runner base db where
  exactlyOnce := ⟨[], .nil, nofun, h.executed, by rw [h.versions, List.map_nil, List.append_nil]⟩
  positive := h.positive
  complete := h.complete

theorem Inv.current_nonneg (h : Inv runner base db) : 0 ≤ db.current := by
  rcases current_cases db with hmem | ⟨-, hzero⟩
  · obtain ⟨executions, -, hlisted, -, hversions⟩ := h.exactlyOnce
    rw [hversions] at hmem
    rcases List.mem_append.1 hmem with hbase | hnew
    · exact (h.positive _ hbase).le
    · obtain ⟨m, hm, heq⟩ := List.mem_map.1 hnew
      rw [← heq]
      exact (runner.positive m (hlisted m hm).1).le
  · rw [hzero]

/-- What is not pending is recorded. -/
theorem Inv.mem_versions (h : Inv runner base db) {m : Migration} (hm : m ∈ runner.migrations)
    (hnot : m.version ≤ db.current) : m.version ∈ db.versions := by
  rcases current_cases db with hmem | ⟨-, hzero⟩
  · exact h.complete m hm _ hmem hnot
  · have hpositive := runner.positive m hm
    omega

/-- More executions, of the migrations that come next. -/
theorem Inv.append (h : Inv runner base db) {done : List Migration}
    (hdone : done <+: pending db.current runner.migrations) {db' : MigrationDatabase}
    (hexecuted : db'.executed = db.executed ++ done.map Migration.sql)
    (hversions : db'.versions = db.versions ++ done.map Migration.version) : Inv runner base db' := by
  have hpending : ∀ m ∈ done, m ∈ runner.migrations ∧ db.current < m.version := fun m hm => by
    simpa [pending] using hdone.subset hm
  refine ⟨?_, h.positive, ?_⟩
  · obtain ⟨executions, hordered, hlisted, hscripts, hrecorded⟩ := h.exactlyOnce
    have holder : ∀ v ∈ db.versions, ∀ m ∈ done, v < m.version := fun v hv m hm =>
      lt_of_le_of_lt (le_current hv) (hpending m hm).2
    rw [hrecorded] at holder
    refine ⟨executions ++ done, List.pairwise_append.2 ⟨hordered, ?_, fun m hm n hn => ?_⟩,
      fun m hm => ?_, ?_, ?_⟩
    · exact (runner.ordered.filter _).sublist hdone.sublist
    · exact holder _ (List.mem_append_right _ (List.mem_map_of_mem hm)) n hn
    · rcases List.mem_append.1 hm with hm | hm
      · exact hlisted m hm
      · exact ⟨(hpending m hm).1, fun v hv => holder v (List.mem_append_left _ hv) m hm⟩
    · rw [hexecuted, hscripts, List.map_append]
    · rw [hversions, hrecorded, List.map_append, List.append_assoc]
  · intro m hm v hv hle
    rw [hversions] at hv ⊢
    by_cases hold : m.version ≤ db.current
    · exact List.mem_append_left _ (h.mem_versions hm hold)
    · -- what is executed is the beginning of what is pending, which runs by increasing version
      refine List.mem_append_right _ (List.mem_map_of_mem ?_)
      have hmem : m ∈ pending db.current runner.migrations := by
        simpa [pending] using ⟨hm, not_le.1 hold⟩
      obtain ⟨rest, hrest⟩ := hdone
      have hsorted : (done ++ rest).Pairwise fun m n => m.version < n.version :=
        hrest ▸ runner.ordered.filter _
      rw [← hrest] at hmem
      rcases List.mem_append.1 hmem with hdone | hlater
      · exact hdone
      · rcases List.mem_append.1 hv with hv | hv
        · exact absurd (hle.trans (le_current hv)) hold
        · obtain ⟨n, hn, rfl⟩ := List.mem_map.1 hv
          exact absurd hle (not_le.2 ((List.pairwise_append.1 hsorted).2.2 n hn m hlater))

/-- A run keeps the invariant, unless it loses a record. -/
theorem Inv.after_migrate (h : Inv runner base db) (hkeeps : ¬ LosesRecord runner db faults) :
    Inv runner base (migrate runner db faults).2 := by
  obtain ⟨done, hdone, hexecuted, -, ⟨-, hversions⟩ | ⟨hloses, -⟩⟩ := migrate_cases runner db faults
  · exact h.append hdone hexecuted hversions
  · exact absurd hloses hkeeps

/-- A run that loses a record has executed more than it has recorded. -/
theorem Inv.not_exactlyOnce (h : Inv runner base db) (hloses : LosesRecord runner db faults) :
    ¬ ExactlyOnce runner base (migrate runner db faults).2 := by
  rintro ⟨executions', -, -, hscripts', hrecorded'⟩
  obtain ⟨executions, -, -, hscripts, hrecorded⟩ := h.exactlyOnce
  obtain ⟨done, -, hexecuted, -, ⟨hkeeps, -⟩ | ⟨-, recorded, last, rfl, hversions⟩⟩ :=
    migrate_cases runner db faults
  · exact hkeeps hloses
  · have hscripts := congrArg List.length (hexecuted.symm.trans hscripts')
    have hrows := congrArg List.length (hversions.symm.trans hrecorded')
    rw [‹db.executed = _›] at hscripts
    rw [hrecorded] at hrows
    simp only [List.length_append, List.length_map, List.length_singleton] at hscripts hrows
    omega

/-- A run that succeeds leaves every migration recorded. -/
theorem Inv.of_ok (h : Inv runner base db) {v : ℤ} (hok : (migrate runner db faults).1 = .ok v) :
    (∀ m ∈ runner.migrations, m.version ∈ (migrate runner db faults).2.versions) ∧
      v = max runner.latestVersion db.current := by
  obtain ⟨done, -, -, hresult, hversions⟩ := migrate_cases runner db faults
  obtain ⟨hkeeps, rfl, hv⟩ := hresult v hok
  refine ⟨fun m hm => ?_, hv.trans (latest_pending h.current_nonneg)⟩
  rcases hversions with ⟨-, hversions⟩ | ⟨hloses, -⟩
  · rw [hversions]
    by_cases hold : m.version ≤ db.current
    · exact List.mem_append_left _ (h.mem_versions hm hold)
    · refine List.mem_append_right _ (List.mem_map_of_mem ?_)
      simpa [pending] using ⟨hm, not_le.1 hold⟩
  · exact absurd hloses hkeeps

/-- A run of the migrations as a step. -/
def step (runner : MigrationRunner) (db : MigrationDatabase) (faults : ℕ → Option Fault) :
    Option (MigrationDatabase × Except StorageError ℤ) :=
  some ((migrate runner db faults).2, (migrate runner db faults).1)

/-- In every sequence of runs none of which loses a record, every migration is executed at most once, in
the order of the versions, and is recorded; a run that succeeds leaves all of them executed, and the
next run keeps this if and only if it does not lose a record. -/
theorem exactlyOnce_of_reach (h : Runs.Reach (step runner)
      (fun db faults => ¬ LosesRecord runner db faults) (Starts runner base) db) :
    ExactlyOnce runner base db ∧ ∀ faults,
      (∀ v, (migrate runner db faults).1 = .ok v →
        (∀ m ∈ runner.migrations, m.version ∈ (migrate runner db faults).2.versions) ∧
          v = max runner.latestVersion db.current) ∧
      (ExactlyOnce runner base (migrate runner db faults).2 ↔ ¬ LosesRecord runner db faults) := by
  have hinv : Inv runner base db := by
    refine h.invariant (I := Inv runner base) (fun _ hstarts => hstarts.inv) ?_
    rintro s faults t output hs hkeeps hstep
    cases hstep
    exact hs.after_migrate hkeeps
  refine ⟨hinv.exactlyOnce, fun faults => ⟨fun v hok => hinv.of_ok hok, fun honce hloses => ?_,
    fun hkeeps => (hinv.after_migrate hkeeps).exactlyOnce⟩⟩
  exact hinv.not_exactlyOnce hloses honce

end Runs

/-- Two migrations. -/
def twoMigrations : MigrationRunner where
  migrations := [⟨1, "repo announcements and state", "CREATE TABLE repo_announcement"⟩,
    ⟨2, "forgejo repo mapping", "CREATE TABLE repo_mapping"⟩]
  positive := by decide
  ordered := by decide

/-- A database without migrations. -/
def empty : MigrationDatabase := ⟨false, [], []⟩

theorem starts_empty (runner : MigrationRunner) : Starts runner [] empty where
  versions := rfl
  executed := rfl
  positive := nofun
  complete := fun _ _ _ hv => nomatch hv

/-- A call of a run that is not carried out. -/
def refusedAt (index : ℕ) : ℕ → Option Fault := fun call =>
  if call = index then some (.refused (.database "connection closed")) else none

/-- The first migration is executed, but not recorded, and the next run executes it again. -/
theorem not_exactlyOnce_twoMigrations : ∃ db,
    Runs.Reach (step twoMigrations) (fun _ _ => True) (Starts twoMigrations []) db ∧
      db.executed = ["CREATE TABLE repo_announcement", "CREATE TABLE repo_announcement",
        "CREATE TABLE repo_mapping"] ∧ ¬ ExactlyOnce twoMigrations [] db := by
  have hrun : (Runs.exec (step twoMigrations) empty [refusedAt 3, fun _ => none]).map
      (fun r => (r.1.executed, r.1.versions)) = some (["CREATE TABLE repo_announcement",
        "CREATE TABLE repo_announcement", "CREATE TABLE repo_mapping"], [1, 2]) := by
    decide +kernel
  obtain ⟨⟨db, outputs⟩, hexec, hdb⟩ := Option.map_eq_some_iff.1 hrun
  obtain ⟨hexecuted, hversions⟩ := Prod.mk.inj hdb
  refine ⟨db, .of_exec (.start (starts_empty _)) (fun _ _ _ => trivial) hexec, hexecuted, ?_⟩
  rintro ⟨executions, -, -, hscripts, hrows⟩
  have htwice := congrArg List.length (hexecuted.symm.trans hscripts)
  have honce := congrArg List.length (hversions.symm.trans hrows)
  simp at htwice honce
  omega

/-- The second script fails at first, and is executed by the next run. -/
theorem exactlyOnce_twoMigrations : ∃ db, db.versions = [1, 2] ∧ ExactlyOnce twoMigrations [] db := by
  have hrun : (Runs.exec (step twoMigrations) empty [refusedAt 4, fun _ => none]).map
      (fun r => r.1.versions) = some [1, 2] := by
    decide +kernel
  obtain ⟨⟨db, outputs⟩, hexec, hversions⟩ := Option.map_eq_some_iff.1 hrun
  have hreach : Runs.Reach (step twoMigrations) (fun db faults => ¬ LosesRecord twoMigrations db faults)
      (Starts twoMigrations []) db := by
    refine .of_exec (.start (starts_empty _)) (fun faults hfaults s => ?_) hexec
    rintro ⟨-, -, k, -, -, err, hrefused⟩
    rcases List.mem_pair.1 hfaults with rfl | rfl
    · unfold refusedAt at hrefused
      rw [if_neg (by omega)] at hrefused
      cases hrefused
    · cases hrefused
  exact ⟨db, hversions, (exactlyOnce_of_reach hreach).1⟩

end MigrationDatabase
end Gittree
