import Mathlib.Data.List.Basic

/-!
# The migration run

`run_migrations_online` takes an advisory lock, configures Alembic with the connection and lets it
run the pending migrations. SQLAlchemy and Alembic are parameters with their documented behaviour:
the statement that takes the lock has already begun a transaction, so that Alembic neither begins
nor commits one, and the clean-up rolls the migrations back whether or not one of them raised.
-/

namespace CreditScoringMlops.Migrations

/-- The database: its contents and the revision in `alembic_version`. -/
structure Database (C : Type) where
  contents : C
  version : Option String
  deriving DecidableEq

/-- A migration script. `upgrade` may raise after some of its statements. -/
structure Migration (C Exc : Type) where
  revision : String
  upgrade : C → C × Except Exc Unit

/-- Run migrations in order, each followed by its revision, up to the first one that raises. -/
def applyAll {C Exc : Type} : List (Migration C Exc) → Database C → Database C × Except Exc Unit
  | [], db => (db, .ok ())
  | m :: rest, db =>
    match m.upgrade db.contents with
    | (contents, .ok ()) => applyAll rest ⟨contents, some m.revision⟩
    | (contents, .error exc) => ({ db with contents }, .error exc)

/-- What the server knows of a connection: what is committed, what its open transaction would
commit, and whether it holds the advisory lock. -/
structure Session (C : Type) where
  committed : Database C
  transaction : Option (Database C)
  locked : Bool

/-- The database as the connection sees it. -/
def Session.current {C : Type} (s : Session C) : Database C := s.transaction.getD s.committed

/-- The calls of SQLAlchemy and Alembic that the script makes. -/
structure Packages (C Exc Connection Context : Type) where
  connect : Database C → Connection
  executeLock : Connection → Connection
  executeUnlock : Connection → Connection
  inTransaction : Connection → Bool
  rollback : Connection → Connection
  close : Connection → Connection
  configure : Connection → Context
  enterTransaction : Context → Connection → Connection
  exitTransaction : Context → Except Exc Unit → Connection → Connection
  runMigrations : Context → List (Migration C Exc) → Connection → Except Exc Unit × Connection
  session : Connection → Session C
  inExternalTransaction : Context → Bool

variable {C Exc Connection Context : Type}

/-- Their documented behaviour. A connection begins a transaction at its first statement; a
configured context knows whether there was one already, and then `begin_transaction` neither
begins nor commits; PostgreSQL runs DDL in transactions and locks outside of them. -/
structure Packages.Documented (P : Packages C Exc Connection Context) : Prop where
  connect : ∀ db, P.session (P.connect db) = ⟨db, none, false⟩
  executeLock : ∀ c, P.session (P.executeLock c) =
    { P.session c with transaction := some (P.session c).current, locked := true }
  executeUnlock : ∀ c, P.session (P.executeUnlock c) =
    { P.session c with transaction := some (P.session c).current, locked := false }
  inTransaction : ∀ c, P.inTransaction c = (P.session c).transaction.isSome
  rollback : ∀ c, P.session (P.rollback c) = { P.session c with transaction := none }
  close : ∀ c, P.session (P.close c) = { P.session c with transaction := none, locked := false }
  configure : ∀ c, P.inExternalTransaction (P.configure c) = P.inTransaction c
  enterTransaction : ∀ ctx c, P.session (P.enterTransaction ctx c) =
    if P.inExternalTransaction ctx then P.session c
    else { P.session c with transaction := some (P.session c).current }
  exitTransaction : ∀ ctx result c, P.session (P.exitTransaction ctx result c) =
    if P.inExternalTransaction ctx then P.session c
    else match result with
      | .ok () => { P.session c with committed := (P.session c).current, transaction := none }
      | .error _ => { P.session c with transaction := none }
  runMigrations : ∀ ctx pending c,
    (P.runMigrations ctx pending c).1 = (applyAll pending (P.session c).current).2 ∧
    P.session (P.runMigrations ctx pending c).2 =
      { P.session c with transaction := some (applyAll pending (P.session c).current).1 }

/-- The `finally` block of the script, and the end of the connection. -/
def cleanUp (P : Packages C Exc Connection Context) (connection : Connection) : Connection :=
  let connection := if P.inTransaction connection then P.rollback connection else connection
  P.close (P.executeUnlock connection)

/-- `run_migrations_online`: what it returns or raises, and the connection after its block. -/
def runMigrationsOnline (P : Packages C Exc Connection Context)
    (pending : List (Migration C Exc)) (db : Database C) : Except Exc Unit × Connection :=
  let connection := P.executeLock (P.connect db)
  let context := P.configure connection
  let (result, connection) := P.runMigrations context pending (P.enterTransaction context connection)
  (result, cleanUp P (P.exitTransaction context result connection))

/-- The lock is released; all pending migrations are committed, or one of them raised, its error
propagates, and the database is as before. -/
def AllOrNothing (P : Packages C Exc Connection Context) (pending : List (Migration C Exc))
    (db : Database C) : Prop :=
  let ended := runMigrationsOnline P pending db
  (P.session ended.2).locked = false ∧
    match applyAll pending db with
    | (after, .ok ()) => ended.1 = .ok () ∧ (P.session ended.2).committed = after
    | (_, .error exc) => ended.1 = .error exc ∧ (P.session ended.2).committed = db

/-- The clean-up releases the lock and leaves what has been committed before. -/
theorem session_cleanUp {P : Packages C Exc Connection Context} (hP : P.Documented)
    (c : Connection) : P.session (cleanUp P c) = ⟨(P.session c).committed, none, false⟩ := by
  unfold cleanUp
  by_cases h : P.inTransaction c
  · rw [if_pos h, hP.close, hP.executeUnlock, hP.rollback]
  · rw [if_neg h, hP.close, hP.executeUnlock]

/-- The run ends as the migrations do, with the lock released and nothing committed. -/
theorem runMigrationsOnline_rolled_back {P : Packages C Exc Connection Context}
    (hP : P.Documented) (pending : List (Migration C Exc)) (db : Database C) :
    (runMigrationsOnline P pending db).1 = (applyAll pending db).2 ∧
      P.session (runMigrationsOnline P pending db).2 = ⟨db, none, false⟩ := by
  have hlocked : P.session (P.executeLock (P.connect db)) = ⟨db, some db, true⟩ := by
    rw [hP.executeLock, hP.connect]
    rfl
  unfold runMigrationsOnline
  generalize P.executeLock (P.connect db) = c at hlocked ⊢
  -- the context finds the transaction that the lock has begun
  have hexternal : P.inExternalTransaction (P.configure c) := by
    rw [hP.configure, hP.inTransaction, hlocked]
    rfl
  have hentered : P.session (P.enterTransaction (P.configure c) c) = ⟨db, some db, true⟩ := by
    rw [hP.enterTransaction, if_pos hexternal, hlocked]
  obtain ⟨hresult, hmigrated⟩ :=
    hP.runMigrations (P.configure c) pending (P.enterTransaction (P.configure c) c)
  rw [hentered] at hresult hmigrated
  refine ⟨hresult, ?_⟩
  simp only
  rw [session_cleanUp hP, hP.exitTransaction, if_pos hexternal, hmigrated]

/-- Migrations that have run to the end leave the revision of the last one. -/
theorem version_applyAll {pending : List (Migration C Exc)} {db after : Database C}
    (h : applyAll pending db = (after, .ok ())) :
    after.version = ((pending.map (·.revision)).getLast?).or db.version := by
  induction pending generalizing db with
  | nil =>
    cases h
    rfl
  | cons m rest ih =>
    rw [applyAll] at h
    split at h
    · rw [ih h, List.map_cons, List.getLast?_cons]
      cases (rest.map (·.revision)).getLast? <;> rfl
    · cases h

/-- The run is all-or-nothing exactly if there is nothing to do or a migration raises. -/
theorem all_or_nothing_iff {P : Packages C Exc Connection Context} (hP : P.Documented)
    (pending : List (Migration C Exc)) (db : Database C)
    (hpending : ∀ m ∈ pending, db.version ≠ some m.revision) :
    AllOrNothing P pending db ↔ pending = [] ∨ ∃ exc, (applyAll pending db).2 = .error exc := by
  obtain ⟨hresult, hsession⟩ := runMigrationsOnline_rolled_back hP pending db
  unfold AllOrNothing
  simp only [hresult, hsession, true_and]
  rcases happly : applyAll pending db with ⟨after, exc | _⟩
  · exact iff_of_true (by simp) (.inr ⟨exc, rfl⟩)
  · have hraises : ¬∃ exc, (Except.ok () : Except Exc Unit) = .error exc := by
      rintro ⟨exc, h⟩
      cases h
    rw [or_iff_left hraises]
    refine ⟨fun ⟨_, hsame⟩ => ?_, fun hnil => ?_⟩
    · -- the revision of the last migration is not the one that the database had
      by_contra hne
      have hrevisions : pending.map (·.revision) ≠ [] := mt List.map_eq_nil_iff.mp hne
      have hlast := List.getLast?_eq_some_getLast hrevisions
      obtain ⟨m, hm, hrevision⟩ := List.mem_map.mp (List.mem_of_getLast? hlast)
      have hversion := version_applyAll happly
      rw [hlast, Option.some_or, ← hsame, ← hrevision] at hversion
      exact hpending m hm hversion
    · subst hnil
      cases happly
      exact ⟨rfl, rfl⟩

/-! ## The migrations of the repository

Only what they do to the tables and columns; indexes and the contents of rows are left out. -/

/-- The tables with their columns. -/
abbrev Schema := List (String × List String)

/-- `op.create_table`, without a table of that name. -/
def createTable (name : String) (columns : List String) (schema : Schema) :
    Schema × Except String Unit :=
  if schema.any (·.1 == name) then (schema, .error "table already exists")
  else (schema ++ [(name, columns)], .ok ())

/-- `op.add_column`, on a table of that name without such a column. -/
def addColumn (name column : String) (schema : Schema) : Schema × Except String Unit :=
  if schema.any fun table => table.1 == name && !table.2.contains column then
    (schema.map fun table => if table.1 = name then (name, table.2 ++ [column]) else table, .ok ())
  else (schema, .error "undefined table or duplicate column")

/-- Revision 20260819_0001. -/
def persistence : Migration Schema String where
  revision := "20260819_0001"
  upgrade schema :=
    let approvals := ["id", "approval_id", "action", "reason", "requested_at", "status",
      "execution_plan", "decided_at", "decided_by", "decision_comment", "execution_result"]
    match createTable "ai_engineering_approvals" approvals schema with
    | (schema, .ok ()) => createTable "ai_engineering_audit_events"
        ["id", "event_id", "event_type", "occurred_at", "trace_id", "actor", "action", "tool_name",
          "status", "payload", "error"] schema
    | failed => failed

/-- Revision 20260909_0002. -/
def approvalTraceId : Migration Schema String where
  revision := "20260909_0002"
  upgrade := addColumn "ai_engineering_approvals" "trace_id"

/-- Revision 20260910_0003. -/
def executionStartedAt : Migration Schema String where
  revision := "20260910_0003"
  upgrade := addColumn "ai_engineering_approvals" "execution_started_at"

/-- Packages that behave as documented: a connection is its session, a context is the flag. -/
def documentedPackages : Packages C Exc (Session C) Bool where
  connect db := ⟨db, none, false⟩
  executeLock s := { s with transaction := some s.current, locked := true }
  executeUnlock s := { s with transaction := some s.current, locked := false }
  inTransaction s := s.transaction.isSome
  rollback s := { s with transaction := none }
  close s := { s with transaction := none, locked := false }
  configure s := s.transaction.isSome
  enterTransaction external s := if external then s else { s with transaction := some s.current }
  exitTransaction external result s :=
    if external then s
    else match result with
      | .ok () => { s with committed := s.current, transaction := none }
      | .error _ => { s with transaction := none }
  runMigrations _ pending s :=
    ((applyAll pending s.current).2, { s with transaction := some (applyAll pending s.current).1 })
  session s := s
  inExternalTransaction external := external

/-- They do. -/
theorem documentedPackages_documented :
    (documentedPackages : Packages C Exc (Session C) Bool).Documented := by
  constructor <;> intros <;> first | rfl | exact ⟨rfl, rfl⟩

/-- An upgrade of the empty database to the head raises nothing and commits nothing. -/
theorem upgrade_head_lost :
    let db : Database Schema := ⟨[], none⟩
    let pending := [persistence, approvalTraceId, executionStartedAt]
    let P : Packages Schema String (Session Schema) Bool := documentedPackages
    (applyAll pending db).1.version = some "20260910_0003" ∧ (applyAll pending db).2 = .ok () ∧
      (runMigrationsOnline P pending db).1 = .ok () ∧
        (runMigrationsOnline P pending db).2.committed = db ∧ ¬AllOrNothing P pending db := by
  intro db pending P
  refine ⟨rfl, rfl, rfl, rfl, fun h => ?_⟩
  have hcommitted : (runMigrationsOnline P pending db).2.committed = (applyAll pending db).1 :=
    h.2.2
  exact absurd (congrArg Database.version hcommitted) (by decide)

/-- An upgrade whose second migration raises, for a column that is there already, is rolled back
with the first one. -/
theorem all_or_nothing_iff_secondRaises :
    let db : Database Schema :=
      ⟨[("ai_engineering_approvals", ["id", "execution_started_at"])], some "20260819_0001"⟩
    let pending := [approvalTraceId, executionStartedAt]
    (applyAll pending db).1.version = some "20260909_0002" ∧
      (applyAll pending db).2 = .error "undefined table or duplicate column" ∧
        AllOrNothing (documentedPackages : Packages Schema String (Session Schema) Bool)
          pending db := by
  intro db pending
  exact ⟨rfl, rfl, (all_or_nothing_iff documentedPackages_documented pending db (by decide)).mpr
    (.inr ⟨_, rfl⟩)⟩

end CreditScoringMlops.Migrations
