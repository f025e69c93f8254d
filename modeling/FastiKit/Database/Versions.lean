import FastiKit.Database.MigrationLock
import FastiKit.Relational.Ddl
import FastiKit.User.ScopeMigration

/- The revisions of the database, and what a database goes through under them.

   Correspondence (Python ↔ Lean):
     `alembic/versions/*.py`, `upgrade` and `downgrade`  ↔ `versions`, the oldest first
     `Base.metadata` (the models of `core.models`)        ↔ `metadata`
   Each revision runs in a transaction, so one that is refused leaves the database as it
   was. Between two of them the application writes any rows the schema allows. -/
namespace FastiKit.Versions

open Migrations Relational.Ddl

structure Revision where
  revision : String
  downRevision : Option String
  upgrade : List Statement
  downgrade : List Statement

/-! The columns as the revisions and the models spell them. -/

def uuid (name : String) : Column := { name, type := .uuid, nullable := false }

def string (name : String) (length : Option Nat) (nullable : Bool) : Column :=
  { name, type := .string length, nullable }

def timestamp (name : String) (nullable : Bool) : Column := { name, type := .timestamp, nullable }

def integer (name : String) : Column := { name, type := .integer, nullable := false }

def boolean (name : String) : Column := { name, type := .boolean, nullable := false }

def jsonb (name : String) : Column := { name, type := .jsonb, nullable := false }

def createUserTable : Revision where
  revision := "42275bfc1260"
  downRevision := none
  upgrade := [.createTable "users"
    [uuid "id", string "email" (some 255) false, string "password_hash" (some 255) true,
      string "full_name" (some 255) false, timestamp "created_at" false, timestamp "updated_at" false,
      boolean "is_active"]
    [.primaryKey ["id"], .unique ["email"]]]
  downgrade := [.dropTable "users"]

def updateUserTable : Revision where
  revision := "1f41e9d3550c"
  downRevision := some "42275bfc1260"
  upgrade := [.setNullable "users" "password_hash" false]
  downgrade := [.setNullable "users" "password_hash" true]

def addRevokedTokenTable : Revision where
  revision := "2d9d6c357408"
  downRevision := some "1f41e9d3550c"
  upgrade := [
    .createTable "revoked_tokens" [uuid "id", string "jti" none false, timestamp "expires_at" false]
      [.primaryKey ["id"]],
    .createIndex "revoked_tokens" { name := "ix_revoked_tokens_jti", columns := ["jti"], unique := true }]
  downgrade := [.dropIndex "ix_revoked_tokens_jti", .dropTable "revoked_tokens"]

def addIsVerified : Revision where
  revision := "e64abc0807d1"
  downRevision := some "2d9d6c357408"
  upgrade := [.addColumn "users" { boolean "is_verified" with serverDefault := some (.boolean false) }]
  downgrade := [.dropColumn "users" "is_verified"]

def addPendingVerificationJti : Revision where
  revision := "8292c482c5c2"
  downRevision := some "e64abc0807d1"
  upgrade := [.addColumn "users" (string "pending_verification_jti" (some 255) true)]
  downgrade := [.dropColumn "users" "pending_verification_jti"]

def addPendingPasswordResetJti : Revision where
  revision := "ff2fd6286f38"
  downRevision := some "8292c482c5c2"
  upgrade := [.addColumn "users" (string "pending_password_reset_jti" (some 255) true)]
  downgrade := [.dropColumn "users" "pending_password_reset_jti"]

def addScopes : Revision where
  revision := "f0589143e900"
  downRevision := some "ff2fd6286f38"
  upgrade := [.addColumn "users" { string "scopes" none false with serverDefault := some (.string "users:read users:write") }]
  downgrade := [.dropColumn "users" "scopes"]

def addOutboxEventsTable : Revision where
  revision := "b7f3a9c1d2e4"
  downRevision := some "f0589143e900"
  upgrade := [
    .createTable "outbox_events"
      [uuid "id", string "task_name" (some 255) false, jsonb "payload", timestamp "created_at" false,
        timestamp "dispatched_at" true, timestamp "failed_at" true, integer "attempts",
        string "last_error" (some 1000) true]
      [.primaryKey ["id"]],
    .createIndex "outbox_events"
      { name := "ix_outbox_undispatched", columns := ["created_at"],
        condition := some "dispatched_at IS NULL AND failed_at IS NULL" }]
  downgrade := [.dropIndex "ix_outbox_undispatched", .dropTable "outbox_events"]

def addDeadLetterJobsTable : Revision where
  revision := "22ae424f5be5"
  downRevision := some "b7f3a9c1d2e4"
  upgrade := [
    .createTable "dead_letter_jobs"
      [uuid "id", string "job_key" (some 255) false, string "function" (some 255) false,
        string "queue_name" (some 255) false, jsonb "kwargs", string "status" (some 32) false,
        { name := "error", type := .text, nullable := true }, integer "attempts", timestamp "failed_at" false,
        timestamp "retried_at" true]
      [.primaryKey ["id"]],
    .createIndex "dead_letter_jobs" { name := "ix_dead_letter_jobs_failed_at", columns := ["failed_at"] },
    .createIndex "dead_letter_jobs" { name := "ix_dead_letter_jobs_job_key", columns := ["job_key"] }]
  downgrade := [.dropIndex "ix_dead_letter_jobs_job_key", .dropIndex "ix_dead_letter_jobs_failed_at",
    .dropTable "dead_letter_jobs"]

def addRefreshSessionsTable : Revision where
  revision := "80f27a9e6fcd"
  downRevision := some "22ae424f5be5"
  upgrade := [
    .createTable "refresh_sessions"
      [uuid "id", uuid "user_id", integer "generation", timestamp "expires_at" false, timestamp "rotated_at" true,
        timestamp "revoked_at" true, timestamp "created_at" false]
      [.foreignKey ["user_id"] "users" ["id"] true, .primaryKey ["id"]],
    .createIndex "refresh_sessions" { name := "ix_refresh_sessions_expires_at", columns := ["expires_at"] },
    .createIndex "refresh_sessions" { name := "ix_refresh_sessions_user_id", columns := ["user_id"] }]
  downgrade := [.dropIndex "ix_refresh_sessions_user_id", .dropIndex "ix_refresh_sessions_expires_at",
    .dropTable "refresh_sessions"]

/-! The last revision rewrites the scopes. -/

/-- The text of the column; the functions below make of a null what they make of no text. -/
def scopes (r : Row) : String :=
  match r "scopes" with
  | .string s => s
  | _ => ""

/-- `UPDATE users SET scopes = ...` -/
def updateScopes (condition : String → Bool) (f : String → String) : Statement :=
  .update "users" "scopes" (fun r => condition (scopes r)) (fun r => .string (f (scopes r)))

/-- `_remove_scopes` -/
def removeScopes (removed : List String) : Statement :=
  updateScopes (fun _ => true) (FastiKit.removeScopes removed)

def dropDefaultUserScopes : Revision where
  revision := "d223a0cb723d"
  downRevision := some "80f27a9e6fcd"
  upgrade := [
    removeScopes ["users:read", "users:write"],
    updateScopes ScopeMigration.readsOnly (fun scopes => Words.trim (scopes ++ " admin:write")),
    .setDefault "users" "scopes" (.string "")]
  downgrade := [
    removeScopes ["admin:write"],
    updateScopes (fun _ => true) (fun scopes => Words.trim (defaultScopes ++ " " ++ scopes)),
    .setDefault "users" "scopes" (.string defaultScopes)]

def versions : List Revision :=
  [createUserTable, updateUserTable, addRevokedTokenTable, addIsVerified, addPendingVerificationJti,
    addPendingPasswordResetJti, addScopes, addOutboxEventsTable, addDeadLetterJobsTable, addRefreshSessionsTable,
    dropDefaultUserScopes]

/-- Each revision names the one before it. -/
example : versions.map Revision.downRevision = none :: (versions.dropLast.map (fun r => some r.revision)) := by decide

/-! The models. -/

/-- `UserModel`, `RefreshSessionModel`, `RevokedTokenModel`, `OutboxEvent` and
`DeadLetterJobModel`. -/
def metadata : Schema := [
  ("users",
    { columns := [uuid "id", string "email" (some 255) false, string "password_hash" (some 255) false,
        string "scopes" none false, string "full_name" (some 255) false, boolean "is_verified",
        string "pending_verification_jti" (some 255) true, string "pending_password_reset_jti" (some 255) true,
        timestamp "created_at" false, timestamp "updated_at" false, boolean "is_active"]
      constraints := [.primaryKey ["id"], .unique ["email"]]
      indexes := [] }),
  ("refresh_sessions",
    { columns := [uuid "id", uuid "user_id", integer "generation", timestamp "expires_at" false,
        timestamp "rotated_at" true, timestamp "revoked_at" true, timestamp "created_at" false]
      constraints := [.primaryKey ["id"], .foreignKey ["user_id"] "users" ["id"] true]
      indexes := [{ name := "ix_refresh_sessions_user_id", columns := ["user_id"] },
        { name := "ix_refresh_sessions_expires_at", columns := ["expires_at"] }] }),
  ("revoked_tokens",
    { columns := [uuid "id", string "jti" none false, timestamp "expires_at" false]
      constraints := [.primaryKey ["id"]]
      indexes := [{ name := "ix_revoked_tokens_jti", columns := ["jti"], unique := true }] }),
  ("outbox_events",
    { columns := [uuid "id", string "task_name" (some 255) false, jsonb "payload", timestamp "created_at" false,
        timestamp "dispatched_at" true, timestamp "failed_at" true, integer "attempts",
        string "last_error" (some 1000) true]
      constraints := [.primaryKey ["id"]]
      indexes := [
        { name := "ix_outbox_undispatched", columns := ["created_at"],
          condition := some "dispatched_at IS NULL AND failed_at IS NULL" }] }),
  ("dead_letter_jobs",
    { columns := [uuid "id", string "job_key" (some 255) false, string "function" (some 255) false,
        string "queue_name" (some 255) false, jsonb "kwargs", string "status" (some 32) false,
        { name := "error", type := .text, nullable := true }, integer "attempts", timestamp "failed_at" false,
        timestamp "retried_at" true]
      constraints := [.primaryKey ["id"]]
      indexes := [{ name := "ix_dead_letter_jobs_failed_at", columns := ["failed_at"] },
        { name := "ix_dead_letter_jobs_job_key", columns := ["job_key"] }] })]

/-- The columns of a table without their server defaults, which are not compared: the models
declare none, and the revisions set them for the rows to come. -/
def declared (d : TableDef) : List Column := d.columns.map (fun c => { c with serverDefault := none })

/-- The schema has the models' tables, columns, constraints and indexes, and no others; the
server defaults of the columns are left out of the comparison. -/
def Agrees (s m : Schema) : Prop :=
  s.length = m.length ∧ ∀ t ∈ m, ∃ d ∈ s.find t.1, (declared d).Perm t.2.columns ∧
    d.constraints.Perm t.2.constraints ∧ d.indexes.Perm t.2.indexes

/-! What a database goes through. -/

/-- The schema that the first `k` revisions make. -/
def schemaAt (k : Nat) : Schema := (defineAll ((versions.take k).flatMap Revision.upgrade) []).getD []

/-- One revision up or down. -/
inductive Migrates : Versioned Database → Versioned Database → Prop where
  | upgraded {v : Versioned Database} {r : Revision} {data : Database} (hr : versions[v.revision]? = some r)
      (h : execAll r.upgrade v.data = .ok data) : Migrates v ⟨v.revision + 1, data⟩
  | downgraded {v : Versioned Database} {k : Nat} {r : Revision} {data : Database} (hk : v.revision = k + 1)
      (hr : versions[k]? = some r) (h : execAll r.downgrade v.data = .ok data) : Migrates v ⟨k, data⟩

/-- A revision, or anything the application can do to the rows. -/
inductive Step : Versioned Database → Versioned Database → Prop where
  | migrated {v v' : Versioned Database} (h : Migrates v v') : Step v v'
  | written {v : Versioned Database} {rows : String → List Row} (h : Database.WellFormed ⟨v.data.schema, rows⟩) :
      Step v ⟨v.revision, ⟨v.data.schema, rows⟩⟩

/-- The database has been through this since it was created. -/
def Reached (v : Versioned Database) : Prop := Relation.ReflTransGen Step ⟨0, .empty⟩ v

/-- A user has no password. -/
def Passwordless (db : Database) : Prop := ∃ user ∈ db.rows "users", user "password_hash" = .null

/-- The column is there. -/
def present (s : Schema) (table column : String) : Bool := (s.find table).any (fun d => (d.column? column).isSome)

end FastiKit.Versions
