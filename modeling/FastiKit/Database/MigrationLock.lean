import FastiKit.Interleave.Triples
import Mathlib.Logic.Function.Basic

/- Processes that migrate one database at the same time.

   Correspondence (Python ↔ Lean):
     `_try_lock`                  ↔ `tryLock`
     `migration_lock`             ↔ `migrationLock`; its `yield` is the argument `body`
     `run_migrations`             ↔ `runMigrations`
     `run_migrations_online`      ↔ `runMigrationsOnline`
     `context.begin_transaction`  ↔ `beginTransaction`
     `context.run_migrations`     ↔ `contextRunMigrations`
   Every container started with RUN_MIGRATIONS runs `alembic upgrade head` on a
   connection of its own. One operation is one statement of one connection; between
   two of them the other processes run, a process dies (its code stops, and the server
   drops its connection some time later) or a connection is lost. The revisions are a
   parameter: what the `upgrade` of each one does to the data, or the exception it
   raises. The message about waiting is not part of the model. -/
namespace FastiKit.Migrations

open Interleave

/-- The data of the database, and how many revisions of the chain have made it. -/
structure Versioned (D : Type) where
  revision : Nat
  data : D

/-- What the `upgrade` of each revision does, the oldest first. -/
abbrev Chain (ε D : Type) := List (D → Except ε D)

/-- A connection's transaction. `written` has the database as the transaction sees it;
in a `failed` one the server refuses every statement. -/
inductive Transaction (D : Type) where
  | none
  | begun
  | written (working : Versioned D)
  | failed

structure Connection (D : Type) where
  alive : Bool
  transaction : Transaction D

/-- What is committed, who holds the advisory lock, and the connections. The last field
records the connections that were dropped, for the statements. -/
structure State (D : Type) where
  db : Versioned D
  holder : Option Nat
  connections : Nat → Connection D
  dropped : List Nat

inductive Failure (ε : Type) where
  | connectionLost
  | failedTransaction
  | alreadyBegun
  | unknownRevision
  | staleRevision
  | raised (e : ε)

inductive Call where
  | tryLock
  | lock
  | unlock
  | commit
  | rollback
  | inTransaction
  | begin
  | currentRevision
  | upgrade (k : Nat)
  | stamp (k : Nat)
  | close
  deriving DecidableEq

namespace Call

abbrev Answer : Call → Type
  | tryLock => Bool
  | inTransaction => Bool
  | currentRevision => Nat
  | _ => Unit

/-- The call sends a statement. -/
def statement : Call → Bool
  | tryLock | lock | unlock | currentRevision | upgrade _ | stamp _ => true
  | _ => false

/-- The calls of a process after the commit that follows the lock up to the unlock, but
for the commit of the revisions. -/
def guarded : Call → Bool
  | inTransaction | begin | currentRevision | upgrade _ | stamp _ | rollback | unlock => true
  | _ => false

/-- The call neither writes nor ends the connection. -/
def plain : Call → Bool
  | commit | upgrade _ | stamp _ | close => false
  | _ => true

end Call

structure Op where
  conn : Nat
  call : Call

abbrev Res (ε : Type) (op : Op) : Type := Except (Failure ε) op.call.Answer

namespace Transaction
variable {D : Type}

/-- The first statement begins a transaction. -/
def autobegin : Transaction D → Transaction D
  | none => begun
  | t => t

def isOpen : Transaction D → Bool
  | none => false
  | _ => true

def isFailed : Transaction D → Bool
  | failed => true
  | _ => false

/-- The database as the transaction sees it, and as its commit leaves it. -/
def working (db : Versioned D) : Transaction D → Versioned D
  | written w => w
  | _ => db

end Transaction

namespace State
variable {D : Type}

def put (s : State D) (c : Nat) (t : Transaction D) : State D :=
  { s with connections := Function.update s.connections c { s.connections c with transaction := t } }

/-- The connection ends: its transaction is rolled back and its lock is free. -/
def disconnect (s : State D) (c : Nat) : State D :=
  { s with holder := if s.holder = some c then none else s.holder,
           connections := Function.update s.connections c { alive := false, transaction := .none } }

/-- The server or the network ends the connection. -/
def drop (s : State D) (c : Nat) : State D := { s.disconnect c with dropped := c :: s.dropped }

/-- The lock is free for the connection; a session that holds it gets it again. -/
def free (s : State D) (c : Nat) : Bool := s.holder.all (· == c)

@[simp] theorem put_db (s : State D) (c : Nat) (t : Transaction D) : (s.put c t).db = s.db := rfl

@[simp] theorem put_holder (s : State D) (c : Nat) (t : Transaction D) : (s.put c t).holder = s.holder := rfl

@[simp] theorem put_self (s : State D) (c : Nat) (t : Transaction D) :
    (s.put c t).connections c = { s.connections c with transaction := t } := by
  simp [put]

@[simp] theorem put_other {s : State D} {c c' : Nat} {t : Transaction D} (h : c' ≠ c) :
    (s.put c t).connections c' = s.connections c' := by
  simp [put, h]

@[simp] theorem disconnect_db (s : State D) (c : Nat) : (s.disconnect c).db = s.db := rfl

@[simp] theorem disconnect_self (s : State D) (c : Nat) :
    (s.disconnect c).connections c = ⟨false, .none⟩ := by
  simp [disconnect]

@[simp] theorem disconnect_other {s : State D} {c c' : Nat} (h : c' ≠ c) :
    (s.disconnect c).connections c' = s.connections c' := by
  simp [disconnect, h]

@[simp] theorem put_dropped (s : State D) (c : Nat) (t : Transaction D) : (s.put c t).dropped = s.dropped := rfl

@[simp] theorem disconnect_dropped (s : State D) (c : Nat) : (s.disconnect c).dropped = s.dropped := rfl

@[simp] theorem drop_connections (s : State D) (c : Nat) :
    (s.drop c).connections = (s.disconnect c).connections := rfl

theorem disconnect_holder (s : State D) (c : Nat) :
    (s.disconnect c).holder = if s.holder = some c then none else s.holder := rfl

end State

section Operations
variable {ε D : Type} (chain : Chain ε D)

/-- What a call does on a connection that is open. -/
def runCall (c : Nat) (s : State D) : (call : Call) → Except (Failure ε) call.Answer × State D
  | .tryLock =>
    let t := (s.connections c).transaction.autobegin
    if s.free c then (.ok true, { s.put c t with holder := some c }) else (.ok false, s.put c t)
  | .lock => (.ok (), { s.put c (s.connections c).transaction.autobegin with holder := some c })
  | .unlock => (.ok (), { s.put c (s.connections c).transaction.autobegin with
      holder := if s.holder = some c then none else s.holder })
  | .commit => (.ok (), { s.put c .none with db := (s.connections c).transaction.working s.db })
  | .rollback => (.ok (), s.put c .none)
  | .inTransaction => (.ok (s.connections c).transaction.isOpen, s)
  | .begin =>
    if (s.connections c).transaction.isOpen then (.error .alreadyBegun, s) else (.ok (), s.put c .begun)
  | .currentRevision =>
    (.ok ((s.connections c).transaction.working s.db).revision,
      s.put c (s.connections c).transaction.autobegin)
  | .upgrade k =>
    let w := (s.connections c).transaction.working s.db
    match chain[k]? with
    | none => (.error .unknownRevision, s)
    | some upgrade =>
      match upgrade w.data with
      | .ok data => (.ok (), s.put c (.written { w with data }))
      | .error e => (.error (.raised e), s.put c .failed)
  | .stamp k =>
    -- UPDATE alembic_version SET version_num = .. WHERE version_num = ..
    let w := (s.connections c).transaction.working s.db
    if w.revision = k then (.ok (), s.put c (.written { w with revision := k + 1 }))
    else (.error .staleRevision, s)
  | .close => (.ok (), s.disconnect c)

def execCall (c : Nat) (call : Call) (s : State D) : Except (Failure ε) call.Answer × State D :=
  if call = .close then runCall chain c s call
  else if !(s.connections c).alive then (.error .connectionLost, s)
  else if call.statement && (s.connections c).transaction.isFailed then (.error .failedTransaction, s)
  else runCall chain c s call

def exec (op : Op) (s : State D) : Res ε op × State D := execCall chain op.conn op.call s

end Operations

section Programs
variable {ε : Type}

abbrev Api (ε α : Type) := Prog Op (Res ε) (Failure ε) α

/-- A call; its failure is an exception. -/
def execute (c : Nat) (call : Call) : Api ε call.Answer :=
  .call ⟨c, call⟩ (fun r => match r with
    | .ok a => .ret a
    | .error e => .raise e)

def tryLock (c : Nat) : Api ε Bool := execute c .tryLock

/-- `with migration_lock(connection, log):` -/
def migrationLock (c : Nat) (body : Api ε Unit) : Api ε Unit := do
  if !(← tryLock c) then
    execute c .lock
  execute c .commit
  -- there is no `finally`: a body that raises leaves the lock to the end of the connection
  body
  execute c .unlock
  execute c .commit

/-- A transaction that was open when the context was configured belongs to the caller:
nothing is begun, committed or rolled back. -/
def beginTransaction (c : Nat) (external : Bool) (body : Api ε Unit) : Api ε Unit :=
  if external then body
  else do
    execute c .begin
    tryCatchThe (Failure ε) body (fun e => do
      execute c .rollback
      throw e)
    execute c .commit

/-- The revisions from `k` on, `n` of them, each followed by its version. -/
def upgradeFrom (c : Nat) : Nat → Nat → Api ε Unit
  | 0, _ => pure ()
  | n + 1, k => do
    execute c (.upgrade k)
    execute c (.stamp k)
    upgradeFrom c n (k + 1)

/-- `upgrade head`, for a chain of `head` revisions. -/
def contextRunMigrations (head c : Nat) : Api ε Unit := do
  let k ← execute c .currentRevision
  upgradeFrom c (head - k) k

def runMigrations (head c : Nat) : Api ε Unit :=
  migrationLock c (do
    let external ← execute c .inTransaction
    beginTransaction c external (contextRunMigrations head c))

/-- `async with connectable.connect() as connection:` -/
def runMigrationsOnline (head c : Nat) : Api ε Unit := do
  tryCatchThe (Failure ε) (runMigrations head c) (fun e => do
    execute c .close
    throw e)
  execute c .close

end Programs

section Processes
variable {ε D : Type} (chain : Chain ε D)

/-- The processes, each named by the number of its connection. The environment's only
action is to drop a connection. -/
def processes : System Op (Res ε) (State D) Nat (Failure ε) Unit Nat where
  exec := exec chain
  program := runMigrationsOnline chain.length
  accepts := fun _ _ => true
  respond := fun _ _ s => s
  env := fun c s => some (s.drop c)

abbrev Processes (ε D : Type) := Pool Op (Res ε) (State D) Nat (Failure ε) Unit

/-- `pg_advisory_lock` returns only once the lock is free. -/
def Granted (op : Op) (s : State D) : Prop := op.call = .lock → (s.connections op.conn).alive = true →
  s.free op.conn = true

/-- A process that starts opens a connection of its own; a call that waits for the
lock does not return while another session holds it. -/
def Fair (s : Processes ε D) : Interleave.Action Nat Nat → Prop
  | .spawn c => (∀ th ∈ s.threads, th.req ≠ c) ∧ s.state.connections c = ⟨true, .none⟩ ∧ s.state.holder ≠ some c
  | .run i => ∀ op, s.Waits i op → Granted op s.state
  | _ => True

/-- `v'` is what the revisions from `v.revision` up to `v'.revision`, run in order and
each once, make of `v`. -/
def Leads (v v' : Versioned D) : Prop :=
  v.revision ≤ v'.revision ∧
    ((chain.drop v.revision).take (v'.revision - v.revision)).foldlM (fun data upgrade => upgrade data) v.data =
      .ok v'.data

/-- The exception is the loss of the process's own connection, or one that a revision
raised on the data of the revisions before it. -/
def Excused (start : Versioned D) (c : Nat) (s : State D) : Failure ε → Prop
  | .connectionLost => c ∈ s.dropped
  | .raised e => ∃ v upgrade, Leads chain start v ∧ chain[v.revision]? = some upgrade ∧ upgrade v.data = .error e
  | _ => False

end Processes

/-! The chain. -/

section Chains
variable {ε D : Type} {chain : Chain ε D} {v w : Versioned D}

theorem leads_refl (v : Versioned D) : Leads chain v v := by
  simp [Leads, pure, Except.pure]

/-- One more revision. -/
theorem Leads.snoc (h : Leads chain v w) {upgrade : D → Except ε D} {data : D}
    (hup : chain[w.revision]? = some upgrade) (hdata : upgrade w.data = .ok data) :
    Leads chain v ⟨w.revision + 1, data⟩ := by
  obtain ⟨hle, hfold⟩ := h
  refine ⟨Nat.le_succ_of_le hle, ?_⟩
  have hnext : (chain.drop v.revision)[w.revision - v.revision]? = some upgrade := by
    rw [List.getElem?_drop, Nat.add_sub_cancel' hle, hup]
  have htake : (chain.drop v.revision).take (w.revision + 1 - v.revision) =
      (chain.drop v.revision).take (w.revision - v.revision) ++ [upgrade] := by
    rw [Nat.succ_sub hle, List.take_add_one, hnext]
    rfl
  rw [htake, List.foldlM_append, hfold]
  simp [bind, Except.bind, pure, Except.pure, hdata]

theorem Leads.trans {u : Versioned D} (h : Leads chain v w) (h' : Leads chain w u) : Leads chain v u := by
  obtain ⟨hle, hfold⟩ := h
  obtain ⟨hle', hfold'⟩ := h'
  refine ⟨Nat.le_trans hle hle', ?_⟩
  -- the revisions of the two stretches, one after the other
  have htake : (chain.drop v.revision).take (u.revision - v.revision) =
      (chain.drop v.revision).take (w.revision - v.revision) ++
        (chain.drop w.revision).take (u.revision - w.revision) := by
    have hsum : u.revision - v.revision = (w.revision - v.revision) + (u.revision - w.revision) := by omega
    rw [hsum, List.take_add, List.drop_drop, Nat.add_sub_cancel' hle]
  rw [htake, List.foldlM_append, hfold]
  exact hfold'

/-- What every revision that is applied keeps. -/
theorem Leads.invariant {P : Versioned D → Prop}
    (hstep : ∀ (w : Versioned D) (upgrade : D → Except ε D) (data : D), P w → chain[w.revision]? = some upgrade →
      upgrade w.data = .ok data → P ⟨w.revision + 1, data⟩)
    {u : Versioned D} (h : Leads chain v u) (hbound : u.revision ≤ chain.length) (hv : P v) : P u := by
  obtain ⟨hle, hfold⟩ := h
  obtain ⟨n, hn⟩ := Nat.exists_eq_add_of_le hle
  obtain ⟨k, data⟩ := u
  change k = v.revision + n at hn
  subst hn
  rw [Nat.add_sub_cancel_left] at hfold
  -- on the number of revisions applied
  induction n generalizing data with
  | zero =>
    rw [List.take_zero] at hfold
    cases hfold
    exact hv
  | succ n ih =>
    change v.revision + (n + 1) ≤ chain.length at hbound
    have hlt : v.revision + n < chain.length := by omega
    have hget : (chain.drop v.revision)[n]? = some chain[v.revision + n] := by
      rw [List.getElem?_drop, List.getElem?_eq_getElem hlt]
    rw [List.take_add_one, hget, Option.toList_some, List.foldlM_append] at hfold
    cases hbefore : ((chain.drop v.revision).take n).foldlM (fun data upgrade => upgrade data) v.data with
    | error e =>
      rw [hbefore] at hfold
      cases hfold
    | ok mid =>
      rw [hbefore] at hfold
      have hmid : P ⟨v.revision + n, mid⟩ :=
        ih mid (Nat.le_of_lt hlt) (Nat.le_add_right _ _) hbefore
      refine hstep _ _ data hmid (List.getElem?_eq_getElem hlt) ?_
      cases hlast : chain[v.revision + n] mid with
      | error e => simp [bind, Except.bind, hlast] at hfold
      | ok last => simpa [bind, Except.bind, pure, Except.pure, hlast] using hfold

end Chains

/-! What an operation can do to the other connections. -/

section Guarantees
variable {ε D : Type} {chain : Chain ε D} {s s' : State D} {c : Nat}

/-- The lock is held by connections that are open. -/
def State.Held (s : State D) : Prop := ∀ c, s.holder = some c → (s.connections c).alive = true

/-- The call is made between the lock and its release: one of those that only occur
there, or a commit that publishes something. -/
def Inside (op : Op) (s : State D) : Prop :=
  op.call.guarded = true ∨ op.call = .commit ∧ ∃ w, (s.connections op.conn).transaction = .written w

structure Guarantee (chain : Chain ε D) (op : Op) (s s' : State D) : Prop where
  others : ∀ c, c ≠ op.conn → s'.connections c = s.connections c
  locks : ∀ c, c ≠ op.conn → s.holder = some c → s'.holder = some c ∧ s'.db = s.db
  leads : Leads chain s.db s'.db
  bound : s.db.revision ≤ chain.length → s'.db.revision ≤ chain.length
  held : s.Held → s'.Held
  own : op.call ≠ .close → (s'.connections op.conn).alive = (s.connections op.conn).alive
  dropped : s'.dropped = s.dropped
  exclusive : Inside op s → (s.connections op.conn).alive = true → s.holder = some op.conn

/-- What the processes that wait rely on: their connection was dropped, or nobody
touched it, and while it holds the lock nobody commits. -/
structure Rely (chain : Chain ε D) (c : Nat) (s s' : State D) : Prop where
  dead : (s.connections c).alive = false → (s'.connections c).alive = false
  own : (s'.connections c).alive = true → s'.connections c = s.connections c
  lock : (s'.connections c).alive = true → s.holder = some c → s'.holder = some c ∧ s'.db = s.db
  leads : Leads chain s.db s'.db
  bound : s.db.revision ≤ chain.length → s'.db.revision ≤ chain.length
  lost : (s.connections c).alive = true → (s'.connections c).alive = false → c ∈ s'.dropped
  dropped : s.dropped ⊆ s'.dropped

def regime (chain : Chain ε D) : Regime Op (State D) where
  cond := Granted
  rely := fun op => Rely chain op.conn
  guar := Guarantee chain

theorem Rely.refl (s : State D) : Rely chain c s s :=
  ⟨id, fun _ => rfl, fun _ h => ⟨h, rfl⟩, leads_refl _, id, fun h h' => by simp [h] at h', List.Subset.refl _⟩

theorem Guarantee.refl {op : Op} (h : Inside op s → (s.connections op.conn).alive = true →
    s.holder = some op.conn) : Guarantee chain op s s :=
  ⟨fun _ _ => rfl, fun _ _ h => ⟨h, rfl⟩, leads_refl _, id, id, fun _ => rfl, rfl, h⟩

theorem Rely.step {w : State D} (h : Rely chain c w s) {op : Op} (hg : Guarantee chain op s s') (hne : c ≠ op.conn) :
    Rely chain c w s' := by
  have hsame := hg.others c hne
  refine ⟨?_, ?_, ?_, h.leads.trans hg.leads, fun hle => hg.bound (h.bound hle), ?_, ?_⟩
  · rw [hsame]
    exact h.dead
  · rw [hsame]
    exact h.own
  · rw [hsame]
    intro halive hlock
    obtain ⟨hlock', hdb⟩ := h.lock halive hlock
    obtain ⟨hlock'', hdb'⟩ := hg.locks c hne hlock'
    exact ⟨hlock'', hdb'.trans hdb⟩
  · rw [hsame, hg.dropped]
    exact h.lost
  · rw [hg.dropped]
    exact h.dropped

/-- A call that does not touch the committed database, and takes the lock only when it
is free. -/
theorem Guarantee.private {op : Op} (hothers : ∀ c, c ≠ op.conn → s'.connections c = s.connections c)
    (hown : (s'.connections op.conn).alive = (s.connections op.conn).alive)
    (hdb : s'.db = s.db) (hdropped : s'.dropped = s.dropped)
    (hlock : s'.holder = s.holder ∨ s'.holder = none ∧ s.holder = some op.conn ∨
      s'.holder = some op.conn ∧ s.free op.conn = true ∧ (s.connections op.conn).alive = true)
    (h : Inside op s → (s.connections op.conn).alive = true → s.holder = some op.conn) :
    Guarantee chain op s s' := by
  refine ⟨hothers, ?_, hdb ▸ leads_refl _, hdb ▸ id, ?_, fun _ => hown, hdropped, h⟩
  · intro c hne hheld
    refine ⟨?_, hdb⟩
    rcases hlock with hsame | ⟨-, hmine⟩ | ⟨-, hfree, -⟩
    · rw [hsame, hheld]
    · rw [hheld] at hmine
      exact absurd (Option.some.inj hmine) hne
    · rw [State.free, hheld] at hfree
      exact absurd (by simpa using hfree) hne
  · intro hheld c hc
    have halive : (s.connections c).alive = true := by
      rcases hlock with hsame | ⟨hnone, -⟩ | ⟨hmine, -, halive⟩
      · exact hheld c (hsame ▸ hc)
      · rw [hnone] at hc
        cases hc
      · rw [hmine] at hc
        rw [← Option.some.inj hc]
        exact halive
    by_cases hne : c = op.conn
    · subst hne
      rw [hown, halive]
    · rw [hothers c hne, halive]

theorem guarantee_close (s : State D) (c : Nat) : Guarantee chain ⟨c, .close⟩ s (s.disconnect c) := by
  have hkept : ∀ c', c' ≠ c → ((s.disconnect c).holder = some c' ↔ s.holder = some c') := by
    intro c' hne
    rw [State.disconnect_holder]
    split
    · next hown =>
      rw [hown]
      simp [Ne.symm hne]
    · exact Iff.rfl
  refine ⟨fun _ hne => State.disconnect_other hne, ?_, leads_refl _, id, ?_, by simp, rfl, by simp [Inside, Call.guarded]⟩
  · exact fun c' hne hheld => ⟨(hkept c' hne).mpr hheld, rfl⟩
  · intro hheld c' hc'
    by_cases hne : c' = c
    · rw [State.disconnect_holder, hne] at hc'
      split at hc'
      · cases hc'
      · next hno => exact absurd hc' hno
    · rw [State.disconnect_other hne]
      exact hheld c' ((hkept c' hne).mp hc')

/-- Only a commit touches what is committed; what it publishes is what the transaction
has written. -/
theorem guarantee_runCall {call : Call} (halive : (s.connections c).alive = true)
    (hgranted : Granted ⟨c, call⟩ s)
    (hcommit : call = .commit → ∀ w, (s.connections c).transaction = .written w →
      s.holder = some c ∧ Leads chain s.db w ∧ w.revision ≤ chain.length)
    (hinside : Inside ⟨c, call⟩ s → s.holder = some c) :
    Guarantee chain ⟨c, call⟩ s (runCall chain c s call).2 := by
  have hput : ∀ t, Guarantee chain ⟨c, call⟩ s (s.put c t) := by
    intro t
    exact .private (fun _ hne => State.put_other hne) (by simp) rfl rfl (.inl rfl) (fun hm _ => hinside hm)
  have hsame : Guarantee chain ⟨c, call⟩ s s := Guarantee.refl (fun hm _ => hinside hm)
  have htake : ∀ t, s.free c = true →
      Guarantee chain ⟨c, call⟩ s { s.put c t with holder := some c } := by
    intro t hfree
    have hown : ((s.put c t).connections c).alive = (s.connections c).alive := by simp
    exact .private (fun _ hne => State.put_other hne) hown rfl rfl (.inr (.inr ⟨rfl, hfree, halive⟩))
      (fun hm _ => hinside hm)
  cases call with
  | tryLock =>
    simp only [runCall]
    split
    · next hfree => exact htake _ hfree
    · exact hput _
  | lock => exact htake _ (hgranted rfl halive)
  | unlock =>
    refine .private (fun _ hne => State.put_other hne) (by simp [runCall]) rfl rfl ?_ (fun hm _ => hinside hm)
    simp only [runCall]
    split
    · next hown => exact .inr (.inl ⟨rfl, hown⟩)
    · exact .inl rfl
  | commit =>
    cases htx : (s.connections c).transaction with
    | written w =>
      obtain ⟨hown, hleads, hle⟩ := hcommit rfl w htx
      simp only [runCall, htx, Transaction.working]
      refine ⟨fun _ hne => State.put_other hne, ?_, hleads, fun _ => hle, ?_, by simp, rfl,
        fun hm _ => hinside hm⟩
      · -- nobody else holds the lock
        intro c' hne hheld
        rw [hown] at hheld
        exact absurd (Option.some.inj hheld).symm hne
      · intro hheld c' hc'
        by_cases hne : c' = c
        · subst hne
          simpa using halive
        · simpa [hne] using hheld c' hc'
    | none =>
      simp only [runCall, htx, Transaction.working]
      exact hput .none
    | begun =>
      simp only [runCall, htx, Transaction.working]
      exact hput .none
    | failed =>
      simp only [runCall, htx, Transaction.working]
      exact hput .none
  | rollback => exact hput _
  | inTransaction => exact hsame
  | begin =>
    simp only [runCall]
    split
    · exact hsame
    · exact hput _
  | currentRevision => exact hput _
  | upgrade k =>
    simp only [runCall]
    split
    · exact hsame
    · split
      · exact hput _
      · exact hput _
  | stamp k =>
    simp only [runCall]
    split
    · exact hput _
    · exact hsame
  | close => exact guarantee_close s c

theorem guarantee_exec {op : Op} (hgranted : Granted op s)
    (hcommit : op.call = .commit → (s.connections op.conn).alive = true →
      ∀ w, (s.connections op.conn).transaction = .written w →
        s.holder = some op.conn ∧ Leads chain s.db w ∧ w.revision ≤ chain.length)
    (hinside : Inside op s → (s.connections op.conn).alive = true → s.holder = some op.conn) :
    Guarantee chain op s (exec chain op s).2 := by
  obtain ⟨c, call⟩ := op
  simp only [exec, execCall]
  by_cases hclose : call = .close
  · subst hclose
    exact guarantee_close s c
  · rw [if_neg hclose]
    split
    · exact Guarantee.refl hinside
    · next halive =>
      have halive : (s.connections c).alive = true := by simpa using halive
      split
      · exact Guarantee.refl hinside
      · exact guarantee_runCall halive hgranted (fun h => hcommit h halive) (fun h => hinside h halive)

end Guarantees

/-! The program of a process. -/

section Verification
variable {ε D : Type} {chain : Chain ε D} {start : Versioned D} {c : Nat}

/-- What is committed has been made of `start` by the revisions in order. -/
structure Base (chain : Chain ε D) (start : Versioned D) (s : State D) : Prop where
  leads : Leads chain start s.db
  bound : s.db.revision ≤ chain.length

/-- The process has not closed its connection: if it is not open, it was dropped. -/
structure Open (chain : Chain ε D) (start : Versioned D) (c : Nat) (s : State D) : Prop extends
    Base chain start s where
  lost : (s.connections c).alive = false → c ∈ s.dropped

/-- Unless its connection is lost, the process holds the lock, and `A` holds of what is
committed and of its transaction. -/
def Locked (c : Nat) (A : Versioned D → Transaction D → Prop) (s : State D) : Prop :=
  (s.connections c).alive = true → s.holder = some c ∧ A s.db (s.connections c).transaction

/-- Unless its connection is lost, the process has this transaction. -/
def Holds (c : Nat) (t : Transaction D) (s : State D) : Prop :=
  (s.connections c).alive = true → (s.connections c).transaction = t

def AtHead (chain : Chain ε D) (s : State D) : Prop := s.db.revision = chain.length

/-- The transaction has run the revisions before `k`. -/
def Upgraded (chain : Chain ε D) (k : Nat) (db : Versioned D) (t : Transaction D) : Prop :=
  t.isFailed = false ∧ (t.working db).revision = k ∧ Leads chain db (t.working db) ∧ k ≤ chain.length

/-- The transaction has run the revision `k` and not written its version yet. -/
def Unstamped (chain : Chain ε D) (k : Nat) (db : Versioned D) (t : Transaction D) : Prop :=
  ∃ data, t = .written ⟨k, data⟩ ∧ Leads chain db ⟨k + 1, data⟩ ∧ k < chain.length

theorem Base.rely {s v : State D} (h : Base chain start s) (hr : Rely chain c s v) : Base chain start v :=
  ⟨h.leads.trans hr.leads, hr.bound h.bound⟩

theorem Base.guarantee {op : Op} {s v : State D} (h : Base chain start s) (hg : Guarantee chain op s v) :
    Base chain start v :=
  ⟨h.leads.trans hg.leads, hg.bound h.bound⟩

theorem Open.rely {s v : State D} (h : Open chain start c s) (hr : Rely chain c s v) : Open chain start c v := by
  refine ⟨h.toBase.rely hr, ?_⟩
  intro hdead
  cases halive : (s.connections c).alive with
  | true => exact hr.lost halive hdead
  | false => exact hr.dropped (h.lost halive)

theorem Open.guarantee {call : Call} {s v : State D} (h : Open chain start c s)
    (hg : Guarantee chain ⟨c, call⟩ s v) (hclose : call ≠ .close) : Open chain start c v := by
  refine ⟨h.toBase.guarantee hg, ?_⟩
  rw [hg.own hclose, hg.dropped]
  exact h.lost

theorem Excused.dropped {s v : State D} {e : Failure ε} (h : Excused chain start c s e)
    (hdropped : s.dropped ⊆ v.dropped) : Excused chain start c v e := by
  cases e with
  | connectionLost => exact hdropped h
  | raised e => exact h
  | failedTransaction => exact h.elim
  | alreadyBegun => exact h.elim
  | unknownRevision => exact h.elim
  | staleRevision => exact h.elim

theorem Locked.rely {A : Versioned D → Transaction D → Prop} {s v : State D} (h : Locked c A s)
    (hr : Rely chain c s v) : Locked c A v := by
  intro halive
  have hsame := hr.own halive
  obtain ⟨hlock, hA⟩ := h (hsame ▸ halive)
  obtain ⟨hlock', hdb⟩ := hr.lock halive hlock
  rw [hsame, hdb]
  exact ⟨hlock', hA⟩

theorem Holds.rely {t : Transaction D} {s v : State D} (h : Holds c t s) (hr : Rely chain c s v) :
    Holds c t v := by
  intro halive
  have hsame := hr.own halive
  rw [hsame]
  exact h (hsame ▸ halive)

theorem AtHead.rely {s v : State D} (h : AtHead chain s) (hr : Rely chain c s v) : AtHead chain v :=
  Nat.le_antisymm (hr.bound (Nat.le_of_eq h)) (h ▸ hr.leads.1)

/-- What a call inside the lock raises leaves the lock with the process. -/
def Raised (chain : Chain ε D) (start : Versioned D) (c : Nat) (inside : Bool) (e : Failure ε) (s : State D) : Prop :=
  Excused chain start c s e ∧ (inside = true → Locked c (fun _ _ => True) s)

/-- From `P` the program returns `a` with `P' a`, or raises what is excused. -/
def Runs (chain : Chain ε D) (start : Versioned D) (c : Nat) (inside : Bool) {α : Type} (P : State D → Prop)
    (p : Api ε α) (P' : α → State D → Prop) : Prop :=
  Triple (regime chain) (exec chain) (fun s => Open chain start c s ∧ P s) p
    (orRaise (fun a s => Open chain start c s ∧ P' a s) (fun e s => Open chain start c s ∧ Raised chain start c inside e s))

theorem Runs.bind {inside : Bool} {α β : Type} {P : State D → Prop} {p : Api ε α} {f : α → Api ε β}
    {R : α → State D → Prop} {P' : β → State D → Prop} (hp : Runs chain start c inside P p R)
    (hf : ∀ a, Runs chain start c inside (R a) (f a) P') : Runs chain start c inside P (p >>= f) P' :=
  triple_bind hp hf

/-- From outside, it does not matter where the lock was when something raised. -/
theorem Runs.outside {inside : Bool} {α : Type} {P : State D → Prop} {p : Api ε α} {P' : α → State D → Prop}
    (h : Runs chain start c inside P p P') : Runs chain start c false P p P' := by
  refine h.weaken (fun _ hs => hs) ?_
  intro out s hs
  cases out with
  | ok a => exact hs
  | error e => exact ⟨hs.1, hs.2.1, by simp⟩

theorem runs_pure {inside : Bool} {P : State D → Prop} {α : Type} {a : α} {P' : α → State D → Prop}
    (h : ∀ s, P s → P' a s) : Runs chain start c inside P (pure a) P' :=
  triple_ret fun s hs => ⟨hs.1, h s hs.2⟩

/-- A call whose precondition the other processes cannot break. -/
theorem runs_execute {call : Call} {inside : Bool} (hclose : call ≠ .close) {P : State D → Prop}
    {P' : call.Answer → State D → Prop} (hstable : ∀ s v, P s → Rely chain c s v → P v)
    (hfailed : ∀ s, P s → (s.connections c).alive = true → call.statement = true →
      (s.connections c).transaction.isFailed = false)
    (hcommit : ∀ s, Open chain start c s → P s → (s.connections c).alive = true → call = .commit →
      ∀ w, (s.connections c).transaction = .written w →
        s.holder = some c ∧ Leads chain s.db w ∧ w.revision ≤ chain.length)
    (hguarded : ∀ s, P s → (s.connections c).alive = true → call.guarded = true → s.holder = some c)
    (hrun : ∀ s, Open chain start c s → P s → (s.connections c).alive = true → Granted ⟨c, call⟩ s →
      orRaise P' (Raised chain start c inside) (runCall chain c s call).1 (runCall chain c s call).2) :
    Runs chain start c inside P (execute c call) P' := by
  refine triple_call (R := fun r s => orRaise (fun a s => Open chain start c s ∧ P' a s)
    (fun e s => Open chain start c s ∧ Raised chain start c inside e s) r s) ?_ ?_
  · intro s v hs hr hgranted
    have hbase := hs.1.rely hr
    have hP := hstable s v hs.2 hr
    have hg : Guarantee chain ⟨c, call⟩ v (exec chain ⟨c, call⟩ v).2 := by
      refine guarantee_exec hgranted (fun h halive => hcommit v hbase hP halive h) ?_
      rintro (hin | ⟨hin, w, hw⟩) halive
      · exact hguarded v hP halive hin
      · exact (hcommit v hbase hP halive hin w hw).1
    refine ⟨hg, ?_⟩
    have hbase' := hbase.guarantee hg hclose
    simp only [exec, execCall, if_neg hclose] at hbase' ⊢
    cases halive : (v.connections c).alive with
    | false =>
      simp only [halive, Bool.not_false, if_true] at hbase' ⊢
      refine ⟨hbase', hbase.lost halive, ?_⟩
      intro _ hopen
      rw [halive] at hopen
      cases hopen
    | true =>
      have hno : (call.statement && (v.connections c).transaction.isFailed) = false := by
        cases hst : call.statement with
        | false => rfl
        | true => rw [hfailed v hP halive hst, Bool.and_false]
      have hpost := hrun v hbase hP halive hgranted
      simp only [halive, Bool.not_true, hno, if_false, Bool.false_eq_true] at hbase' ⊢
      cases hres : (runCall chain c v call).1 with
      | ok a => rw [hres] at hpost; exact ⟨hbase', hpost⟩
      | error e => rw [hres] at hpost; exact ⟨hbase', hpost⟩
  · intro r
    cases r with
    | ok a => exact triple_ret fun _ hs => hs
    | error e => exact triple_raise fun _ hs => hs

theorem runs_plain {call : Call} {inside : Bool} (hplain : call.plain = true) {P : State D → Prop}
    {P' : call.Answer → State D → Prop} (hstable : ∀ s v, P s → Rely chain c s v → P v)
    (hfailed : ∀ s, P s → (s.connections c).alive = true → (s.connections c).transaction.isFailed = false)
    (hguarded : ∀ s, P s → (s.connections c).alive = true → call.guarded = true → s.holder = some c)
    (hrun : ∀ s, Open chain start c s → P s → (s.connections c).alive = true →
      orRaise P' (Raised chain start c inside) (runCall chain c s call).1 (runCall chain c s call).2) :
    Runs chain start c inside P (execute c call) P' := by
  refine runs_execute ?_ hstable (fun s hs halive _ => hfailed s hs halive) ?_ hguarded
    (fun s hbase hs halive _ => hrun s hbase hs halive)
  · rintro rfl
    cases hplain
  · rintro s - - - rfl
    cases hplain

theorem runs_tryLock : Runs chain start c false (Holds c .none) (tryLock c)
    (fun got => if got then Locked c (fun _ t => t = .begun) else Holds c .begun) := by
  refine runs_plain (by rfl) (fun _ _ h hr => h.rely hr) (fun s hs halive => by rw [hs halive]; rfl) ?_ ?_
  · rintro s - - ⟨⟩
  · intro s _ hs halive
    simp only [runCall, hs halive, Transaction.autobegin]
    split
    · exact fun _ => by simp
    · exact fun _ => by simp

theorem runs_lock : Runs chain start c false (Holds c .begun) (execute c .lock)
    (fun _ => Locked c (fun _ t => t = .begun)) := by
  refine runs_plain (by rfl) (fun _ _ h hr => h.rely hr) (fun s hs halive => by rw [hs halive]; rfl) ?_ ?_
  · rintro s - - ⟨⟩
  · intro s _ hs halive
    simp only [runCall, hs halive, Transaction.autobegin]
    exact fun _ => by simp

/-- The commit publishes what the revisions have made; what they have not touched stays. -/
theorem runs_commit {k : Nat} : Runs chain start c true (Locked c (Upgraded chain k)) (execute c .commit)
    (fun _ => Locked c (fun db t => t = .none ∧ db.revision = k)) := by
  refine runs_execute (by simp) (fun _ _ h hr => h.rely hr) (fun s hs halive _ => (hs halive).2.1) ?_
    (fun s hs halive _ => (hs halive).1) ?_
  · intro s _ hs halive _ w hw
    obtain ⟨hlock, -, hk, hleads, hle⟩ := hs halive
    simp only [hw, Transaction.working] at hk hleads
    exact ⟨hlock, hleads, hk ▸ hle⟩
  · intro s _ hs halive _ _
    obtain ⟨hlock, -, hk, -⟩ := hs halive
    exact ⟨hlock, by simp [runCall], hk⟩

theorem runs_inTransaction : Runs chain start c true (Locked c (fun _ t => t = .none)) (execute c .inTransaction)
    (fun inside s => inside = false ∧ Locked c (fun _ t => t = .none) s) := by
  refine runs_plain (by rfl) (fun _ _ h hr => h.rely hr) (fun s hs halive => by rw [(hs halive).2]; rfl)
    (fun s hs halive _ => (hs halive).1) ?_
  intro s _ hs halive
  refine ⟨?_, hs⟩
  rw [(hs halive).2]
  rfl

theorem runs_begin : Runs chain start c true (Locked c (fun _ t => t = .none)) (execute c .begin)
    (fun _ => Locked c (fun _ t => t = .begun)) := by
  refine runs_plain (by rfl) (fun _ _ h hr => h.rely hr) (fun s hs halive => by rw [(hs halive).2]; rfl)
    (fun s hs halive _ => (hs halive).1) ?_
  intro s _ hs halive
  obtain ⟨hlock, htx⟩ := hs halive
  simp only [runCall, htx, Transaction.isOpen]
  exact fun _ => ⟨hlock, by simp⟩

theorem runs_currentRevision : Runs chain start c true (Locked c (fun _ t => t = .begun)) (execute c .currentRevision)
    (fun k s => k ≤ chain.length ∧ Locked c (Upgraded chain k) s) := by
  refine runs_plain (by rfl) (fun _ _ h hr => h.rely hr) (fun s hs halive => by rw [(hs halive).2]; rfl)
    (fun s hs halive _ => (hs halive).1) ?_
  intro s hbase hs halive
  obtain ⟨hlock, htx⟩ := hs halive
  simp only [runCall, htx, Transaction.working, Transaction.autobegin]
  refine ⟨hbase.bound, fun _ => ⟨hlock, ?_⟩⟩
  simp only [State.put_self, State.put_db]
  exact ⟨rfl, rfl, leads_refl _, hbase.bound⟩

theorem runs_upgrade {k : Nat} (hk : k < chain.length) :
    Runs chain start c true (Locked c (Upgraded chain k)) (execute c (.upgrade k))
      (fun _ => Locked c (Unstamped chain k)) := by
  refine runs_execute (by simp) (fun _ _ h hr => h.rely hr) (fun s hs halive _ => (hs halive).2.1) ?_
    (fun s hs halive _ => (hs halive).1) ?_
  · rintro s - - - ⟨⟩
  intro s hbase hs halive _
  obtain ⟨hlock, -, hrev, hleads, -⟩ := hs halive
  have hup : chain[((s.connections c).transaction.working s.db).revision]? = some chain[k] := by
    rw [hrev]
    exact List.getElem?_eq_getElem hk
  simp only [runCall, List.getElem?_eq_getElem hk]
  cases hdata : chain[k] ((s.connections c).transaction.working s.db).data with
  | ok data =>
    intro _
    have hnext := hleads.snoc hup hdata
    rw [hrev] at hnext
    refine ⟨hlock, data, ?_, hnext, hk⟩
    simp [hrev]
  | error e => exact ⟨⟨_, _, hbase.leads.trans hleads, hup, hdata⟩, fun _ _ => ⟨hlock, trivial⟩⟩

theorem runs_stamp {k : Nat} : Runs chain start c true (Locked c (Unstamped chain k)) (execute c (.stamp k))
    (fun _ => Locked c (Upgraded chain (k + 1))) := by
  refine runs_execute (by simp) (fun _ _ h hr => h.rely hr) ?_ ?_ (fun s hs halive _ => (hs halive).1) ?_
  · intro s hs halive _
    obtain ⟨-, data, htx, -⟩ := hs halive
    rw [htx]
    rfl
  · rintro s - - - ⟨⟩
  · intro s _ hs halive _
    obtain ⟨hlock, data, htx, hleads, hk⟩ := hs halive
    simp only [runCall, htx, Transaction.working, if_true]
    refine fun _ => ⟨hlock, ?_⟩
    simp only [State.put_self, State.put_db]
    exact ⟨rfl, rfl, hleads, hk⟩

/-- The revisions one after the other: the loop's invariant is `Upgraded`. -/
theorem runs_upgradeFrom (n k : Nat) (hn : k + n = chain.length) :
    Runs chain start c true (Locked c (Upgraded chain k)) (upgradeFrom c n k)
      (fun _ => Locked c (Upgraded chain chain.length)) := by
  induction n generalizing k with
  | zero =>
    apply runs_pure
    intro s hs
    rw [← hn]
    exact hs
  | succ n ih =>
    exact (runs_upgrade (by omega)).bind fun _ => runs_stamp.bind fun _ => ih (k + 1) (by omega)

theorem runs_contextRunMigrations :
    Runs chain start c true (Locked c (fun _ t => t = .begun)) (contextRunMigrations chain.length c)
      (fun _ => Locked c (Upgraded chain chain.length)) := by
  refine runs_currentRevision.bind ?_
  intro k op s s' hg hs
  obtain ⟨hbase, hk, hlocked⟩ := hs
  exact runs_upgradeFrom (chain.length - k) k (Nat.add_sub_cancel' hk) op s s' hg ⟨hbase, hlocked⟩

theorem runs_unlock : Runs chain start c true (Locked c (fun db t => t = .none ∧ db.revision = chain.length))
    (execute c .unlock) (fun _ s => Holds c .begun s ∧ AtHead chain s) := by
  refine runs_plain (by rfl) (fun _ _ h hr => h.rely hr) (fun s hs halive => by rw [(hs halive).2.1]; rfl)
    (fun s hs halive _ => (hs halive).1) ?_
  intro s _ hs halive
  obtain ⟨hlock, htx, hhead⟩ := hs halive
  simp only [runCall, htx, Transaction.autobegin]
  exact ⟨fun _ => by simp, hhead⟩

/-- The last commit publishes nothing. -/
theorem runs_lastCommit : Runs chain start c false (fun s => Holds c .begun s ∧ AtHead chain s) (execute c .commit)
    (fun _ => AtHead chain) := by
  refine runs_execute (by simp) (fun _ _ h hr => ⟨h.1.rely hr, h.2.rely hr⟩) ?_ ?_ ?_ ?_
  · rintro s - - ⟨⟩
  · intro s _ hs halive _ w hw
    rw [hs.1 halive] at hw
    cases hw
  · rintro s - - ⟨⟩
  · intro s _ hs halive _
    simp only [runCall, hs.1 halive, Transaction.working]
    exact hs.2

/-- The commit before the lock's body: the transaction of the lock query has written nothing. -/
theorem runs_lockCommit : Runs chain start c false (Locked c (fun _ t => t = .begun)) (execute c .commit)
    (fun _ => Locked c (fun _ t => t = .none)) := by
  refine runs_execute (by simp) (fun _ _ h hr => h.rely hr) ?_ ?_ (fun s hs halive _ => (hs halive).1) ?_
  · rintro s - - ⟨⟩
  · intro s _ hs halive _ w hw
    rw [(hs halive).2] at hw
    cases hw
  · intro s _ hs halive _
    obtain ⟨hlock, htx⟩ := hs halive
    simp only [runCall, htx, Transaction.working]
    exact fun _ => ⟨hlock, by simp⟩

/-- The handler of `begin_transaction`: the rollback, and the exception again. -/
theorem triple_rollback (e : Failure ε) {P' : Unit → State D → Prop} :
    Triple (regime chain) (exec chain) (fun s => Open chain start c s ∧ Raised chain start c true e s)
      (do execute c .rollback; throw e : Api ε Unit)
      (orRaise (fun a s => Open chain start c s ∧ P' a s)
        (fun e s => Open chain start c s ∧ Raised chain start c true e s)) := by
  have hstable : ∀ s v, Raised chain start c true e s → Rely chain c s v → Raised chain start c true e v :=
    fun s v h hr => ⟨h.1.dropped hr.dropped, fun hin => (h.2 hin).rely hr⟩
  have hroll : Runs chain start c true (Raised chain start c true e) (execute c .rollback)
      (fun _ => Raised chain start c true e) := by
    refine runs_execute (by simp) hstable ?_ ?_ ?_ ?_
    · rintro s - - ⟨⟩
    · rintro s - - - ⟨⟩
    · exact fun s hs halive _ => (hs.2 rfl halive).1
    · intro s _ hs halive _
      exact ⟨hs.1.dropped (List.Subset.refl _), fun _ _ => ⟨(hs.2 rfl halive).1, trivial⟩⟩
  exact triple_bind hroll fun _ => triple_raise fun s hs => hs

theorem runs_beginTransaction {body : Api ε Unit}
    (hbody : Runs chain start c true (Locked c (fun _ t => t = .begun)) body
      (fun _ => Locked c (Upgraded chain chain.length))) :
    Runs chain start c true (Locked c (fun _ t => t = .none)) (beginTransaction c false body)
      (fun _ => Locked c (fun db t => t = .none ∧ db.revision = chain.length)) := by
  refine runs_begin.bind fun _ => ?_
  refine Runs.bind ?_ fun _ => runs_commit
  refine triple_tryCatch hbody ?_
  exact fun e => triple_rollback e

/-- The body runs with the lock held and outside a transaction, whoever else migrates. -/
theorem runs_migrationLock {body : Api ε Unit}
    (hbody : Runs chain start c true (Locked c (fun _ t => t = .none)) body
      (fun _ => Locked c (fun db t => t = .none ∧ db.revision = chain.length))) :
    Runs chain start c false (Holds c .none) (migrationLock c body) (fun _ => AtHead chain) := by
  have hrest : Runs chain start c false (Locked c (fun _ t => t = .begun))
      (do execute c .commit; body; execute c .unlock; execute c .commit : Api ε Unit) (fun _ => AtHead chain) :=
    runs_lockCommit.bind fun _ => hbody.outside.bind fun _ => runs_unlock.outside.bind fun _ => runs_lastCommit
  refine runs_tryLock.bind ?_
  intro got
  cases got with
  | true => exact hrest
  | false => exact runs_lock.bind fun _ => hrest

theorem runs_runMigrations :
    Runs chain start c false (Holds c .none) (runMigrations chain.length c) (fun _ => AtHead chain) := by
  refine runs_migrationLock ?_
  refine runs_inTransaction.bind ?_
  intro external op s s' hg hs
  -- the commit before the body is why Alembic finds no transaction open
  obtain ⟨hbase, rfl, hlocked⟩ := hs
  exact runs_beginTransaction runs_contextRunMigrations op s s' hg ⟨hbase, hlocked⟩

/-- What a process leaves behind: its connection is closed; if it succeeded, the database
is at the head. -/
def Left (chain : Chain ε D) (start : Versioned D) (c : Nat) (out : Except (Failure ε) Unit) (s : State D) :
    Prop :=
  Base chain start s ∧ (s.connections c).alive = false ∧
    orRaise (fun _ s => AtHead chain s) (fun e s => Excused chain start c s e) out s

theorem triple_close {P : State D → Prop} (hP : ∀ s v, P s → Rely chain c s v → P v)
    (hclose : ∀ s, P s → P (s.disconnect c)) :
    Triple (regime chain) (exec chain) (fun s => Base chain start s ∧ P s) (execute c .close : Api ε Unit)
      (fun out s => out = .ok () ∧ (s.connections c).alive = false ∧ Base chain start s ∧ P s) := by
  refine triple_call (R := fun r s => r = .ok () ∧ (s.connections c).alive = false ∧ Base chain start s ∧ P s) ?_ ?_
  · intro s v hs hr hgranted
    have hg : Guarantee chain ⟨c, .close⟩ v (v.disconnect c) := guarantee_close v c
    have hdead : ((v.disconnect c).connections c).alive = false := by simp
    exact ⟨hg, rfl, hdead, (hs.1.rely hr).guarantee hg, hclose v (hP s v hs.2 hr)⟩
  · intro r
    cases r with
    | ok a => exact triple_ret fun s hs => hs
    | error e =>
      refine triple_raise fun s hs => ?_
      cases hs.1

theorem triple_runMigrationsOnline :
    Triple (regime chain) (exec chain) (fun s => Open chain start c s ∧ Holds c .none s)
      (runMigrationsOnline chain.length c) (Left chain start c) := by
  refine triple_bind (R := fun _ s => Base chain start s ∧ AtHead chain s) ?_ ?_
  · refine triple_tryCatch (R := fun e s => Base chain start s ∧ Excused chain start c s e) ?_ ?_
    · refine runs_runMigrations.weaken (fun _ hs => hs) ?_
      intro out s hs
      cases out with
      | ok _ => exact ⟨hs.1.toBase, hs.2⟩
      | error e => exact ⟨hs.1.toBase, hs.2.1⟩
    intro e
    refine triple_bind (R := fun _ s => (s.connections c).alive = false ∧ Base chain start s ∧
      Excused chain start c s e) ?_ fun _ => triple_raise fun s hs => ⟨hs.2.1, hs.1, hs.2.2⟩
    refine (triple_close (fun _ _ h hr => h.dropped hr.dropped)
      (fun _ h => h.dropped (List.Subset.refl _))).weaken (fun _ hs => hs) ?_
    intro out s hs
    obtain ⟨rfl, hs⟩ := hs
    exact hs
  · intro _
    refine (triple_close (P := AtHead chain) (fun _ _ h hr => h.rely hr) (fun _ h => h)).weaken (fun _ hs => hs) ?_
    intro out s hs
    obtain ⟨rfl, hdead, hbase, hhead⟩ := hs
    exact ⟨hbase, hdead, hhead⟩

end Verification

end FastiKit.Migrations
