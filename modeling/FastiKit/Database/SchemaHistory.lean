import FastiKit.Database.Versions

/- What the revisions do to a database, whatever it has been through.

   The schema is a function of the revision the database stands at, and the models'
   schema at the last one (`schema_of_revision`): no path of upgrades and downgrades
   leaves anything behind. Every revision can be undone; the one that can be refused is
   the second, by a user without a password. And the values of a column stay, row by
   row, as long as the database stands at revisions that have the column. -/
namespace FastiKit.Versions

open Migrations (Versioned)
open Relational.Ddl

/-! The schemas. Each of these looks at every revision once. -/

theorem define_upgrade : ∀ k < versions.length, ∀ r ∈ versions[k]?,
    defineAll r.upgrade (schemaAt k) = some (schemaAt (k + 1)) := by decide +kernel

theorem define_downgrade : ∀ k < versions.length, ∀ r ∈ versions[k]?,
    defineAll r.downgrade (schemaAt (k + 1)) = some (schemaAt k) := by decide +kernel

theorem agrees_head : Agrees (schemaAt versions.length) metadata := by
  unfold Agrees
  decide +kernel

/-- Rows can stop only the second, the third and the last revision, and only on the way up
but for the last one. -/
theorem unconditional_upgrade : ∀ k < versions.length, k ≠ 1 → k ≠ 2 → k ≠ 10 → ∀ r ∈ versions[k]?,
    r.upgrade.all Statement.unconditional = true := by decide +kernel

theorem unconditional_downgrade : ∀ k < versions.length, k ≠ 10 → ∀ r ∈ versions[k]?,
    r.downgrade.all Statement.unconditional = true := by decide +kernel

/-- The scopes are text of any length, and no constraint is about them. -/
structure FreeScopes (s : Schema) : Prop where
  text : ∀ t ∈ s, t.1 = "users" → ∀ c ∈ t.2.columns, c.name = "scopes" → c.type = .string none
  constraints : ∀ t ∈ s, ∀ con ∈ t.2.constraints, (t.1 = "users" → "scopes" ∉ con.columns) ∧
    con.refers "users" "scopes" = false
  indexes : ∀ t ∈ s, t.1 = "users" → ∀ i ∈ t.2.indexes, "scopes" ∉ i.columns
  updates : Statement.define (.update "users" "scopes" (fun _ => true) (fun _ => .null)) s = some s

theorem freeScopes : ∀ k ∈ [10, 11], FreeScopes (schemaAt k) := by
  have htext : ∀ k ∈ [10, 11], ∀ t ∈ schemaAt k, t.1 = "users" → ∀ c ∈ t.2.columns, c.name = "scopes" →
      c.type = .string none := by decide +kernel
  have hconstraints : ∀ k ∈ [10, 11], ∀ t ∈ schemaAt k, ∀ con ∈ t.2.constraints,
      (t.1 = "users" → "scopes" ∉ con.columns) ∧ con.refers "users" "scopes" = false := by decide +kernel
  have hindexes : ∀ k ∈ [10, 11], ∀ t ∈ schemaAt k, t.1 = "users" → ∀ i ∈ t.2.indexes, "scopes" ∉ i.columns := by
    decide +kernel
  have hupdates : ∀ k ∈ [10, 11],
      Statement.define (.update "users" "scopes" (fun _ => true) (fun _ => .null)) (schemaAt k) = some (schemaAt k) := by
    decide +kernel
  exact fun k hk => ⟨htext k hk, hconstraints k hk, hindexes k hk, hupdates k hk⟩

/-- What the statement changes is not there. -/
def missing (s : Schema) : String × Option String → Bool
  | (table, none) => !s.has table
  | (table, some column) => !present s table column

/-- What a revision changes is not there before it, but for the scopes in the last one. -/
theorem touches_missing {k : Nat} {r : Revision} (hr : versions[k]? = some r) {st : Statement}
    (hst : st ∈ r.upgrade ++ r.downgrade) {target : String × Option String} (htarget : st.target = some target) :
    k = 10 ∧ target = ("users", some "scopes") ∨ missing (schemaAt k) target = true := by
  have hall : ∀ k < versions.length, ∀ r ∈ versions[k]?, (r.upgrade ++ r.downgrade).all (fun st =>
      st.target.all (fun target => k = 10 && target = ("users", some "scopes") || missing (schemaAt k) target)) = true := by
    decide +kernel
  have hst' := List.all_eq_true.mp (hall k (List.getElem?_eq_some_iff.mp hr).1 r hr) st hst
  rw [htarget] at hst'
  simpa using hst'

/-- A later revision has the columns of an earlier one. -/
theorem present_mono {k n : Nat} (hkn : k ≤ n) (hn : n ≤ versions.length) {table column : String}
    (h : present (schemaAt k) table column = true) : present (schemaAt n) table column = true := by
  have hstep : ∀ k < versions.length, ∀ t ∈ schemaAt k, ∀ c ∈ t.2.columns,
      present (schemaAt (k + 1)) t.1 c.name = true := by decide +kernel
  induction n, hkn using Nat.le_induction with
  | base => exact h
  | succ n _ ih =>
    obtain ⟨d, hd, hcolumn⟩ := (Option.any_eq_true _ _).mp (ih (Nat.le_of_succ_le hn))
    obtain ⟨c, hc⟩ := Option.isSome_iff_exists.mp hcolumn
    have hname : c.name = column := by simpa using List.find?_some hc
    rw [← hname]
    exact hstep n hn _ (Schema.mem_of_find hd) c (List.mem_of_find?_eq_some hc)

/-! One revision. -/

section Revision
variable {db : Database} {k : Nat} {r : Revision}

/-- No row stops an UPDATE of the scopes. -/
theorem allowed_updateScopes (db : Database) (h : FreeScopes db.schema) (condition : String → Bool) (f : String → String) :
    (updateScopes condition f).Allowed db := by
  constructor
  · intro t ht htable c hc hname row _ _
    simp [Column.admits, h.text t ht htable c hc hname, ColumnType.admits]
  · intro t ht
    refine ⟨?_, ?_⟩
    · rintro con hcon (⟨htable, hin⟩ | hrefers)
      · exact absurd hin ((h.constraints t ht con hcon).1 htable)
      · rw [(h.constraints t ht con hcon).2] at hrefers
        cases hrefers
    · intro htable i hi _ hin
      exact absurd hin (h.indexes t ht htable i hi)

/-- Two UPDATEs of the scopes and a new default. -/
theorem execAll_scopes (h : FreeScopes db.schema) {condition condition' : String → Bool} {f f' : String → String}
    {v : Value} {schema : Schema}
    (hdefine : defineAll [updateScopes condition f, updateScopes condition' f', .setDefault "users" "scopes" v] db.schema =
      some schema) :
    execAll [updateScopes condition f, updateScopes condition' f', .setDefault "users" "scopes" v] db =
      .ok ⟨schema, (updateScopes condition' f').move ((updateScopes condition f).move db.rows)⟩ := by
  have hsame : ∀ condition f, (updateScopes condition f).define db.schema = some db.schema := fun _ _ => h.updates
  have hlast : defineAll [.setDefault "users" "scopes" v] db.schema = some schema := by
    simpa only [defineAll, hsame, Option.bind_some] using hdefine
  let mid : Database := ⟨db.schema, (updateScopes condition f).move db.rows⟩
  have hmid : (updateScopes condition' f').define mid.schema = some db.schema := hsame condition' f'
  calc execAll [updateScopes condition f, updateScopes condition' f', .setDefault "users" "scopes" v] db
      = execAll [updateScopes condition' f', .setDefault "users" "scopes" v] mid :=
        execAll_cons (hsame condition f) (allowed_updateScopes db h condition f) _
    _ = execAll [.setDefault "users" "scopes" v] ⟨db.schema, (updateScopes condition' f').move mid.rows⟩ :=
        execAll_cons hmid (allowed_updateScopes mid h condition' f') _
    _ = _ := execAll_unconditional rfl hlast

/-- An upgrade is refused only by a user without a password, at the second revision. -/
theorem upgrade_ok_iff (hr : versions[k]? = some r) (hschema : db.schema = schemaAt k) :
    (∃ data, execAll r.upgrade db = .ok data) ↔ ¬ (k = 1 ∧ Passwordless db) := by
  have hk : k < versions.length := (List.getElem?_eq_some_iff.mp hr).1
  have hdefine : defineAll r.upgrade db.schema = some (schemaAt (k + 1)) := by
    rw [hschema]
    exact define_upgrade k hk r hr
  by_cases h1 : k = 1
  · -- `password_hash` becomes NOT NULL
    subst h1
    cases hr
    obtain ⟨schema, hmid, hrest⟩ := Option.bind_eq_some_iff.mp hdefine
    have hallowed : (Statement.setNullable "users" "password_hash" false).Allowed db ↔ ¬ Passwordless db := by
      simp [Statement.Allowed, Passwordless]
    constructor
    · rintro ⟨data, hdata⟩ ⟨-, hnull⟩
      change (exec _ db).bind _ = _ at hdata
      cases hfirst : exec (.setNullable "users" "password_hash" false) db with
      | ok mid => exact hallowed.mp (exec_ok.mp hfirst).2.1 hnull
      | error e =>
        rw [hfirst] at hdata
        cases hdata
    · intro hno
      exact ⟨_, execAll_cons hmid (hallowed.mpr fun hnull => hno ⟨rfl, hnull⟩) []⟩
  · refine ⟨fun _ hno => h1 hno.1, fun _ => ?_⟩
    by_cases h2 : k = 2
    · -- the unique index is on a table that has just been created
      subst h2
      cases hr
      obtain ⟨mid, hmid, hrest⟩ := Option.bind_eq_some_iff.mp hdefine
      obtain ⟨schema, hindex, -⟩ := Option.bind_eq_some_iff.mp hrest
      have hempty : (Statement.createIndex "revoked_tokens"
          { name := "ix_revoked_tokens_jti", columns := ["jti"], unique := true }).Allowed
            ⟨mid, Function.update db.rows "revoked_tokens" []⟩ := by
        intro _
        show Distinct ["jti"] (Function.update db.rows "revoked_tokens" [] "revoked_tokens")
        rw [Function.update_self]
        exact List.Pairwise.nil
      refine ⟨_, (execAll_cons hmid trivial _).trans (execAll_cons hindex hempty [])⟩
    · by_cases h10 : k = 10
      · subst h10
        cases hr
        refine ⟨_, execAll_scopes ?_ hdefine⟩
        rw [hschema]
        exact freeScopes 10 (by decide)
      · exact ⟨_, execAll_unconditional (unconditional_upgrade k hk h1 h2 h10 r hr) hdefine⟩

/-- No downgrade is refused. -/
theorem downgrade_ok (hr : versions[k]? = some r) (hschema : db.schema = schemaAt (k + 1)) :
    ∃ data, execAll r.downgrade db = .ok data := by
  have hk : k < versions.length := (List.getElem?_eq_some_iff.mp hr).1
  have hdefine : defineAll r.downgrade db.schema = some (schemaAt k) := by
    rw [hschema]
    exact define_downgrade k hk r hr
  by_cases h10 : k = 10
  · subst h10
    cases hr
    refine ⟨_, execAll_scopes ?_ hdefine⟩
    rw [hschema]
    exact freeScopes 11 (by decide)
  · exact ⟨_, execAll_unconditional (unconditional_downgrade k hk h10 r hr) hdefine⟩

theorem execAll_upgrade (hr : versions[k]? = some r) (hschema : db.schema = schemaAt k) {data : Database}
    (h : execAll r.upgrade db = .ok data) : data.schema = schemaAt (k + 1) ∧ data.rows = moveAll r.upgrade db.rows := by
  obtain ⟨hdefine, hrows⟩ := execAll_ok h
  rw [hschema, define_upgrade k (List.getElem?_eq_some_iff.mp hr).1 r hr] at hdefine
  exact ⟨(Option.some.inj hdefine).symm, hrows⟩

theorem execAll_downgrade (hr : versions[k]? = some r) (hschema : db.schema = schemaAt (k + 1)) {data : Database}
    (h : execAll r.downgrade db = .ok data) : data.schema = schemaAt k ∧ data.rows = moveAll r.downgrade db.rows := by
  obtain ⟨hdefine, hrows⟩ := execAll_ok h
  rw [hschema, define_downgrade k (List.getElem?_eq_some_iff.mp hr).1 r hr] at hdefine
  exact ⟨(Option.some.inj hdefine).symm, hrows⟩

end Revision

/-! Runs. -/

/-- The schema is that of the revision, and the rows are of it. -/
structure InStep (v : Versioned Database) : Prop where
  bound : v.revision ≤ versions.length
  schema : v.data.schema = schemaAt v.revision
  wellFormed : v.data.WellFormed

theorem InStep.migrates {v v' : Versioned Database} (hv : InStep v) (h : Migrates v v') : InStep v' := by
  obtain ⟨hbound, hschema, hwf⟩ := hv
  cases h with
  | upgraded hr h =>
    exact ⟨(List.getElem?_eq_some_iff.mp hr).1, (execAll_upgrade hr hschema h).1, execAll_wellFormed hwf h⟩
  | downgraded hk hr h =>
    rw [hk] at hschema
    exact ⟨Nat.le_of_lt (List.getElem?_eq_some_iff.mp hr).1, (execAll_downgrade hr hschema h).1,
      execAll_wellFormed hwf h⟩

theorem Reached.inStep {v : Versioned Database} (h : Reached v) : InStep v := by
  refine Relation.ReflTransGen.head_induction_on (motive := fun a _ => InStep a → InStep v) h id ?_
    ⟨Nat.zero_le _, rfl, Database.wellFormed_empty⟩
  intro a b hstep _ ih ha
  apply ih
  cases hstep with
  | migrated h => exact ha.migrates h
  | written hrows => exact ⟨ha.bound, ha.schema, hrows⟩

/-- Whatever upgrades, downgrades and writes a database has been through: its schema is the
one its revision has on a fresh database, the models' schema at the last revision; its rows
are of that schema; the next upgrade is refused exactly if it is the second revision and a
user has no password; and no downgrade is refused. -/
theorem schema_of_revision (v : Versioned Database) (h : Reached v) :
    v.data.schema = schemaAt v.revision ∧ v.data.WellFormed ∧
    (v.revision = versions.length → Agrees v.data.schema metadata) ∧
    (∀ r, versions[v.revision]? = some r →
      ((∃ data, execAll r.upgrade v.data = .ok data) ↔ ¬ (v.revision = 1 ∧ Passwordless v.data))) ∧
    ∀ k r, v.revision = k + 1 → versions[k]? = some r → ∃ data, execAll r.downgrade v.data = .ok data := by
  obtain ⟨-, hschema, hwf⟩ := h.inStep
  refine ⟨hschema, hwf, ?_, fun r hr => upgrade_ok_iff hr hschema, ?_⟩
  · intro hhead
    rw [hschema, hhead]
    exact agrees_head
  · intro k r hk hr
    rw [hk] at hschema
    exact downgrade_ok hr hschema

/-- A table without rows keeps none. -/
theorem moveAll_nil {sts : List Statement} {rows : String → List Row} (h : ∀ table, rows table = []) :
    ∀ table, moveAll sts rows table = [] := by
  induction sts generalizing rows with
  | nil => exact h
  | cons st sts ih =>
    apply ih
    intro table
    cases st with
    | createTable t columns constraints =>
      by_cases heq : table = t
      · simp [Statement.move, heq]
      · simp [Statement.move, heq, h]
    | dropTable t =>
      by_cases heq : table = t
      · simp [Statement.move, heq]
      · simp [Statement.move, heq, h]
    | addColumn t column => exact onTable_nil (h table)
    | dropColumn t column => exact onTable_nil (h table)
    | update t column condition value => exact onTable_nil (h table)
    | _ => exact h table

/-- A new database can be taken to every revision. -/
theorem fresh {n : Nat} (hn : n ≤ versions.length) :
    ∃ data, Reached ⟨n, data⟩ ∧ ∀ table, data.rows table = [] := by
  induction n with
  | zero => exact ⟨.empty, Relation.ReflTransGen.refl, fun _ => rfl⟩
  | succ n ih =>
    obtain ⟨data, hreached, hempty⟩ := ih (Nat.le_of_succ_le hn)
    have hr : versions[n]? = some versions[n] := List.getElem?_eq_getElem hn
    have hschema : data.schema = schemaAt n := hreached.inStep.schema
    obtain ⟨data', hdata'⟩ := (upgrade_ok_iff hr hschema).mpr (by
      rintro ⟨-, user, huser, -⟩
      rw [hempty] at huser
      cases huser)
    refine ⟨data', hreached.tail (.migrated (.upgraded hr hdata')), ?_⟩
    rw [(execAll_upgrade hr hschema hdata').2]
    exact moveAll_nil hempty

theorem schema_of_revision_sample : ∃ v, Reached v ∧ Agrees v.data.schema metadata := by
  obtain ⟨data, hreached, -⟩ := fresh (Nat.le_refl versions.length)
  exact ⟨_, hreached, (schema_of_revision _ hreached).2.2.1 rfl⟩

/-! Rows. -/

/-- Revisions up and down, at none of which the database stands but those of `p`. -/
def Walk (p : Nat → Prop) : Versioned Database → Versioned Database → Prop :=
  Relation.ReflTransGen (fun v v' => Migrates v v' ∧ p v.revision ∧ p v'.revision)

section Walks
variable {v v' : Versioned Database} {table name : String}

theorem not_touches {k : Nat} {r : Revision} (hr : versions[k]? = some r) (hpresent : present (schemaAt k) table name = true)
    (hne : (table, name) ≠ ("users", "scopes") ∨ k ≠ 10) {st : Statement} (hst : st ∈ r.upgrade ++ r.downgrade) :
    ¬ st.touches table name := by
  rintro (htarget | htarget)
  · rcases touches_missing hr hst htarget with ⟨-, heq⟩ | hmissing
    · cases heq
    · -- the table is there
      obtain ⟨d, hd, -⟩ := (Option.any_eq_true _ _).mp hpresent
      have hhas : (schemaAt k).has table = true :=
        List.any_eq_true.mpr ⟨_, Schema.mem_of_find hd, decide_eq_true rfl⟩
      simp [missing, hhas] at hmissing
  · rcases touches_missing hr hst htarget with ⟨hk, heq⟩ | hmissing
    · simp only [Prod.mk.injEq, Option.some.injEq] at heq
      rcases hne with hne | hne
      · exact hne (by rw [heq.1, heq.2])
      · exact hne hk
    · simp [missing, hpresent] at hmissing

theorem Migrates.column_kept (hv : InStep v) (h : Migrates v v')
    (hpresent : present (schemaAt v.revision) table name = true) (hpresent' : present (schemaAt v'.revision) table name = true)
    (hne : (table, name) ≠ ("users", "scopes") ∨ v.revision ≤ 10 ∧ v'.revision ≤ 10) :
    column v'.data.rows table name = column v.data.rows table name := by
  cases h with
  | @upgraded r data hr h =>
    rw [(execAll_upgrade hr hv.schema h).2]
    refine column_moveAll (fun st hst => not_touches hr hpresent (hne.imp_right fun hle => ?_) (List.mem_append_left _ hst)) _
    have hle' : v.revision + 1 ≤ 10 := hle.2
    omega
  | @downgraded k r data hk hr h =>
    have hschema := hv.schema
    rw [hk] at hschema
    rw [(execAll_downgrade hr hschema h).2]
    refine column_moveAll (fun st hst => not_touches hr hpresent' (hne.imp_right fun hle => ?_) (List.mem_append_right _ hst)) _
    have hle' : v.revision ≤ 10 := hle.1
    omega

/-- Where a column is there all the way, its values stay. -/
theorem Walk.column_kept {p : Nat → Prop} (hv : InStep v) (h : Walk p v v')
    (hpresent : ∀ k, p k → k ≤ versions.length → present (schemaAt k) table name = true)
    (hne : (table, name) ≠ ("users", "scopes") ∨ ∀ k, p k → k ≤ 10) :
    InStep v' ∧ column v'.data.rows table name = column v.data.rows table name := by
  induction h with
  | refl => exact ⟨hv, rfl⟩
  | @tail b c _ hstep ih =>
    obtain ⟨hb, hkept⟩ := ih
    obtain ⟨hmigrates, hpb, hpc⟩ := hstep
    have hc := hb.migrates hmigrates
    refine ⟨hc, (hmigrates.column_kept hb (hpresent _ hpb hb.bound) (hpresent _ hpc hc.bound) ?_).trans hkept⟩
    exact hne.imp_right fun hle => ⟨hle _ hpb, hle _ hpc⟩

theorem Walk.inStep {p : Nat → Prop} (hv : InStep v) (h : Walk p v v') : InStep v' := by
  induction h with
  | refl => exact hv
  | tail _ hstep ih => exact ih.migrates hstep.1

/-- Every table has an id. -/
theorem present_id : ∀ k ≤ versions.length, ∀ t ∈ schemaAt k, present (schemaAt k) t.1 "id" = true := by
  decide +kernel

theorem length_of_column {rows rows' : String → List Row} (h : column rows' table name = column rows table name) :
    (rows' table).length = (rows table).length := by
  have hlength := congrArg List.length h
  simpa [column] using hlength

/-- A walk from a revision to itself that does not go below it loses no row. -/
theorem Walk.length_kept {p : Nat → Prop} (hv : InStep v) (h : Walk p v v') (hp : ∀ k, p k → v.revision ≤ k)
    (hback : v'.revision = v.revision) (table : String) :
    (v'.data.rows table).length = (v.data.rows table).length := by
  have hv' := h.inStep hv
  cases hhas : (schemaAt v.revision).has table with
  | true =>
    obtain ⟨t, ht, htable⟩ := List.any_eq_true.mp hhas
    have htable' : t.1 = table := by simpa using htable
    have hid := present_id _ hv.bound t ht
    rw [htable'] at hid
    refine length_of_column (h.column_kept hv (fun k hk hle => present_mono (hp k hk) hle hid) (.inl ?_)).2
    simp
  | false =>
    rw [hv.wellFormed.absent table (by rw [hv.schema]; exact hhas),
      hv'.wellFormed.absent table (by rw [hv'.schema, hback]; exact hhas)]

/-- A column that is not there reads null in every row. -/
theorem InStep.column_absent (hv : InStep v) (habsent : present (schemaAt v.revision) table name = false) :
    column v.data.rows table name = List.replicate (v.data.rows table).length .null := by
  rw [column, List.map_eq_replicate_iff]
  intro r hr
  cases hhas : v.data.schema.has table with
  | false =>
    rw [hv.wellFormed.absent table hhas] at hr
    cases hr
  | true =>
    cases hfind : v.data.schema.find table with
    | none =>
      obtain ⟨t, ht, htable⟩ := List.any_eq_true.mp hhas
      have hno := List.find?_eq_none.mp (Option.map_eq_none_iff.mp hfind) t ht
      exact absurd htable hno
    | some d =>
      refine (hv.wellFormed.typed _ (Schema.mem_of_find hfind) r hr).rest name ?_
      rw [hv.schema] at hfind
      rw [present, hfind, Option.any_some, Option.isSome_eq_false_iff, Option.isNone_iff_eq_none] at habsent
      exact habsent

theorem rows_ext {rows rows' : String → List Row} (h : ∀ table name, column rows' table name = column rows table name) :
    rows' = rows := by
  funext table
  apply List.ext_getElem (length_of_column (h table "id"))
  intro i hi hi'
  funext name
  have hat := congrArg (fun l => l[i]?) (h table name)
  simpa [column, List.getElem?_map, List.getElem?_eq_getElem hi, List.getElem?_eq_getElem hi'] using hat

end Walks

/-- However a database that has been through anything is taken up and back down to the
revision it stands at: it has the same schema, the same rows and in them the same values,
but for the users' scopes, and these too unless the last revision was run. -/
theorem round_trip (v v' : Versioned Database) (hv : Reached v) (h : Walk (fun k => v.revision ≤ k) v v')
    (hback : v'.revision = v.revision) :
    v'.data.schema = v.data.schema ∧
    (∀ table, (v'.data.rows table).length = (v.data.rows table).length) ∧
    (∀ table name, (table, name) ≠ ("users", "scopes") → column v'.data.rows table name = column v.data.rows table name) ∧
    (Walk (fun k => v.revision ≤ k ∧ k ≤ 10) v v' → v'.data = v.data) := by
  have hin := hv.inStep
  have hin' := h.inStep hin
  have hschema : v'.data.schema = v.data.schema := by rw [hin'.schema, hin.schema, hback]
  have hlength := h.length_kept hin (fun _ hk => hk) hback
  -- a column that is there is kept on the way, one that is not reads null at both ends
  have hcolumn : ∀ {p : Nat → Prop} (table name : String), Walk p v v' → (∀ k, p k → v.revision ≤ k) →
      ((table, name) ≠ ("users", "scopes") ∨ ∀ k, p k → k ≤ 10) →
      column v'.data.rows table name = column v.data.rows table name := by
    intro p table name hwalk hp hne
    cases hpresent : present (schemaAt v.revision) table name with
    | true => exact (hwalk.column_kept hin (fun k hk hle => present_mono (hp k hk) hle hpresent) hne).2
    | false => rw [hin.column_absent hpresent, hin'.column_absent (by rw [hback]; exact hpresent), hlength]
  refine ⟨hschema, hlength, fun table name hne => hcolumn table name h (fun _ hk => hk) (.inl hne), ?_⟩
  intro hbelow
  have hrows : v'.data.rows = v.data.rows :=
    rows_ext fun table name => hcolumn table name hbelow (fun _ hk => hk.1) (.inr fun _ hk => hk.2)
  cases hdata : v.data with
  | mk schema rows =>
    cases hdata' : v'.data with
    | mk schema' rows' =>
      rw [hdata, hdata'] at hschema hrows
      rw [show schema' = schema from hschema, show rows' = rows from hrows]

/-- The scopes added and dropped again. -/
theorem round_trip_sample : ∃ v v', Reached v ∧ v.revision = 6 ∧
    Walk (fun k => 6 ≤ k ∧ k ≤ 10) v v' ∧ v'.data = v.data := by
  obtain ⟨data, hreached, hempty⟩ := fresh (by decide : 6 ≤ versions.length)
  have hr : versions[6]? = some addScopes := rfl
  obtain ⟨up, hup⟩ := (upgrade_ok_iff hr hreached.inStep.schema).mpr (by rintro ⟨hk, -⟩; cases hk)
  obtain ⟨down, hdown⟩ := downgrade_ok hr (execAll_upgrade hr hreached.inStep.schema hup).1
  have hfirst : Migrates ⟨6, data⟩ ⟨7, up⟩ := .upgraded hr hup
  have hsecond : Migrates ⟨7, up⟩ ⟨6, down⟩ := .downgraded rfl hr hdown
  have hwalk : ∀ {p : Nat → Prop}, p 6 → p 7 → Walk p ⟨6, data⟩ ⟨6, down⟩ := fun h6 h7 =>
    (Relation.ReflTransGen.single ⟨hfirst, h6, h7⟩).tail ⟨hsecond, h7, h6⟩
  have hbelow : Walk (fun k => 6 ≤ k ∧ k ≤ 10) ⟨6, data⟩ ⟨6, down⟩ := hwalk (by omega) (by omega)
  have habove : Walk (fun k => 6 ≤ k) ⟨6, data⟩ ⟨6, down⟩ := hwalk (by omega) (by omega)
  exact ⟨⟨6, data⟩, ⟨6, down⟩, hreached, rfl, hbelow, (round_trip _ _ hreached habove rfl).2.2.2 hbelow⟩

end FastiKit.Versions
