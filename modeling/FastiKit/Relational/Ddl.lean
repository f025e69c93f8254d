import Mathlib.Data.List.Nodup
import Mathlib.Logic.Function.Basic

/- Statements that change the schema of a database, and what they do to its rows.

   A schema is the list of the tables with their columns, constraints and indexes, and
   `define` says what a statement makes of it, or that it is refused. Whether the rows
   let it pass is `Allowed`, and `move` is what happens to them. A row is a function from
   column names to values; a column the table does not have reads `null`. The checks of
   an UPDATE are those that the changed column can break. `WellFormed` is what every
   statement keeps: each row has values of its columns' types, and nulls only where they
   are allowed. -/
namespace Relational.Ddl

inductive ColumnType where
  | uuid
  | string (length : Option Nat)
  | text
  | boolean
  | integer
  | timestamp
  | jsonb
  deriving DecidableEq

inductive Value where
  | null
  | uuid (n : Nat)
  | string (s : String)
  | boolean (b : Bool)
  | integer (i : Int)
  | timestamp (t : Int)
  | json (text : String)
  deriving DecidableEq

def ColumnType.admits : ColumnType → Value → Bool
  | .uuid, .uuid _ => true
  | .string length, .string s => length.all (fun n => decide (s.length ≤ n))
  | .text, .string _ => true
  | .boolean, .boolean _ => true
  | .integer, .integer _ => true
  | .timestamp, .timestamp _ => true
  | .jsonb, .json _ => true
  | _, _ => false

structure Column where
  name : String
  type : ColumnType
  nullable : Bool
  serverDefault : Option Value := none
  deriving DecidableEq

def Column.admits (c : Column) (v : Value) : Bool := if v = .null then c.nullable else c.type.admits v

inductive Constraint where
  | primaryKey (columns : List String)
  | unique (columns : List String)
  | foreignKey (columns : List String) (table : String) (references : List String) (cascades : Bool)
  deriving DecidableEq

structure Index where
  name : String
  columns : List String
  unique : Bool := false
  condition : Option String := none
  deriving DecidableEq

structure TableDef where
  columns : List Column
  constraints : List Constraint
  indexes : List Index
  deriving DecidableEq

/-- The tables in the order in which they were created. -/
abbrev Schema := List (String × TableDef)

abbrev Row := String → Value

structure Database where
  schema : Schema
  rows : String → List Row

def Database.empty : Database := ⟨[], fun _ => []⟩

inductive Statement where
  | createTable (table : String) (columns : List Column) (constraints : List Constraint)
  | dropTable (table : String)
  | createIndex (table : String) (index : Index)
  | dropIndex (name : String)
  | addColumn (table : String) (column : Column)
  | dropColumn (table column : String)
  | setNullable (table column : String) (nullable : Bool)
  | setDefault (table column : String) (serverDefault : Value)
  | update (table column : String) (condition : Row → Bool) (value : Row → Value)

/-! What a statement makes of the schema. -/

def TableDef.column? (d : TableDef) (name : String) : Option Column := d.columns.find? (fun c => c.name = name)

def Constraint.columns : Constraint → List String
  | primaryKey columns => columns
  | unique columns => columns
  | foreignKey columns _ _ _ => columns

/-- The constraint refers to the column of the table. -/
def Constraint.refers (con : Constraint) (table column : String) : Bool :=
  match con with
  | .foreignKey _ ref references _ => ref = table && references.contains column
  | _ => false

def Constraint.refersTo (con : Constraint) (table : String) : Bool :=
  match con with
  | .foreignKey _ ref _ _ => ref = table
  | _ => false

namespace Schema

def has (s : Schema) (table : String) : Bool := s.any (fun t => t.1 = table)

def find (s : Schema) (table : String) : Option TableDef := (s.find? (fun t => t.1 = table)).map Prod.snd

/-- One table changed; `none` when there is no such table, or the change is refused. -/
def change (s : Schema) (table : String) (f : TableDef → Option TableDef) : Option Schema :=
  ((s.find table).bind f).map (fun d => s.map (fun t => if t.1 = table then (table, d) else t))

/-- The table is there, with the columns. -/
def provides (s : Schema) (table : String) (columns : List String) : Bool :=
  s.any (fun t => t.1 = table && columns.all (fun c => (t.2.column? c).isSome))

def hasIndex (s : Schema) (name : String) : Bool := s.any (fun t => t.2.indexes.any (fun i => i.name = name))

end Schema

/-- What a foreign key refers to is there. -/
def Constraint.grounded (s : Schema) : Constraint → Bool
  | .foreignKey _ table references _ => s.provides table references
  | _ => true

def Constraint.isPrimaryKey : Constraint → Bool
  | .primaryKey _ => true
  | _ => false

/-- The table with one column replaced. -/
def TableDef.setColumn (d : TableDef) (name : String) (f : Column → Column) : TableDef :=
  { d with columns := d.columns.map (fun c => if c.name = name then f c else c) }

/-- What the statement makes of the schema; `none` when it is refused. -/
def Statement.define : Statement → Schema → Option Schema
  | .createTable table columns constraints, s =>
    if s.has table || !decide (columns.map Column.name).Nodup || !constraints.all (·.grounded s) then none
    else some (s ++ [(table, ⟨columns, constraints, []⟩)])
  | .dropTable table, s =>
    if !s.has table || s.any (fun t => t.1 ≠ table && t.2.constraints.any (·.refersTo table)) then none
    else some (s.filter (fun t => t.1 ≠ table))
  | .createIndex table index, s =>
    if s.hasIndex index.name then none
    else s.change table (fun d =>
      if index.columns.all (fun c => (d.column? c).isSome) then some { d with indexes := d.indexes ++ [index] } else none)
  | .dropIndex name, s =>
    if s.hasIndex name then
      some (s.map (fun t => (t.1, { t.2 with indexes := t.2.indexes.filter (fun i => i.name ≠ name) })))
    else none
  | .addColumn table column, s =>
    s.change table (fun d =>
      if (d.column? column.name).isSome || !column.serverDefault.all column.admits then none
      else some { d with columns := d.columns ++ [column] })
  | .dropColumn table column, s =>
    if s.any (fun t => t.2.constraints.any (·.refers table column)) then none
    else s.change table (fun d =>
      if (d.column? column).isSome then
        some ⟨d.columns.filter (fun c => c.name ≠ column), d.constraints.filter (fun con => !con.columns.contains column),
          d.indexes.filter (fun i => !i.columns.contains column)⟩
      else none)
  | .setNullable table column nullable, s =>
    s.change table (fun d =>
      if (d.column? column).isNone || d.constraints.any (fun con => con.isPrimaryKey && con.columns.contains column) then none
      else some (d.setColumn column (fun c => { c with nullable })))
  | .setDefault table column serverDefault, s =>
    s.change table (fun d =>
      if (d.column? column).any (·.admits serverDefault) then
        some (d.setColumn column (fun c => { c with serverDefault := some serverDefault }))
      else none)
  | .update table column _ _, s =>
    s.change table (fun d => if (d.column? column).isSome then some d else none)

def defineAll : List Statement → Schema → Option Schema
  | [], s => some s
  | st :: sts, s => (st.define s).bind (defineAll sts)

/-! What it makes of the rows. -/

/-- The rows of one table changed. -/
def onTable (rows : String → List Row) (table : String) (f : Row → Row) : String → List Row :=
  Function.update rows table ((rows table).map f)

def Statement.move : Statement → (String → List Row) → String → List Row
  | .createTable table _ _, rows => Function.update rows table []
  | .dropTable table, rows => Function.update rows table []
  | .addColumn table column, rows =>
    onTable rows table (fun r => Function.update r column.name (column.serverDefault.getD .null))
  | .dropColumn table column, rows => onTable rows table (fun r => Function.update r column .null)
  | .update table column condition value, rows =>
    onTable rows table (fun r => if condition r then Function.update r column (value r) else r)
  | _, rows => rows

def moveAll (sts : List Statement) (rows : String → List Row) : String → List Row :=
  sts.foldl (fun rows st => st.move rows) rows

/-- No two rows have the same values, none of them null. -/
def Distinct (columns : List String) (rows : List Row) : Prop :=
  rows.Pairwise (fun r r' => columns.map r = columns.map r' → .null ∈ columns.map r)

instance decidableDistinct (columns : List String) (rows : List Row) : Decidable (Distinct columns rows) :=
  inferInstanceAs (Decidable (List.Pairwise _ _))

def Constraint.Holds (rows : String → List Row) (table : String) : Constraint → Prop
  | .primaryKey columns => Distinct columns (rows table)
  | .unique columns => Distinct columns (rows table)
  | .foreignKey columns ref references _ => ∀ r ∈ rows table, .null ∈ columns.map r ∨
    ∃ r' ∈ rows ref, references.map r' = columns.map r

instance decidableHolds (rows : String → List Row) (table : String) : (con : Constraint) → Decidable (con.Holds rows table)
  | .primaryKey columns => inferInstanceAs (Decidable (Distinct columns (rows table)))
  | .unique columns => inferInstanceAs (Decidable (Distinct columns (rows table)))
  | .foreignKey columns ref references _ => inferInstanceAs (Decidable (∀ r ∈ rows table, .null ∈ columns.map r ∨
      ∃ r' ∈ rows ref, references.map r' = columns.map r))

/-- The unique constraints of the columns, and the foreign keys from and to them, hold. -/
def Schema.Holds (s : Schema) (rows : String → List Row) (table column : String) : Prop :=
  ∀ t ∈ s, (∀ con ∈ t.2.constraints, (t.1 = table ∧ column ∈ con.columns ∨ con.refers table column = true) →
      con.Holds rows t.1) ∧
    (t.1 = table → ∀ i ∈ t.2.indexes, i.unique = true → column ∈ i.columns → Distinct i.columns (rows table))

instance decidableSchemaHolds (s : Schema) (rows : String → List Row) (table column : String) :
    Decidable (s.Holds rows table column) :=
  inferInstanceAs (Decidable (∀ t ∈ s, _))

/-- The rows let the statement pass. -/
def Statement.Allowed : Statement → Database → Prop
  | .createIndex table index, db => index.unique = true → Distinct index.columns (db.rows table)
  | .addColumn table column, db => column.nullable = true ∨ column.serverDefault.isSome = true ∨ db.rows table = []
  | .setNullable table column nullable, db => nullable = true ∨ ∀ r ∈ db.rows table, r column ≠ .null
  | .update table column condition value, db =>
    (∀ t ∈ db.schema, t.1 = table → ∀ c ∈ t.2.columns, c.name = column →
      ∀ r ∈ db.rows table, condition r = true → c.admits (value r) = true) ∧
    db.schema.Holds (Statement.move (.update table column condition value) db.rows) table column
  | _, _ => True

instance decidableAllowed : (st : Statement) → (db : Database) → Decidable (st.Allowed db)
  | .createIndex table index, db => inferInstanceAs (Decidable (index.unique = true → Distinct index.columns (db.rows table)))
  | .addColumn table column, db =>
    inferInstanceAs (Decidable (column.nullable = true ∨ column.serverDefault.isSome = true ∨ db.rows table = []))
  | .setNullable table column nullable, db =>
    inferInstanceAs (Decidable (nullable = true ∨ ∀ r ∈ db.rows table, r column ≠ .null))
  | .update table column condition value, db =>
    inferInstanceAs (Decidable ((∀ t ∈ db.schema, t.1 = table → ∀ c ∈ t.2.columns, c.name = column →
      ∀ r ∈ db.rows table, condition r = true → c.admits (value r) = true) ∧
      db.schema.Holds (Statement.move (.update table column condition value) db.rows) table column))
  | .createTable _ _ _, _ => isTrue trivial
  | .dropTable _, _ => isTrue trivial
  | .dropIndex _, _ => isTrue trivial
  | .dropColumn _ _, _ => isTrue trivial
  | .setDefault _ _ _, _ => isTrue trivial

inductive Refusal where
  | definition
  | data
  deriving DecidableEq

/-- A statement against the database. -/
def exec (st : Statement) (db : Database) : Except Refusal Database :=
  match st.define db.schema with
  | none => .error .definition
  | some schema => if st.Allowed db then .ok ⟨schema, st.move db.rows⟩ else .error .data

def execAll : List Statement → Database → Except Refusal Database
  | [], db => .ok db
  | st :: sts, db => (exec st db).bind (execAll sts)

/-! What every statement keeps. -/

/-- The row has values of the columns' types, and no others. -/
structure TableDef.Fits (d : TableDef) (r : Row) : Prop where
  admits : ∀ c ∈ d.columns, c.admits (r c.name) = true
  rest : ∀ name, d.column? name = none → r name = .null

structure Database.WellFormed (db : Database) : Prop where
  typed : ∀ t ∈ db.schema, ∀ r ∈ db.rows t.1, t.2.Fits r
  absent : ∀ name, db.schema.has name = false → db.rows name = []

theorem Database.wellFormed_empty : Database.empty.WellFormed :=
  ⟨fun t ht => (by cases ht), fun _ _ => rfl⟩

section Schemas
variable {s s' : Schema} {table name : String} {f : TableDef → Option TableDef}

theorem Schema.mem_of_find {d : TableDef} (h : s.find table = some d) : (table, d) ∈ s := by
  obtain ⟨t, ht, rfl⟩ := Option.map_eq_some_iff.mp h
  have hname : t.1 = table := by simpa using List.find?_some ht
  subst hname
  exact List.mem_of_find?_eq_some ht

/-- The tables after a change of one of them. -/
theorem Schema.mem_change (h : s.change table f = some s') {t : String × TableDef} (ht : t ∈ s') :
    t.1 ≠ table ∧ t ∈ s ∨ t.1 = table ∧ ∃ d, (table, d) ∈ s ∧ f d = some t.2 := by
  obtain ⟨d', hd', rfl⟩ := Option.map_eq_some_iff.mp h
  obtain ⟨d, hd, hf⟩ := Option.bind_eq_some_iff.mp hd'
  obtain ⟨u, hu, rfl⟩ := List.mem_map.mp ht
  by_cases hname : u.1 = table
  · rw [if_pos hname]
    exact .inr ⟨rfl, d, mem_of_find hd, hf⟩
  · rw [if_neg hname]
    exact .inl ⟨hname, hu⟩

theorem Schema.has_change (h : s.change table f = some s') (name : String) : s'.has name = s.has name := by
  obtain ⟨d', -, rfl⟩ := Option.map_eq_some_iff.mp h
  rw [has, has, List.any_map]
  congr 1
  funext t
  show decide ((if t.1 = table then (table, d') else t).1 = name) = decide (t.1 = name)
  split
  · next heq => rw [heq]
  · rfl

end Schemas

section Statements
variable {st : Statement} {db db' : Database}

theorem exec_ok : exec st db = .ok db' ↔
    st.define db.schema = some db'.schema ∧ st.Allowed db ∧ db'.rows = st.move db.rows := by
  unfold exec
  cases hdefine : st.define db.schema with
  | none => simp
  | some schema =>
    by_cases hallowed : st.Allowed db
    · simp only [hallowed, if_true, Except.ok.injEq, Option.some.injEq, true_and]
      constructor
      · rintro rfl
        exact ⟨rfl, rfl⟩
      · rintro ⟨rfl, hrows⟩
        cases db'
        cases hrows
        rfl
    · simp [hallowed]

/-- Rows of one table changed, row by row. -/
theorem mem_onTable {rows : String → List Row} {table name : String} {f : Row → Row} {r : Row}
    (h : r ∈ onTable rows table f name) :
    name ≠ table ∧ r ∈ rows name ∨ name = table ∧ ∃ r' ∈ rows table, r = f r' := by
  by_cases hname : name = table
  · subst hname
    rw [onTable, Function.update_self] at h
    obtain ⟨r', hr', rfl⟩ := List.mem_map.mp h
    exact .inr ⟨rfl, r', hr', rfl⟩
  · rw [onTable, Function.update_of_ne hname] at h
    exact .inl ⟨hname, h⟩

theorem onTable_nil {rows : String → List Row} {table name : String} {f : Row → Row} (h : rows name = []) :
    onTable rows table f name = [] := by
  by_cases hname : name = table
  · subst hname
    rw [onTable, Function.update_self, h, List.map_nil]
  · rw [onTable, Function.update_of_ne hname, h]

/-- A change of one table that fits its rows. -/
theorem Database.WellFormed.change (h : db.WellFormed) {table : String} {f : TableDef → Option TableDef}
    {g : Row → Row} {schema : Schema} (hschema : db.schema.change table f = some schema)
    (hfits : ∀ d d', (table, d) ∈ db.schema → f d = some d' → ∀ r ∈ db.rows table, d.Fits r → d'.Fits (g r)) :
    Database.WellFormed ⟨schema, onTable db.rows table g⟩ := by
  constructor
  · intro t ht r hr
    rcases Schema.mem_change hschema ht with ⟨hne, hold⟩ | ⟨heq, d, hd, hf⟩
    · rcases mem_onTable hr with ⟨-, hin⟩ | ⟨heq, -⟩
      · exact h.typed t hold r hin
      · exact absurd heq hne
    · rcases mem_onTable hr with ⟨hne, -⟩ | ⟨-, r', hr', rfl⟩
      · exact absurd heq hne
      · exact hfits d t.2 hd hf r' hr' (h.typed _ hd r' hr')
  · intro name hname
    rw [Schema.has_change hschema] at hname
    exact onTable_nil (h.absent name hname)

theorem onTable_id (rows : String → List Row) (table : String) : onTable rows table (fun r => r) = rows := by
  rw [onTable, List.map_id', Function.update_eq_self]

/-- A change of one table that leaves its rows alone. -/
theorem Database.WellFormed.redefine (h : db.WellFormed) {table : String} {f : TableDef → Option TableDef}
    {schema : Schema} (hschema : db.schema.change table f = some schema)
    (hfits : ∀ d d', (table, d) ∈ db.schema → f d = some d' → ∀ r ∈ db.rows table, d.Fits r → d'.Fits r) :
    Database.WellFormed ⟨schema, db.rows⟩ := by
  have hchange := h.change (g := fun r => r) hschema hfits
  rwa [onTable_id] at hchange

theorem TableDef.column?_none {d : TableDef} {name : String} (h : d.column? name = none) {c : Column} (hc : c ∈ d.columns) :
    c.name ≠ name := by
  simpa using List.find?_eq_none.mp h c hc

theorem TableDef.Fits.addColumn {d : TableDef} {r : Row} (h : d.Fits r) {column : Column}
    (hnew : d.column? column.name = none) {v : Value} (hv : column.admits v = true) :
    TableDef.Fits { d with columns := d.columns ++ [column] } (Function.update r column.name v) := by
  constructor
  · intro c hc
    rcases List.mem_append.mp hc with hold | hlast
    · rw [Function.update_of_ne (column?_none hnew hold)]
      exact h.admits c hold
    · rw [List.mem_singleton.mp hlast, Function.update_self]
      exact hv
  · intro name hname
    rw [column?, List.find?_append, Option.or_eq_none_iff] at hname
    have hne : name ≠ column.name := by
      intro heq
      simp [heq] at hname
    rw [Function.update_of_ne hne]
    exact h.rest name hname.1

theorem TableDef.Fits.dropColumn {d : TableDef} {r : Row} (h : d.Fits r) (column : String) (constraints : List Constraint)
    (indexes : List Index) :
    TableDef.Fits ⟨d.columns.filter (fun c => c.name ≠ column), constraints, indexes⟩
      (Function.update r column .null) := by
  constructor
  · intro c hc
    obtain ⟨hold, hne⟩ := List.mem_filter.mp hc
    rw [Function.update_of_ne (by simpa using hne)]
    exact h.admits c hold
  · intro name hname
    by_cases heq : name = column
    · rw [heq, Function.update_self]
    · rw [Function.update_of_ne heq]
      apply h.rest
      rw [column?, List.find?_eq_none] at hname ⊢
      intro c hc hcname
      have hcname' : c.name = name := by simpa using hcname
      refine hname c (List.mem_filter.mpr ⟨hc, ?_⟩) hcname
      simpa [hcname'] using heq

/-- A column that admits what it admitted and what the row has. -/
theorem TableDef.Fits.setColumn {d : TableDef} {r : Row} (h : d.Fits r) {column : String} {f : Column → Column}
    (hname : ∀ c, (f c).name = c.name)
    (hf : ∀ c ∈ d.columns, c.name = column → c.admits (r column) = true → (f c).admits (r column) = true) :
    (d.setColumn column f).Fits r := by
  constructor
  · intro c hc
    obtain ⟨c', hc', rfl⟩ := List.mem_map.mp hc
    split
    · next heq =>
      rw [hname, heq]
      exact hf c' hc' heq (heq ▸ h.admits c' hc')
    · exact h.admits c' hc'
  · intro name hnone
    apply h.rest
    rw [column?, List.find?_eq_none] at hnone ⊢
    intro c hc
    have hchanged := hnone _ (List.mem_map_of_mem hc)
    split at hchanged
    · rwa [hname] at hchanged
    · exact hchanged

theorem TableDef.Fits.update {d : TableDef} {r : Row} (h : d.Fits r) {column : String} {v : Value}
    (hcolumn : (d.column? column).isSome = true) (hv : ∀ c ∈ d.columns, c.name = column → c.admits v = true) :
    d.Fits (Function.update r column v) := by
  constructor
  · intro c hc
    by_cases heq : c.name = column
    · rw [heq, Function.update_self]
      exact hv c hc heq
    · rw [Function.update_of_ne heq]
      exact h.admits c hc
  · intro name hname
    have hne : name ≠ column := by
      rintro rfl
      rw [hname] at hcolumn
      cases hcolumn
    rw [Function.update_of_ne hne]
    exact h.rest name hname

/-- One table without rows, the others as they were. -/
theorem Database.WellFormed.emptied (h : db.WellFormed) {table : String} {schema : Schema}
    (hold : ∀ t ∈ schema, t.1 ≠ table → t ∈ db.schema)
    (habsent : ∀ name, name ≠ table → schema.has name = false → db.schema.has name = false) :
    Database.WellFormed ⟨schema, Function.update db.rows table []⟩ := by
  constructor
  · intro t ht r hr
    change r ∈ Function.update db.rows table [] t.1 at hr
    by_cases heq : t.1 = table
    · rw [heq, Function.update_self] at hr
      cases hr
    · rw [Function.update_of_ne heq] at hr
      exact h.typed t (hold t ht heq) r hr
  · intro name hname
    show Function.update db.rows table [] name = []
    by_cases heq : name = table
    · rw [heq, Function.update_self]
    · rw [Function.update_of_ne heq]
      exact h.absent name (habsent name heq hname)

/-- Every statement keeps the rows of their columns' types. -/
theorem exec_wellFormed (h : db.WellFormed) (he : exec st db = .ok db') : db'.WellFormed := by
  obtain ⟨hdefine, hallowed, hrows⟩ := exec_ok.mp he
  obtain ⟨schema, rows⟩ := db'
  subst hrows
  cases st with
  | createTable table columns constraints =>
    simp only [Statement.define] at hdefine
    split at hdefine
    · cases hdefine
    · cases hdefine
      refine h.emptied ?_ ?_
      · intro t ht hne
        rcases List.mem_append.mp ht with hold | hlast
        · exact hold
        · rw [List.mem_singleton.mp hlast] at hne
          exact absurd rfl hne
      · intro name _ hname
        rw [Schema.has, List.any_append, Bool.or_eq_false_iff] at hname
        exact hname.1
  | dropTable table =>
    simp only [Statement.define] at hdefine
    split at hdefine
    · cases hdefine
    · cases hdefine
      refine h.emptied (fun t ht _ => (List.mem_filter.mp ht).1) ?_
      intro name hne hname
      rw [Schema.has, List.any_eq_false] at hname ⊢
      intro t ht htname
      have htname' : t.1 = name := by simpa using htname
      exact hname t (List.mem_filter.mpr ⟨ht, by simpa [htname'] using hne⟩) htname
  | createIndex table index =>
    simp only [Statement.define] at hdefine
    split at hdefine
    · cases hdefine
    · refine h.redefine hdefine ?_
      intro d d' _ hd' r _ hfits
      split at hd'
      · cases hd'
        exact ⟨hfits.admits, hfits.rest⟩
      · cases hd'
  | dropIndex name =>
    simp only [Statement.define] at hdefine
    split at hdefine
    · cases hdefine
      constructor
      · intro t ht r hr
        obtain ⟨u, hu, rfl⟩ := List.mem_map.mp ht
        have hfits := h.typed u hu r hr
        exact ⟨hfits.admits, hfits.rest⟩
      · intro other hother
        apply h.absent
        rw [Schema.has, List.any_map] at hother
        exact hother
    · cases hdefine
  | addColumn table column =>
    refine h.change hdefine ?_
    intro d d' _ hd' r hr hfits
    split at hd'
    · cases hd'
    · next hnew =>
      cases hd'
      simp only [Bool.or_eq_true, not_or, Bool.not_eq_true, Option.isSome_eq_false_iff, Option.isNone_iff_eq_none,
        Bool.not_eq_false'] at hnew
      refine hfits.addColumn hnew.1 ?_
      cases hdefault : column.serverDefault with
      | some v => simpa [hdefault] using hnew.2
      | none =>
        rcases hallowed with hnullable | hsome | hempty
        · simp [Column.admits, hnullable]
        · rw [hdefault] at hsome
          cases hsome
        · rw [hempty] at hr
          cases hr
  | dropColumn table column =>
    simp only [Statement.define] at hdefine
    split at hdefine
    · cases hdefine
    · refine h.change hdefine ?_
      intro d d' _ hd' r _ hfits
      split at hd'
      · cases hd'
        exact hfits.dropColumn column _ _
      · cases hd'
  | setNullable table column nullable =>
    refine h.redefine hdefine ?_
    intro d d' _ hd' r hr hfits
    split at hd'
    · cases hd'
    · cases hd'
      refine hfits.setColumn (fun _ => rfl) ?_
      intro c _ _ hadmits
      rcases hallowed with rfl | hnotnull
      · by_cases hnull : r column = .null
        · simp [Column.admits, hnull]
        · simpa [Column.admits, hnull] using hadmits
      · have hvalue := hnotnull r hr
        simpa [Column.admits, hvalue] using hadmits
  | setDefault table column serverDefault =>
    refine h.redefine hdefine ?_
    intro d d' _ hd' r _ hfits
    split at hd'
    · cases hd'
      exact hfits.setColumn (fun _ => rfl) fun c _ _ hadmits => hadmits
    · cases hd'
  | update table column condition value =>
    refine h.change hdefine ?_
    intro d d' hd hd' r hr hfits
    split at hd'
    · next hcolumn =>
      cases hd'
      split
      · next hcondition =>
        refine hfits.update hcolumn ?_
        intro c hc hname
        exact hallowed.1 _ hd rfl c hc hname r hr hcondition
      · exact hfits
    · cases hd'

end Statements

/-! Several statements in order. -/

/-- A statement that passes, and the rest. -/
theorem execAll_cons {st : Statement} {db : Database} {schema : Schema} (hdefine : st.define db.schema = some schema)
    (hallowed : st.Allowed db) (sts : List Statement) :
    execAll (st :: sts) db = execAll sts ⟨schema, st.move db.rows⟩ := by
  have hfirst : exec st db = .ok ⟨schema, st.move db.rows⟩ := exec_ok.mpr ⟨hdefine, hallowed, rfl⟩
  rw [execAll, hfirst]
  rfl

theorem execAll_ok {sts : List Statement} {db db' : Database} (h : execAll sts db = .ok db') :
    defineAll sts db.schema = some db'.schema ∧ db'.rows = moveAll sts db.rows := by
  induction sts generalizing db with
  | nil =>
    cases h
    exact ⟨rfl, rfl⟩
  | cons st sts ih =>
    change (exec st db).bind (execAll sts) = .ok db' at h
    cases hfirst : exec st db with
    | error e =>
      rw [hfirst] at h
      cases h
    | ok mid =>
      rw [hfirst] at h
      obtain ⟨hdefine, -, hrows⟩ := exec_ok.mp hfirst
      obtain ⟨hrest, hmoved⟩ := ih h
      rw [defineAll, hdefine]
      exact ⟨hrest, by rw [hmoved, hrows]; rfl⟩

theorem execAll_wellFormed {sts : List Statement} {db db' : Database} (hwf : db.WellFormed)
    (h : execAll sts db = .ok db') : db'.WellFormed := by
  induction sts generalizing db with
  | nil =>
    cases h
    exact hwf
  | cons st sts ih =>
    change (exec st db).bind (execAll sts) = .ok db' at h
    cases hfirst : exec st db with
    | error e =>
      rw [hfirst] at h
      cases h
    | ok mid =>
      rw [hfirst] at h
      exact ih (exec_wellFormed hwf hfirst) h

/-- No rows can stop the statement. -/
def Statement.unconditional : Statement → Bool
  | .createIndex _ index => !index.unique
  | .addColumn _ column => column.nullable || column.serverDefault.isSome
  | .setNullable _ _ nullable => nullable
  | .update _ _ _ _ => false
  | _ => true

theorem Statement.allowed {st : Statement} (h : st.unconditional = true) (db : Database) : st.Allowed db := by
  cases st with
  | createIndex table index =>
    intro hunique
    rw [Statement.unconditional, hunique] at h
    cases h
  | addColumn table column =>
    rcases Bool.or_eq_true_iff.mp h with hnullable | hdefault
    · exact .inl hnullable
    · exact .inr (.inl hdefault)
  | setNullable table column nullable => exact .inl h
  | update table column condition value => cases h
  | _ => trivial

/-- Such statements pass whenever the schema lets them. -/
theorem execAll_unconditional {sts : List Statement} {db : Database} {schema : Schema}
    (h : sts.all Statement.unconditional = true) (hdefine : defineAll sts db.schema = some schema) :
    execAll sts db = .ok ⟨schema, moveAll sts db.rows⟩ := by
  induction sts generalizing db with
  | nil =>
    cases hdefine
    rfl
  | cons st sts ih =>
    rw [List.all_cons, Bool.and_eq_true] at h
    obtain ⟨mid, hmid, hrest⟩ := Option.bind_eq_some_iff.mp hdefine
    rw [execAll_cons hmid (Statement.allowed h.1 db)]
    exact ih h.2 hrest

/-! What a statement leaves alone, and what takes it back. -/

/-- The table, or the column of it, whose values the statement can change. -/
def Statement.target : Statement → Option (String × Option String)
  | .createTable table _ _ => some (table, none)
  | .dropTable table => some (table, none)
  | .addColumn table column => some (table, some column.name)
  | .dropColumn table column => some (table, some column)
  | .update table column _ _ => some (table, some column)
  | _ => none

def Statement.touches (st : Statement) (t c : String) : Prop :=
  st.target = some (t, none) ∨ st.target = some (t, some c)

/-- The values of a column, row by row. -/
def column (rows : String → List Row) (table name : String) : List Value := (rows table).map (· name)

theorem column_onTable {rows : String → List Row} {table t c : String} {f : Row → Row}
    (h : t = table → ∀ r, f r c = r c) : column (onTable rows table f) t c = column rows t c := by
  by_cases heq : t = table
  · subst heq
    rw [column, column, onTable, Function.update_self, List.map_map]
    apply List.map_congr_left
    intro r _
    exact h rfl r
  · rw [column, column, onTable, Function.update_of_ne heq]

theorem Statement.column_move {st : Statement} {rows : String → List Row} {t c : String} (h : ¬ st.touches t c) :
    column (st.move rows) t c = column rows t c := by
  obtain ⟨htable, hcolumn⟩ := not_or.mp h
  have hne : ∀ {table name : String} {v : Row → Value}, some (table, some name) ≠ some (t, some c) →
      t = table → ∀ r : Row, Function.update r name (v r) c = r c := by
    intro table name v hno heq r
    apply Function.update_of_ne
    rintro rfl
    exact hno (by rw [heq])
  cases st with
  | createTable table columns constraints =>
    rw [Statement.move, column, column, Function.update_of_ne (fun heq => htable (by rw [target, heq]))]
  | dropTable table =>
    rw [Statement.move, column, column, Function.update_of_ne (fun heq => htable (by rw [target, heq]))]
  | addColumn table column => exact column_onTable (hne hcolumn)
  | dropColumn table column => exact column_onTable (hne hcolumn)
  | update table column condition value =>
    refine column_onTable fun heq r => ?_
    split
    · exact hne hcolumn heq r
    · rfl
  | _ => rfl

theorem column_moveAll {sts : List Statement} {t c : String} (h : ∀ st ∈ sts, ¬ st.touches t c)
    (rows : String → List Row) : column (moveAll sts rows) t c = column rows t c := by
  induction sts generalizing rows with
  | nil => rfl
  | cons st sts ih =>
    rw [moveAll, List.foldl_cons]
    exact (ih (fun st' hst' => h st' (List.mem_cons_of_mem _ hst')) _).trans (Statement.column_move (h st List.mem_cons_self))

end Relational.Ddl
