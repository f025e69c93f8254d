import FastiKit.Language.SmallParser

/- How a new router gets into `core/api_versions.py`. `register_router` works on the
   lines of the file; what the file means is a matter of its statements: which names
   stand for which routers, and what `v1_router` mounts (`App`). -/
namespace FastiKit
open Lines Ast

/-! The edit. -/

def importLine (domain routerVar : String) : String := "from " ++ domain ++ ".routes import " ++ routerVar

def includeLine (routerVar : String) : String := "v1_router.include_router(" ++ routerVar ++ ")"

def startsWith (s line : String) : Bool := s.toList.isPrefixOf line.toList

def isImport (line : String) : Bool := startsWith "from " line || startsWith "import " line

def isInclude (line : String) : Bool := startsWith "v1_router.include_router(" line

def isCreation (line : String) : Bool := startsWith "v1_router =" line

/-- `[i for i, line in enumerate(lines) if p(line)]` -/
def indices (p : String → Bool) (lines : List String) : List Nat :=
  (lines.zipIdx.filter (fun entry => p entry.1)).map Prod.snd

/-- Where an include goes: after the last one, or at the end. -/
def includeAt (lines : List String) : Nat :=
  match (indices isInclude lines).getLast? with
  | some i => i + 1
  | none => lines.length

/-- The lines `register_router` makes of a file's, `none` if it leaves the file as it
is: because both lines are there, or because there is no import or no `v1_router` to go
by and the user is asked to wire the router. -/
def wireLines (domain routerVar : String) (lines : List String) : Option (List String) :=
  if importLine domain routerVar ∈ lines ∧ includeLine routerVar ∈ lines then none
  else
    match (indices isImport lines).getLast? with
    | none => none
    | some lastImport =>
      if lines.any isCreation then
        let included :=
          if includeLine routerVar ∈ lines then lines else lines.insertIdx (includeAt lines) (includeLine routerVar)
        let imported :=
          if importLine domain routerVar ∈ included then included
          else included.insertIdx (lastImport + 1) (importLine domain routerVar)
        some imported
      else none

/-- What `register_router` writes to a file with this text. -/
def registerRouter (domain routerVar text : String) : Option String :=
  (wireLines domain routerVar (splitlines text)).map unlines

/-! What the file means. -/

/-- A name of a module, as an import gives it. -/
structure Origin where
  level : Nat
  module : Option String
  name : String
  deriving DecidableEq, Repr

/-- What the names of the module stand for, as far as imports say it, and what
`v1_router` mounts since it was made. -/
structure App where
  env : String → Option Origin
  mounts : Option (List (Option Origin))

namespace App

def start : App := { env := fun _ => none, mounts := none }

/-- A name is bound, `v1_router` to a router that mounts nothing yet. -/
def bind (app : App) (name : String) (origin : Option Origin) : App :=
  { env := Function.update app.env name origin
    mounts := if name = "v1_router" then some [] else app.mounts }

/-- After `import *` the text does not say what a name stands for. -/
def importName (level : Nat) (module : Option String) (app : App) (a : Alias) : App :=
  if a.name = "*" then { app with env := fun _ => none } else app.bind a.bound (some ⟨level, module, a.name⟩)

def bindAll (app : App) (names : List String) : App := names.foldl (fun app name => app.bind name none) app

/-- What has `v1_router` in it may mount whatever else is in it. -/
def touch (app : App) (mentions : List String) : App :=
  if "v1_router" ∈ mentions then { app with mounts := app.mounts.map (· ++ mentions.map app.env) } else app

/-- The router an include is given, by its place or by its name. -/
def given (arguments : List (Option String)) (keywords : List (String × Option String)) : Option String :=
  match arguments with
  | argument :: _ => argument
  | [] => (keywords.lookup "router").join

/-- The names a call is given. -/
def names (arguments : List (Option String)) (keywords : List (String × Option String)) : List String :=
  (arguments ++ keywords.map Prod.snd).reduceOption

def exec (app : App) : Ast.Stmt → App
  | .importFrom level module names => names.foldl (importName level module) app
  | .importNames names => app.bindAll (names.map (fun a => a.asname.getD (String.ofList (a.name.toList.takeWhile (· ≠ '.')))))
  | .assign targets _ => app.bindAll targets
  | .call receiver method arguments keywords =>
    if receiver = "v1_router" ∧ method = "include_router" then
      { app with mounts := app.mounts.map (· ++ [(given arguments keywords).bind app.env]) }
    else app.touch (receiver :: names arguments keywords)
  | .constant => app
  | .other binds mentions => (app.bindAll binds).touch mentions

def run (app : App) (stmts : List Ast.Stmt) : App := stmts.foldl exec app

end App

/-- The routers a module mounts, in order, and those it may mount in a statement that has
others nested in it. -/
def mounts (stmts : List Ast.Stmt) : List (Option Origin) := (App.start.run stmts).mounts.getD []

def imported : Ast.Stmt → List Origin
  | .importFrom level module names => names.map (fun a => ⟨level, module, a.name⟩)
  | _ => []

def imports (stmts : List Ast.Stmt) : List Origin := stmts.flatMap imported

/-- A statement binds a name, or may. -/
def binds (name : String) : Ast.Stmt → Bool
  | .importFrom _ _ names => names.any (fun a => a.name = "*" || a.bound = name)
  | .importNames names => names.any (fun a => a.asname.getD (String.ofList (a.name.toList.takeWhile (· ≠ '.'))) = name)
  | .assign targets _ => targets.contains name
  | .call .. => false
  | .constant => false
  | .other names _ => names.contains name

/-- A statement includes the router of this name. -/
def includes (name : String) : Ast.Stmt → Bool
  | .call receiver method arguments keywords =>
    receiver = "v1_router" && method = "include_router" && App.given arguments keywords = some name
  | _ => false

/-- The name stands in a statement, but not as what a plain import or assignment binds,
or an include is given. -/
def uses (name : String) : Ast.Stmt → Bool
  | .call receiver method arguments keywords =>
    if receiver = "v1_router" ∧ method = "include_router" then
      (App.names (arguments.drop 1) (keywords.filter (fun keyword => keyword.1 ≠ "router"))).contains name
    else (receiver :: App.names arguments keywords).contains name
  | .other binds mentions => (binds ++ mentions).contains name
  | _ => false

/-! What one statement does to the names and the mounts. -/

section Exec
variable {name : String}

@[simp] theorem App.bind_env_self (app : App) (origin : Option Origin) : (app.bind name origin).env name = origin := by
  simp [App.bind]

theorem App.bind_env_ne (app : App) (origin : Option Origin) {other : String} (h : other ≠ name) :
    (app.bind other origin).env name = app.env name := by
  simp [App.bind, Function.update_of_ne h.symm]

end Exec

theorem run_append (app : App) (xs ys : List Ast.Stmt) : app.run (xs ++ ys) = (app.run xs).run ys := List.foldl_append

/-- Everything the names and the mounts of an app come from. -/
def App.From (app : App) (origins : List Origin) : Prop :=
  (∀ name origin, app.env name = some origin → origin ∈ origins) ∧
    ∀ origin, some origin ∈ app.mounts.getD [] → origin ∈ origins

section From
variable {app : App} {origins : List Origin}

theorem App.From.mono (h : app.From origins) {more : List Origin} (hmore : origins ⊆ more) : app.From more :=
  ⟨fun name origin henv => hmore (h.1 name origin henv), fun origin hin => hmore (h.2 origin hin)⟩

theorem App.From.bind (h : app.From origins) (name : String) {origin : Option Origin}
    (horigin : ∀ o, origin = some o → o ∈ origins) : (app.bind name origin).From origins := by
  constructor
  · intro other o henv
    by_cases hname : other = name
    · rw [hname, App.bind_env_self] at henv
      exact horigin o henv
    · rw [App.bind_env_ne _ _ (fun heq => hname heq.symm)] at henv
      exact h.1 other o henv
  · intro o hin
    simp only [App.bind] at hin
    split at hin
    · simp at hin
    · exact h.2 o hin

theorem App.From.bindAll (h : app.From origins) (names : List String) : (app.bindAll names).From origins := by
  unfold App.bindAll
  induction names generalizing app with
  | nil => exact h
  | cons name rest ih => exact ih (h.bind name nofun)

/-- What is mounted more stands for a name. -/
theorem App.From.mount (h : app.From origins) {routers : List (Option Origin)}
    (hrouters : ∀ o, some o ∈ routers → ∃ name, app.env name = some o) :
    App.From { app with mounts := app.mounts.map (· ++ routers) } origins := by
  refine ⟨h.1, ?_⟩
  intro o hin
  cases hmounts : app.mounts with
  | none => simp [hmounts] at hin
  | some mounted =>
    simp only [hmounts, Option.map_some, Option.getD_some, List.mem_append] at hin
    cases hin with
    | inl hold => exact h.2 o (by simpa [hmounts] using hold)
    | inr hnew =>
      obtain ⟨name, henv⟩ := hrouters o hnew
      exact h.1 name o henv

theorem App.From.touch (h : app.From origins) (mentions : List String) : (app.touch mentions).From origins := by
  unfold App.touch
  split
  · refine h.mount ?_
    intro o hin
    obtain ⟨name, -, henv⟩ := List.mem_map.mp hin
    exact ⟨name, henv⟩
  · exact h

theorem App.From.exec (h : app.From origins) (stmt : Ast.Stmt) : (app.exec stmt).From (origins ++ imported stmt) := by
  cases stmt with
  | importFrom level module names =>
    simp only [App.exec, imported]
    induction names generalizing app origins with
    | nil => simpa using h
    | cons a rest ih =>
      rw [List.foldl_cons, List.map_cons, List.append_cons]
      apply ih
      have hmore : app.From (origins ++ [⟨level, module, a.name⟩]) := h.mono (List.subset_append_left _ _)
      unfold App.importName
      split
      · exact ⟨nofun, hmore.2⟩
      · refine hmore.bind a.bound ?_
        intro o ho
        simp [← Option.some.inj ho]
  | importNames names => exact (h.bindAll _).mono (List.subset_append_left _ _)
  | assign targets elements => exact (h.bindAll _).mono (List.subset_append_left _ _)
  | call receiver method arguments keywords =>
    refine App.From.mono ?_ (List.subset_append_left _ _)
    simp only [App.exec]
    split
    · refine h.mount ?_
      intro o hin
      obtain ⟨name, -, henv⟩ := Option.bind_eq_some_iff.mp (List.mem_singleton.mp hin).symm
      exact ⟨name, henv⟩
    · exact h.touch _
  | constant => exact h.mono (List.subset_append_left _ _)
  | other names mentions => exact ((h.bindAll _).touch _).mono (List.subset_append_left _ _)

theorem App.From.run (h : app.From origins) (stmts : List Ast.Stmt) : (app.run stmts).From (origins ++ imports stmts) := by
  unfold App.run
  induction stmts generalizing app origins with
  | nil => simpa [imports] using h
  | cons stmt rest ih =>
    have hrest := ih (h.exec stmt)
    rwa [List.append_assoc] at hrest

end From

structure Beside (shadowed : String → Prop) (extra : List (Option Origin)) (app app' : App) : Prop where
  env : ∀ name, ¬ shadowed name → app'.env name = app.env name
  made : app'.mounts.isSome = app.mounts.isSome
  count : ∀ origin, (app'.mounts.getD []).count origin = (app.mounts.getD []).count origin + extra.count origin

section Beside
variable {shadowed : String → Prop} {extra : List (Option Origin)} {app app' : App}

theorem Beside.refl (app : App) : Beside shadowed [] app app := ⟨fun _ _ => rfl, rfl, by simp⟩

theorem Beside.bind (h : Beside shadowed extra app app') (name : String) (origin : Option Origin)
    (hmade : extra = [] ∨ name ≠ "v1_router") : Beside shadowed extra (app.bind name origin) (app'.bind name origin) := by
  constructor
  · intro other hother
    by_cases hname : other = name
    · rw [hname, App.bind_env_self, App.bind_env_self]
    · rw [App.bind_env_ne _ _ (fun heq => hname heq.symm), App.bind_env_ne _ _ (fun heq => hname heq.symm)]
      exact h.env other hother
  · simp only [App.bind]
    split
    · rfl
    · exact h.made
  · intro o
    simp only [App.bind]
    split
    · next hrouter =>
      cases hmade with
      | inl hextra => simp [hextra]
      | inr hne => exact absurd hrouter hne
    · exact h.count o

theorem Beside.bindAll (h : Beside shadowed extra app app') {names : List String}
    (hmade : extra = [] ∨ "v1_router" ∉ names) : Beside shadowed extra (app.bindAll names) (app'.bindAll names) := by
  unfold App.bindAll
  induction names generalizing app app' with
  | nil => exact h
  | cons name rest ih =>
    apply ih
    · apply h.bind
      refine hmade.imp_right ?_
      intro hnot heq
      exact hnot (heq ▸ List.mem_cons_self)
    · exact hmade.imp_right (fun hnot hin => hnot (List.mem_cons_of_mem _ hin))

/-- The same routers are mounted in both. -/
theorem Beside.mount (h : Beside shadowed extra app app') (routers : List (Option Origin)) :
    Beside shadowed extra { app with mounts := app.mounts.map (· ++ routers) }
      { app' with mounts := app'.mounts.map (· ++ routers) } := by
  obtain ⟨henv, hmade, hcount⟩ := h
  refine ⟨henv, by simpa using hmade, ?_⟩
  intro o
  have ho := hcount o
  cases hmounts : app.mounts with
  | none =>
    cases hmounts' : app'.mounts with
    | none => simpa [hmounts, hmounts'] using ho
    | some mounted' => simp [hmounts, hmounts'] at hmade
  | some mounted =>
    cases hmounts' : app'.mounts with
    | none => simp [hmounts, hmounts'] at hmade
    | some mounted' =>
      simp only [hmounts, hmounts', Option.getD_some, Option.map_some, List.count_append] at ho ⊢
      omega

theorem Beside.touch (h : Beside shadowed extra app app') {mentions : List String}
    (hmentions : ∀ name, shadowed name → name ∉ mentions) : Beside shadowed extra (app.touch mentions) (app'.touch mentions) := by
  have hsame : mentions.map app'.env = mentions.map app.env :=
    List.map_congr_left (fun name hin => h.env name (fun hshadowed => hmentions name hshadowed hin))
  unfold App.touch
  rw [hsame]
  split
  · exact h.mount _
  · exact h

theorem Beside.exec (h : Beside shadowed extra app app') {stmt : Ast.Stmt}
    (hincludes : ∀ name, shadowed name → includes name stmt = false) (huses : ∀ name, shadowed name → uses name stmt = false)
    (hmade : extra = [] ∨ binds "v1_router" stmt = false) : Beside shadowed extra (app.exec stmt) (app'.exec stmt) := by
  cases stmt with
  | importFrom level module names =>
    simp only [binds, List.any_eq_false, Bool.or_eq_true, decide_eq_true_eq, not_or] at hmade
    simp only [App.exec]
    clear hincludes huses
    induction names generalizing app app' with
    | nil => exact h
    | cons a rest ih =>
      apply ih
      · unfold App.importName
        split
        · exact ⟨fun _ _ => rfl, h.made, h.count⟩
        · exact h.bind a.bound _ (hmade.imp_right (fun hall => (hall a List.mem_cons_self).2))
      · exact hmade.imp_right (fun hall b hb => hall b (List.mem_cons_of_mem _ hb))
  | importNames names =>
    simp only [binds, List.any_eq_false, decide_eq_true_eq] at hmade
    apply h.bindAll
    refine hmade.imp_right ?_
    intro hall hin
    obtain ⟨a, ha, heq⟩ := List.mem_map.mp hin
    exact hall a ha heq
  | assign targets elements =>
    apply h.bindAll
    simpa [binds] using hmade
  | call receiver method arguments keywords =>
    simp only [App.exec]
    split
    · next hcall =>
      -- the name it includes means the same in both
      have hsame : (App.given arguments keywords).bind app'.env = (App.given arguments keywords).bind app.env := by
        cases hgiven : App.given arguments keywords with
        | none => rfl
        | some name =>
          apply h.env
          intro hshadowed
          have hnot := hincludes name hshadowed
          simp [includes, hcall, hgiven] at hnot
      rw [hsame]
      exact h.mount _
    · next hcall =>
      refine h.touch ?_
      intro name hshadowed
      have hnot := huses name hshadowed
      rw [uses, if_neg hcall] at hnot
      simpa using hnot
  | constant => exact h
  | other names mentions =>
    refine Beside.touch (h.bindAll ?_) ?_
    · simpa [binds] using hmade
    · intro name hshadowed hin
      have hnot := huses name hshadowed
      simp [uses, hin] at hnot

theorem Beside.run (h : Beside shadowed extra app app') (stmts : List Ast.Stmt)
    (hincludes : ∀ stmt ∈ stmts, ∀ name, shadowed name → includes name stmt = false)
    (huses : ∀ stmt ∈ stmts, ∀ name, shadowed name → uses name stmt = false)
    (hmade : extra = [] ∨ ∀ stmt ∈ stmts, binds "v1_router" stmt = false) :
    Beside shadowed extra (app.run stmts) (app'.run stmts) := by
  unfold App.run
  induction stmts generalizing app app' with
  | nil => exact h
  | cons stmt rest ih =>
    apply ih
    · exact h.exec (hincludes stmt List.mem_cons_self) (huses stmt List.mem_cons_self)
        (hmade.imp_right (fun hall => hall stmt List.mem_cons_self))
    · exact fun s hs => hincludes s (List.mem_cons_of_mem _ hs)
    · exact fun s hs => huses s (List.mem_cons_of_mem _ hs)
    · exact hmade.imp_right (fun hall s hs => hall s (List.mem_cons_of_mem _ hs))

end Beside

/-! The lines that are written. -/

section Written
variable {domain routerVar : String} {lines a b c : List String} {lastImport : Nat}

end Written

/-! When it comes out right. -/

/-- The lines that are written are the statements they look like: the domain and the
variable are names, not keywords, and the variable is not `v1_router` itself. -/
structure Names (parse : Parser) (domain routerVar : String) : Prop where
  import_ : bodyOf parse [importLine domain routerVar] =
    some [.importFrom 0 (some (domain ++ ".routes")) [⟨routerVar, none⟩]]
  include_ : bodyOf parse [includeLine routerVar] = some [.call "v1_router" "include_router" [some routerVar] []]
  ne_star : routerVar ≠ "*"
  ne_router : routerVar ≠ "v1_router"

section Wirable
variable {parse : Parser} {domain routerVar text : String} {A B : List Ast.Stmt}

end Wirable

/-! The repository's own file. -/

end FastiKit
