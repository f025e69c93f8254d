import FastiKit.Scaffold.InitFiles
import FastiKit.Scaffold.MergeImports
import FastiKit.Scaffold.Pyproject
import FastiKit.Scaffold.RouterWiring
import FastiKit.Scaffold.Templates
import FastiKit.System.Files

/- What `create-all` does to the files of a project: the generators and editors it calls,
   one after the other, each with its own test of what is there already.

   Correspondence (Python ↔ Lean):
     `write_new_file`                      ↔ `writeNewFile`
     `update_init`                         ↔ `updateInit`, its text `Scaffold.updateInit`
     `generate_domain`                     ↔ `generateDomain`
     `generate_entity`, … `generate_route` ↔ `generateLayer` with what differs, a `Layer`
     `generate_dependencies`               ↔ `generateDependencies`
     `register_model`, `register_router`   ↔ `registerModel`, `registerRouter`
     `register_pyproject`                  ↔ `registerPyproject`
     `generate_all`                        ↔ `generateAll`
   A program answers with the paths it is to answer with; what it prints is left out.
   Files are texts, so that reading one does not fail.

   Python's and TOML's parsers are parameters, and so is which characters `repr` shows as
   they are. -/
namespace FastiKit.Scaffold.CreateAll
open Files (Path Node Tree Run)
open Files.Run (Idle Avoids)

/-- What a call can end with: an exception of the scaffolding's own or of `ast.parse`, an
`OSError`, or the `AttributeError` or `TypeError` of a document that is not as expected. -/
inductive Failure where
  | raised (r : Raised)
  | os
  | type
  deriving DecidableEq, Repr

abbrev Scaffolding (α : Type) := Run Failure α

def orRaise {α : Type} (r : Except Raised α) : Scaffolding α := Run.ofExcept (r.mapError Failure.raised)

/-- `path.exists()` -/
def exists_ (path : Path) : Scaffolding Bool := do
  let node ← Run.look path
  return node.isSome

/-- `path.read_text()` -/
def readText (path : Path) : Scaffolding String := do
  let node ← Run.look path
  match node with
  | some (.file text) => return text
  | _ => Run.ofExcept (.error .os)

def writeText (path : Path) (text : String) : Scaffolding Unit := Run.attempt .os (fun t => t.write path text)

/-- `path.mkdir(parents=True, exist_ok=True)` -/
def mkdir (path : Path) : Scaffolding Unit := Run.attempt .os (fun t => t.mkdir path)

/-- `path.read_text()` if it exists. -/
def readIfExists (path : Path) : Scaffolding (Option String) := do
  if ← exists_ path then
    let text ← readText path
    return some text
  else return none

def modelsManifest : Path := ["core", "models.py"]

def apiVersionsFile : Path := ["core", "api_versions.py"]

def pyprojectFile : Path := ["pyproject.toml"]

/-! The layers. -/

def writeNewFile (path : Path) (content : String) : Scaffolding Bool := do
  mkdir path.dropLast
  if ← exists_ path then return false
  else
    writeText path content
    return true

section Parsers
variable (parse : Ast.Parser) (printable : Char → Bool)

def updateInit (initPath : Path) (module : String) (symbols : List String) : Scaffolding Path := do
  mkdir initPath.dropLast
  let existing ← readIfExists initPath
  let content ← orRaise (Scaffold.updateInit parse printable existing module symbols)
  writeText initPath content
  return initPath

/-- What differs between the generators of the layers: the package, the module for a name
and what it exports, and the text, from the domain, the two forms of the name and the
specification of the fields. -/
structure Layer where
  dir : String
  module : String → String
  symbols : String → String → List String
  template : String → String → String → String → Except Raised String

def generateLayer (layer : Layer) (domain name fields : String) : Scaffolding (List Path) := do
  let (snake, pascal) ← orRaise (resolveNames domain name)
  let template ← orRaise (layer.template domain snake pascal fields)
  let filePath := [domain, layer.dir, layer.module snake ++ ".py"]
  let _ ← writeNewFile filePath template
  let init ← updateInit parse printable [domain, layer.dir, "__init__.py"] (layer.module snake) (layer.symbols snake pascal)
  return [filePath, init]

def entityLayer : Layer where
  dir := "entities"
  module snake := snake
  symbols _ pascal := [pascal]
  template _ _ pascal fields := (parseFields fields).map (entityTemplate pascal)

def modelLayer : Layer where
  dir := "models"
  module snake := snake ++ "_model"
  symbols _ pascal := [pascal ++ "Model"]
  template _ snake pascal fields := (parseFields fields).map (modelTemplate snake pascal)

def repositoryLayer : Layer where
  dir := "repositories"
  module snake := snake ++ "_repository"
  symbols _ pascal := [pascal ++ "Repository"]
  template domain snake pascal fields := (parseFields fields).map (repositoryTemplate domain snake pascal)

def schemaLayer : Layer where
  dir := "schemas"
  module snake := snake ++ "_schema"
  symbols _ pascal := ["Create" ++ pascal ++ "Request", "Update" ++ pascal ++ "Request", pascal ++ "Response"]
  template _ _ pascal fields := (parseFields fields).map (schemaTemplate pascal)

def serviceLayer : Layer where
  dir := "services"
  module snake := snake ++ "_service"
  symbols _ pascal := [pascal ++ "Service"]
  template domain snake pascal _ := .ok (serviceTemplate domain snake pascal)

def routeLayer : Layer where
  dir := "routes"
  module snake := snake ++ "_router"
  symbols snake _ := [snake ++ "_router"]
  template domain snake pascal _ := .ok (routeTemplate domain snake pascal)

def generateEntity := generateLayer parse printable entityLayer

def generateModel := generateLayer parse printable modelLayer

def generateRepository := generateLayer parse printable repositoryLayer

def generateSchema := generateLayer parse printable schemaLayer

def generateService := generateLayer parse printable serviceLayer

def generateRoute := generateLayer parse printable routeLayer

/-- `LAYER_GENERATORS` -/
def layerGenerators : List (String → String → String → Scaffolding (List Path)) :=
  [generateEntity parse printable, generateModel parse printable, generateRepository parse printable,
    generateSchema parse printable, generateService parse printable, generateRoute parse printable]

/-- What the generators answer, one after the other. -/
def generateAllLayers (domain name fields : String) :
    List (String → String → String → Scaffolding (List Path)) → Scaffolding (List Path)
  | [] => return []
  | generate :: rest => do
    let paths ← generate domain name fields
    let more ← generateAllLayers domain name fields rest
    return paths ++ more

/-! What wires a domain and its entities. -/

def requiredImports (domain snake pascal : String) : List String :=
  ["from fastapi import Depends", "from sqlalchemy.ext.asyncio import AsyncSession", "from core.database import get_db",
    "from " ++ domain ++ ".repositories." ++ snake ++ "_repository import " ++ pascal ++ "Repository",
    "from " ++ domain ++ ".services." ++ snake ++ "_service import " ++ pascal ++ "Service"]

def renderBlock (snake pascal : String) : String :=
  Lines.unlines
    ["def get_" ++ snake ++ "_repository(db: AsyncSession = Depends(get_db)) -> " ++ pascal ++ "Repository:",
      "    return " ++ pascal ++ "Repository(db)", "", "", "def get_" ++ snake ++ "_service(",
      "    repo: " ++ pascal ++ "Repository = Depends(get_" ++ snake ++ "_repository),", ") -> " ++ pascal ++ "Service:",
      "    return " ++ pascal ++ "Service(repo)"]

/-- `f"def get_{snake}_service(" in content` -/
def hasFactory (snake content : String) : Bool := decide (("def get_" ++ snake ++ "_service(").toList <:+: content.toList)

def generateDependencies (domain name : String) : Scaffolding (List Path) := do
  let (snake, pascal) ← orRaise (resolveNames domain name)
  let path := [domain, "dependencies.py"]
  let existing ← readIfExists path
  let content := existing.getD ""
  if hasFactory snake content then return [path]
  else
    let merged ← orRaise (MergeImports.mergeImports parse content (requiredImports domain snake pascal))
    mkdir path.dropLast
    writeText path (Lines.rstrip merged ++ "\n\n\n" ++ renderBlock snake pascal)
    return [path]

/-- The statement imports the model. -/
def importsModel (domain modelClass : String) : Ast.Stmt → Bool
  | .importFrom _ module names => module = some (domain ++ ".models") && names.any (fun a => a.name = modelClass)
  | _ => false

def modelLine (domain modelClass : String) : String := "from " ++ domain ++ ".models import " ++ modelClass ++ "  # noqa: F401"

def registerModel (domain modelClass : String) : Scaffolding (List Path) := do
  if ← exists_ modelsManifest then
    let content ← readText modelsManifest
    match Ast.body parse content with
    | none => Run.ofExcept (.error (.raised .syntaxError))
    | some stmts =>
      if stmts.any (importsModel domain modelClass) then return []
      else
        writeText modelsManifest (Lines.rstrip content ++ "\n" ++ modelLine domain modelClass ++ "\n")
        return [modelsManifest]
  else return []

def registerRouter (domain routerVar : String) : Scaffolding (List Path) := do
  if ← exists_ apiVersionsFile then
    let text ← readText apiVersionsFile
    match FastiKit.registerRouter domain routerVar text with
    | none => return []
    | some text =>
      writeText apiVersionsFile text
      return [apiVersionsFile]
  else return []

variable (loads : String → Option Toml)

def registerPyproject (domain : String) : Scaffolding (List Path) := do
  let existing ← readIfExists pyprojectFile
  match Pyproject.registerPyproject loads domain existing with
  | none => Run.ofExcept (.error .type)
  | some none => return []
  | some (some content) =>
    writeText pyprojectFile content
    return [pyprojectFile]

def domainLayers : List String := ["entities", "models", "repositories", "schemas", "services", "routes"]

/-- `if not path.exists(): path.parent.mkdir(parents=True, exist_ok=True); path.touch()` -/
def touchInit (path : Path) : Scaffolding Unit := do
  if ← exists_ path then return ()
  else
    mkdir path.dropLast
    writeText path ""

def touchInits (domain : String) : List String → Scaffolding Unit
  | [] => return ()
  | layer :: rest => do
    touchInit [domain, layer, "__init__.py"]
    touchInits domain rest

def touchDependencies (path : Path) : Scaffolding Unit := do
  if ← exists_ path then return ()
  else writeText path ""

def generateDomain (domain : String) : Scaffolding (List Path) := do
  orRaise (validateDomain domain)
  touchInits domain domainLayers
  let dependencies := [domain, "dependencies.py"]
  touchDependencies dependencies
  let more ← registerPyproject loads domain
  return dependencies :: more

/-! Everything for an entity. -/

def generateAll (domain name fields : String) : Scaffolding (List Path) := do
  let (snake, pascal) ← orRaise (resolveNames domain name)
  let paths ← generateDomain loads domain
  let layers ← generateAllLayers domain name fields (layerGenerators parse printable)
  let dependencies ← generateDependencies parse domain name
  let model ← registerModel parse domain (pascal ++ "Model")
  let router ← registerRouter domain (snake ++ "_router")
  return paths ++ layers ++ dependencies ++ model ++ router

end Parsers

/-! The steps. -/

section Steps
variable {α : Type} {t t' : Tree} {path : Path} {text : String} {e : Failure}

theorem orRaise_ok {r : Except Raised α} {a : α} (h : r = .ok a) : orRaise r t = (.ok a, t) := by
  rw [h]
  rfl

theorem orRaise_error {r : Except Raised α} {raised : Raised} (h : r = .error raised) :
    orRaise r t = (.error (.raised raised), t) := by
  rw [h]
  rfl

theorem exists_apply : exists_ path t = (.ok (t.node path).isSome, t) := rfl

theorem readText_file (h : t.node path = some (.file text)) : readText path t = (.ok text, t) := by
  have hlook : (Run.look path : Run Failure (Option Node)) t = (.ok (some (.file text)), t) := by rw [← h]; rfl
  rw [readText, Run.bind_ok hlook]
  rfl

theorem readIfExists_none (h : t.node path = none) : readIfExists path t = (.ok none, t) := by
  rw [readIfExists, Run.bind_ok exists_apply, h]
  rfl

theorem readIfExists_file (h : t.node path = some (.file text)) : readIfExists path t = (.ok (some text), t) := by
  rw [readIfExists, Run.bind_ok exists_apply, h, Option.isSome_some, if_pos rfl, Run.bind_ok (readText_file h)]
  rfl

theorem readIfExists_dir (h : t.node path = some .dir) : readIfExists path t = (.error .os, t) := by
  have hlook : (Run.look path : Run Failure (Option Node)) t = (.ok (some .dir), t) := by rw [← h]; rfl
  have hread : readText path t = (.error .os, t) := by
    rw [readText, Run.bind_ok hlook]
    rfl
  rw [readIfExists, Run.bind_ok exists_apply, h, Option.isSome_some, if_pos rfl, Run.bind_error hread]

/-! What is read and written fails with an `OSError` only. -/

theorem exists_avoids : Avoids (exists_ path) e := fun _ => nofun

theorem readText_avoids {r : Raised} : Avoids (readText path) (.raised r) := by
  apply Avoids.bind' Avoids.look'
  intro node
  split
  · exact Avoids.pure'
  · exact Avoids.ofExcept' nofun

theorem readIfExists_avoids {r : Raised} : Avoids (readIfExists path) (.raised r) := by
  apply Avoids.bind' exists_avoids
  intro found
  apply Avoids.ite'
  · exact Avoids.bind' readText_avoids (fun _ => Avoids.pure')
  · exact Avoids.pure'

theorem writeText_avoids {r : Raised} : Avoids (writeText path text) (.raised r) := Avoids.attempt' nofun

theorem mkdir_avoids {r : Raised} : Avoids (mkdir path) (.raised r) := Avoids.attempt' nofun

theorem orRaise_avoids {r : Except Raised α} {raised : Raised} (h : r ≠ .error raised) : Avoids (orRaise r) (.raised raised) := by
  apply Avoids.ofExcept'
  cases r with
  | ok a => exact nofun
  | error other =>
    intro heq
    exact h (congrArg Except.error (Failure.raised.inj (Except.error.inj heq)))

theorem writeText_ok (h : writeText path text t = (.ok (), t')) :
    ∀ q, t'.node q = if q = path then some (.file text) else t.node q := by
  unfold writeText Run.attempt at h
  split at h
  · next t₁ hwrite =>
    obtain rfl := (Prod.mk.inj h).2
    exact fun q => Tree.node_write hwrite
  · cases h

theorem mkdir_ok (h : mkdir path t = (.ok (), t')) :
    Tree.Kept t t' ∧ (∀ q, ¬ q <+: path → t'.node q = t.node q) ∧ t'.node path = some .dir := by
  unfold mkdir Run.attempt at h
  split at h
  · next t₁ hmkdir =>
    obtain rfl := (Prod.mk.inj h).2
    exact Tree.mkdir_some hmkdir
  · cases h

end Steps

end FastiKit.Scaffold.CreateAll
