import Mathlib
import FastiKit.Language.Words

/- What the scaffolding commands accept: a domain, the name of an entity, and a
   specification of its fields.

   Correspondence (Python ↔ Lean):
     `to_snake_case`, `to_pascal_case`      ↔ `toSnakeCase`, `toPascalCase`
     `validate_domain`, `resolve_names`     ↔ `validateDomain`, `resolveNames`
     `parse_fields`                         ↔ `parseFields`
     `_IDENTIFIER.match`                    ↔ `matchesIdentifier`
   `str.lower` is given where it makes an ASCII letter; a name with any other
   character outside ASCII is refused however that is lowered. -/
namespace FastiKit.Scaffold
open Words

/-- The exceptions the scaffolding raises. -/
inductive Raised where
  | valueError (message : String)
  | syntaxError
  deriving DecidableEq, Repr

/-! Names. -/

/-- `_ACRONYM_BOUNDARY.sub("_", name)`: between a capital and a capitalized word. -/
def acronymBoundary : List Char → List Char
  | a :: b :: c :: rest =>
    if a.isUpper && b.isUpper && c.isLower then a :: '_' :: acronymBoundary (b :: c :: rest)
    else a :: acronymBoundary (b :: c :: rest)
  | rest => rest

/-- `_CAMEL_BOUNDARY.sub("_", name)`: between a lowercase letter or a digit and a capital. -/
def camelBoundary : List Char → List Char
  | a :: b :: rest =>
    if (a.isLower || a.isDigit) && b.isUpper then a :: '_' :: camelBoundary (b :: rest)
    else a :: camelBoundary (b :: rest)
  | rest => rest

/-- `c.lower()`; the Kelvin sign is the one other character with an ASCII lowercase. -/
def lower (c : Char) : Char := if c = '\u212a' then 'k' else c.toLower

def isUnderscore (c : Char) : Bool := c = '_'

/-- `s.strip("_")` -/
def stripUnderscores (s : List Char) : List Char := (s.dropWhile isUnderscore).rdropWhile isUnderscore

def toSnakeCase (name : String) : String :=
  let normalized := name.toList.map (fun c => if c = '-' ∨ c = ' ' then '_' else c)
  String.ofList (stripUnderscores ((camelBoundary (acronymBoundary normalized)).map lower))

/-- `part.capitalize()` -/
def capitalize : List Char → List Char
  | [] => []
  | c :: rest => c.toUpper :: rest.map lower

def toPascalCase (name : String) : String :=
  String.ofList (((toSnakeCase name).toList.splitOnP isUnderscore).flatMap capitalize)

def isIdentifierChar (c : Char) : Bool := c.isLower || c.isDigit || c = '_'

theorem isLower_iff {c : Char} : c.isLower = true ↔ 97 ≤ c.toNat ∧ c.toNat ≤ 122 := by
  simp [Char.isLower, UInt32.le_iff_toNat_le, ← Char.toNat_val]

theorem isUpper_iff {c : Char} : c.isUpper = true ↔ 65 ≤ c.toNat ∧ c.toNat ≤ 90 := by
  simp [Char.isUpper, UInt32.le_iff_toNat_le, ← Char.toNat_val]

theorem isDigit_iff {c : Char} : c.isDigit = true ↔ 48 ≤ c.toNat ∧ c.toNat ≤ 57 := by
  simp [Char.isDigit, UInt32.le_iff_toNat_le, ← Char.toNat_val]

/-- The regular expression `^[a-z][a-z0-9_]*$`, whose end is also before a last newline. -/
def matchesIdentifier (s : String) : Bool :=
  match s.toList with
  | [] => false
  | c :: rest => c.isLower && (rest.all isIdentifierChar || (rest.getLast? = some '\n' && rest.dropLast.all isIdentifierChar))

def reservedDomains : List String := ["alembic", "core", "docs", "main", "scripts", "tests"]

def validateDomain (domain : String) : Except Raised Unit :=
  if !matchesIdentifier domain then
    .error (.valueError ("Domain '" ++ domain ++
      "' must be lowercase snake_case (letters, digits, underscores), e.g. 'inventory'."))
  else if domain ∈ reservedDomains then
    .error (.valueError ("'" ++ domain ++ "' is a reserved top-level name, not a domain."))
  else .ok ()

/-- The snake and Pascal forms of a name. -/
def resolveNames (domain name : String) : Except Raised (String × String) :=
  match validateDomain domain with
  | .error raised => .error raised
  | .ok () =>
    if !matchesIdentifier (toSnakeCase name) then
      .error (.valueError ("Name '" ++ name ++ "' can't become a Python identifier, e.g. use 'order_item'."))
    else .ok (toSnakeCase name, toPascalCase name)

def pluralize (word : String) : String := if word.toList.getLast? = some 's' then word else word ++ "s"

/-! Fields. -/

structure Field where
  name : String
  type : String
  default : Option String
  pyType : String
  sqlaType : String
  deriving DecidableEq, Repr

/-- `TYPE_MAPPING.get(type, TYPE_MAPPING["str"])`, the Python and the SQLAlchemy type. -/
def typeMapping (type : String) : String × String :=
  match type with
  | "int" => ("int", "Integer")
  | "float" => ("float", "Float")
  | "bool" => ("bool", "Boolean")
  | "uuid" => ("uuid.UUID", "UUID(as_uuid=True)")
  | _ => ("str", "String")

def baseFields : List String := ["id", "created_at", "updated_at", "is_active"]

/-- `s.strip()` -/
def strip (s : List Char) : List Char := (s.dropWhile isSpace).rdropWhile isSpace

/-- An item of the specification, `none` if it is a base field. -/
def parseField (item : List Char) : Except Raised (Option Field) :=
  let declared := item.takeWhile (· ≠ '=')
  let default := (item.dropWhile (· ≠ '=')).tail
  match declared.splitOn ':' with
  | [name, type] =>
    let name := String.ofList (strip name)
    let type := String.ofList (strip type)
    if name ∈ baseFields then .ok none
    else
      .ok (some
        { name, type, default := if default = [] then none else some (String.ofList (strip default))
          pyType := (typeMapping type).1, sqlaType := (typeMapping type).2 })
  | [_] => .error (.valueError "not enough values to unpack (expected 2, got 1)")
  | _ => .error (.valueError "too many values to unpack (expected 2)")

def parseItems : List (List Char) → Except Raised (List Field)
  | [] => .ok []
  | item :: rest =>
    if strip item = [] then parseItems rest
    else
      match parseField (strip item) with
      | .error raised => .error raised
      | .ok none => parseItems rest
      | .ok (some field) =>
        match parseItems rest with
        | .error raised => .error raised
        | .ok fields => .ok (field :: fields)

def parseFields (fields : String) : Except Raised (List Field) :=
  if fields = "" then .ok [] else parseItems (fields.toList.splitOn ',')

end FastiKit.Scaffold
