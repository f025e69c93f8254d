import FastiKit.Language.Ast

/- A parser of small modules: from-imports, plain or in parentheses, assignments to a
   name, and the routers `v1_router` includes, a statement to a line unless parentheses
   are open. Of a value that is assigned and of further arguments it looks for the
   names only. It is a lawful parser. -/
namespace Ast
open Lines

def isWordChar (c : Char) : Bool := c.isAlphanum || c = '_' || c = '.'

def word (current : List Char) : List String := if current = [] then [] else [String.ofList current.reverse]

/-- The words and signs of a line, up to a comment, the first of them begun with
`current`, last character first. -/
def tokens (current : List Char) : List Char → List String
  | [] => word current
  | c :: rest =>
    if isWordChar c then tokens (c :: current) rest
    else if c = ' ' then word current ++ tokens [] rest
    else if c = '#' then word current
    else word current ++ String.singleton c :: tokens [] rest

/-- How many parentheses are open after a line. -/
def opened (depth : Nat) : List String → Option Nat
  | [] => some depth
  | "(" :: rest => opened (depth + 1) rest
  | ")" :: rest => if depth = 0 then none else opened (depth - 1) rest
  | _ :: rest => opened depth rest

def isName (s : String) : Bool :=
  !(s.toList.contains '.') && s.toList.all isWordChar && !(["", "from", "import", "class", "as"].contains s)

def aliases : List String → Option (List Alias)
  | [] => some []
  | [name] => if isName name then some [⟨name, none⟩] else none
  | name :: "," :: rest => if isName name then (aliases rest).map (⟨name, none⟩ :: ·) else none
  | _ => none

def importedNames : List String → Option (List Alias)
  | "(" :: rest => if rest.getLast? = some ")" then aliases rest.dropLast else none
  | [] => none
  | names => if names.getLast? = some "," then none else aliases names

/-- The names in an expression: no string, and not the name of a keyword. -/
def mentioned (quoted : Bool) : List String → List String
  | [] => []
  | "\"" :: rest => mentioned (!quoted) rest
  | _ :: "=" :: rest => mentioned quoted rest
  | word :: rest => if !quoted && isName word then word :: mentioned quoted rest else mentioned quoted rest

/-- A statement, and before it what its other expressions mention. -/
def withMentions (words : List String) (stmt : Stmt) : List Stmt :=
  match mentioned false words with
  | [] => [stmt]
  | names => [.other [] names, stmt]

/-- The statement on a line, none on an empty one. -/
def statement : List String → Option (List Stmt)
  | [] => some []
  | "from" :: module :: "import" :: names => (importedNames names).map (fun names => [.importFrom 0 (some module) names])
  | name :: "=" :: first :: value =>
    if isName name then some (withMentions (first :: value) (.assign [name] none)) else none
  | ["v1_router.include_router", "(", name, ")"] =>
    if isName name then some [.call "v1_router" "include_router" [some name] []] else none
  | _ => none

end Ast
