import FastiKit.Language.Lines

/- Python's parser, as far as programs ask it about a module: which statements its
   body has, which names they import and bind, and where they end. The parser itself
   is a parameter; `Lawful` says of it what the grammar says of any two modules: one
   can follow the other, and a last newline changes nothing. -/
namespace Ast

/-- A name that is imported, and the name it is bound to. -/
structure Alias where
  name : String
  asname : Option String
  deriving DecidableEq, Repr

def Alias.bound (a : Alias) : String := a.asname.getD a.name

/-- A statement of a module's body. `assign` has the names among its targets and, if
the value is a list or a tuple, its elements: `some` of a string constant, `none` of
anything else. `call` is an expression statement that calls a method of a name, with
its arguments and its keywords, each with the name that is given, if it is one.
`constant` is an expression statement that is a constant, `other` any other statement:
the names it binds, and the names it mentions in whatever is nested in it, attributes
and names it imports among them. What the other expressions of an `assign` or a `call`
bind and mention is an `other` before it. -/
inductive Stmt where
  | importFrom (level : Nat) (module : Option String) (names : List Alias)
  | importNames (names : List Alias)
  | assign (targets : List String) (elements : Option (List (Option String)))
  | call (receiver method : String) (arguments : List (Option String)) (keywords : List (String × Option String))
  | constant
  | other (binds mentions : List String)
  deriving DecidableEq, Repr

/-- A name, or what `import *` brings from a module. -/
inductive Binding where
  | name (name : String)
  | star (level : Nat) (module : Option String)
  deriving DecidableEq, Repr

def bindings : Stmt → List Binding
  | .importFrom level module names => names.map (fun a => if a.name = "*" then .star level module else .name a.bound)
  | .importNames names =>
    names.map (fun a => .name (a.asname.getD (String.ofList (a.name.toList.takeWhile (· ≠ '.')))))
  | .assign targets _ => targets.map .name
  | .call .. => []
  | .constant => []
  | .other names _ => names.map .name

/-- A statement and the line it ends in. -/
structure Node where
  stmt : Stmt
  endLine : Nat
  deriving DecidableEq, Repr

/-- `ast.parse`, which raises a `SyntaxError` where it answers `none`. -/
abbrev Parser := String → Option (List Node)

variable (parse : Parser)

/-- The statements of a text, if it is a module. -/
def body (text : String) : Option (List Stmt) := (parse text).map (List.map Node.stmt)

/-- A module that ends its last line can be followed by another, and a module can end
its last line. -/
structure Lawful : Prop where
  append : ∀ {a b : String} {A B : List Stmt}, body parse (a ++ "\n") = some A → body parse b = some B →
    body parse (a ++ "\n" ++ b) = some (A ++ B)
  newline : ∀ {a : String} {A : List Stmt}, body parse a = some A → body parse (a ++ "\n") = some A

/-- The statements of some lines, each with its newline. -/
def bodyOf (lines : List String) : Option (List Stmt) :=
  if lines = [] then some [] else body parse (Lines.unlines lines)

variable {parse}

theorem bodyOf_nil : bodyOf parse [] = some [] := rfl

theorem bodyOf_singleton (lawful : Lawful parse) {line : String} {stmts : List Stmt} (h : body parse line = some stmts) :
    bodyOf parse [line] = some stmts := by
  rw [bodyOf, if_neg (List.cons_ne_nil _ _)]
  exact lawful.newline h

theorem bodyOf_append (lawful : Lawful parse) {xs ys : List String} {A B : List Stmt}
    (hxs : bodyOf parse xs = some A) (hys : bodyOf parse ys = some B) : bodyOf parse (xs ++ ys) = some (A ++ B) := by
  unfold bodyOf at *
  by_cases hx : xs = []
  · rw [if_pos hx] at hxs
    obtain rfl : A = [] := by simpa using hxs.symm
    rw [hx]
    exact hys
  · by_cases hy : ys = []
    · rw [if_pos hy] at hys
      obtain rfl : B = [] := by simpa using hys.symm
      rw [hy, List.append_nil, List.append_nil]
      exact hxs
    · rw [if_neg hx] at hxs
      rw [if_neg hy] at hys
      rw [if_neg (by simp [hx]), Lines.unlines_append hx hy]
      exact lawful.append hxs hys

/-- What a text with its own lines says is what its lines say. -/
theorem bodyOf_splitlines (lawful : Lawful parse) {text : String} {A : List Stmt} (hparse : body parse text = some A)
    (hlines : text = Lines.unlines (Lines.splitlines text) ∨ text ++ "\n" = Lines.unlines (Lines.splitlines text))
    (hne : Lines.splitlines text ≠ []) : bodyOf parse (Lines.splitlines text) = some A := by
  rw [bodyOf, if_neg hne]
  cases hlines with
  | inl h =>
    rw [← h]
    exact hparse
  | inr h =>
    rw [← h]
    exact lawful.newline hparse

end Ast
