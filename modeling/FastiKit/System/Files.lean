import Mathlib.Data.List.Basic
import Mathlib.Logic.Relation

/- Directories and text files below a working directory, and programs that change them
   and may fail on the way: what such a program leaves when it fails is part of what it
   does. The rules below are for two things one asks of a program: that it changes nothing
   (`Idle`), and what it never fails with (`Avoids`). How a tree can change is said node by
   node (`Along`). -/
namespace Files

/-- The names from the working directory down. -/
abbrev Path := List String

inductive Node where
  | dir
  | file (text : String)
  deriving DecidableEq, Repr

/-- What there is; it is in directories. -/
@[ext]
structure Tree where
  node : Path → Option Node
  root : node [] = some .dir
  parent : ∀ {path}, node path ≠ none → node path.dropLast = some .dir

namespace Tree
variable {t t' : Tree} {path q : Path} {n : Node} {text : String}

/-- A node that is new, or another file. -/
def put (t : Tree) (path : Path) (n : Node) (hdir : t.node path.dropLast = some .dir) (hnot : t.node path ≠ some .dir) : Tree where
  node q := if q = path then some n else t.node q
  root := by
    have hne : [] ≠ path := by
      intro h
      rw [← h] at hnot
      exact hnot t.root
    rw [if_neg hne, t.root]
  parent := by
    intro q hq
    have hkept : ∀ p, t.node p = some .dir → (if p = path then some n else t.node p) = some .dir := by
      intro p hp
      have hne : p ≠ path := by
        intro h
        rw [h] at hp
        exact hnot hp
      rw [if_neg hne, hp]
    apply hkept
    by_cases h : q = path
    · rw [h, hdir]
    · rw [if_neg h] at hq
      exact t.parent hq

/-- `open(path, "w")` and a text. -/
def write (t : Tree) (path : Path) (text : String) : Option Tree :=
  if h : t.node path.dropLast = some .dir ∧ t.node path ≠ some .dir then some (t.put path (.file text) h.1 h.2) else none

/-- `path.mkdir(exist_ok=True)` -/
def makeDir (t : Tree) (path : Path) : Option Tree :=
  if t.node path = some .dir then some t
  else if h : t.node path.dropLast = some .dir ∧ t.node path = none then some (t.put path .dir h.1 (by simp [h.2]))
  else none

/-- The directories for these names, one in the other. -/
def makeDirs (t : Tree) (path : Path) : List String → Option Tree
  | [] => some t
  | name :: names => (t.makeDir (path ++ [name])).bind (fun t => t.makeDirs (path ++ [name]) names)

/-- `path.mkdir(parents=True, exist_ok=True)` -/
def mkdir (t : Tree) (path : Path) : Option Tree := t.makeDirs [] path

/-- Each node goes from what it is in `t` to what it is in `t'` in steps of `R`. -/
def Along (R : Path → Option Node → Option Node → Prop) (t t' : Tree) : Prop :=
  ∀ q, Relation.ReflTransGen (R q) (t.node q) (t'.node q)

/-- There is a file whose text is so. -/
def Has (t : Tree) (path : Path) (P : String → Prop) : Prop := ∃ text, t.node path = some (.file text) ∧ P text

/-- What is there stays. -/
def Kept (t t' : Tree) : Prop := ∀ q, t.node q ≠ none → t'.node q = t.node q

theorem node_put {hdir : t.node path.dropLast = some .dir} {hnot : t.node path ≠ some .dir} :
    (t.put path n hdir hnot).node q = if q = path then some n else t.node q := rfl

theorem node_write (h : t.write path text = some t') : t'.node q = if q = path then some (.file text) else t.node q := by
  unfold write at h
  split at h
  · obtain rfl := Option.some.inj h
    rfl
  · cases h

section Along
variable {R : Path → Option Node → Option Node → Prop} {t'' : Tree}

theorem Along.refl : Along R t t := fun _ => .refl

theorem Along.trans (h : Along R t t') (h' : Along R t' t'') : Along R t t'' := fun q => (h q).trans (h' q)

theorem Along.mono {S : Path → Option Node → Option Node → Prop} (h : Along R t t')
    (hsteps : ∀ {q old new}, R q old new → S q old new) : Along S t t' :=
  fun q => Relation.ReflTransGen.mono (fun _ _ => hsteps) _ _ (h q)

/-- A file is written in a step. -/
theorem Along.write (hnode : ∀ q, t'.node q = if q = path then some (.file text) else t.node q)
    (h : R path (t.node path) (some (.file text))) : Along R t t' := by
  intro q
  rw [hnode]
  split
  · next hq =>
    rw [hq]
    exact .single h
  · exact .refl

/-- What the steps at a path preserve. -/
theorem Along.invariant (h : Along R t t') {P : Option Node → Prop} (hstep : ∀ {old new}, R path old new → P old → P new)
    (hbefore : P (t.node path)) : P (t'.node path) := by
  have hpath := h path
  generalize t'.node path = after at hpath ⊢
  induction hpath with
  | refl => exact hbefore
  | tail _ hlast ih => exact hstep hlast ih

/-- What the steps at a path preserve of a file. -/
theorem Along.has (h : Along R t t') {P : String → Prop}
    (hstep : ∀ {text new}, R path (some (.file text)) new → P text → ∃ text', new = some (.file text') ∧ P text')
    (hbefore : t.Has path P) : t'.Has path P := by
  have hfile : ∀ {old new}, R path old new → (∃ text, old = some (Node.file text) ∧ P text) → ∃ text, new = some (.file text) ∧ P text := by
    intro old new hchange ⟨text, hold, htext⟩
    rw [hold] at hchange
    exact hstep hchange htext
  exact h.invariant hfile hbefore

end Along

theorem Has.imp {P Q : String → Prop} (h : t.Has path P) (hPQ : ∀ text, P text → Q text) : t.Has path Q := by
  obtain ⟨text, hnode, htext⟩ := h
  exact ⟨text, hnode, hPQ text htext⟩

/-- The same text again. -/
theorem write_same (h : t.node path = some (.file text)) : t.write path text = some t := by
  have hne : t.node path ≠ none := by simp [h]
  rw [write, dif_pos ⟨t.parent hne, by simp [h]⟩, Option.some.injEq]
  ext1
  funext q
  rw [node_put]
  split
  · next hq => rw [hq, h]
  · rfl

theorem makeDir_some (h : t.makeDir path = some t') :
    Kept t t' ∧ (∀ q, q ≠ path → t'.node q = t.node q) ∧ t'.node path = some .dir := by
  unfold makeDir at h
  split at h
  · next hdir =>
    obtain rfl := Option.some.inj h
    exact ⟨fun _ _ => rfl, fun _ _ => rfl, hdir⟩
  · split at h
    · next hdir =>
      obtain rfl := Option.some.inj h
      refine ⟨?_, fun q hq => if_neg hq, if_pos rfl⟩
      intro q hq
      rw [node_put, if_neg]
      intro heq
      rw [heq] at hq
      exact hq hdir.2
    · cases h

theorem makeDirs_some {names : List String} (h : t.makeDirs path names = some t') (hdir : t.node path = some .dir) :
    Kept t t' ∧ (∀ q, ¬ q <+: path ++ names → t'.node q = t.node q) ∧ t'.node (path ++ names) = some .dir := by
  induction names generalizing t path with
  | nil =>
    obtain rfl := Option.some.inj h
    exact ⟨fun _ _ => rfl, fun _ _ => rfl, by rw [List.append_nil, hdir]⟩
  | cons name names ih =>
    obtain ⟨t₁, hmake, hrest⟩ := Option.bind_eq_some_iff.mp h
    obtain ⟨hkept, hother, hmade⟩ := makeDir_some hmake
    obtain ⟨hkept', hother', hmade'⟩ := ih hrest hmade
    have hpath : path ++ [name] ++ names = path ++ name :: names := by simp
    rw [hpath] at hother' hmade'
    refine ⟨?_, ?_, hmade'⟩
    · intro q hq
      rw [hkept' q (by rwa [hkept q hq]), hkept q hq]
    · intro q hq
      rw [hother' q hq]
      apply hother
      intro heq
      apply hq
      rw [heq, ← hpath]
      exact List.prefix_append _ _

theorem mkdir_some (h : t.mkdir path = some t') :
    Kept t t' ∧ (∀ q, ¬ q <+: path → t'.node q = t.node q) ∧ t'.node path = some .dir := by
  have hdirs := makeDirs_some h t.root
  rwa [List.nil_append] at hdirs

/-- What is above something is a directory. -/
theorem dir_of_append {names : List String} (hne : names ≠ []) (h : t.node (path ++ names) ≠ none) : t.node path = some .dir := by
  induction names generalizing path with
  | nil => exact absurd rfl hne
  | cons name names ih =>
    have hname : t.node (path ++ [name]) ≠ none := by
      by_cases hnames : names = []
      · rwa [hnames] at h
      · rw [List.append_cons] at h
        simp [ih hnames h]
    have hparent := t.parent hname
    rwa [List.dropLast_concat] at hparent

theorem makeDirs_of_dir {names : List String} (h : t.node (path ++ names) = some .dir) : t.makeDirs path names = some t := by
  induction names generalizing path with
  | nil => rfl
  | cons name names ih =>
    have hpath : path ++ [name] ++ names = path ++ name :: names := by simp
    rw [← hpath] at h
    have hname : t.node (path ++ [name]) = some .dir := by
      by_cases hnames : names = []
      · rwa [hnames, List.append_nil] at h
      · apply dir_of_append hnames
        rw [h]
        exact Option.some_ne_none _
    rw [makeDirs, makeDir, if_pos hname, Option.bind_some, ih h]

theorem mkdir_of_dir (h : t.node path = some .dir) : t.mkdir path = some t := makeDirs_of_dir h

end Tree

/-! Programs. -/

/-- What a program gives or fails with, and the tree it leaves. -/
def Run (ε α : Type) := Tree → Except ε α × Tree

namespace Run
variable {ε α β : Type}

instance : Monad (Run ε) where
  pure a := fun t => (.ok a, t)
  bind x f := fun t =>
    match x t with
    | (.ok a, t') => f a t'
    | (.error e, t') => (.error e, t')

/-- A change that may fail, with this exception. -/
def attempt (e : ε) (change : Tree → Option Tree) : Run ε Unit := fun t =>
  match change t with
  | some t' => (.ok (), t')
  | none => (.error e, t)

/-- What is there at a path. -/
def look (path : Path) : Run ε (Option Node) := fun t => (.ok (t.node path), t)

def ofExcept (r : Except ε α) : Run ε α := fun t => (r, t)

variable {x : Run ε α} {f : α → Run ε β} {t t' t'' : Tree} {a : α} {b : β} {e : ε}

theorem pure_apply : (pure a : Run ε α) t = (.ok a, t) := rfl

theorem bind_ok (h : x t = (.ok a, t')) : (x >>= f) t = f a t' := by
  simp only [bind, h]

theorem bind_error (h : x t = (.error e, t')) : (x >>= f) t = (.error e, t') := by
  simp only [bind, h]

/-- What succeeds does so in each of its parts. -/
theorem of_bind_ok (h : (x >>= f) t = (.ok b, t'')) : ∃ a t', x t = (.ok a, t') ∧ f a t' = (.ok b, t'') := by
  cases hx : x t with
  | mk r t₁ =>
    cases r with
    | error e =>
      rw [bind_error hx] at h
      cases h
    | ok a =>
      rw [bind_ok hx] at h
      exact ⟨a, t₁, rfl, h⟩

/-! It changes nothing. -/

/-- `x` leaves the tree as it is. -/
def Idle (x : Run ε α) (t : Tree) : Prop := (x t).2 = t

namespace Idle

theorem pure' : Idle (pure a : Run ε α) t := rfl

theorem ofExcept' {r : Except ε α} : Idle (ofExcept r) t := rfl

theorem attempt' {change : Tree → Option Tree} (h : ∀ t', change t = some t' → t' = t) : Idle (attempt e change) t := by
  unfold Idle attempt
  split
  · next t' ht' => exact h t' ht'
  · rfl

theorem bind' (hx : Idle x t) (hf : ∀ a, x t = (.ok a, t) → Idle (f a) t) : Idle (x >>= f) t := by
  cases h : x t with
  | mk r t₁ =>
    obtain rfl : t₁ = t := by
      have := hx
      rwa [Idle, h] at this
    cases r with
    | error e => rw [Idle, bind_error h]
    | ok a =>
      rw [Idle, bind_ok h]
      exact hf a h

theorem bind_ok (hx : x t = (.ok a, t)) (hf : Idle (f a) t) : Idle (x >>= f) t := by
  rw [Idle, Run.bind_ok hx]
  exact hf

theorem ite' {c : Prop} [Decidable c] {y : Run ε α} (hx : c → Idle x t) (hy : ¬ c → Idle y t) : Idle (if c then x else y) t := by
  split
  · next h => exact hx h
  · next h => exact hy h

end Idle

/-! What it does not fail with. -/

/-- `x` does not fail with `e`, in any tree. -/
def Avoids (x : Run ε α) (e : ε) : Prop := ∀ t, (x t).1 ≠ .error e

namespace Avoids

theorem pure' : Avoids (pure a : Run ε α) e := fun _ => nofun

theorem look' {path : Path} : Avoids (look path : Run ε (Option Node)) e := fun _ => nofun

theorem attempt' {change : Tree → Option Tree} {e' : ε} (h : e' ≠ e) : Avoids (attempt e' change) e := by
  intro t heq
  unfold attempt at heq
  split at heq
  · cases heq
  · exact h (Except.error.inj heq)

theorem ofExcept' {r : Except ε α} (h : r ≠ .error e) : Avoids (ofExcept r) e := fun _ => h

theorem bind' (hx : Avoids x e) (hf : ∀ a, Avoids (f a) e) : Avoids (x >>= f) e := by
  intro t heq
  cases h : x t with
  | mk r t₁ =>
    cases r with
    | error e' =>
      rw [bind_error h] at heq
      refine hx t ?_
      rw [h, Except.error.inj heq]
    | ok a =>
      rw [bind_ok h] at heq
      exact hf a t₁ heq

theorem ite' {c : Prop} [Decidable c] {y : Run ε α} (hx : Avoids x e) (hy : Avoids y e) : Avoids (if c then x else y) e := by
  split
  · exact hx
  · exact hy

end Avoids

end Run

end Files
