import Mathlib.Logic.Relation

/- Programs over atomic operations. A program either has an outcome (a value or
   an exception) or calls one operation and continues with its answer. What an
   operation does is not part of the program: `eval` takes the operations'
   meaning as a parameter and runs a program alone, and `Pool` interleaves any
   number of programs, one operation at a time. -/
namespace Interleave

/-- A program over operations `Op` with answers `Res`, exceptions `ε` and
value `α`. -/
inductive Prog (Op : Type) (Res : Op → Type) (ε α : Type) where
  | ret (a : α)
  | raise (e : ε)
  | call (op : Op) (k : Res op → Prog Op Res ε α)

namespace Prog
variable {Op : Type} {Res : Op → Type} {ε α β σ : Type}

def bind : Prog Op Res ε α → (α → Prog Op Res ε β) → Prog Op Res ε β
  | .ret a, f => f a
  | .raise e, _ => .raise e
  | .call op k, f => .call op (fun r => (k r).bind f)

def tryCatch : Prog Op Res ε α → (ε → Prog Op Res ε α) → Prog Op Res ε α
  | .ret a, _ => .ret a
  | .raise e, h => h e
  | .call op k, h => .call op (fun r => (k r).tryCatch h)

instance : Monad (Prog Op Res ε) where
  pure := .ret
  bind := bind

instance : MonadExceptOf ε (Prog Op Res ε) where
  throw := .raise
  tryCatch := tryCatch

theorem bind_ret (p : Prog Op Res ε α) : p.bind .ret = p := by
  induction p with
  | ret a => rfl
  | raise e => rfl
  | call op k ih => exact congrArg (Prog.call op) (funext ih)

theorem bind_bind (p : Prog Op Res ε α) (f : α → Prog Op Res ε β) {γ : Type} (g : β → Prog Op Res ε γ) :
    (p.bind f).bind g = p.bind (fun a => (f a).bind g) := by
  induction p with
  | ret a => rfl
  | raise e => rfl
  | call op k ih => exact congrArg (Prog.call op) (funext ih)

instance : LawfulMonad (Prog Op Res ε) :=
  LawfulMonad.mk' _ (fun p => bind_ret p) (fun _ _ => rfl) (fun p f g => bind_bind p f g)

/-- One operation as a program. -/
def perform (op : Op) : Prog Op Res ε (Res op) := .call op .ret

/-- The outcome of a program that has no operation left to call. -/
def outcome : Prog Op Res ε α → Option (Except ε α)
  | .ret a => some (.ok a)
  | .raise e => some (.error e)
  | .call _ _ => none

/-- The operation a program calls next. -/
def next : Prog Op Res ε α → Option Op
  | .call op _ => some op
  | _ => none

/-- Every operation the program can call satisfies `Q` and every outcome it can
have `L`, whatever the answers. -/
def Uses (Q : Op → Prop) (L : Except ε α → Prop) : Prog Op Res ε α → Prop
  | .ret a => L (.ok a)
  | .raise e => L (.error e)
  | .call op k => Q op ∧ ∀ r, (k r).Uses Q L

/-- Run a program alone: no other program touches the state between two of
its operations. -/
def eval (exec : (op : Op) → σ → Res op × σ) : Prog Op Res ε α → σ → Except ε α × σ
  | .ret a, s => (.ok a, s)
  | .raise e, s => (.error e, s)
  | .call op k, s => (k (exec op s).1).eval exec (exec op s).2

@[simp] theorem pure_eq (a : α) : (pure a : Prog Op Res ε α) = .ret a := rfl

@[simp] theorem throw_eq (e : ε) : (throw e : Prog Op Res ε α) = .raise e := rfl

@[simp] theorem ret_bind (a : α) (f : α → Prog Op Res ε β) : (.ret a : Prog Op Res ε α) >>= f = f a := rfl

@[simp] theorem raise_bind (e : ε) (f : α → Prog Op Res ε β) :
    (.raise e : Prog Op Res ε α) >>= f = .raise e := rfl

@[simp] theorem call_bind (op : Op) (k : Res op → Prog Op Res ε α) (f : α → Prog Op Res ε β) :
    (.call op k : Prog Op Res ε α) >>= f = .call op (fun r => k r >>= f) := rfl

@[simp] theorem perform_bind (op : Op) (f : Res op → Prog Op Res ε β) :
    (perform op : Prog Op Res ε (Res op)) >>= f = .call op f := rfl

@[simp] theorem ite_bind (c : Prop) [Decidable c] (p q : Prog Op Res ε α) (f : α → Prog Op Res ε β) :
    (if c then p else q) >>= f = if c then p >>= f else q >>= f := by
  split <;> rfl

@[simp] theorem ret_tryCatch (a : α) (h : ε → Prog Op Res ε α) :
    (tryCatchThe ε (.ret a : Prog Op Res ε α) h) = .ret a := rfl

@[simp] theorem raise_tryCatch (e : ε) (h : ε → Prog Op Res ε α) :
    (tryCatchThe ε (.raise e : Prog Op Res ε α) h) = h e := rfl

@[simp] theorem call_tryCatch (op : Op) (k : Res op → Prog Op Res ε α) (h : ε → Prog Op Res ε α) :
    (tryCatchThe ε (.call op k : Prog Op Res ε α) h) = .call op (fun r => tryCatchThe ε (k r) h) := rfl

section Uses
variable {Q : Op → Prop}

@[simp] theorem uses_ret (L : Except ε α → Prop) (a : α) :
    (.ret a : Prog Op Res ε α).Uses Q L ↔ L (.ok a) := Iff.rfl

@[simp] theorem uses_raise (L : Except ε α → Prop) (e : ε) :
    (.raise e : Prog Op Res ε α).Uses Q L ↔ L (.error e) := Iff.rfl

@[simp] theorem uses_call (L : Except ε α → Prop) (op : Op) (k : Res op → Prog Op Res ε α) :
    (.call op k : Prog Op Res ε α).Uses Q L ↔ Q op ∧ ∀ r, (k r).Uses Q L := Iff.rfl

/-- What `p` followed by `f` can do is what `p` can do, and `f` where `p`
returns. -/
theorem uses_bind (L : Except ε β → Prop) (f : α → Prog Op Res ε β) (p : Prog Op Res ε α) :
    (p >>= f).Uses Q L ↔ p.Uses Q (fun out => match out with
      | .ok a => (f a).Uses Q L
      | .error e => L (.error e)) := by
  induction p with
  | ret a => rfl
  | raise e => rfl
  | call op k ih => exact and_congr_right fun _ => forall_congr' fun r => ih r

theorem uses_tryCatch (L : Except ε α → Prop) (h : ε → Prog Op Res ε α) (p : Prog Op Res ε α) :
    (tryCatchThe ε p h).Uses Q L ↔ p.Uses Q (fun out => match out with
      | .ok a => L (.ok a)
      | .error e => (h e).Uses Q L) := by
  induction p with
  | ret a => rfl
  | raise e => rfl
  | call op k ih => exact and_congr_right fun _ => forall_congr' fun r => ih r

theorem Uses.mono {Q' : Op → Prop} {L L' : Except ε α → Prop} (hQ : ∀ op, Q op → Q' op)
    (hL : ∀ out, L out → L' out) {p : Prog Op Res ε α} (h : p.Uses Q L) : p.Uses Q' L' := by
  induction p with
  | ret a => exact hL _ h
  | raise e => exact hL _ h
  | call op k ih => exact ⟨hQ op h.1, fun r => ih r (h.2 r)⟩

end Uses

section Eval
variable (exec : (op : Op) → σ → Res op × σ)

@[simp] theorem eval_ret (a : α) (s : σ) : (.ret a : Prog Op Res ε α).eval exec s = (.ok a, s) := rfl

@[simp] theorem eval_raise (e : ε) (s : σ) :
    (.raise e : Prog Op Res ε α).eval exec s = (.error e, s) := rfl

@[simp] theorem eval_call (op : Op) (k : Res op → Prog Op Res ε α) (s : σ) :
    (.call op k : Prog Op Res ε α).eval exec s = (k (exec op s).1).eval exec (exec op s).2 := rfl

/-- Running `p` and then `f`: an exception of `p` skips `f`. -/
theorem eval_bind (p : Prog Op Res ε α) (f : α → Prog Op Res ε β) (s : σ) :
    (p >>= f).eval exec s =
      match p.eval exec s with
      | (.ok a, s') => (f a).eval exec s'
      | (.error e, s') => (.error e, s') := by
  induction p generalizing s with
  | ret a => rfl
  | raise e => rfl
  | call op k ih => exact ih (exec op s).1 (exec op s).2

/-- What every operation of a program does to the state, the program does. -/
theorem eval_rel {Q : Op → Prop} {L : Except ε α → Prop} {R : σ → σ → Prop} (hrefl : ∀ s, R s s)
    (htrans : ∀ a b c, R a b → R b c → R a c) (hop : ∀ op s, Q op → R s (exec op s).2) :
    ∀ (p : Prog Op Res ε α) (s : σ), p.Uses Q L → R s (p.eval exec s).2 := by
  intro p
  induction p with
  | ret a => intro s _; exact hrefl s
  | raise e => intro s _; exact hrefl s
  | call op k ih =>
    intro s hu
    exact htrans _ _ _ (hop op s hu.1) (ih _ _ (hu.2 _))

variable {exec} in
/-- What every operation keeps, a program keeps. -/
theorem eval_invariant {J : σ → Prop} (hop : ∀ op s, J s → J (exec op s).2) (p : Prog Op Res ε α) :
    ∀ s, J s → J (p.eval exec s).2 := by
  induction p with
  | ret a => exact fun _ hs => hs
  | raise e => exact fun _ hs => hs
  | call op k ih => exact fun s hs => ih _ _ (hop op s hs)

end Eval

end Prog

end Interleave
