import FastiKit.Interleave.Pool

/- Linearizability. A run leaves a history of what was asked and what was answered.
   It is linearizable if the answers and the state are those of the same requests one
   at a time, each run alone, in an order in which no request comes before one that
   was answered before it was made. Requests not answered yet have then done nothing.
   What is compared of a state is what `view` shows of it, such as the part that is
   committed. A system is linearizable if no operation but a request's last one changes
   the view, and the last one does at once what the request does alone
   (`linearizable_of_last`). -/
namespace Interleave

variable {Op : Type} {Res : Op → Type} {σ τ Req ε α Env : Type}

/-- What a thread has answered. -/
structure Answer (Req ε α : Type) where
  thread : Nat
  req : Req
  out : Except ε α

inductive Event (Req ε α : Type) where
  | invoke (thread : Nat) (req : Req)
  | respond (answer : Answer Req ε α)

abbrev History (Req ε α : Type) := List (Event Req ε α)

/-- The answers in the order they were given. -/
def answers : History Req ε α → List (Answer Req ε α) :=
  List.filterMap (fun
    | .invoke _ _ => none
    | .respond answer => some answer)

/-- The thread `i` had answered before the thread `j` was asked. -/
def Precedes (h : History Req ε α) (i j : Nat) : Prop :=
  ∃ h₁ h₂, h = h₁ ++ h₂ ∧ (∃ answer, .respond answer ∈ h₁ ∧ answer.thread = i) ∧ ∃ req, .invoke j req ∈ h₂

/-- The requests one after the other, each alone. -/
inductive Serial (serial : Req → τ → Except ε α × τ) : τ → List (Answer Req ε α) → τ → Prop where
  | nil (s : τ) : Serial serial s [] s
  | snoc {s s₁ : τ} {order : List (Answer Req ε α)} (answer : Answer Req ε α) (h : Serial serial s order s₁)
      (hout : (serial answer.req s₁).1 = answer.out) : Serial serial s (order ++ [answer]) (serial answer.req s₁).2

/-- What makes an order of the answers a linearization. -/
structure Linearization (serial : Req → τ → Except ε α × τ) (s s' : τ) (h : History Req ε α)
    (order : List (Answer Req ε α)) : Prop where
  perm : order.Perm (answers h)
  legal : Serial serial s order s'
  time : order.Pairwise (fun x y => ¬ Precedes h y.thread x.thread)

def Linearizable (serial : Req → τ → Except ε α × τ) (s s' : τ) (h : History Req ε α) : Prop :=
  ∃ order, Linearization serial s s' h order

namespace System
variable (sys : System Op Res σ Req ε α Env)

/-- What a thread that serves `req` with this code has answered. -/
def answered (i : Nat) (req : Req) (code : Prog Op Res ε α) : History Req ε α :=
  match code.outcome with
  | some out => [.respond ⟨i, req, out⟩]
  | none => []

/-- The events of an action. -/
def events (s : Pool Op Res σ Req ε α) : Action Req Env → History Req ε α
  | .spawn req => .invoke s.threads.length req :: answered s.threads.length req (sys.program req)
  | .run i =>
    match s.threads[i]? with
    | some ⟨req, .call op k, true⟩ => answered i req (k (sys.exec op s.state).1)
    | _ => []
  | _ => []

/-- A run of steps that each satisfy `C`, with its history. -/
inductive Traces (C : Pool Op Res σ Req ε α → Action Req Env → Prop) (s : Pool Op Res σ Req ε α) :
    History Req ε α → Pool Op Res σ Req ε α → Prop where
  | refl : Traces C s [] s
  | step {h : History Req ε α} {s₁ s₂ : Pool Op Res σ Req ε α} {a : Action Req Env} (hrun : Traces C s h s₁)
      (hC : C s₁ a) (ha : sys.step s₁ a = some s₂) : Traces C s (h ++ sys.events s₁ a) s₂

/-- A list of actions in order, each of which `c` allows, with its history. -/
def traceIf (c : Pool Op Res σ Req ε α → Action Req Env → Bool) (s : Pool Op Res σ Req ε α) :
    List (Action Req Env) → Option (History Req ε α × Pool Op Res σ Req ε α)
  | [] => some ([], s)
  | a :: as =>
    if c s a then
      (sys.step s a).bind (fun s' => (traceIf c s' as).map (fun rest => (sys.events s a ++ rest.1, rest.2)))
    else none

section Traces
variable {sys} {C D : Pool Op Res σ Req ε α → Action Req Env → Prop} {s s₁ s₂ : Pool Op Res σ Req ε α}
  {h h' : History Req ε α}

theorem Traces.trans (hrun : sys.Traces C s h s₁) (hrest : sys.Traces C s₁ h' s₂) : sys.Traces C s (h ++ h') s₂ := by
  induction hrest with
  | refl => rwa [List.append_nil]
  | step _ hC ha ih =>
    rw [← List.append_assoc]
    exact .step ih hC ha

theorem Traces.mono (hrun : sys.Traces C s h s₁) (hCD : ∀ v a, C v a → D v a) : sys.Traces D s h s₁ := by
  induction hrun with
  | refl => exact .refl
  | step _ hC ha ih => exact .step ih (hCD _ _ hC) ha

theorem traces_of_traceIf {c : Pool Op Res σ Req ε α → Action Req Env → Bool} {as : List (Action Req Env)}
    (hrun : sys.traceIf c s as = some (h, s₁)) : sys.Traces (fun v a => c v a = true) s h s₁ := by
  induction as generalizing s h with
  | nil =>
    cases hrun
    exact .refl
  | cons a as ih =>
    simp only [traceIf] at hrun
    split at hrun
    · next hc =>
      obtain ⟨v, hv, hrest⟩ := Option.bind_eq_some_iff.mp hrun
      obtain ⟨⟨h', s'⟩, htrace, heq⟩ := Option.map_eq_some_iff.mp hrest
      cases heq
      exact (Traces.step .refl hc hv).trans (ih htrace)
    · cases hrun

end Traces

end System

/-! Histories that grow. -/

section Grow
variable {h : History Req ε α} {e : Event Req ε α} {i j : Nat}

theorem precedes_snoc : Precedes (h ++ [e]) i j ↔
    Precedes h i j ∨ (∃ answer, .respond answer ∈ h ∧ answer.thread = i) ∧ ∃ req, e = .invoke j req := by
  constructor
  · intro hprec
    obtain ⟨h₁, h₂, heq, hresp, req, hinv⟩ := hprec
    -- the last event is the last of the second part
    cases List.eq_nil_or_concat h₂ with
    | inl hnil =>
      rw [hnil] at hinv
      cases hinv
    | inr hlast =>
      obtain ⟨h₂', e', rfl⟩ := hlast
      rw [List.concat_eq_append, ← List.append_assoc] at heq
      obtain ⟨rfl, hsame⟩ := List.append_inj' heq rfl
      obtain rfl : e = e' := by simpa using hsame
      rw [List.concat_eq_append, List.mem_append, List.mem_singleton] at hinv
      cases hinv with
      | inl hin => exact .inl ⟨h₁, h₂', rfl, hresp, req, hin⟩
      | inr hlast =>
        obtain ⟨answer, hin, hi⟩ := hresp
        exact .inr ⟨⟨answer, List.mem_append_left _ hin, hi⟩, req, hlast.symm⟩
  · intro hcase
    obtain ⟨h₁, h₂, rfl, hresp, req, hinv⟩ | ⟨hresp, req, rfl⟩ := hcase
    · exact ⟨h₁, h₂ ++ [e], (List.append_assoc _ _ _), hresp, req, List.mem_append_left _ hinv⟩
    · exact ⟨h, [.invoke j req], rfl, hresp, req, List.mem_singleton_self _⟩

theorem mem_answers {answer : Answer Req ε α} : answer ∈ answers h ↔ .respond answer ∈ h := by
  unfold answers
  rw [List.mem_filterMap]
  constructor
  · intro hin
    obtain ⟨e, he, hsome⟩ := hin
    cases e with
    | invoke i req => cases hsome
    | respond answer' =>
      rw [← Option.some.inj hsome]
      exact he
  · exact fun hin => ⟨_, hin, rfl⟩

theorem answers_append (h h' : History Req ε α) : answers (h ++ h') = answers h ++ answers h' := List.filterMap_append

end Grow

/-! Systems whose requests take effect with their last operation. -/

/-- The order of the answers so far. -/
structure Sofar (serial : Req → τ → Except ε α × τ) (view : σ → τ) (s₀ : τ) (h : History Req ε α)
    (s : Pool Op Res σ Req ε α) : Prop where
  legal : Serial serial s₀ (answers h) (view s.state)
  time : (answers h).Pairwise (fun x y => ¬ Precedes h y.thread x.thread)
  asked : ∀ answer ∈ answers h, answer.thread < s.threads.length
  ended : ∀ answer ∈ answers h, ∀ th, s.threads[answer.thread]? = some th → th.code.outcome.isSome

namespace Sofar
variable {serial : Req → τ → Except ε α × τ} {view : σ → τ} {s₀ : τ} {h : History Req ε α} {s s' : Pool Op Res σ Req ε α}

/-- A new thread is asked. -/
theorem invoke (hs : Sofar serial view s₀ h s) (th : Thread Op Res ε α Req) (hstate : s'.state = s.state)
    (hthreads : s'.threads = s.threads ++ [th]) (req : Req) :
    Sofar serial view s₀ (h ++ [.invoke s.threads.length req]) s' := by
  have hanswers : answers (h ++ [Event.invoke (ε := ε) (α := α) s.threads.length req]) = answers h := by
    rw [answers_append]
    exact List.append_nil _
  have hlen : s'.threads.length = s.threads.length + 1 := by simp [hthreads]
  refine ⟨?_, ?_, ?_, ?_⟩
  · rw [hanswers, hstate]
    exact hs.legal
  · rw [hanswers]
    refine hs.time.imp_of_mem ?_
    intro x y hx hy hnot hprec
    obtain hold | ⟨-, req', heq⟩ := precedes_snoc.mp hprec
    · exact hnot hold
    · -- nobody has answered as the new thread
      have hlt := hs.asked x hx
      injection heq with hthread
      omega
  · intro answer hin
    rw [hanswers] at hin
    have hlt := hs.asked answer hin
    omega
  · intro answer hin th' hth
    rw [hanswers] at hin
    rw [hthreads, List.getElem?_append_left (hs.asked answer hin)] at hth
    exact hs.ended answer hin th' hth

/-- A thread that had not answered answers as it would alone. -/
theorem respond (hs : Sofar serial view s₀ h s) {i : Nat} {req : Req} {out : Except ε α} (hi : i < s'.threads.length)
    (hnew : ∀ answer ∈ answers h, answer.thread ≠ i) (hserial : serial req (view s.state) = (out, view s'.state))
    (hlen : s.threads.length ≤ s'.threads.length)
    (hothers : ∀ j, j ≠ i → j < s.threads.length → s'.threads[j]? = s.threads[j]?)
    (hended : ∀ th, s'.threads[i]? = some th → th.code.outcome.isSome) :
    Sofar serial view s₀ (h ++ [.respond ⟨i, req, out⟩]) s' := by
  have hanswers : answers (h ++ [Event.respond ⟨i, req, out⟩]) = answers h ++ [⟨i, req, out⟩] := answers_append _ _
  have hnone : ∀ a b, Precedes (h ++ [Event.respond ⟨i, req, out⟩]) a b → Precedes h a b := by
    intro a b hprec
    obtain hold | ⟨-, req', heq⟩ := precedes_snoc.mp hprec
    · exact hold
    · cases heq
  refine ⟨?_, ?_, ?_, ?_⟩
  · rw [hanswers]
    have hlast := Serial.snoc ⟨i, req, out⟩ hs.legal (by rw [hserial])
    rw [hserial] at hlast
    exact hlast
  · rw [hanswers, List.pairwise_append]
    refine ⟨hs.time.imp (fun hnot hprec => hnot (hnone _ _ hprec)), List.pairwise_singleton _ _, ?_⟩
    intro x hx y hy hprec
    rw [List.mem_singleton.mp hy] at hprec
    obtain ⟨h₁, h₂, heq, ⟨answer, hresp, hthread⟩, -⟩ := hnone _ _ hprec
    refine hnew answer ?_ hthread
    rw [mem_answers, heq]
    exact List.mem_append_left _ hresp
  · intro answer hin
    rw [hanswers, List.mem_append, List.mem_singleton] at hin
    cases hin with
    | inl hin => exact Nat.lt_of_lt_of_le (hs.asked answer hin) hlen
    | inr heq =>
      rw [heq]
      exact hi
  · intro answer hin th hth
    rw [hanswers, List.mem_append, List.mem_singleton] at hin
    cases hin with
    | inl hin =>
      rw [hothers _ (hnew answer hin) (hs.asked answer hin)] at hth
      exact hs.ended answer hin th hth
    | inr heq =>
      rw [heq] at hth
      exact hended th hth

/-- A step without events. -/
theorem silent (hs : Sofar serial view s₀ h s) (hstate : view s'.state = view s.state) (hlen : s'.threads.length = s.threads.length)
    (hended : ∀ (i : Nat) th th', s.threads[i]? = some th → s'.threads[i]? = some th' →
      th.code.outcome.isSome → th'.code.outcome.isSome) : Sofar serial view s₀ h s' := by
  refine ⟨hstate ▸ hs.legal, hs.time, fun answer hin => hlen ▸ hs.asked answer hin, ?_⟩
  intro answer hin th' hth'
  have hlt := hs.asked answer hin
  have hth := List.getElem?_eq_getElem hlt
  exact hended _ _ _ hth hth' (hs.ended answer hin _ hth)

end Sofar

/-- Only the last operation of a request changes the view, and it does what the request
does alone. `J` is what the system keeps. -/
structure TakesEffectLast (sys : System Op Res σ Req ε α Env) (C : Pool Op Res σ Req ε α → Action Req Env → Prop)
    (J : Pool Op Res σ Req ε α → Prop) (serial : Req → τ → Except ε α × τ) (view : σ → τ) : Prop where
  keep : ∀ s a s', J s → C s a → sys.step s a = some s' → J s'
  atOnce : ∀ req out s, J s → (sys.program req).outcome = some out → serial req (view s.state) = (out, view s.state)
  middle : ∀ s i req op k, J s → C s (.run i) → s.threads[i]? = some ⟨req, .call op k, true⟩ →
    (k (sys.exec op s.state).1).outcome = none → view (sys.exec op s.state).2 = view s.state
  last : ∀ s i req op k out, J s → C s (.run i) → s.threads[i]? = some ⟨req, .call op k, true⟩ →
    (k (sys.exec op s.state).1).outcome = some out →
      serial req (view s.state) = (out, view (sys.exec op s.state).2)
  respond : ∀ req out s, sys.respond req out s = s
  env : ∀ e s w, sys.env e s = some w → view w = view s

section Traces
variable {sys : System Op Res σ Req ε α Env} {C : Pool Op Res σ Req ε α → Action Req Env → Prop}
  {J : Pool Op Res σ Req ε α → Prop} {serial : Req → τ → Except ε α × τ} {view : σ → τ}
  {s₀ s s' : Pool Op Res σ Req ε α} {h : History Req ε α}

theorem eval_of_outcome {p : Prog Op Res ε α} {out : Except ε α} (h : p.outcome = some out)
    (exec : (op : Op) → σ → Res op × σ) (s : σ) : p.eval exec s = (out, s) := by
  cases p with
  | ret a => rw [← Option.some.inj h]; rfl
  | raise e => rw [← Option.some.inj h]; rfl
  | call op k => cases h

theorem settle_of_respond (hrespond : ∀ req out s, sys.respond req out s = s) (req : Req) (p : Prog Op Res ε α) (s : σ) :
    sys.settle req p s = s := by
  unfold System.settle
  split
  · exact hrespond _ _ _
  · rfl

/-- A request is made; one without operations is answered at once. -/
theorem Sofar.spawn (hs : Sofar serial view (view s₀.state) h s) (he : TakesEffectLast sys C J serial view) (hJ : J s)
    {req : Req} (ha : sys.step s (.spawn req) = some s') :
    Sofar serial view (view s₀.state) (h ++ sys.events s (.spawn req)) s' := by
  obtain ⟨-, rfl⟩ := System.step_spawn ha
  have hstate := settle_of_respond he.respond req (sys.program req) s.state
  have hasked : Sofar serial view (view s₀.state) (h ++ [.invoke s.threads.length req])
      ⟨sys.settle req (sys.program req) s.state, s.threads ++ [⟨req, sys.program req, true⟩]⟩ :=
    hs.invoke ⟨req, sys.program req, true⟩ hstate rfl req
  cases hout : (sys.program req).outcome with
  | none => simpa only [System.events, System.answered, hout] using hasked
  | some out =>
    simp only [System.events, System.answered, hout]
    rw [← List.singleton_append, ← List.append_assoc]
    refine hasked.respond ?_ ?_ ?_ (Nat.le_refl _) (fun _ _ _ => rfl) ?_
    · simp
    · intro answer hin
      rw [answers_append] at hin
      have hold : answer ∈ answers h := by simpa [answers] using hin
      exact Nat.ne_of_lt (hs.asked answer hold)
    · rw [hstate]
      exact he.atOnce req out s hJ hout
    · intro th hth
      rw [List.getElem?_append_right (Nat.le_refl _), Nat.sub_self] at hth
      rw [← Option.some.inj hth, hout]
      rfl

/-- An operation runs; with the last one the thread answers. -/
theorem Sofar.run (hs : Sofar serial view (view s₀.state) h s) (he : TakesEffectLast sys C J serial view) (hJ : J s)
    {i : Nat} (hC : C s (.run i)) (ha : sys.step s (.run i) = some s') :
    Sofar serial view (view s₀.state) (h ++ sys.events s (.run i)) s' := by
  obtain ⟨req, op, k, hi, rfl⟩ := System.step_run ha
  have hlt : i < s.threads.length := (List.getElem?_eq_some_iff.mp hi).1
  have hstate := settle_of_respond he.respond req (k (sys.exec op s.state).1) (sys.exec op s.state).2
  cases hout : (k (sys.exec op s.state).1).outcome with
  | none =>
    simp only [System.events, hi, System.answered, hout, List.append_nil]
    refine hs.silent ((congrArg view hstate).trans (he.middle s i req op k hJ hC hi hout)) List.length_set ?_
    intro j th th' hth hth' hended
    by_cases hij : i = j
    · subst hij
      rw [hi] at hth
      cases hth
      cases hended
    · rw [List.getElem?_set_ne hij, hth] at hth'
      cases hth'
      exact hended
  | some out =>
    simp only [System.events, hi, System.answered, hout]
    refine hs.respond ?_ ?_ ?_ (Nat.le_of_eq List.length_set.symm) ?_ ?_
    · rw [List.length_set]
      exact hlt
    · intro answer hin hthread
      have hended := hs.ended answer hin _ (hthread ▸ hi)
      cases hended
    · rw [hstate]
      exact he.last s i req op k out hJ hC hi hout
    · intro j hji _
      exact List.getElem?_set_ne (Ne.symm hji)
    · intro th hth
      rw [List.getElem?_set_self hlt] at hth
      rw [← Option.some.inj hth, hout]
      rfl

/-- What has been answered so far is a linearization. -/
theorem Sofar.traces (he : TakesEffectLast sys C J serial view) (hrun : sys.Traces C s₀ h s) (hJ : J s₀) :
    J s ∧ Sofar serial view (view s₀.state) h s := by
  induction hrun with
  | refl =>
    refine ⟨hJ, .nil _, List.Pairwise.nil, ?_, ?_⟩
    · exact fun answer hin => by cases hin
    · exact fun answer hin => by cases hin
  | @step h s₁ s₂ a hrun hC ha ih =>
    refine ⟨he.keep s₁ a s₂ ih.1 hC ha, ?_⟩
    cases a with
    | spawn req => exact ih.2.spawn he ih.1 ha
    | run i => exact ih.2.run he ih.1 hC ha
    | cancel i =>
      obtain ⟨th, hi, rfl⟩ := System.step_cancel ha
      simp only [System.events, List.append_nil]
      refine ih.2.silent rfl List.length_set ?_
      intro j th' th'' hth hth' hended
      by_cases hij : i = j
      · subst hij
        rw [hi] at hth
        rw [List.getElem?_set_self (List.getElem?_eq_some_iff.mp hi).1] at hth'
        cases hth
        cases hth'
        exact hended
      · rw [List.getElem?_set_ne hij, hth] at hth'
        cases hth'
        exact hended
    | env e =>
      obtain ⟨w, hw, rfl⟩ := System.step_env ha
      simp only [System.events, List.append_nil]
      refine ih.2.silent (he.env e _ w hw) rfl ?_
      intro j th th' hth hth' hended
      have hth' : s₁.threads[j]? = some th' := hth'
      rw [hth] at hth'
      cases hth'
      exact hended

/-- Every run of such a system is linearizable. -/
theorem linearizable_of_last (he : TakesEffectLast sys C J serial view) (hrun : sys.Traces C s₀ h s) (hJ : J s₀) :
    Linearizable serial (view s₀.state) (view s.state) h := by
  obtain ⟨-, hsofar⟩ := Sofar.traces he hrun hJ
  exact ⟨answers h, .refl _, hsofar.legal, hsofar.time⟩

end Traces

end Interleave
