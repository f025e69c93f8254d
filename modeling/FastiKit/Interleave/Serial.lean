import FastiKit.Interleave.RelyGuarantee

/- Runs in which requests do not overlap: a request is made only while no other one
   waits. In such a run at most one thread waits at a time (`Single.step`), so while
   it does only the environment moves the state, and the thread may rely on all that
   the environment keeps (`Sound.serial`). -/
namespace Interleave

variable {Op : Type} {Res : Op → Type} {σ Req ε α Env : Type}

/-- No thread waits. -/
def Pool.idle (s : Pool Op Res σ Req ε α) : Bool :=
  s.threads.all (fun th => !th.live || th.code.next.isNone)

/-- A request is made only while no thread waits. -/
def alone (s : Pool Op Res σ Req ε α) : Action Req Env → Bool
  | .spawn _ => s.idle
  | _ => true

/-- At most one thread waits. -/
def Pool.Single (s : Pool Op Res σ Req ε α) : Prop :=
  ∀ i j op op', s.Waits i op → s.Waits j op' → i = j

theorem Pool.not_waits_of_idle {s : Pool Op Res σ Req ε α} (h : s.idle = true) (i : Nat) (op : Op) :
    ¬ s.Waits i op := by
  intro hw
  obtain ⟨th, hth, hlive, hop⟩ := hw
  have hidle := List.all_eq_true.mp h th (List.mem_of_getElem? hth)
  simp [hlive, hop] at hidle

section Steps
variable {sys : System Op Res σ Req ε α Env}

/-- Who waits after a step waited before it, or has just been let in. -/
theorem step_waits {s s' : Pool Op Res σ Req ε α} {a : Action Req Env} (ha : sys.step s a = some s') {j : Nat}
    {op : Op} (hw : s'.Waits j op) :
    (∃ op', s.Waits j op') ∨ (∃ req, a = .spawn req) ∧ j = s.threads.length := by
  obtain ⟨th, hth, hlive, hop⟩ := hw
  cases a with
  | spawn req =>
    obtain ⟨-, rfl⟩ := System.step_spawn ha
    rcases Nat.lt_or_ge j s.threads.length with hj | hj
    · rw [List.getElem?_append_left hj] at hth
      exact .inl ⟨op, th, hth, hlive, hop⟩
    · right
      have hlt := (List.getElem?_eq_some_iff.mp hth).1
      rw [List.length_append, List.length_singleton] at hlt
      exact ⟨⟨req, rfl⟩, by omega⟩
  | run i =>
    obtain ⟨req, op', k, hi, rfl⟩ := System.step_run ha
    left
    by_cases hij : i = j
    · subst hij
      exact ⟨op', _, hi, rfl, rfl⟩
    · rw [List.getElem?_set_ne hij] at hth
      exact ⟨op, th, hth, hlive, hop⟩
  | cancel i =>
    obtain ⟨th', hi, rfl⟩ := System.step_cancel ha
    left
    by_cases hij : i = j
    · subst hij
      rw [List.getElem?_set_self (List.getElem?_eq_some_iff.mp hi).1] at hth
      cases hth
      cases hlive
    · rw [List.getElem?_set_ne hij] at hth
      exact ⟨op, th, hth, hlive, hop⟩
  | env e =>
    obtain ⟨w, -, rfl⟩ := System.step_env ha
    exact .inl ⟨op, th, hth, hlive, hop⟩

/-- A step of a run without overlaps keeps at most one thread waiting. -/
theorem Pool.Single.step {s s' : Pool Op Res σ Req ε α} {a : Action Req Env} (h : s.Single)
    (halone : alone s a = true) (ha : sys.step s a = some s') : s'.Single := by
  intro i j op op' hi hj
  rcases step_waits ha hi with ⟨opi, hi⟩ | ⟨⟨req, hreq⟩, hi⟩
  · rcases step_waits ha hj with ⟨opj, hj⟩ | ⟨⟨req, rfl⟩, -⟩
    · exact h i j opi opj hi hj
    · exact absurd hi (Pool.not_waits_of_idle halone i opi)
  · subst hreq
    rcases step_waits ha hj with ⟨opj, hj⟩ | ⟨-, hj⟩
    · exact absurd hj (Pool.not_waits_of_idle halone j opj)
    · rw [hi, hj]

/-- The regime of a request that no other one disturbs: besides what it relied on
anyway it relies on `E`, and its operations are asked for `G` where they fire. -/
def Regime.undisturbed (g : Regime Op σ) (E : σ → σ → Prop) (G : Op → σ → Prop) : Regime Op σ where
  cond := g.cond
  rely := fun op s v => g.rely op s v ∧ E s v
  guar := fun op s _ => G op s

variable {g : Regime Op σ} {C : Pool Op Res σ Req ε α → Action Req Env → Prop}
  {J : Pool Op Res σ Req ε α → Prop} {I : σ → Prop} {post : Req → Except ε α → σ → Prop}

/-- What is verified for all runs holds in runs without overlaps, and there a request
may also rely on what the environment keeps. -/
theorem Sound.serial (hs : Sound sys g C J I post) {E : σ → σ → Prop} {G : Op → σ → Prop}
    (hrefl : ∀ s, E s s) (henv : ∀ w s e s', E w s → sys.env e s = some s' → E w s')
    (hready : ∀ s req, I s → sys.accepts s req = true →
      Ready (g.undisturbed E G) sys.exec (fun _ op s _ => G op s) (sys.program req) s) :
    Sound sys ((g.undisturbed E G).watch (fun op s s' => g.guar op s s' ∧ G op s))
      (fun s a => C s a ∧ alone s a = true) (fun s => J s ∧ s.Single) I post where
  refl op w hw := ⟨hs.refl op w hw, hrefl w⟩
  pool s a s' hJ hC ha := ⟨hs.pool s a s' hJ.1 hC.1 ha, hJ.2.step hC.2 ha⟩
  spawn s req hJ hI hC ha := by
    have hrely : ∀ op v v', (g.undisturbed E G).rely op v v' → g.rely op v v' := fun _ _ _ hr => hr.1
    have hcond : ∀ op v, (g.undisturbed E G).cond op v → g.cond op v := fun _ _ hc => hc
    refine (Ready.and hrely hcond (hs.spawn s req hJ.1 hI hC.1 ha) (hready s.state req hI ha)).mono ?_
    intro out op v v' hK
    exact ⟨⟨hK.1.1, hK.2⟩, hK.1.2⟩
  cond s i op hJ hI hC hw := hs.cond s i op hJ.1 hI hC.1 hw
  guar op w w' hw hg := hs.guar op w w' hw hg.1
  stable s i op w' hJ _ _ hw _ j op' hne hj _ _ := absurd (hJ.2 j i op' op hj hw) hne
  env s e w' hJ hI hC he := by
    obtain ⟨hI', hrely⟩ := hs.env s e w' hJ.1 hI hC.1 he
    refine ⟨hI', ?_⟩
    intro j op' hj w hr
    exact ⟨hrely j op' hj w hr.1, henv w s.state e w' hr.2 he⟩

end Steps

end Interleave
