import FastiKit.Database.MigrationLock

/- Every run of the processes that migrate.

   A process is verified on its own (`triple_runMigrationsOnline`), against what the
   others can do. Here the processes are put together: the migrations of any number of
   them are those of one (`migrations_serialized`), and whatever state they are in, once
   the connections of the dead are gone the others get to their end
   (`migrations_progress`). -/
namespace FastiKit.Migrations

open Interleave

section Pools
variable {ε D : Type} {chain : Chain ε D} {start : Versioned D}

/-- The calls of a program are calls on its own connection. -/
theorem execute_uses (c : Nat) (call : Call) :
    (execute c call : Api ε call.Answer).Uses (fun op => op.conn = c) (fun _ => True) := by
  refine ⟨rfl, ?_⟩
  intro r
  cases r <;> trivial

theorem uses_seq {α β : Type} {c : Nat} {p : Api ε α} {f : α → Api ε β}
    (hp : p.Uses (fun op => op.conn = c) (fun _ => True))
    (hf : ∀ a, (f a).Uses (fun op => op.conn = c) (fun _ => True)) :
    (p >>= f).Uses (fun op => op.conn = c) (fun _ => True) := by
  refine (Prog.uses_bind _ f p).mpr (hp.mono (fun _ => id) ?_)
  intro out _
  cases out with
  | ok a => exact hf a
  | error e => trivial

theorem uses_guarded {α : Type} {c : Nat} {p : Api ε α} {handle : Failure ε → Api ε α}
    (hp : p.Uses (fun op => op.conn = c) (fun _ => True))
    (hhandle : ∀ e, (handle e).Uses (fun op => op.conn = c) (fun _ => True)) :
    (tryCatchThe (Failure ε) p handle).Uses (fun op => op.conn = c) (fun _ => True) := by
  refine (Prog.uses_tryCatch _ handle p).mpr (hp.mono (fun _ => id) ?_)
  intro out _
  cases out with
  | ok a => trivial
  | error e => exact hhandle e

theorem upgradeFrom_uses (c n k : Nat) :
    (upgradeFrom c n k : Api ε Unit).Uses (fun op => op.conn = c) (fun _ => True) := by
  induction n generalizing k with
  | zero => trivial
  | succ n ih => exact uses_seq (execute_uses c _) fun _ => uses_seq (execute_uses c _) fun _ => ih (k + 1)

theorem runMigrationsOnline_uses (head c : Nat) :
    (runMigrationsOnline head c : Api ε Unit).Uses (fun op => op.conn = c) (fun _ => True) := by
  have hend : ∀ (call : Call) (e : Failure ε),
      (do let _ ← execute c call; throw e : Api ε Unit).Uses (fun op => op.conn = c) (fun _ => True) :=
    fun call e => uses_seq (execute_uses c call) fun _ => trivial
  have hcontext : (contextRunMigrations head c : Api ε Unit).Uses (fun op => op.conn = c) (fun _ => True) :=
    uses_seq (execute_uses c _) fun k => upgradeFrom_uses c (head - k) k
  have hbegin : ∀ external, (beginTransaction c external (contextRunMigrations head c) : Api ε Unit).Uses
      (fun op => op.conn = c) (fun _ => True) := by
    intro external
    cases external with
    | true => exact hcontext
    | false =>
      exact uses_seq (execute_uses c _) fun _ => uses_seq (uses_guarded hcontext (hend _)) fun _ => execute_uses c _
  have hbody := uses_seq (execute_uses (ε := ε) c .inTransaction) hbegin
  have hrest := uses_seq (execute_uses (ε := ε) c .commit) fun _ => uses_seq hbody fun _ =>
    uses_seq (execute_uses c .unlock) fun _ => execute_uses c .commit
  have hlocked : (runMigrations head c : Api ε Unit).Uses (fun op => op.conn = c) (fun _ => True) := by
    refine uses_seq (execute_uses c .tryLock) ?_
    intro got
    cases got with
    | true => exact hrest
    | false => exact uses_seq (execute_uses c .lock) fun _ => hrest
  exact uses_seq (uses_guarded hlocked (hend _)) fun _ => execute_uses c _

/-- Every process calls on its own connection, no two have the same, and the lock is held
by the connection of one. -/
structure Distinct (s : Processes ε D) : Prop where
  own : System.Within (fun c op => op.conn = c) (fun _ _ => True) s
  apart : ∀ (i j : Nat) th th', s.threads[i]? = some th → s.threads[j]? = some th' → th.req = th'.req → i = j
  holder : ∀ c, s.state.holder = some c → ∃ th ∈ s.threads, th.req = c

@[simp] theorem settle_eq (c : Nat) (p : Api ε Unit) (s : State D) : (processes chain).settle c p s = s := by
  unfold System.settle
  split <;> rfl

theorem runCall_holder (c : Nat) (call : Call) (s : State D) :
    (runCall chain c s call).2.holder = s.holder ∨ (runCall chain c s call).2.holder = some c ∨
      (runCall chain c s call).2.holder = none := by
  cases call with
  | tryLock =>
    simp only [runCall]
    split
    · exact .inr (.inl rfl)
    · exact .inl rfl
  | lock => exact .inr (.inl rfl)
  | unlock =>
    simp only [runCall]
    split
    · exact .inr (.inr rfl)
    · exact .inl rfl
  | begin =>
    simp only [runCall]
    split <;> exact .inl rfl
  | upgrade k =>
    simp only [runCall]
    split
    · exact .inl rfl
    · split <;> exact .inl rfl
  | stamp k =>
    simp only [runCall]
    split <;> exact .inl rfl
  | close =>
    simp only [runCall, State.disconnect_holder]
    split
    · exact .inr (.inr rfl)
    · exact .inl rfl
  | commit => exact .inl rfl
  | rollback => exact .inl rfl
  | inTransaction => exact .inl rfl
  | currentRevision => exact .inl rfl

/-- A call leaves the lock as it was, or with its own connection, or free. -/
theorem exec_holder (op : Op) (s : State D) :
    (exec chain op s).2.holder = s.holder ∨ (exec chain op s).2.holder = some op.conn ∨
      (exec chain op s).2.holder = none := by
  simp only [exec, execCall]
  split
  · exact runCall_holder _ _ s
  · split
    · exact .inl rfl
    · split
      · exact .inl rfl
      · exact runCall_holder _ _ s

theorem Distinct.holder_step {s s' : Processes ε D} {a : Interleave.Action Nat Nat} (h : Distinct s)
    (ha : (processes chain).step s a = some s') (c : Nat) (hc : s'.state.holder = some c) :
    ∃ th ∈ s'.threads, th.req = c := by
  have hkeep : ∀ th ∈ s.threads, ∃ th' ∈ s'.threads, th'.req = th.req := by
    intro th hth
    obtain ⟨i, hi⟩ := List.mem_iff_getElem?.mp hth
    obtain ⟨th', hi', hreq⟩ := step_keeps_request ha hi
    exact ⟨th', List.mem_of_getElem? hi', hreq⟩
  have hold : s.state.holder = some c → ∃ th ∈ s'.threads, th.req = c := by
    intro hheld
    obtain ⟨th, hth, hreq⟩ := h.holder c hheld
    obtain ⟨th', hth', hreq'⟩ := hkeep th hth
    exact ⟨th', hth', hreq'.trans hreq⟩
  cases a with
  | spawn req =>
    obtain ⟨-, rfl⟩ := System.step_spawn ha
    exact hold hc
  | run i =>
    obtain ⟨req, op, k, hi, rfl⟩ := System.step_run ha
    have hconn : op.conn = req := (h.own _ (List.mem_of_getElem? hi)).1
    have hstate : (exec chain op s.state).2.holder = some c := by
      simp only [settle_eq] at hc
      exact hc
    rcases exec_holder op s.state with hsame | hown | hfree
    · exact hold (hsame ▸ hstate)
    · -- the process that has just got the lock
      obtain ⟨th', hth', hreq'⟩ := hkeep _ (List.mem_of_getElem? hi)
      rw [hown] at hstate
      refine ⟨th', hth', ?_⟩
      rw [hreq', ← hconn]
      exact Option.some.inj hstate
    · rw [hfree] at hstate
      cases hstate
  | cancel i =>
    obtain ⟨th₀, hi, rfl⟩ := System.step_cancel ha
    exact hold hc
  | env c' =>
    obtain ⟨w, hw, rfl⟩ := System.step_env ha
    cases hw
    apply hold
    have hkept : (s.state.disconnect c').holder = some c := hc
    rw [State.disconnect_holder] at hkept
    split at hkept
    · cases hkept
    · exact hkept

theorem Distinct.step {s s' : Processes ε D} {a : Interleave.Action Nat Nat} (h : Distinct s) (hfair : Fair s a)
    (ha : (processes chain).step s a = some s') : Distinct s' := by
  refine ⟨h.own.step (runMigrationsOnline_uses chain.length) ha, ?_, h.holder_step ha⟩
  intro i j th th' hi hj hreq
  rcases step_request ha hi with ⟨th₀, hi₀, hr₀⟩ | ⟨rfl, rfl⟩
  · rcases step_request ha hj with ⟨th₁, hj₁, hr₁⟩ | ⟨rfl, rfl⟩
    · exact h.apart i j th₀ th₁ hi₀ hj₁ (by rw [hr₀, hr₁, hreq])
    · exact absurd (hr₀.trans hreq) (hfair.1 th₀ (List.mem_of_getElem? hi₀))
  · rcases step_request ha hj with ⟨th₁, hj₁, hr₁⟩ | ⟨rfl, -⟩
    · exact absurd (hr₁.trans hreq.symm) (hfair.1 th₁ (List.mem_of_getElem? hj₁))
    · rfl

theorem Distinct.waits {s : Processes ε D} (h : Distinct s) {i j : Nat} {op op' : Op} (hi : s.Waits i op)
    (hj : s.Waits j op') (hne : i ≠ j) : op.conn ≠ op'.conn := by
  obtain ⟨th, hth, hop⟩ := h.own.waits hi
  obtain ⟨th', hth', hop'⟩ := h.own.waits hj
  intro hconn
  apply hne
  apply h.apart i j th th' hth hth'
  rw [← hop, ← hop', hconn]

theorem Rely.drop {w s : State D} {c : Nat} (h : Rely chain c w s) (c' : Nat) : Rely chain c w (s.drop c') := by
  have hdropped : w.dropped ⊆ (s.drop c').dropped := List.subset_cons_of_subset _ h.dropped
  by_cases hc : c = c'
  · subst hc
    have hdead : ((s.drop c).connections c).alive = false := by simp
    refine ⟨fun _ => hdead, ?_, ?_, h.leads, h.bound, fun _ _ => List.mem_cons_self, hdropped⟩
    · intro halive
      rw [hdead] at halive
      cases halive
    · intro halive
      rw [hdead] at halive
      cases halive
  · have hsame : (s.drop c').connections c = s.connections c := State.disconnect_other hc
    refine ⟨hsame ▸ h.dead, hsame ▸ h.own, ?_, h.leads, h.bound, ?_, hdropped⟩
    · rw [hsame]
      intro halive hlock
      obtain ⟨hlock', hdb⟩ := h.lock halive hlock
      refine ⟨?_, hdb⟩
      have hother : s.holder ≠ some c' := by
        rw [hlock']
        exact fun e => hc (Option.some.inj e)
      show (s.disconnect c').holder = some c
      rw [State.disconnect_holder, if_neg hother, hlock']
    · rw [hsame]
      exact fun halive hdead => List.mem_cons_of_mem _ (h.lost halive hdead)

theorem processes_sound :
    Sound (processes chain) (regime chain) Fair Distinct (fun s => s.Held ∧ Base chain start s)
      (fun c out s => Left chain start c out s) where
  refl _ w _ := Rely.refl w
  pool _ _ _ h hfair ha := h.step hfair ha
  spawn s c _ hI hfair _ := by
    have hpre : Open chain start c s.state ∧ Holds c .none s.state := by
      refine ⟨⟨hI.2, ?_⟩, fun _ => ?_⟩
      · rw [hfair.2.1]
        rintro ⟨⟩
      · rw [hfair.2.1]
    have hrefl : Guarantee chain ⟨c, .tryLock⟩ s.state s.state := Guarantee.refl (by simp [Inside, Call.guarded])
    exact triple_runMigrationsOnline.ready hpre rfl hrefl
  cond s i op _ _ hfair hw := hfair op hw
  guar op w w' hI hg := ⟨hg.held hI.1, hI.2.guarantee hg⟩
  stable s i op w' hJ _ _ hi hg j op' hne hj w hr := hr.step hg (hJ.waits hj hi hne)
  env s c w' _ hI _ he := by
    cases he
    have hg : Guarantee chain ⟨c, .close⟩ s.state (s.state.disconnect c) := guarantee_close s.state c
    exact ⟨⟨hg.held hI.1, ⟨hI.2.leads, hI.2.bound⟩⟩, fun _ _ _ w hr => hr.drop c⟩

/-- A thread with an outcome does not run. -/
theorem not_finished_of_waits {s : Processes ε D} {i c : Nat} {op : Op} {out : Except (Failure ε) Unit}
    (hw : s.Waits i op) (hf : s.Finished i c out) : False := by
  obtain ⟨th, hth, -, hop⟩ := hw
  obtain ⟨th', hth', -, hout⟩ := hf
  rw [hth] at hth'
  cases hth'
  cases hcode : th.code with
  | ret a => rw [hcode] at hop; cases hop
  | raise e => rw [hcode] at hop; cases hop
  | call op' k => rw [hcode] at hout; cases hout

/-- What a process leaves behind stays. -/
theorem left_keeps {s s' : Processes ε D} {a : Interleave.Action Nat Nat}
    (hok : PoolOk (processes chain) (regime chain) Distinct (fun s => s.Held ∧ Base chain start s)
      (fun c out s => Left chain start c out s) s)
    (hfair : Fair s a) (ha : (processes chain).step s a = some s') (i c : Nat) (out : Except (Failure ε) Unit)
    (hf : s.Finished i c out) (hleft : Left chain start c out s.state) : Left chain start c out s'.state := by
  obtain ⟨hbase, hdead, hout⟩ := hleft
  cases a with
  | spawn req =>
    obtain ⟨-, rfl⟩ := System.step_spawn ha
    exact ⟨hbase, hdead, hout⟩
  | run j =>
    obtain ⟨req, op, k, hj, -⟩ := System.step_run ha
    have hw : s.Waits j op := ⟨_, hj, rfl, rfl⟩
    have hg : Guarantee chain op s.state s'.state := processes_sound.fires hok hfair ha hw
    have hconn : c ≠ op.conn := by
      obtain ⟨th, hth, hreq, hth_out⟩ := hf
      obtain ⟨th', hth', hop⟩ := hok.1.own.waits hw
      intro hc
      have hij := hok.1.apart i j th th' hth hth' (by rw [hreq, hc, hop])
      subst hij
      exact not_finished_of_waits hw ⟨th, hth, hreq, hth_out⟩
    refine ⟨hbase.guarantee hg, ?_, ?_⟩
    · rw [hg.others c hconn]
      exact hdead
    · cases out with
      | ok _ =>
        have hle := hg.leads.1
        have hbound := (hbase.guarantee hg).bound
        have hrev : s.state.db.revision = chain.length := hout
        show s'.state.db.revision = chain.length
        omega
      | error e => exact Excused.dropped hout (by rw [hg.dropped]; exact List.Subset.refl _)
  | cancel j =>
    obtain ⟨th, -, rfl⟩ := System.step_cancel ha
    exact ⟨hbase, hdead, hout⟩
  | env c' =>
    obtain ⟨w, hw, rfl⟩ := System.step_env ha
    cases hw
    refine ⟨⟨hbase.leads, hbase.bound⟩, ?_, ?_⟩
    · by_cases hc : c = c'
      · subst hc
        simp
      · show ((s.state.disconnect c').connections c).alive = false
        rw [State.disconnect_other hc]
        exact hdead
    · cases out with
      | ok _ => exact hout
      | error e => exact Excused.dropped hout (List.subset_cons_self _ _)

/-- `Fair`, computed. -/
def fair (s : Processes ε D) : Interleave.Action Nat Nat → Bool
  | .spawn c => s.threads.all (fun th => th.req != c) && (s.state.connections c).alive &&
      !(s.state.connections c).transaction.isOpen && s.state.holder != some c
  | .run i => (s.pending i).all (fun op =>
      op.call != .lock || !(s.state.connections op.conn).alive || s.state.free op.conn)
  | _ => true

theorem fair_sound {s : Processes ε D} {a : Interleave.Action Nat Nat} (h : fair s a = true) : Fair s a := by
  cases a with
  | spawn c =>
    simp only [fair, Bool.and_eq_true, List.all_eq_true, bne_iff_ne, Bool.not_eq_true'] at h
    obtain ⟨⟨⟨hreq, halive⟩, hidle⟩, hholder⟩ := h
    refine ⟨hreq, ?_, hholder⟩
    cases hconn : s.state.connections c with
    | mk alive transaction =>
      rw [hconn] at halive hidle
      cases transaction <;> simp_all [Transaction.isOpen]
  | run i =>
    intro op hw hlock halive
    rw [fair, Pool.pending_of_waits hw] at h
    simpa [hlock, halive] using h
  | cancel i => trivial
  | env c => trivial

theorem steps_fair {s s' : Processes ε D} {as : List (Interleave.Action Nat Nat)}
    (h : (processes chain).runIf fair s as = some s') : (processes chain).Steps Fair s s' :=
  (System.steps_of_runIf as s s' h).mono fun _ _ => fair_sound

/-- The database before any process, with every connection still to be opened. -/
def initial (start : Versioned D) : State D := ⟨start, none, fun _ => ⟨true, .none⟩, []⟩

theorem reached (hstart : start.revision ≤ chain.length) {s : Processes ε D}
    (h : (processes chain).Steps Fair (System.start (initial start)) s) :
    PoolOk (processes chain) (regime chain) Distinct (fun s => s.Held ∧ Base chain start s)
      (fun c out s => Left chain start c out s) s ∧
    ∀ i c out, s.Finished i c out → Left chain start c out s.state := by
  refine processes_sound.outcomes (fun s a s' hok hfair ha => left_keeps hok hfair ha) h (PoolOk.start ?_ ?_) ?_
  · refine ⟨?_, ?_, ?_⟩
    · rintro th ⟨⟩
    · rintro i j th th' ⟨⟩
    · rintro c ⟨⟩
  · refine ⟨?_, ⟨leads_refl _, hstart⟩⟩
    rintro c ⟨⟩
  · rintro i c out ⟨th, ⟨⟩, -⟩

/-- However many processes migrate at once, and whenever they die or lose their
connections: what is committed is the start with the revisions run in order, each once;
a live process holds the lock at every call of the migration, at the commit of what it
has written and at the unlock, so at most one is there; a process that succeeds leaves the database at the head, for good; and a
process fails only with its connection or with what a revision raises. -/
theorem migrations_serialized (hstart : start.revision ≤ chain.length) {s : Processes ε D}
    (h : (processes chain).Steps Fair (System.start (initial start)) s) :
    Leads chain start s.state.db ∧
    (∀ i op, s.Waits i op → Inside op s.state → (s.state.connections op.conn).alive = true →
      s.state.holder = some op.conn) ∧
    (∀ i j op op', s.Waits i op → s.Waits j op' → Inside op s.state → Inside op' s.state →
      (s.state.connections op.conn).alive = true → (s.state.connections op'.conn).alive = true → i = j) ∧
    (∀ i c, s.Finished i c (.ok ()) → s.state.db.revision = chain.length) ∧
    ∀ i c e, s.Finished i c (.error e) → Excused chain start c s.state e := by
  obtain ⟨hok, hleft⟩ := reached hstart h
  -- a call inside the lock fires with the lock held
  have hholds : ∀ i op, s.Waits i op → Inside op s.state → (s.state.connections op.conn).alive = true →
      s.state.holder = some op.conn := by
    intro i op hw hin halive
    have hfair : Fair s (.run i) := by
      intro op' hw' hlock
      rw [System.waits_unique hw' hw] at hlock
      rcases hin with hin | ⟨hin, -⟩
      · rw [hlock] at hin
        cases hin
      · rw [hlock] at hin
        cases hin
    obtain ⟨s', ha⟩ := System.step_of_waits hw
    exact (processes_sound.fires hok hfair ha hw).exclusive hin halive
  refine ⟨hok.2.1.2.leads, hholds, ?_, fun i c hf => (hleft i c _ hf).2.2, fun i c e hf => (hleft i c _ hf).2.2⟩
  intro i j op op' hi hj hin hin' halive halive'
  by_contra hne
  apply hok.1.waits hi hj hne
  have hi' := hholds i op hi hin halive
  rw [hholds j op' hj hin' halive'] at hi'
  exact (Option.some.inj hi').symm

/-- Two revisions on a number. -/
def sampleChain : Chain Empty Nat := [fun n => .ok (n + 1), fun n => .ok (2 * n)]

/-- The second process finds the lock taken and waits for it. -/
def sampleRun : List (Interleave.Action Nat Nat) :=
  [.spawn 0, .spawn 1, .run 0, .run 1] ++ List.replicate 12 (.run 0) ++ List.replicate 9 (.run 1)

theorem migrations_serialized_sample : ∃ s, (processes sampleChain).Steps Fair (System.start (initial ⟨0, 5⟩)) s ∧
    s.state.db.revision = 2 ∧ Leads sampleChain ⟨0, 5⟩ s.state.db := by
  have hrun : (((processes sampleChain).runIf fair (System.start (initial ⟨0, 5⟩)) sampleRun).map
      (fun s => s.state.db.revision)) = some 2 := by decide +kernel
  obtain ⟨s, hs, hrev⟩ := Option.map_eq_some_iff.mp hrun
  exact ⟨s, steps_fair hs, hrev, (migrations_serialized (by decide) (steps_fair hs)).1⟩

/-! Every process gets to its end. -/

/-- While a process runs alone, the lock stays free for it. -/
theorem free_exec {op : Op} {s : State D} (h : s.free op.conn = true) : (exec chain op s).2.free op.conn = true := by
  have hcases : _ ∨ _ ∨ (exec chain op s).2.holder = none := exec_holder op s
  rcases hcases with hsame | hown | hfree
  · rw [State.free, hsame]
    exact h
  · simp [State.free, hown]
  · simp [State.free, hfree]

/-- Only processes run: none starts, none dies, no connection is dropped. -/
def Running (s : Processes ε D) (a : Interleave.Action Nat Nat) : Prop := Fair s a ∧ ∃ i, a = .run i

/-- The processes of a state, alive or not. -/
def crew (s : Processes ε D) : List (Nat × Bool) := s.threads.map (fun th => (th.req, th.live))

/-- A process for which the lock is free runs to its end, and leaves the lock free. -/
theorem solo {s : Processes ε D} (hstart : start.revision ≤ chain.length)
    (h : (processes chain).Steps Fair (System.start (initial start)) s) {i : Nat}
    {th : Thread Op (Res ε) (Failure ε) Unit Nat} (hi : s.threads[i]? = some th) (hlive : th.live = true)
    (hfree : s.state.free th.req = true) :
    ∃ s' code, (processes chain).Steps Running s s' ∧ crew s' = crew s ∧ s'.state.holder = none ∧
      s'.threads = s.threads.set i { th with code } ∧ code.outcome.isSome = true := by
  obtain ⟨req, p, live⟩ := th
  cases hlive
  have huses : p.Uses (fun op => op.conn = req) (fun _ => True) :=
    (reached hstart h).1.1.own _ (List.mem_of_getElem? hi)
  have hkeep : ∀ (op : Op) (v : State D), op.conn = req → v.free req = true → (exec chain op v).2.free req = true := by
    rintro op v rfl hv
    exact free_exec hv
  have hunblocked : Unblocked (exec chain) Granted p s.state := by
    refine unblocked_of_kept (F := fun v => v.free req = true) ?_ hkeep p s.state huses hfree
    rintro op v rfl hv - -
    exact hv
  have hrespond : ∀ out w, (processes chain).respond req out w = w := fun _ _ => rfl
  obtain ⟨s', code, hsteps, hstate, hout, hthreads⟩ := Unblocked.finishes hrespond p s i hi hunblocked
  have hrunning : (processes chain).Steps Running s s' := by
    refine hsteps.mono ?_
    rintro v a ⟨rfl, hgranted⟩
    exact ⟨hgranted, i, rfl⟩
  have hlt : i < s.threads.length := (List.getElem?_eq_some_iff.mp hi).1
  have hdone : s'.Finished i req ((p.eval (exec chain) s.state).1) :=
    ⟨⟨req, code, true⟩, by rw [hthreads, List.getElem?_set_self hlt], rfl, hout⟩
  obtain ⟨hok', hleft⟩ := reached hstart (h.trans (hrunning.mono fun _ _ hr => hr.1))
  refine ⟨s', code, hrunning, ?_, ?_, hthreads, ?_⟩
  · have hsame : (s.threads.map (fun th => (th.req, th.live)))[i]? = some (req, true) := by
      rw [List.getElem?_map, hi]
      rfl
    rw [crew, hthreads, List.map_set, set_of_getElem? hsame]
    rfl
  · -- the process has closed its connection, and a lock is held by an open one
    have hdead := (hleft i req _ hdone).2.1
    have hfree' : s'.state.free req = true := by
      rw [hstate]
      exact Prog.eval_rel (exec chain) (R := fun v v' => v.free req = true → v'.free req = true) (fun _ => id)
        (fun _ _ _ hv hv' => hv' ∘ hv) hkeep p s.state huses hfree
    cases hholder : s'.state.holder with
    | none => rfl
    | some c =>
      rw [State.free, hholder] at hfree'
      have hc : c = req := by simpa using hfree'
      have halive := hok'.2.1.1 c hholder
      rw [hc, hdead] at halive
      cases halive
  · rw [hout]
    rfl

/-- From a state in which the lock is free, the processes run one after the other. -/
theorem finish_all {s : Processes ε D} (hstart : start.revision ≤ chain.length)
    (h : (processes chain).Steps Fair (System.start (initial start)) s) (hholder : s.state.holder = none) (n : Nat) :
    ∃ s', (processes chain).Steps Running s s' ∧ crew s' = crew s ∧ s'.state.holder = none ∧
      ∀ i < n, ∀ op, ¬ s'.Waits i op := by
  induction n with
  | zero => exact ⟨s, Relation.ReflTransGen.refl, rfl, hholder, fun i hi => absurd hi (Nat.not_lt_zero i)⟩
  | succ n ih =>
    obtain ⟨s', hsteps, hcrew, hfree, hdone⟩ := ih
    by_cases hw : ∃ op, s'.Waits n op
    · obtain ⟨op, th, hi, hlive, hop⟩ := hw
      have hreach := h.trans (hsteps.mono fun _ _ hr => hr.1)
      obtain ⟨s'', code, hsteps', hcrew', hfree', hthreads, hout⟩ := solo hstart hreach hi hlive
        (by simp [State.free, hfree])
      refine ⟨s'', hsteps.trans hsteps', hcrew'.trans hcrew, hfree', ?_⟩
      intro i hle op' hw'
      obtain ⟨th', hth', hlive', hop'⟩ := hw'
      rw [hthreads] at hth'
      by_cases hin : n = i
      · subst hin
        rw [List.getElem?_set_self (List.getElem?_eq_some_iff.mp hi).1] at hth'
        cases hth'
        cases code with
        | ret a => cases hop'
        | raise e => cases hop'
        | call op k => cases hout
      · rw [List.getElem?_set_ne hin] at hth'
        exact hdone i (by omega) op' ⟨th', hth', hlive', hop'⟩
    · refine ⟨s', hsteps, hcrew, hfree, ?_⟩
      intro i hle op hwait
      by_cases hin : i = n
      · exact hw ⟨op, hin ▸ hwait⟩
      · exact hdone i (by omega) op hwait

/-- While processes only run, no connection is dropped. -/
theorem running_dropped {s s' : Processes ε D} (hstart : start.revision ≤ chain.length)
    (h : (processes chain).Steps Fair (System.start (initial start)) s)
    (hsteps : (processes chain).Steps Running s s') : s'.state.dropped = s.state.dropped := by
  have key := hsteps.invariant (J := fun v => (processes chain).Steps Fair (System.start (initial start)) v ∧
    v.state.dropped = s.state.dropped) ?_ ⟨h, rfl⟩
  · exact key.2
  rintro v a v' ⟨hreach, hv⟩ ⟨hfair, i, rfl⟩ ha
  refine ⟨hreach.snoc hfair ha, ?_⟩
  obtain ⟨req, op, k, hi, -⟩ := System.step_run ha
  have hg := processes_sound.fires (reached hstart hreach).1 hfair ha ⟨_, hi, rfl, rfl⟩
  rw [hg.dropped, hv]

/-- From every state, once the server has dropped the connections of the dead processes,
those that live can run to their end. Then the lock is free, and if no revision raises,
every process whose connection was not dropped has succeeded. -/
theorem migrations_progress {s : Processes ε D} (hstart : start.revision ≤ chain.length)
    (h : (processes chain).Steps Fair (System.start (initial start)) s)
    (hgone : ∀ th ∈ s.threads, th.live = false → (s.state.connections th.req).alive = false) :
    ∃ s', (processes chain).Steps Running s s' ∧ s'.state.holder = none ∧
      ∀ i th, s.threads[i]? = some th → th.live = true → ∃ out, s'.Finished i th.req out ∧
        (th.req ∉ s.state.dropped → (∀ v upgrade, Leads chain start v → chain[v.revision]? = some upgrade →
          ∃ data, upgrade v.data = .ok data) → out = .ok ()) := by
  -- first whoever holds the lock, then the others
  have hfirst : ∃ s', (processes chain).Steps Running s s' ∧ crew s' = crew s ∧ s'.state.holder = none := by
    cases hholder : s.state.holder with
    | none => exact ⟨s, Relation.ReflTransGen.refl, rfl, hholder⟩
    | some c =>
      obtain ⟨hok, -⟩ := reached hstart h
      obtain ⟨th, hth, rfl⟩ := hok.1.holder c hholder
      obtain ⟨i, hi⟩ := List.mem_iff_getElem?.mp hth
      have hlive : th.live = true := by
        by_contra hdead
        have hgone' := hgone th hth (by simpa using hdead)
        rw [hok.2.1.1 _ hholder] at hgone'
        cases hgone'
      obtain ⟨s', code, hsteps, hcrew, hnone, -⟩ := solo hstart h hi hlive (by simp [State.free, hholder])
      exact ⟨s', hsteps, hcrew, hnone⟩
  obtain ⟨s₁, hsteps₁, hcrew₁, hnone₁⟩ := hfirst
  have hreach₁ := h.trans (hsteps₁.mono fun _ _ hr => hr.1)
  obtain ⟨s', hsteps', hcrew', hnone', hidle⟩ := finish_all hstart hreach₁ hnone₁ s.threads.length
  have hsteps : (processes chain).Steps Running s s' := hsteps₁.trans hsteps'
  refine ⟨s', hsteps, hnone', ?_⟩
  intro i th hi hlive
  have hplace : (crew s')[i]? = some (th.req, true) := by
    rw [hcrew', hcrew₁, crew, List.getElem?_map, hi, ← hlive]
    rfl
  rw [crew, List.getElem?_map, Option.map_eq_some_iff] at hplace
  obtain ⟨⟨req, code, live⟩, hi', hsame⟩ := hplace
  cases hsame
  have hout : ∃ out, code.outcome = some out := by
    cases code with
    | ret a => exact ⟨.ok a, rfl⟩
    | raise e => exact ⟨.error e, rfl⟩
    | call op k =>
      exact absurd ⟨_, hi', rfl, rfl⟩ (hidle i (List.getElem?_eq_some_iff.mp hi).1 op)
  obtain ⟨out, hout⟩ := hout
  refine ⟨out, ⟨_, hi', rfl, hout⟩, ?_⟩
  intro hdropped hsucceed
  have hleft := ((reached hstart (h.trans (hsteps.mono fun _ _ hr => hr.1))).2 i _ out ⟨_, hi', rfl, hout⟩).2.2
  cases out with
  | ok _ => rfl
  | error e =>
    cases e with
    | connectionLost =>
      rw [← running_dropped hstart h hsteps] at hdropped
      exact absurd hleft hdropped
    | raised e =>
      obtain ⟨v, upgrade, hleads, hup, hraise⟩ := hleft
      obtain ⟨data, hdata⟩ := hsucceed v upgrade hleads hup
      rw [hraise] at hdata
      cases hdata
    | failedTransaction => exact hleft.elim
    | alreadyBegun => exact hleft.elim
    | unknownRevision => exact hleft.elim
    | staleRevision => exact hleft.elim

/-- The first process dies between a revision and its version. -/
def sampleDeath : List (Interleave.Action Nat Nat) :=
  [.spawn 0, .spawn 1] ++ List.replicate 6 (.run 0) ++ [.run 1, .cancel 0, .env 0]

theorem migrations_progress_sample : ∃ s s', (processes sampleChain).Steps Fair (System.start (initial ⟨0, 5⟩)) s ∧
    (processes sampleChain).Steps Running s s' ∧ s'.Finished 1 1 (.ok ()) := by
  have hrun : (((processes sampleChain).runIf fair (System.start (initial ⟨0, 5⟩)) sampleDeath).map
      (fun s => (crew s, (s.state.connections 0).alive, s.state.dropped))) =
        some ([(0, false), (1, true)], false, [0]) := by decide +kernel
  obtain ⟨s, hs, hview⟩ := Option.map_eq_some_iff.mp hrun
  simp only [Prod.mk.injEq] at hview
  obtain ⟨hcrew, hdead, hdropped⟩ := hview
  have hgone : ∀ th ∈ s.threads, th.live = false → (s.state.connections th.req).alive = false := by
    intro th hth hlive
    have hmem : (th.req, th.live) ∈ crew s := List.mem_map_of_mem hth
    rw [hcrew, hlive] at hmem
    have hreq : th.req = 0 := by simpa using hmem
    rw [hreq, hdead]
  obtain ⟨s', hsteps, -, hall⟩ := migrations_progress (by decide) (steps_fair hs) hgone
  have hone : (crew s)[1]? = some (1, true) := by
    rw [hcrew]
    rfl
  rw [crew, List.getElem?_map, Option.map_eq_some_iff] at hone
  obtain ⟨th, hi, hth⟩ := hone
  simp only [Prod.mk.injEq] at hth
  obtain ⟨out, hfinished, hok⟩ := hall 1 th hi hth.2
  rw [hth.1] at hfinished hok
  rw [hok (by rw [hdropped]; decide) ?_] at hfinished
  · exact ⟨s, s', steps_fair hs, hsteps, hfinished⟩
  · intro v upgrade _ hup
    rcases List.mem_cons.mp (List.mem_of_getElem? hup) with rfl | hrest
    · exact ⟨_, rfl⟩
    · rw [List.mem_singleton.mp hrest]
      exact ⟨_, rfl⟩

end Pools

end FastiKit.Migrations
