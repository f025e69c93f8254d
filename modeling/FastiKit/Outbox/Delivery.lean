import FastiKit.Outbox.Relay

/- Outbox delivery survives any crash and is never premature.

   What is proved, of every state the producers, relays and cleanups reach:
     1. a job with the key of a row was put in the queue only for an event whose
        producer committed, and it is that event's job;
     2. a row marked dispatched had its job put before;
     3. a committed event left the table only after its job was put.
   The argument is the order inside `dispatch_pending`: a row is marked in the
   session after the call, and the mark reaches the table with the commit. So a
   mark, wherever it is, comes after the job; and only marked rows are deleted. -/
namespace FastiKit.Outbox

open Interleave Relational

variable {π : Type}

/-- The job of the row was put in the queue at some moment. -/
def State.Handed (s : State π) (id : Uuid) : Prop := ∃ job ∈ s.enqueued, job.key = jobKey id

/-- The row comes from a committed event, and its mark from a job. -/
structure State.Accounted (s : State π) (row : OutboxEvent π) : Prop where
  committed : ∃ event ∈ s.committed, event.job = row.job
  marked : row.dispatchedAt.isSome = true → s.Handed row.id

/-- What holds of the uncommitted work of a session. -/
def Session.Sound (s : State π) : Session π → Prop
  | .idle => True
  | .staging events => ∀ event ∈ events, event.dispatchedAt = none
  | .dispatching todo done => ∀ row ∈ done ++ todo, s.Accounted row
  | .cleaning victims => ∀ id ∈ victims, s.Handed id

structure Delivers (s : State π) : Prop where
  sessions : ∀ session ∈ s.sessions, session.Sound s
  rows : ∀ row ∈ s.events.rows, s.Accounted row
  jobs : ∀ job ∈ s.enqueued, ∃ event ∈ s.committed, event.job = job
  queue : ∀ key ∈ s.queued, ∃ job ∈ s.enqueued, job.key = key
  kept : ∀ event ∈ s.committed, s.events.get event.id = none → s.Handed event.id

theorem Delivers.init (now : Time) : Delivers (State.init now : State π) :=
  ⟨nofun, nofun, nofun, nofun, nofun⟩

/-- The two records only grow. -/
structure Grows (s s' : State π) : Prop where
  committed : s.committed ⊆ s'.committed
  enqueued : s.enqueued ⊆ s'.enqueued

theorem Grows.of_eq {s s' : State π} (hc : s'.committed = s.committed) (he : s'.enqueued = s.enqueued) :
    Grows s s' := ⟨hc ▸ List.Subset.refl _, he ▸ List.Subset.refl _⟩

theorem Grows.handed {s s' : State π} (h : Grows s s') {id : Uuid} (hid : s.Handed id) : s'.Handed id := by
  obtain ⟨job, hjob, hkey⟩ := hid
  exact ⟨job, h.enqueued hjob, hkey⟩

theorem Grows.accounted {s s' : State π} (h : Grows s s') {row : OutboxEvent π} (hrow : s.Accounted row) :
    s'.Accounted row := by
  obtain ⟨event, hevent, hjob⟩ := hrow.committed
  exact ⟨⟨event, h.committed hevent, hjob⟩, fun hmark => h.handed (hrow.marked hmark)⟩

theorem Grows.sound {s s' : State π} (h : Grows s s') {session : Session π} (hs : session.Sound s) :
    session.Sound s' := by
  cases session with
  | idle => trivial
  | staging events => exact hs
  | dispatching todo done => exact fun row hrow => h.accounted (hs row hrow)
  | cleaning victims => exact fun id hid => h.handed (hs id hid)

/-- What a step adds to the sessions, the table, the records and the queue, each
with what makes it right. -/
structure Progress (s s' : State π) : Prop where
  grows : Grows s s'
  sessions : ∀ session ∈ s'.sessions, session ∈ s.sessions ∨ session.Sound s'
  rows : ∀ row ∈ s'.events.rows, row ∈ s.events.rows ∨ s'.Accounted row
  jobs : ∀ job ∈ s'.enqueued, job ∈ s.enqueued ∨ ∃ event ∈ s'.committed, event.job = job
  queue : ∀ key ∈ s'.queued, key ∈ s.queued ∨ ∃ job ∈ s'.enqueued, job.key = key
  kept : ∀ event ∈ s'.committed, s'.events.get event.id = none →
    s'.Handed event.id ∨ event ∈ s.committed ∧ s.events.get event.id = none

theorem Delivers.next {s s' : State π} (hs : Delivers s) (h : Progress s s') : Delivers s' := by
  refine ⟨?_, ?_, ?_, ?_, ?_⟩
  · intro session hsession
    cases h.sessions session hsession with
    | inl hold => exact h.grows.sound (hs.sessions session hold)
    | inr hnew => exact hnew
  · intro row hrow
    cases h.rows row hrow with
    | inl hold => exact h.grows.accounted (hs.rows row hold)
    | inr hnew => exact hnew
  · intro job hjob
    cases h.jobs job hjob with
    | inl hold =>
      obtain ⟨event, hevent, heq⟩ := hs.jobs job hold
      exact ⟨event, h.grows.committed hevent, heq⟩
    | inr hnew => exact hnew
  · intro key hkey
    cases h.queue key hkey with
    | inl hold =>
      obtain ⟨job, hjob, heq⟩ := hs.queue key hold
      exact ⟨job, h.grows.enqueued hjob, heq⟩
    | inr hnew => exact hnew
  · intro event hevent hgone
    cases h.kept event hevent hgone with
    | inl hhanded => exact hhanded
    | inr hold => exact h.grows.handed (hs.kept event hold.1 hold.2)

theorem Progress.trans {s s₁ s₂ : State π} (h₁ : Progress s s₁) (h₂ : Progress s₁ s₂) : Progress s s₂ := by
  refine ⟨⟨List.Subset.trans h₁.grows.committed h₂.grows.committed,
    List.Subset.trans h₁.grows.enqueued h₂.grows.enqueued⟩, ?_, ?_, ?_, ?_, ?_⟩
  · intro session hsession
    cases h₂.sessions session hsession with
    | inl hmid =>
      cases h₁.sessions session hmid with
      | inl hold => exact .inl hold
      | inr hsound => exact .inr (h₂.grows.sound hsound)
    | inr hnew => exact .inr hnew
  · intro row hrow
    cases h₂.rows row hrow with
    | inl hmid =>
      cases h₁.rows row hmid with
      | inl hold => exact .inl hold
      | inr haccounted => exact .inr (h₂.grows.accounted haccounted)
    | inr hnew => exact .inr hnew
  · intro job hjob
    cases h₂.jobs job hjob with
    | inl hmid =>
      cases h₁.jobs job hmid with
      | inl hold => exact .inl hold
      | inr hevent =>
        obtain ⟨event, hevent, heq⟩ := hevent
        exact .inr ⟨event, h₂.grows.committed hevent, heq⟩
    | inr hnew => exact .inr hnew
  · intro key hkey
    cases h₂.queue key hkey with
    | inl hmid =>
      cases h₁.queue key hmid with
      | inl hold => exact .inl hold
      | inr hjob =>
        obtain ⟨job, hjob, heq⟩ := hjob
        exact .inr ⟨job, h₂.grows.enqueued hjob, heq⟩
    | inr hnew => exact .inr hnew
  · intro event hevent hgone
    cases h₂.kept event hevent hgone with
    | inl hhanded => exact .inl hhanded
    | inr hmid =>
      cases h₁.kept event hmid.1 hmid.2 with
      | inl hhanded => exact .inl (h₂.grows.handed hhanded)
      | inr hold => exact .inr hold

/-- A step that adds nothing: the queue may only shrink. -/
theorem Progress.same {s s' : State π} (hsessions : s'.sessions = s.sessions) (hevents : s'.events = s.events)
    (hcommitted : s'.committed = s.committed) (henqueued : s'.enqueued = s.enqueued)
    (hqueued : s'.queued ⊆ s.queued) : Progress s s' := by
  refine ⟨Grows.of_eq hcommitted henqueued, ?_, ?_, ?_, ?_, ?_⟩
  · exact fun session hmem => .inl (hsessions ▸ hmem)
  · exact fun row hrow => .inl (hevents ▸ hrow)
  · exact fun job hjob => .inl (henqueued ▸ hjob)
  · exact fun key hkey => .inl (hqueued hkey)
  · intro event hevent hgone
    rw [hcommitted] at hevent
    rw [hevents] at hgone
    exact .inr ⟨hevent, hgone⟩

theorem Session.sound_idle {s : State π} {session : Session π} (h : session = .idle) : session.Sound s := by
  rw [h]
  trivial

/-- A step that changes what one session holds, and nothing the others see. -/
theorem Progress.put {s s' : State π} {i : Nat} {session : Session π} (hs : session.Sound s)
    (hsessions : s'.sessions = s.sessions.set i session) (hevents : s'.events = s.events)
    (hcommitted : s'.committed = s.committed) (henqueued : s'.enqueued = s.enqueued)
    (hqueued : s'.queued = s.queued) : Progress s s' := by
  have hgrows : Grows s s' := Grows.of_eq hcommitted henqueued
  refine ⟨hgrows, ?_, ?_, ?_, ?_, ?_⟩
  · intro session' hmem
    rw [hsessions] at hmem
    cases List.mem_or_eq_of_mem_set hmem with
    | inl hold => exact .inl hold
    | inr heq =>
      rw [heq]
      exact .inr (hgrows.sound hs)
  · exact fun row hrow => .inl (hevents ▸ hrow)
  · exact fun job hjob => .inl (henqueued ▸ hjob)
  · exact fun key hkey => .inl (hqueued ▸ hkey)
  · intro event hevent hgone
    rw [hcommitted] at hevent
    rw [hevents] at hgone
    exact .inr ⟨hevent, hgone⟩

/-! The actions that do more. -/

theorem Progress.stageAdd {s : State π} (i : Nat) (taskName : String) (payload : π)
    {session : Session π} {staged : List (OutboxEvent π)} (hstaged : session.staged = some staged)
    (hs : session.Sound s) :
    Progress s { s.put i (.staging (staged ++ [OutboxEvent.new s.uuids taskName payload s.now])) with
      uuids := s.uuids + 1 } := by
  have hold : ∀ event ∈ staged, event.dispatchedAt = none := by
    cases session <;> cases hstaged
    · exact nofun
    · exact hs
  have hsound : (Session.staging (staged ++ [OutboxEvent.new s.uuids taskName payload s.now])).Sound s := by
    intro event hevent
    cases List.mem_append.mp hevent with
    | inl h => exact hold event h
    | inr h => rw [List.mem_singleton.mp h]; rfl
  exact Progress.put hsound rfl rfl rfl rfl rfl

theorem Progress.commitStaged {s : State π} {i : Nat} {staged : List (OutboxEvent π)} {events : Events π}
    (hnew : ∀ event ∈ staged, event.dispatchedAt = none) (hins : s.events.insertAll staged = some events) :
    Progress s { s.put i .idle with events, committed := staged ++ s.committed } := by
  have hrows := Table.rows_insertAll hins
  refine ⟨⟨List.subset_append_right _ _, List.Subset.refl _⟩, ?_, ?_, ?_, ?_, ?_⟩
  · intro session hmem
    cases List.mem_or_eq_of_mem_set hmem with
    | inl hold => exact .inl hold
    | inr heq => exact .inr (Session.sound_idle heq)
  · intro row hrow
    replace hrow : row ∈ events.rows := hrow
    rw [hrows, List.mem_append, List.mem_reverse] at hrow
    cases hrow with
    | inl hstaged =>
      refine .inr ⟨⟨row, List.mem_append_left _ hstaged, rfl⟩, ?_⟩
      rw [hnew row hstaged]
      intro hmark
      cases hmark
    | inr hold => exact .inl hold
  · exact fun job hjob => .inl hjob
  · exact fun key hkey => .inl hkey
  · intro event hevent hgone
    rw [Table.get_eq_none] at hgone
    replace hgone : ∀ row ∈ events.rows, row.id ≠ event.id := hgone
    rw [hrows] at hgone
    cases List.mem_append.mp hevent with
    | inl hstaged => exact absurd rfl (hgone event (List.mem_append_left _ (List.mem_reverse.mpr hstaged)))
    | inr hold =>
      refine .inr ⟨hold, Table.get_eq_none.mpr ?_⟩
      exact fun row hrow => hgone row (List.mem_append_right _ hrow)

/-- A job is put, or found in the queue: then it was put before. -/
theorem Progress.enqueueTask {s : State π} (hs : Delivers s) {row : OutboxEvent π} (hrow : s.Accounted row) :
    Progress s (s.enqueueTask row) ∧ (s.enqueueTask row).Handed row.id := by
  unfold State.enqueueTask
  split
  · next hqueued =>
    have hput := hs.queue _ (List.contains_iff_mem.mp hqueued)
    exact ⟨Progress.same rfl rfl rfl rfl (List.Subset.refl _), hput⟩
  · have hput : ∃ job ∈ row.job :: s.enqueued, job.key = row.job.key := ⟨row.job, List.mem_cons_self, rfl⟩
    refine ⟨⟨⟨List.Subset.refl _, List.subset_cons_self _ _⟩, ?_, ?_, ?_, ?_, ?_⟩, hput⟩
    · exact fun session h => .inl h
    · exact fun row h => .inl h
    · intro job hjob
      cases List.mem_cons.mp hjob with
      | inl heq => exact .inr (heq ▸ hrow.committed)
      | inr hold => exact .inl hold
    · intro key hkey
      cases List.mem_cons.mp hkey with
      | inl heq => exact .inr (heq ▸ hput)
      | inr hold => exact .inl hold
    · exact fun event h hgone => .inr ⟨h, hgone⟩

/-- The call and the mark: whatever the call ends in, the row the session keeps
is accounted for. -/
theorem Delivers.dispatch {s : State π} (hs : Delivers s) (cfg : OutboxSettings) {row : OutboxEvent π}
    (hrow : s.Accounted row) (answer : Answer) :
    Progress s (s.dispatch cfg row answer).1 ∧
      (s.dispatch cfg row answer).1.Accounted (s.dispatch cfg row answer).2 := by
  obtain ⟨hput, hhanded⟩ := Progress.enqueueTask hs hrow
  cases answer with
  | returns =>
    have hlogged : Progress (s.enqueueTask row) (s.dispatch cfg row .returns).1 :=
      Progress.same rfl rfl rfl rfl (List.Subset.refl _)
    have hrow' := (hput.trans hlogged).grows.accounted hrow
    exact ⟨hput.trans hlogged, hrow'.committed, fun _ => hlogged.grows.handed hhanded⟩
  | raises err queued =>
    -- the mark of the row does not change
    have hprogress : Progress s (s.dispatch cfg row (.raises err queued)).1 := by
      cases queued with
      | false => exact Progress.same rfl rfl rfl rfl (List.Subset.refl _)
      | true => exact hput.trans (Progress.same rfl rfl rfl rfl (List.Subset.refl _))
    have hrow' := hprogress.grows.accounted hrow
    exact ⟨hprogress, hrow'.committed, hrow'.marked⟩

theorem Progress.enqueue {s : State π} (hs : Delivers s) (cfg : OutboxSettings) {i : Nat} {answer : Answer}
    {row : OutboxEvent π} {todo done : List (OutboxEvent π)}
    (hi : s.sessions[i]? = some (.dispatching (row :: todo) done)) :
    Progress s ((s.dispatch cfg row answer).1.put i
      (.dispatching todo (done ++ [(s.dispatch cfg row answer).2]))) := by
  have hsound := hs.sessions _ (List.mem_of_getElem? hi)
  have hrow : s.Accounted row := hsound row (List.mem_append_right _ List.mem_cons_self)
  obtain ⟨hprogress, hkept⟩ := hs.dispatch cfg hrow answer
  refine hprogress.trans (Progress.put ?_ rfl rfl rfl rfl rfl)
  intro row' hrow'
  simp only [List.append_assoc, List.singleton_append, List.mem_append, List.mem_cons] at hrow'
  rcases hrow' with hdone | rfl | htodo
  · exact hprogress.grows.accounted (hsound row' (List.mem_append_left _ hdone))
  · exact hkept
  · exact hprogress.grows.accounted (hsound row' (List.mem_append_right _ (List.mem_cons_of_mem _ htodo)))

theorem Progress.commitDispatched {s : State π} (hs : Delivers s) {i : Nat} {done : List (OutboxEvent π)}
    (hi : s.sessions[i]? = some (.dispatching [] done)) :
    Progress s { s.put i .idle with events := flushAll done s.events } := by
  have hdone : ∀ row ∈ done, s.Accounted row := by
    have hsound := hs.sessions _ (List.mem_of_getElem? hi)
    exact fun row hrow => hsound row (List.mem_append_left _ hrow)
  have hgrows : Grows s { s.put i .idle with events := flushAll done s.events } := Grows.of_eq rfl rfl
  refine ⟨hgrows, ?_, ?_, ?_, ?_, ?_⟩
  · intro session hmem
    cases List.mem_or_eq_of_mem_set hmem with
    | inl hold => exact .inl hold
    | inr heq => exact .inr (Session.sound_idle heq)
  · intro row hrow
    have hget := Table.get_of_mem hrow
    replace hget : (flushAll done s.events).get row.id = some row := hget
    rw [get_flushAll, Option.map_eq_some_iff] at hget
    obtain ⟨old, hold, rfl⟩ := hget
    replace hold := Table.mem_of_get hold
    unfold flushInto
    cases hchanged : changed done old.id with
    | none => exact .inl hold
    | some row =>
      -- the mark is the session's, the rest of the row is the table's
      obtain ⟨hmem, hid⟩ := mem_of_changed hchanged
      refine .inr ⟨(hgrows.accounted (hs.rows old hold)).committed, fun hmark => ?_⟩
      have hhanded := (hdone row hmem).marked hmark
      rw [hid] at hhanded
      exact hgrows.handed hhanded
  · exact fun job hjob => .inl hjob
  · exact fun key hkey => .inl hkey
  · intro event hevent hgone
    replace hgone : (flushAll done s.events).get event.id = none := hgone
    rw [get_flushAll, Option.map_eq_none_iff] at hgone
    exact .inr ⟨hevent, hgone⟩

theorem Progress.commitCleaned {s : State π} (hs : Delivers s) {i : Nat} {victims : List Uuid}
    (hi : s.sessions[i]? = some (.cleaning victims)) :
    Progress s { s.put i .idle with
      events := s.events.deleteWhere (fun row => victims.contains row.id) } := by
  have hvictims : ∀ id ∈ victims, s.Handed id := hs.sessions _ (List.mem_of_getElem? hi)
  refine ⟨Grows.of_eq rfl rfl, ?_, ?_, ?_, ?_, ?_⟩
  · intro session hmem
    cases List.mem_or_eq_of_mem_set hmem with
    | inl hold => exact .inl hold
    | inr heq => exact .inr (Session.sound_idle heq)
  · exact fun row hrow => .inl (Table.mem_deleteWhere.mp hrow).1
  · exact fun job hjob => .inl hjob
  · exact fun key hkey => .inl hkey
  · intro event hevent hgone
    by_cases hvictim : event.id ∈ victims
    · exact .inl (hvictims event.id hvictim)
    · refine .inr ⟨hevent, Table.get_eq_none.mpr ?_⟩
      intro row hrow hid
      refine Table.get_eq_none.mp hgone row (Table.mem_deleteWhere.mpr ⟨hrow, ?_⟩) hid
      simpa [hid] using hvictim

theorem Delivers.step {cfg : OutboxSettings} {s s' : State π} {a : Action π} (hs : Delivers s)
    (ha : (machine cfg).step s a = some s') : Delivers s' := by
  refine hs.next ?_
  cases moves_of_step ha with
  | connect =>
    refine ⟨Grows.of_eq rfl rfl, ?_, fun _ h => .inl h, fun _ h => .inl h, fun _ h => .inl h,
      fun _ h hgone => .inr ⟨h, hgone⟩⟩
    intro session hsession
    cases List.mem_append.mp hsession with
    | inl hold => exact .inl hold
    | inr hnew => exact .inr (Session.sound_idle (List.mem_singleton.mp hnew))
  | stageAdd hi hstaged => exact Progress.stageAdd _ _ _ hstaged (hs.sessions _ (List.mem_of_getElem? hi))
  | select hi hrows hsel =>
    refine Progress.put ?_ rfl rfl rfl rfl rfl
    exact fun row hrow => hs.rows row (Table.mem_of_get (hrows row hrow))
  | enqueue hi => exact Progress.enqueue hs cfg hi
  | delete hi hvictims hfree =>
    refine Progress.put ?_ rfl rfl rfl rfl rfl
    intro id hid
    obtain ⟨row, hrow, hkey, hexp⟩ := hvictims id hid
    have hmark : row.dispatchedAt.isSome = true := by
      obtain ⟨dispatchedAt, hsome, -⟩ := (Option.any_eq_true _ _).mp hexp
      simp [hsome]
    exact hkey ▸ (hs.rows row hrow).marked hmark
  | commitStaged hi hins => exact Progress.commitStaged (hs.sessions _ (List.mem_of_getElem? hi)) hins
  | commitRefused hi => exact Progress.put (Session.sound_idle rfl) rfl rfl rfl rfl rfl
  | commitDispatched hi => exact Progress.commitDispatched hs hi
  | commitCleaned hi => exact Progress.commitCleaned hs hi
  | close hi => exact Progress.put (Session.sound_idle rfl) rfl rfl rfl rfl rfl
  | finish => exact Progress.same rfl rfl rfl rfl (List.filter_subset_self _)
  | tick => exact Progress.same rfl rfl rfl rfl (List.Subset.refl _)

/-- Whatever is running and whatever dies: a job in the queue belongs to a
committed event, a mark comes after the job, and so does a deletion. -/
theorem outbox_delivery {cfg : OutboxSettings} {now : Time} {s : State π}
    (h : (machine cfg).Reaches (State.init now) s) :
    (∀ id, ∀ job ∈ s.enqueued, job.key = jobKey id → ∃ event ∈ s.committed, event.id = id ∧ event.job = job) ∧
      (∀ row ∈ s.events.rows, row.dispatchedAt.isSome = true → ∃ job ∈ s.enqueued, job.key = jobKey row.id) ∧
      ∀ event ∈ s.committed, s.events.get event.id = none → ∃ job ∈ s.enqueued, job.key = jobKey event.id := by
  have hs : Delivers s := h.invariant (fun _ _ _ hv _ ha => hv.step ha) (Delivers.init now)
  refine ⟨?_, fun row hrow => (hs.rows row hrow).marked, hs.kept⟩
  intro id job hjob hkey
  obtain ⟨event, hevent, heq⟩ := hs.jobs job hjob
  refine ⟨event, hevent, jobKey_injective ?_, heq⟩
  calc
    jobKey event.id = event.job.key := rfl
    _ = job.key := by rw [heq]
    _ = jobKey id := hkey

/-- The settings of the repository. -/
def sampleSettings : OutboxSettings := ⟨10, 7 * 86400 * 1000000⟩

/-- A relay dies after it enqueued the job of a row; a second one finds the job
in the queue, marks the row, and a week later the row is deleted. -/
def sampleRun : List (Action String) :=
  [.connect, .connect, .stageAdd 0 "send_email_task" "hello", .commit 0, .select 1 100 [0],
    .enqueue 1 .returns, .close 1, .select 0 100 [0], .enqueue 0 .returns, .commit 0,
    .finish (jobKey 0), .tick (8 * 86400 * 1000000), .delete 1, .commit 1]

theorem outbox_delivery_sample : ∃ s, (machine sampleSettings).run (State.init 0) sampleRun = some s ∧
    s.events.rows = [] ∧ s.committed.length = 1 ∧
    ∀ event ∈ s.committed, s.events.get event.id = none → ∃ job ∈ s.enqueued, job.key = jobKey event.id := by
  have hrun : (((machine sampleSettings).run (State.init 0) sampleRun).any
      (fun s => s.events.rows.isEmpty && s.committed.length = 1)) = true := by decide +kernel
  obtain ⟨s, hs, hends⟩ := (Option.any_eq_true _ _).mp hrun
  simp only [Bool.and_eq_true, List.isEmpty_iff, decide_eq_true_eq] at hends
  exact ⟨s, hs, hends.1, hends.2, (outbox_delivery (Machine.reaches_of_run hs)).2.2⟩

end FastiKit.Outbox
