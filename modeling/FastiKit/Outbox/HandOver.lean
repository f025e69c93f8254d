import FastiKit.Outbox.Delivery
import FastiKit.Outbox.Drain
import FastiKit.Outbox.Enqueue

/- What the queue is told to run for an event. Of a payload's entries only those that
   neither call of `enqueue_task` nor a field of `Job` takes by name reach the task; any
   other makes the call fail or is lost to the job's own settings.

   Correspondence (Python ↔ Lean):
     the call of `enqueue_task` in `dispatch_pending`  ↔ `Saq.answer`, and `Saq.reachable` for a batch -/
namespace FastiKit

open Interleave Relational Keyword

namespace Outbox
variable {ν : Type}

namespace Saq
variable (saq : Saq ν) (jsonb : Jsonb ν) (cfg : QueueSettings ν)

/-- How the relay's call ends when the queue can be reached. -/
def answer (row : OutboxEvent (Args ν)) : Answer :=
  match saq.handOver jsonb cfg row.job with
  | .ok _ => .returns
  | .error err => .raises err false

/-- The calls of a poll whose batch is `rows`, with the time each takes. -/
def reachable (rows : List (OutboxEvent (Args ν))) (elapsed : Uuid → Nat) (id : Uuid) : Nat × Answer :=
  (elapsed id, ((changed rows id).map (saq.answer jsonb cfg)).getD .returns)

/-- The names a payload has to leave alone. -/
def reserved : List String :=
  "task_name" :: ownKeywords ++ saq.params ++ saq.fields

end Saq

section Names
variable {saq : Saq ν} {jsonb : Jsonb ν} {cfg : QueueSettings ν} {job : Job (Args ν)}

variable (cfg job) in
/-- **What becomes of a payload.** The job SAQ makes of an event has the payload's own
keywords just if the payload has none of the reserved names. -/
theorem handOver_exact_iff (hsaq : saq.Routes) (hjsonb : jsonb.Returns)
    (hkwargs : job.payload.value "kwargs" = none) :
    (∃ made, saq.handOver jsonb cfg job = .ok made ∧ made.function = job.function ∧
      ∀ name, made.arguments.value name = job.payload.value name) ↔
    ∀ name ∈ saq.reserved, job.payload.value name = none := by
  -- what is said of the payload is said of what is read of it
  simp only [← hjsonb job.payload] at hkwargs ⊢
  constructor
  · intro hmade name hname
    obtain ⟨made, hok, _, hsame⟩ := hmade
    obtain ⟨call, hpasses, hparams, hput⟩ := passes_of_handOver hok
    have hkwargs' : call.value "kwargs" = none := by
      rw [hpasses.rest "kwargs" (by decide), hkwargs]
    by_cases hown : name ∈ "task_name" :: ownKeywords
    · exact hpasses.own name hown
    · have hrest := hpasses.rest name (fun hin => hown (List.mem_cons_of_mem _ hin))
      rw [Saq.reserved, List.mem_append, List.mem_append] at hname
      cases hname with
      | inl hname =>
        rw [← hrest]
        exact hparams name (hname.resolve_left hown)
      | inr hfield => rw [← hsame name, hsaq.routes hput hkwargs' name, Args.value_without, if_pos hfield]
  · intro hfree
    have hown : ∀ name ∈ "task_name" :: ownKeywords, (jsonb.read job.payload).value name = none := by
      intro name hname
      exact hfree name (List.mem_append_left _ (List.mem_append_left _ hname))
    have hparams : ∀ name ∈ saq.params, name ∉ ownKeywords ∧ (jsonb.read job.payload).value name = none := by
      intro name hname
      refine ⟨?_, hfree name (List.mem_append_left _ (List.mem_append_right _ hname))⟩
      intro hin
      exact (hsaq.policy name (List.mem_cons_of_mem _ hin)).2 hname
    have hfields : ∀ name ∈ saq.fields, (jsonb.read job.payload).value name = none := by
      intro name hname
      exact hfree name (List.mem_append_right _ hname)
    obtain ⟨call, hpasses, hfresh, hcall⟩ := handOver_of_free cfg hown hparams
    have hkwargs' : call.value "kwargs" = none := by
      rw [hpasses.rest "kwargs" (by decide), hkwargs]
    have htakes : ∃ made, saq.enqueue job.function call = .ok made := by
      apply hsaq.takes
      · exact hfresh
      · intro name hname hsome
        by_contra hnot
        have hown : name ∉ ownKeywords := fun hin => hnot (List.mem_cons_of_mem _ hin)
        rw [hpasses.rest name hown, hfields name hname] at hsome
        cases hsome
      · intro value hvalue
        rw [hkwargs'] at hvalue
        cases hvalue
    obtain ⟨made, hput⟩ := htakes
    refine ⟨made, hcall.trans hput, hsaq.function hput, ?_⟩
    intro name
    rw [hsaq.routes hput hkwargs' name, Args.value_without]
    split
    · next hfield => exact (hfields name hfield).symm
    · next hfield =>
      exact hpasses.rest name (fun hin => hfield (hsaq.policy name (List.mem_cons_of_mem _ hin)).1)

end Names

theorem flushInto_job {π : Type} (rows : List (OutboxEvent π)) (old : OutboxEvent π) :
    (flushInto rows old).job = old.job := by
  unfold flushInto
  cases changed rows old.id with
  | none => rfl
  | some row => exact OutboxEvent.flush_job row old

theorem Tried.same_job {π : Type} {cfg : OutboxSettings} {row row' : OutboxEvent π} (h : Tried cfg row row') :
    row.id = row'.id ∧ row.job = row'.job := by
  obtain ⟨now, h | ⟨err, h⟩⟩ := h
  · rw [h, OutboxEvent.dispatched_id, OutboxEvent.dispatched_job]
    exact ⟨rfl, rfl⟩
  · rw [h, OutboxEvent.attemptFailed_id, OutboxEvent.attemptFailed_job]
    exact ⟨rfl, rfl⟩

/-! One event, one job: all that goes by an event's id has the job it was staged with. -/

section Identity
variable {π : Type}

/-- The rows a session holds. -/
def Session.rows : Session π → List (OutboxEvent π)
  | .staging events => events
  | .dispatching todo done => done ++ todo
  | _ => []

/-- The row is somewhere: in a session, in the table or among the committed events. -/
def State.Holds (s : State π) (row : OutboxEvent π) : Prop :=
  (∃ session ∈ s.sessions, row ∈ session.rows) ∨ row ∈ s.events.rows ∨ row ∈ s.committed

/-- The row is one that was there, as far as its job goes. -/
def State.Origin (s : State π) (row : OutboxEvent π) : Prop :=
  ∃ old, s.Holds old ∧ old.id = row.id ∧ old.job = row.job

theorem State.Holds.origin {s : State π} {row : OutboxEvent π} (h : s.Holds row) : s.Origin row :=
  ⟨row, h, rfl, rfl⟩

/-- The event an action stages. -/
def State.added (s : State π) : Action π → List (OutboxEvent π)
  | .stageAdd _ taskName payload => [OutboxEvent.new s.uuids taskName payload s.now]
  | _ => []

/-- Rows of one id have one job. -/
structure Distinct (s : State π) : Prop where
  known : ∀ row, s.Holds row → row.id < s.uuids
  same : ∀ row row', s.Holds row → s.Holds row' → row.id = row'.id → row.job = row'.job

theorem Distinct.init (now : Time) : Distinct (State.init now : State π) := by
  have hnone : ∀ row, ¬ (State.init now : State π).Holds row := by
    intro row h
    obtain ⟨session, hsession, _⟩ | hrow | hrow := h
    · cases hsession
    · cases hrow
    · cases hrow
  exact ⟨fun row h => absurd h (hnone row), fun row _ h => absurd h (hnone row)⟩

/-- A session that is replaced brings in what its new contents are. -/
theorem State.holds_put {s : State π} {i : Nat} {new : Session π} {a : Action π}
    (hnew : ∀ row ∈ new.rows, s.Origin row ∨ row ∈ s.added a) :
    ∀ session ∈ (s.put i new).sessions, ∀ row ∈ session.rows, s.Origin row ∨ row ∈ s.added a := by
  intro session hsession row hrow
  cases List.mem_or_eq_of_mem_set hsession with
  | inl hold => exact .inl (State.Holds.origin (.inl ⟨session, hold, hrow⟩))
  | inr heq =>
    rw [heq] at hrow
    exact hnew row hrow

/-- Where a row comes from, by the kind of step. -/
theorem origin_of_moves {cfg : OutboxSettings} {s s' : State π} {a : Action π} (h : Moves cfg s a s')
    {row : OutboxEvent π} (hrow : s'.Holds row) : s.Origin row ∨ row ∈ s.added a := by
  have htable : ∀ row ∈ s.events.rows, s.Origin row ∨ row ∈ s.added a :=
    fun row hrow => .inl (State.Holds.origin (.inr (.inl hrow)))
  have hcommitted : ∀ row ∈ s.committed, s.Origin row ∨ row ∈ s.added a :=
    fun row hrow => .inl (State.Holds.origin (.inr (.inr hrow)))
  have hheld : ∀ {i : Nat} {session : Session π}, s.sessions[i]? = some session → ∀ row ∈ session.rows,
      s.Origin row ∨ row ∈ s.added a :=
    fun hi row hrow => .inl (State.Holds.origin (.inl ⟨_, List.mem_of_getElem? hi, hrow⟩))
  have hidle : ∀ row ∈ (Session.idle : Session π).rows, s.Origin row ∨ row ∈ s.added a := nofun
  have hparts : (∀ session ∈ s'.sessions, ∀ row ∈ session.rows, s.Origin row ∨ row ∈ s.added a) →
      (∀ row ∈ s'.events.rows, s.Origin row ∨ row ∈ s.added a) →
      (∀ row ∈ s'.committed, s.Origin row ∨ row ∈ s.added a) → s.Origin row ∨ row ∈ s.added a := by
    intro hsessions hevents hcommits
    obtain ⟨session, hsession, hin⟩ | hin | hin := hrow
    · exact hsessions session hsession row hin
    · exact hevents row hin
    · exact hcommits row hin
  cases h with
  | connect =>
    refine hparts ?_ htable hcommitted
    intro session hsession row hrow
    cases List.mem_append.mp hsession with
    | inl hold => exact .inl (State.Holds.origin (.inl ⟨session, hold, hrow⟩))
    | inr hnew =>
      rw [List.mem_singleton.mp hnew] at hrow
      cases hrow
  | @stageAdd i taskName payload session staged hi hstaged =>
    refine hparts (State.holds_put ?_) htable hcommitted
    intro row hrow
    cases List.mem_append.mp hrow with
    | inl hold =>
      cases session with
      | idle =>
        rw [← Option.some.inj hstaged] at hold
        cases hold
      | staging events =>
        rw [← Option.some.inj hstaged] at hold
        exact hheld hi row hold
      | dispatching todo done => cases hstaged
      | cleaning victims => cases hstaged
    | inr hnew => exact .inr hnew
  | select hi hrows hsel =>
    refine hparts (State.holds_put ?_) htable hcommitted
    intro row hrow
    exact htable row (Table.mem_of_get (hrows row hrow))
  | @enqueue i answer row₀ todo done hi =>
    have hsame : (s.dispatch cfg row₀ answer).1.put i (.dispatching todo (done ++ [(s.dispatch cfg row₀ answer).2]))
        = ((s.put i (.dispatching todo (done ++ [(s.dispatch cfg row₀ answer).2]))).dispatch cfg row₀ answer).1 := by
      rw [State.dispatch_put]
    rw [hsame] at hparts
    simp only [State.sessions_dispatch, State.events_dispatch, State.committed_dispatch] at hparts
    refine hparts (State.holds_put ?_) htable hcommitted
    intro row hrow
    have hrow' : row ∈ done ++ todo ∨ row = (s.dispatch cfg row₀ answer).2 := by
      simp only [Session.rows, List.mem_append, List.mem_singleton] at hrow ⊢
      tauto
    cases hrow' with
    | inl hold =>
      refine hheld hi row ?_
      simp only [Session.rows, List.mem_append, List.mem_cons] at hold ⊢
      tauto
    | inr hnew =>
      refine .inl ⟨row₀, .inl ⟨_, List.mem_of_getElem? hi, ?_⟩, ?_⟩
      · simp [Session.rows]
      · rw [hnew]
        exact (State.tried_dispatch cfg s row₀ answer).same_job
  | delete hi hvictims hfree => exact hparts (State.holds_put nofun) htable hcommitted
  | @commitStaged i staged events hi hins =>
    refine hparts (State.holds_put hidle) ?_ ?_
    · intro row hrow
      rw [Table.rows_insertAll hins, List.mem_append, List.mem_reverse] at hrow
      cases hrow with
      | inl hstaged => exact hheld hi row hstaged
      | inr hold => exact htable row hold
    · intro row hrow
      cases List.mem_append.mp hrow with
      | inl hstaged => exact hheld hi row hstaged
      | inr hold => exact hcommitted row hold
  | commitRefused hi => exact hparts (State.holds_put hidle) htable hcommitted
  | @commitDispatched i done hi =>
    refine hparts (State.holds_put hidle) ?_ hcommitted
    intro row hrow
    rw [rows_flushAll] at hrow
    obtain ⟨old, hold, rfl⟩ := List.mem_map.mp hrow
    exact .inl ⟨old, .inr (.inl hold), (flushInto_id done old).symm, (flushInto_job done old).symm⟩
  | commitCleaned hi =>
    refine hparts (State.holds_put hidle) ?_ hcommitted
    intro row hrow
    exact htable row (Table.mem_deleteWhere.mp hrow).1
  | close hi => exact hparts (State.holds_put hidle) htable hcommitted
  | finish => exact hparts (fun session hsession row hrow => .inl (State.Holds.origin (.inl ⟨session, hsession, hrow⟩))) htable hcommitted
  | tick => exact hparts (fun session hsession row hrow => .inl (State.Holds.origin (.inl ⟨session, hsession, hrow⟩))) htable hcommitted

theorem uuids_dispatch (cfg : OutboxSettings) (s : State π) (row : OutboxEvent π) (answer : Answer) :
    (s.dispatch cfg row answer).1.uuids = s.uuids := by
  have henqueue : (s.enqueueTask row).uuids = s.uuids := by
    unfold State.enqueueTask
    split <;> rfl
  cases answer with
  | returns => exact henqueue
  | raises err queued =>
    cases queued with
    | false => rfl
    | true => exact henqueue

theorem uuids_of_moves {cfg : OutboxSettings} {s s' : State π} {a : Action π} (h : Moves cfg s a s') :
    s'.uuids = s.uuids + (s.added a).length := by
  cases h with
  | @enqueue i answer row todo done hi => exact uuids_dispatch cfg s row answer
  | _ => rfl

theorem Distinct.step {cfg : OutboxSettings} {s s' : State π} {a : Action π} (hs : Distinct s)
    (ha : (machine cfg).step s a = some s') : Distinct s' := by
  have hmoves := moves_of_step ha
  have huuids := uuids_of_moves hmoves
  have hadded : ∀ row ∈ s.added a, row.id = s.uuids ∧ s'.uuids = s.uuids + 1 ∧ s.added a = [row] := by
    intro row hrow
    cases a with
    | stageAdd i taskName payload =>
      rw [List.mem_singleton.mp hrow]
      exact ⟨rfl, huuids, rfl⟩
    | _ => cases hrow
  have hold : ∀ row, s.Origin row → row.id < s.uuids := by
    intro row hrow
    obtain ⟨old, hold, hid, _⟩ := hrow
    rw [← hid]
    exact hs.known old hold
  refine ⟨?_, ?_⟩
  · intro row hrow
    cases origin_of_moves hmoves hrow with
    | inl horigin =>
      have := hold row horigin
      unfold Uuid at *
      omega
    | inr hnew =>
      obtain ⟨hid, hnext, _⟩ := hadded row hnew
      rw [hid, hnext]
      exact Nat.lt_succ_self _
  · intro row row' hrow hrow' hid
    cases origin_of_moves hmoves hrow with
    | inl horigin =>
      cases origin_of_moves hmoves hrow' with
      | inl horigin' =>
        obtain ⟨old, hheld, hoid, hojob⟩ := horigin
        obtain ⟨old', hheld', hoid', hojob'⟩ := horigin'
        rw [← hojob, ← hojob']
        exact hs.same old old' hheld hheld' (by rw [hoid, hoid', hid])
      | inr hnew' =>
        have hlt := hold row horigin
        rw [hid, (hadded row' hnew').1] at hlt
        exact absurd hlt (Nat.lt_irrefl _)
    | inr hnew =>
      cases origin_of_moves hmoves hrow' with
      | inl horigin' =>
        have hlt := hold row' horigin'
        rw [← hid, (hadded row hnew).1] at hlt
        exact absurd hlt (Nat.lt_irrefl _)
      | inr hnew' =>
        have honly := (hadded row hnew).2.2
        rw [honly] at hnew'
        rw [List.mem_singleton.mp hnew']

end Identity

/-! What a poll puts in the queue. -/

section Puts
variable {π : Type}

/-- What calls for these rows do to the queue. -/
structure Puts (rows : List (OutboxEvent π)) (s s' : State π) : Prop where
  queued : s.queued ⊆ s'.queued
  jobs : ∀ job ∈ s'.enqueued, job ∈ s.enqueued ∨ ∃ row ∈ rows, row.job = job
  held : ∀ key ∈ s'.queued, key ∈ s.queued ∨ ∃ job ∈ s'.enqueued, job.key = key
  grows : s.enqueued ⊆ s'.enqueued

theorem Puts.same {rows : List (OutboxEvent π)} {s s' : State π} (hqueued : s'.queued = s.queued)
    (henqueued : s'.enqueued = s.enqueued) : Puts rows s s' := by
  refine ⟨?_, ?_, ?_, ?_⟩
  · rw [hqueued]
    exact List.Subset.refl _
  · intro job hjob
    exact .inl (henqueued ▸ hjob)
  · intro key hkey
    exact .inl (hqueued ▸ hkey)
  · rw [henqueued]
    exact List.Subset.refl _

theorem Puts.trans {rows rows' : List (OutboxEvent π)} {s s₁ s' : State π} (h : Puts rows s s₁)
    (h' : Puts rows' s₁ s') : Puts (rows ++ rows') s s' := by
  refine ⟨List.Subset.trans h.queued h'.queued, ?_, ?_, List.Subset.trans h.grows h'.grows⟩
  · intro job hjob
    cases h'.jobs job hjob with
    | inl hmid =>
      cases h.jobs job hmid with
      | inl hold => exact .inl hold
      | inr hnew =>
        obtain ⟨row, hrow, heq⟩ := hnew
        exact .inr ⟨row, List.mem_append_left _ hrow, heq⟩
    | inr hnew =>
      obtain ⟨row, hrow, heq⟩ := hnew
      exact .inr ⟨row, List.mem_append_right _ hrow, heq⟩
  · intro key hkey
    cases h'.held key hkey with
    | inl hmid =>
      cases h.held key hmid with
      | inl hold => exact .inl hold
      | inr hnew =>
        obtain ⟨job, hjob, heq⟩ := hnew
        exact .inr ⟨job, h'.grows hjob, heq⟩
    | inr hnew => exact .inr hnew

theorem puts_enqueueTask (s : State π) (row : OutboxEvent π) :
    Puts [row] s (s.enqueueTask row) ∧ row.job.key ∈ (s.enqueueTask row).queued := by
  unfold State.enqueueTask
  split
  · next hqueued => exact ⟨.same rfl rfl, List.contains_iff_mem.mp hqueued⟩
  · refine ⟨⟨List.subset_cons_self _ _, ?_, ?_, List.subset_cons_self _ _⟩, List.mem_cons_self⟩
    · intro job hjob
      cases List.mem_cons.mp hjob with
      | inl heq => exact .inr ⟨row, List.mem_singleton_self row, heq.symm⟩
      | inr hold => exact .inl hold
    · intro key hkey
      cases List.mem_cons.mp hkey with
      | inl heq => exact .inr ⟨row.job, List.mem_cons_self, heq.symm⟩
      | inr hold => exact .inl hold

/-- A turn of the loop puts the row's job or nothing, and the job if the call returns. -/
theorem puts_attempt (cfg : OutboxSettings) (call : Uuid → Nat × Answer) (poll : Poll π) (row : OutboxEvent π) :
    Puts [row] poll.state (poll.attempt cfg call row).state ∧
      ((call row.id).2 = .returns → row.job.key ∈ (poll.attempt cfg call row).state.queued) := by
  have hput := puts_enqueueTask { poll.state with now := poll.state.now + (call row.id).1 } row
  unfold Poll.attempt
  cases hcall : (call row.id).2 with
  | returns => exact ⟨⟨hput.1.queued, hput.1.jobs, hput.1.held, hput.1.grows⟩, fun _ => hput.2⟩
  | raises err queued =>
    refine ⟨?_, nofun⟩
    cases queued with
    | false => exact .same rfl rfl
    | true => exact ⟨hput.1.queued, hput.1.jobs, hput.1.held, hput.1.grows⟩

theorem puts_loop (cfg : OutboxSettings) (call : Uuid → Nat × Answer) (rows : List (OutboxEvent π)) (poll : Poll π) :
    Puts rows poll.state (rows.foldl (Poll.attempt cfg call) poll).state ∧
      ∀ row ∈ rows, (call row.id).2 = .returns →
        row.job.key ∈ (rows.foldl (Poll.attempt cfg call) poll).state.queued := by
  induction rows generalizing poll with
  | nil => exact ⟨.same rfl rfl, nofun⟩
  | cons row rows ih =>
    obtain ⟨hfirst, hreturned⟩ := puts_attempt cfg call poll row
    obtain ⟨hrest, hall⟩ := ih (poll.attempt cfg call row)
    refine ⟨hfirst.trans hrest, ?_⟩
    intro row' hrow' hcall
    cases List.mem_cons.mp hrow' with
    | inl heq =>
      rw [heq] at hcall ⊢
      exact hrest.queued (hreturned hcall)
    | inr hmem => exact hall row' hmem hcall

end Puts

/-- **When the payload is handed over as it was staged.** Whatever has run and died
before: a poll of a reachable queue that takes a committed event's row leaves a job
that runs the event's task with exactly the event's payload, just if the payload has
none of the reserved names. -/
theorem payload_handed_over_iff {saq : Saq ν} (hsaq : saq.Routes) {jsonb : Jsonb ν} (hjsonb : jsonb.Returns)
    (cfg : QueueSettings ν) {settings : OutboxSettings} {now : Time} {s : State (Args ν)}
    (h : (machine settings).Reaches (State.init now) s) {event : OutboxEvent (Args ν)}
    (hevent : event ∈ s.committed) (hkwargs : event.payload.value "kwargs" = none) {batchSize : Nat}
    {rows : List (OutboxEvent (Args ν))} (hrows : s.Answers batchSize rows)
    (hrow : event.id ∈ rows.map OutboxEvent.id) (elapsed : Uuid → Nat) :
    (∃ job ∈ (dispatchPending settings (saq.reachable jsonb cfg rows elapsed) rows s).state.enqueued,
      job.key = jobKey event.id ∧ ∃ made, saq.handOver jsonb cfg job = .ok made ∧ made.function = event.taskName ∧
        ∀ name, made.arguments.value name = event.payload.value name) ↔
    ∀ name ∈ saq.reserved, event.payload.value name = none := by
  have hdelivers : Delivers s := h.invariant (fun _ _ _ hv _ ha => hv.step ha) (Delivers.init now)
  have hdistinct : Distinct s := h.invariant (fun _ _ _ hv _ ha => hv.step ha) (Distinct.init now)
  obtain ⟨hputs, hreturned⟩ := puts_loop settings (saq.reachable jsonb cfg rows elapsed) rows ⟨s, [], 0, 0⟩
  obtain ⟨row, hmem, hid⟩ := List.mem_map.mp hrow
  have hsame : row.job = event.job :=
    hdistinct.same row event (.inr (.inl (hrows.mem hmem))) (.inr (.inr hevent)) hid
  -- a job under the event's key is the event's job
  have honly : ∀ job ∈ (dispatchPending settings (saq.reachable jsonb cfg rows elapsed) rows s).state.enqueued,
      job.key = jobKey event.id → job = event.job := by
    intro job hjob hkey
    cases hputs.jobs job hjob with
    | inl hold =>
      obtain ⟨event', hevent', heq⟩ := hdelivers.jobs job hold
      subst heq
      exact hdistinct.same event' event (.inr (.inr hevent')) (.inr (.inr hevent)) (jobKey_injective hkey)
    | inr hnew =>
      obtain ⟨row', hrow', heq⟩ := hnew
      subst heq
      exact hdistinct.same row' event (.inr (.inl (hrows.mem hrow'))) (.inr (.inr hevent)) (jobKey_injective hkey)
  have hexact := handOver_exact_iff cfg event.job hsaq hjsonb hkwargs
  constructor
  · intro hjob
    obtain ⟨job, hin, hkey, hmade⟩ := hjob
    rw [honly job hin hkey] at hmade
    exact hexact.mp hmade
  · intro hfree
    obtain ⟨made, hok, hfunction, hvalues⟩ := hexact.mpr hfree
    have hcall : (saq.reachable jsonb cfg rows elapsed row.id).2 = .returns := by
      simp only [Saq.reachable, changed_of_mem hrows.nodup hmem, Option.map_some, Option.getD_some, Saq.answer,
        hsame, hok]
    have hqueued := hreturned row hmem hcall
    have hjob : ∃ job ∈ (dispatchPending settings (saq.reachable jsonb cfg rows elapsed) rows s).state.enqueued,
        job.key = row.job.key := by
      cases hputs.held _ hqueued with
      | inl hold =>
        obtain ⟨job, hjob, hkey⟩ := hdelivers.queue _ hold
        exact ⟨job, hputs.grows hjob, hkey⟩
      | inr hnew => exact hnew
    obtain ⟨job, hin, hkey⟩ := hjob
    rw [hsame] at hkey
    exact ⟨job, hin, hkey, made, by rw [honly job hin hkey]; exact hok, hfunction, hvalues⟩

/-- One event of a producer, committed. -/
def stagedRun (payload : Args Json) : List (Action (Args Json)) :=
  [.connect, .stageAdd 0 "send_email_task" payload, .commit 0]

/-- The select of a poll that takes one row. -/
def firstRow (s : State (Args Json)) : List (OutboxEvent (Args Json)) :=
  (s.waiting.insertionSort (fun row row' => row.createdAt ≤ row'.createdAt)).take 1

def sampleEvent (payload : Args Json) : OutboxEvent (Args Json) := OutboxEvent.new 0 "send_email_task" payload 0

/-- The state a staged event of that payload leaves. -/
def stagedState (payload : Args Json) : State (Args Json) :=
  { State.init 0 with
    uuids := 1
    events := ⟨[sampleEvent payload], by simp⟩
    sessions := [.idle]
    committed := [sampleEvent payload] }

theorem reaches_staged (payload : Args Json) :
    (machine sampleSettings).Reaches (State.init 0) (stagedState payload) := by
  have hrun : (machine sampleSettings).run (State.init 0) (stagedRun payload) = some (stagedState payload) := rfl
  exact Machine.reaches_of_run hrun

/-- What the relay asks the task to send. -/
def mailPayload : Args Json := ⟨[("subject", .string "Welcome"), ("recipients", .array [.string "ann@example.org"])], by decide⟩

theorem payload_handed_over_iff_sample :
    ∃ job ∈ (dispatchPending sampleSettings
        (sampleSaq.reachable sampleJsonb samplePolicy (firstRow (stagedState mailPayload)) (fun _ => 0))
        (firstRow (stagedState mailPayload)) (stagedState mailPayload)).state.enqueued,
      job.key = jobKey 0 ∧ ∃ made, sampleSaq.handOver sampleJsonb samplePolicy job = .ok made ∧
        made.function = "send_email_task" ∧ ∀ name, made.arguments.value name = mailPayload.value name := by
  have hevent : sampleEvent mailPayload ∈ (stagedState mailPayload).committed := List.mem_singleton_self _
  exact (payload_handed_over_iff sampleSaq_routes sampleJsonb_returns samplePolicy (reaches_staged mailPayload) hevent
    (by decide) ((stagedState mailPayload).exists_answer 1) (by decide) (fun _ => 0)).mpr (by decide)

/-- A payload with a keyword of the call itself. -/
def keyPayload : Args Json := ⟨[("key", .string "invoice-7")], by decide⟩

/-- No job of that event reaches the queue: the call has `key` twice. -/
theorem key_payload_not_handed_over :
    (machine sampleSettings).Reaches (State.init 0) (stagedState keyPayload) ∧
      sampleEvent keyPayload ∈ (stagedState keyPayload).committed ∧ keyPayload.value "kwargs" = none ∧
      (stagedState keyPayload).Answers 1 (firstRow (stagedState keyPayload)) ∧
      0 ∈ (firstRow (stagedState keyPayload)).map OutboxEvent.id ∧
      (dispatchPending sampleSettings
        (sampleSaq.reachable sampleJsonb samplePolicy (firstRow (stagedState keyPayload)) (fun _ => 0))
        (firstRow (stagedState keyPayload)) (stagedState keyPayload)).state.enqueued = [] :=
  ⟨reaches_staged keyPayload, List.mem_singleton_self _, by decide, (stagedState keyPayload).exists_answer 1,
    by decide, by decide⟩

end Outbox
end FastiKit
