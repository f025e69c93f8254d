import Mathlib
import FastiKit.Outbox.Relay

/- What polling makes of the rows that are pending: the loop of one relay with no
   producer at work, whichever enqueue calls fail.

   Correspondence (Python ↔ Lean):
     the relay's select                        ↔ `State.Answers`
     the body of the loop over the batch       ↔ `Poll.attempt`
     `dispatch_pending`                        ↔ `dispatchPending`
     the iterations of `relay_loop`            ↔ `Polls.poll`, `State.polled`
   A row that fails stays where it is in the order and is first again in the next
   poll, so no row's wait is bounded by itself. What is bounded is the number of
   attempts all the rows have left (`State.left`): a poll that finds a row takes
   at least one of them, and none comes back. -/
namespace FastiKit

open Interleave Relational

namespace Outbox
variable {π : Type}

/-- The rows a poll can see: pending, and no one has locked them. -/
def State.waiting (s : State π) : List (OutboxEvent π) :=
  s.events.rows.filter (fun row => row.pending && !s.isLocked row.id)

/-- `SELECT ... ORDER BY created_at LIMIT batch_size FOR UPDATE SKIP LOCKED` answers
these rows; rows of one age come in any order. -/
def State.Answers (s : State π) (batchSize : Nat) (rows : List (OutboxEvent π)) : Prop :=
  ∃ order : List (OutboxEvent π), order.Perm s.waiting ∧
    order.Pairwise (fun row row' => row.createdAt ≤ row'.createdAt) ∧ rows = order.take batchSize

/-- A call of `dispatch_pending`: the rows the loop is through with and the counters. -/
structure Poll (π : Type) where
  state : State π
  done : List (OutboxEvent π)
  dispatched : Nat
  failed : Nat

namespace Poll

/-- The rows it called `enqueue_task` for, in order. -/
def tried (poll : Poll π) : List Uuid := poll.done.map OutboxEvent.id

/-- The body of the loop: `call` says how long the enqueue call of a row takes and how it ends. -/
def attempt (cfg : OutboxSettings) (call : Uuid → Nat × Answer) (poll : Poll π) (row : OutboxEvent π) :
    Poll π :=
  let s := { poll.state with now := poll.state.now + (call row.id).1 }
  let (s', row') := s.dispatch cfg row (call row.id).2
  match (call row.id).2 with
  | .returns => { poll with state := s', done := poll.done ++ [row'], dispatched := poll.dispatched + 1 }
  | .raises _ _ => { poll with state := s', done := poll.done ++ [row'], failed := poll.failed + 1 }

end Poll

/-- `dispatch_pending`, on the rows its select answers with. -/
def dispatchPending (cfg : OutboxSettings) (call : Uuid → Nat × Answer) (rows : List (OutboxEvent π))
    (s : State π) : Poll π :=
  let poll := rows.foldl (Poll.attempt cfg call) ⟨s, [], 0, 0⟩
  { poll with state := { poll.state with events := flushAll poll.done poll.state.events } }

/-- The polls of a relay: what the database answers the `n`-th select with, and how
its enqueue calls end. -/
structure Polls (π : Type) (batchSize : Nat) where
  select : Nat → State π → List (OutboxEvent π)
  answers : ∀ (n : Nat) (s : State π), s.Answers batchSize (select n s)
  call : Nat → Uuid → Nat × Answer

section Iteration
variable {batchSize : Nat} (cfg : OutboxSettings) (polls : Polls π batchSize)

/-- The `n`-th poll, on the state it finds. -/
def Polls.poll (n : Nat) (s : State π) : Poll π := dispatchPending cfg (polls.call n) (polls.select n s) s

/-- The state the first `n` polls leave. -/
def State.polled (s : State π) : Nat → State π
  | 0 => s
  | n + 1 => (polls.poll cfg n (s.polled n)).state

/-- How often the first `n` polls called `enqueue_task` for a row. -/
def State.tries (s : State π) (id : Uuid) : Nat → Nat
  | 0 => 0
  | n + 1 => s.tries id n + (polls.poll cfg n (s.polled cfg polls n)).tried.count id

end Iteration

/-- What an attempt can leave of a row. -/
def Tried (cfg : OutboxSettings) (row row' : OutboxEvent π) : Prop :=
  ∃ now, row' = row.dispatched now ∨ ∃ err, row' = row.attemptFailed cfg.outboxMaxAttempts err now

theorem Tried.id_eq {cfg : OutboxSettings} {row row' : OutboxEvent π} (h : Tried cfg row row') :
    row'.id = row.id := by
  obtain ⟨now, h | ⟨err, h⟩⟩ := h
  · rw [h, OutboxEvent.dispatched_id]
  · rw [h, OutboxEvent.attemptFailed_id]

/-- The flush writes all that an attempt changes. -/
theorem Tried.flush_eq {cfg : OutboxSettings} {row row' : OutboxEvent π} (h : Tried cfg row row') :
    row'.flush row = row' := by
  obtain ⟨now, h | ⟨err, h⟩⟩ := h
  · rw [h]
    rfl
  · rw [h]
    rfl

theorem State.tried_dispatch (cfg : OutboxSettings) (s : State π) (row : OutboxEvent π) (answer : Answer) :
    Tried cfg row (s.dispatch cfg row answer).2 := by
  cases answer with
  | returns => exact ⟨s.now, .inl rfl⟩
  | raises err queued => exact ⟨s.now, .inr ⟨err, rfl⟩⟩

@[simp] theorem State.events_enqueueTask (s : State π) (row : OutboxEvent π) :
    (s.enqueueTask row).events = s.events := by
  unfold State.enqueueTask
  split <;> rfl

@[simp] theorem State.sessions_enqueueTask (s : State π) (row : OutboxEvent π) :
    (s.enqueueTask row).sessions = s.sessions := by
  unfold State.enqueueTask
  split <;> rfl

@[simp] theorem State.committed_enqueueTask (s : State π) (row : OutboxEvent π) :
    (s.enqueueTask row).committed = s.committed := by
  unfold State.enqueueTask
  split <;> rfl

theorem State.enqueueTask_put (s : State π) (i : Nat) (session : Session π) (row : OutboxEvent π) :
    (s.put i session).enqueueTask row = (s.enqueueTask row).put i session := by
  by_cases hqueued : row.job.key ∈ s.queued <;> simp [State.enqueueTask, State.put, hqueued]

@[simp] theorem State.events_dispatch (cfg : OutboxSettings) (s : State π) (row : OutboxEvent π)
    (answer : Answer) : (s.dispatch cfg row answer).1.events = s.events := by
  cases answer with
  | returns => simp [State.dispatch]
  | raises err queued => cases queued <;> simp [State.dispatch]

@[simp] theorem State.sessions_dispatch (cfg : OutboxSettings) (s : State π) (row : OutboxEvent π)
    (answer : Answer) : (s.dispatch cfg row answer).1.sessions = s.sessions := by
  cases answer with
  | returns => simp [State.dispatch]
  | raises err queued => cases queued <;> simp [State.dispatch]

@[simp] theorem State.committed_dispatch (cfg : OutboxSettings) (s : State π) (row : OutboxEvent π)
    (answer : Answer) : (s.dispatch cfg row answer).1.committed = s.committed := by
  cases answer with
  | returns => simp [State.dispatch]
  | raises err queued => cases queued <;> simp [State.dispatch]

/-! One poll. -/

/-- What one turn of the loop does: it tries the row, and counts it once. -/
theorem Poll.attempt_spec (cfg : OutboxSettings) (call : Uuid → Nat × Answer) (poll : Poll π)
    (row : OutboxEvent π) :
    ∃ row', Tried cfg row row' ∧ (poll.attempt cfg call row).done = poll.done ++ [row'] ∧
      (poll.attempt cfg call row).state.events = poll.state.events ∧
      (poll.attempt cfg call row).state.sessions = poll.state.sessions ∧
      (poll.attempt cfg call row).dispatched + (poll.attempt cfg call row).failed =
        poll.dispatched + poll.failed + 1 := by
  refine ⟨_, State.tried_dispatch cfg { poll.state with now := poll.state.now + (call row.id).1 } row
    (call row.id).2, ?_⟩
  unfold Poll.attempt
  split
  · refine ⟨rfl, by simp, by simp, ?_⟩
    simp only
    omega
  · refine ⟨rfl, by simp, by simp, ?_⟩
    simp only
    omega

/-- What the loop over the batch does. -/
theorem Poll.loop_spec (cfg : OutboxSettings) (call : Uuid → Nat × Answer) (rows : List (OutboxEvent π))
    (poll : Poll π) :
    ∃ rows', List.Forall₂ (Tried cfg) rows rows' ∧
      (rows.foldl (Poll.attempt cfg call) poll).done = poll.done ++ rows' ∧
      (rows.foldl (Poll.attempt cfg call) poll).state.events = poll.state.events ∧
      (rows.foldl (Poll.attempt cfg call) poll).state.sessions = poll.state.sessions ∧
      (rows.foldl (Poll.attempt cfg call) poll).dispatched + (rows.foldl (Poll.attempt cfg call) poll).failed =
        poll.dispatched + poll.failed + rows.length := by
  induction rows generalizing poll with
  | nil => exact ⟨[], .nil, by simp, rfl, rfl, rfl⟩
  | cons row rows ih =>
    obtain ⟨row', htried, hdone, hevents, hsessions, hcount⟩ := poll.attempt_spec cfg call row
    obtain ⟨rows', hall, hdone', hevents', hsessions', hcount'⟩ := ih (poll.attempt cfg call row)
    refine ⟨row' :: rows', .cons htried hall, ?_, hevents'.trans hevents, hsessions'.trans hsessions, ?_⟩
    · rw [List.foldl_cons, hdone', hdone, List.append_assoc, List.singleton_append]
    · rw [List.foldl_cons, hcount', hcount, List.length_cons]
      omega

theorem ids_of_tried {cfg : OutboxSettings} {rows rows' : List (OutboxEvent π)}
    (h : List.Forall₂ (Tried cfg) rows rows') : rows'.map OutboxEvent.id = rows.map OutboxEvent.id := by
  induction h with
  | nil => rfl
  | cons hrow _ ih => rw [List.map_cons, List.map_cons, hrow.id_eq, ih]

theorem exists_tried {cfg : OutboxSettings} {rows rows' : List (OutboxEvent π)}
    (h : List.Forall₂ (Tried cfg) rows rows') {row : OutboxEvent π} (hrow : row ∈ rows) :
    ∃ row' ∈ rows', Tried cfg row row' := by
  induction h with
  | nil => cases hrow
  | cons hfirst _ ih =>
    cases List.mem_cons.mp hrow with
    | inl heq =>
      subst heq
      exact ⟨_, List.mem_cons_self, hfirst⟩
    | inr hmem =>
      obtain ⟨row', hmem', htried⟩ := ih hmem
      exact ⟨row', List.mem_cons_of_mem _ hmem', htried⟩

section Select
variable {s : State π} {batchSize : Nat} {rows : List (OutboxEvent π)}

theorem State.Answers.mem_waiting (h : s.Answers batchSize rows) {row : OutboxEvent π} (hrow : row ∈ rows) :
    row ∈ s.waiting := by
  obtain ⟨order, hperm, _, rfl⟩ := h
  exact hperm.mem_iff.mp (List.mem_of_mem_take hrow)

theorem State.Answers.mem (h : s.Answers batchSize rows) {row : OutboxEvent π} (hrow : row ∈ rows) :
    row ∈ s.events.rows := List.mem_of_mem_filter (h.mem_waiting hrow)

theorem State.Answers.pending (h : s.Answers batchSize rows) {row : OutboxEvent π} (hrow : row ∈ rows) :
    row.pending = true := by
  have := List.of_mem_filter (h.mem_waiting hrow)
  simp only [Bool.and_eq_true] at this
  exact this.1

theorem State.Answers.nodup (h : s.Answers batchSize rows) : (rows.map OutboxEvent.id).Nodup := by
  obtain ⟨order, hperm, _, rfl⟩ := h
  have hwaiting : (s.waiting.map OutboxEvent.id).Nodup :=
    s.events.nodup.sublist (List.filter_sublist.map OutboxEvent.id)
  exact ((hperm.map OutboxEvent.id).nodup_iff.mpr hwaiting).sublist ((List.take_sublist _ _).map _)

/-- A select that could see a row sees one. -/
theorem State.Answers.ne_nil (h : s.Answers batchSize rows) (hbatch : 1 ≤ batchSize)
    (hwaiting : s.waiting ≠ []) : rows ≠ [] := by
  obtain ⟨order, hperm, _, rfl⟩ := h
  have horder : order ≠ [] := by
    intro heq
    rw [heq] at hperm
    exact hwaiting hperm.symm.eq_nil
  simp only [ne_eq, List.take_eq_nil_iff, not_or]
  exact ⟨by omega, horder⟩

/-- The select answers something, whatever there is. -/
theorem State.exists_answer (s : State π) (batchSize : Nat) :
    s.Answers batchSize ((s.waiting.insertionSort (fun row row' => row.createdAt ≤ row'.createdAt)).take
      batchSize) := by
  have htotal : Std.Total (fun row row' : OutboxEvent π => row.createdAt ≤ row'.createdAt) :=
    ⟨fun row row' => Int.le_total row.createdAt row'.createdAt⟩
  have htrans : IsTrans (OutboxEvent π) (fun row row' => row.createdAt ≤ row'.createdAt) :=
    ⟨fun row row' row'' => Int.le_trans⟩
  exact ⟨_, List.perm_insertionSort _ _, List.pairwise_insertionSort _ _, rfl⟩

end Select

/-- What a poll does to the table: a row it tries is pending and is left as the attempt
leaves it, the others are as they were. -/
structure Polled (cfg : OutboxSettings) (s : State π) (poll : Poll π) : Prop where
  rows : poll.state.events.rows = s.events.rows.map (flushInto poll.done)
  tried : ∀ row ∈ s.events.rows, row.id ∈ poll.tried →
    row.pending = true ∧ Tried cfg row (flushInto poll.done row)
  skipped : ∀ row, row.id ∉ poll.tried → flushInto poll.done row = row
  once : poll.tried.Nodup
  counted : poll.dispatched + poll.failed = poll.tried.length
  sessions : poll.state.sessions = s.sessions

theorem rows_flushAll (rows : List (OutboxEvent π)) (events : Events π) :
    (flushAll rows events).rows = events.rows.map (flushInto rows) := by
  unfold flushAll Table.updateWhere
  refine List.map_congr_left ?_
  intro old _
  unfold flushInto
  cases hchanged : changed rows old.id <;> simp [hchanged]

theorem polled_dispatchPending (cfg : OutboxSettings) (call : Uuid → Nat × Answer) {s : State π} {batchSize : Nat}
    {rows : List (OutboxEvent π)} (h : s.Answers batchSize rows) :
    Polled cfg s (dispatchPending cfg call rows s) ∧
      (dispatchPending cfg call rows s).tried = rows.map OutboxEvent.id := by
  obtain ⟨rows', hall, hdone, hevents, hsessions, hcount⟩ := Poll.loop_spec cfg call rows ⟨s, [], 0, 0⟩
  have hids := ids_of_tried hall
  have hdone' : (dispatchPending cfg call rows s).done = rows' := hdone
  have htried : (dispatchPending cfg call rows s).tried = rows.map OutboxEvent.id := by
    rw [Poll.tried, hdone', hids]
  refine ⟨⟨?_, ?_, ?_, ?_, ?_, hsessions⟩, htried⟩
  · rw [hdone']
    change (flushAll _ _).rows = _
    rw [rows_flushAll, hevents, hdone, List.nil_append]
  · intro row hmem hrow
    rw [htried] at hrow
    obtain ⟨row₀, hrow₀, hid⟩ := List.mem_map.mp hrow
    have heq : row₀ = row := List.inj_on_of_nodup_map s.events.nodup (h.mem hrow₀) hmem hid
    subst heq
    obtain ⟨row', hmem', htried'⟩ := exists_tried hall hrow₀
    have hnodup : (rows'.map OutboxEvent.id).Nodup := by
      rw [hids]
      exact h.nodup
    have hchanged : changed rows' row₀.id = some row' := by
      rw [← htried'.id_eq]
      exact changed_of_mem hnodup hmem'
    refine ⟨h.pending hrow₀, ?_⟩
    rw [hdone', flushInto, hchanged, Option.elim_some, htried'.flush_eq]
    exact htried'
  · intro row hrow
    rw [Poll.tried, hdone'] at hrow
    rw [hdone', flushInto, changed_eq_none.mpr hrow, Option.elim_none]
  · rw [htried]
    exact h.nodup
  · rw [htried, List.length_map]
    exact hcount.trans (by rw [Nat.zero_add, Nat.zero_add])

/-! The attempts that are left. -/

/-- How many attempts a row can take before it is no longer pending. -/
def attemptsLeft (cfg : OutboxSettings) (row : OutboxEvent π) : Nat :=
  if row.pending then max 1 (cfg.outboxMaxAttempts - row.attempts) else 0

/-- The attempts that all rows can take. -/
def State.left (cfg : OutboxSettings) (s : State π) : Nat := (s.events.rows.map (attemptsLeft cfg)).sum

theorem attemptsLeft_le {cfg : OutboxSettings} (hmax : 1 ≤ cfg.outboxMaxAttempts) (row : OutboxEvent π) :
    attemptsLeft cfg row ≤ cfg.outboxMaxAttempts := by
  unfold attemptsLeft
  split <;> omega

theorem attemptsLeft_pos (cfg : OutboxSettings) (row : OutboxEvent π) :
    0 < attemptsLeft cfg row ↔ row.pending = true := by
  unfold attemptsLeft
  split
  · next h => simp [h]
  · next h => simp [h]

/-- An attempt takes one of them. -/
theorem Tried.left {cfg : OutboxSettings} {row row' : OutboxEvent π} (hpending : row.pending = true)
    (h : Tried cfg row row') : attemptsLeft cfg row' + 1 ≤ attemptsLeft cfg row := by
  have hpos : 1 ≤ attemptsLeft cfg row := (attemptsLeft_pos cfg row).mpr hpending
  obtain ⟨now, h | ⟨err, h⟩⟩ := h
  · have hdone : attemptsLeft cfg row' = 0 := by simp [h, attemptsLeft, OutboxEvent.pending, OutboxEvent.dispatched]
    omega
  · by_cases hlast : cfg.outboxMaxAttempts ≤ row.attempts + 1
    · have hdone : attemptsLeft cfg row' = 0 := by
        simp [h, attemptsLeft, OutboxEvent.pending, OutboxEvent.attemptFailed, hlast]
      omega
    · -- the row stays pending with one more attempt on it
      have hstill : row'.pending = true := by
        simpa [h, OutboxEvent.pending, OutboxEvent.attemptFailed, hlast] using hpending
      have hattempts : row'.attempts = row.attempts + 1 := by rw [h, OutboxEvent.attemptFailed]
      simp only [attemptsLeft, hstill, hpending, if_true, hattempts]
      omega

/-- A row that is no longer pending has one of the two marks. -/
def Settled (row : OutboxEvent π) : Prop := row.dispatchedAt.isSome ≠ row.failedAt.isSome

/-- An attempt leaves a row pending or settled. -/
theorem Tried.pending_or_settled {cfg : OutboxSettings} {row row' : OutboxEvent π} (hpending : row.pending = true)
    (h : Tried cfg row row') : row'.pending = true ∨ Settled row' := by
  simp only [OutboxEvent.pending, Bool.and_eq_true, Option.isNone_iff_eq_none] at hpending
  obtain ⟨now, h | ⟨err, h⟩⟩ := h
  · exact .inr (by simp [h, Settled, OutboxEvent.dispatched, hpending.2])
  · by_cases hlast : cfg.outboxMaxAttempts ≤ row.attempts + 1
    · exact .inr (by simp [h, Settled, OutboxEvent.attemptFailed, hlast, hpending.1])
    · exact .inl (by simp [h, OutboxEvent.pending, OutboxEvent.attemptFailed, hlast, hpending])

/-- The rows a select would consider if no one held locks. -/
def State.pendingRows (s : State π) : List (OutboxEvent π) := s.events.rows.filter OutboxEvent.pending

theorem State.waiting_eq {s : State π} (hfree : ∀ id, s.isLocked id = false) : s.waiting = s.pendingRows := by
  unfold State.waiting State.pendingRows
  refine List.filter_congr ?_
  intro row _
  rw [hfree row.id, Bool.not_false, Bool.and_true]

theorem State.left_eq_zero (cfg : OutboxSettings) {s : State π} : s.left cfg = 0 ↔ s.pendingRows = [] := by
  unfold State.left State.pendingRows
  rw [List.sum_eq_zero_iff, List.filter_eq_nil_iff]
  simp only [List.mem_map, forall_exists_index, and_imp, forall_apply_eq_imp_iff₂]
  refine forall₂_congr ?_
  intro row _
  rw [← attemptsLeft_pos cfg row, Nat.not_lt, Nat.le_zero]

/-- The rows that are pending can take `outbox_max_attempts` each at most. -/
theorem State.left_le {cfg : OutboxSettings} (hmax : 1 ≤ cfg.outboxMaxAttempts) (s : State π) :
    s.left cfg ≤ s.pendingRows.length * cfg.outboxMaxAttempts := by
  unfold State.left State.pendingRows
  induction s.events.rows with
  | nil => simp
  | cons row rows ih =>
    have hrow := attemptsLeft_le hmax row
    have hpos := attemptsLeft_pos cfg row
    rw [List.map_cons, List.sum_cons, List.filter_cons]
    split
    · rw [List.length_cons, Nat.succ_mul]
      omega
    · next hsettled =>
      have hzero : attemptsLeft cfg row = 0 := Nat.eq_zero_of_not_pos (mt hpos.mp hsettled)
      omega

/-- A poll takes no row's attempts back, and takes one of a row it tries. -/
theorem Polled.left_row {cfg : OutboxSettings} {s : State π} {poll : Poll π} (h : Polled cfg s poll)
    {row : OutboxEvent π} (hrow : row ∈ s.events.rows) :
    attemptsLeft cfg (flushInto poll.done row) + poll.tried.count row.id ≤ attemptsLeft cfg row := by
  by_cases hid : row.id ∈ poll.tried
  · obtain ⟨hpending, htried⟩ := h.tried row hrow hid
    rw [List.count_eq_one_of_mem h.once hid]
    exact htried.left hpending
  · rw [h.skipped row hid, List.count_eq_zero_of_not_mem hid, Nat.add_zero]

/-- **A poll that sees a row makes progress.** -/
theorem Polled.left_lt {cfg : OutboxSettings} {s : State π} {poll : Poll π} (h : Polled cfg s poll)
    (hsome : ∃ row ∈ s.events.rows, row.id ∈ poll.tried) : poll.state.left cfg < s.left cfg := by
  unfold State.left
  rw [h.rows, List.map_map]
  refine List.sum_lt_sum _ _ ?_ ?_
  · intro row hrow
    have := h.left_row hrow
    simp only [Function.comp_apply]
    omega
  · obtain ⟨row, hrow, hid⟩ := hsome
    have hlt := h.left_row hrow
    rw [List.count_eq_one_of_mem h.once hid] at hlt
    exact ⟨row, hrow, hlt⟩

theorem Polled.left_le {cfg : OutboxSettings} {s : State π} {poll : Poll π} (h : Polled cfg s poll) :
    poll.state.left cfg ≤ s.left cfg := by
  unfold State.left
  rw [h.rows, List.map_map]
  refine List.sum_le_sum ?_
  intro row hrow
  have := h.left_row hrow
  simp only [Function.comp_apply]
  omega

/-! The polls in order. -/

section Iteration
variable {batchSize : Nat} (cfg : OutboxSettings) (polls : Polls π batchSize) (s : State π)

theorem polled_poll (n : Nat) : Polled cfg s (polls.poll cfg n s) :=
  (polled_dispatchPending cfg (polls.call n) (polls.answers n s)).1

/-- While a row is pending, the next poll tries one. -/
theorem exists_tried_row (hbatch : 1 ≤ batchSize) (hfree : ∀ id, s.isLocked id = false) (n : Nat)
    (hpending : s.pendingRows ≠ []) : ∃ row ∈ s.events.rows, row.id ∈ (polls.poll cfg n s).tried := by
  have hanswers := polls.answers n s
  rw [← State.waiting_eq hfree] at hpending
  obtain ⟨row, hrow⟩ := List.exists_mem_of_ne_nil _ (hanswers.ne_nil hbatch hpending)
  refine ⟨row, hanswers.mem hrow, ?_⟩
  rw [Polls.poll, (polled_dispatchPending cfg (polls.call n) hanswers).2]
  exact List.mem_map_of_mem hrow

variable {s}

theorem isLocked_polled (hfree : ∀ id, s.isLocked id = false) (n : Nat) (id : Uuid) :
    (s.polled cfg polls n).isLocked id = false := by
  induction n with
  | zero => exact hfree id
  | succ n ih => rw [← ih, State.isLocked, State.isLocked, State.polled, (polled_poll cfg polls _ n).sessions]

/-- Each poll takes one of the attempts that are left, until there are none. -/
theorem left_polled (hbatch : 1 ≤ batchSize) (hfree : ∀ id, s.isLocked id = false) (n : Nat) :
    (s.polled cfg polls n).left cfg ≤ s.left cfg - n := by
  induction n with
  | zero => exact Nat.le_refl _
  | succ n ih =>
    by_cases hpending : (s.polled cfg polls n).pendingRows = []
    · have hzero := (State.left_eq_zero cfg).mpr hpending
      have hle := (polled_poll cfg polls (s.polled cfg polls n) n).left_le
      rw [State.polled]
      omega
    · have hsome := exists_tried_row cfg polls (s.polled cfg polls n) hbatch
        (isLocked_polled cfg polls hfree n) n hpending
      have hlt := (polled_poll cfg polls _ n).left_lt hsome
      rw [State.polled]
      omega

/-- What the polls so far make of a row that was pending. -/
theorem row_polled {row : OutboxEvent π} (hrow : row ∈ s.pendingRows) (n : Nat) :
    ∃ row' ∈ (s.polled cfg polls n).events.rows, row'.id = row.id ∧
      attemptsLeft cfg row' + s.tries cfg polls row.id n ≤ attemptsLeft cfg row ∧
      (row'.pending = true ∨ Settled row') := by
  induction n with
  | zero =>
    exact ⟨row, List.mem_of_mem_filter hrow, rfl, Nat.le_refl _, .inl (List.of_mem_filter hrow)⟩
  | succ n ih =>
    obtain ⟨row', hmem, hid, hleft, hmark⟩ := ih
    have hpoll := polled_poll cfg polls (s.polled cfg polls n) n
    refine ⟨flushInto (polls.poll cfg n (s.polled cfg polls n)).done row', ?_, ?_, ?_, ?_⟩
    · rw [State.polled, hpoll.rows]
      exact List.mem_map_of_mem hmem
    · rw [flushInto_id, hid]
    · have hstep := hpoll.left_row hmem
      rw [hid] at hstep
      rw [State.tries]
      omega
    · by_cases htried : row'.id ∈ (polls.poll cfg n (s.polled cfg polls n)).tried
      · obtain ⟨hpending, hattempt⟩ := hpoll.tried row' hmem htried
        exact hattempt.pending_or_settled hpending
      · rw [hpoll.skipped row' htried]
        exact hmark

end Iteration

/-! A poll is what the relay's actions on the machine are: its select, the calls as
the clock goes on, its commit. -/

section Machine
variable {cfg : OutboxSettings} {s : State π} {batchSize : Nat} {rows : List (OutboxEvent π)} {i : Nat}

theorem State.Answers.selectable (h : s.Answers batchSize rows) : s.selectable batchSize rows = true := by
  have hnodup := h.nodup
  have hfree : ∀ row ∈ rows, row.pending = true ∧ s.isLocked row.id = false := by
    intro row hrow
    have := List.of_mem_filter (h.mem_waiting hrow)
    simpa using this
  obtain ⟨order, _, hsorted, rfl⟩ := h
  simp only [State.selectable, Bool.and_eq_true, decide_eq_true_eq, List.all_eq_true, Bool.not_eq_true']
  exact ⟨⟨⟨hfree, hnodup⟩, List.length_take_le _ _⟩, hsorted.sublist (List.take_sublist _ _)⟩

theorem State.Answers.mapM_get (h : s.Answers batchSize rows) :
    (rows.map OutboxEvent.id).mapM s.events.get = some rows := by
  have hmem : ∀ row ∈ rows, row ∈ s.events.rows := fun row => h.mem
  clear h
  induction rows with
  | nil => rfl
  | cons row rows ih =>
    have hrest := ih (fun row' hrow' => hmem row' (List.mem_cons_of_mem _ hrow'))
    simp [Table.get_of_mem (hmem row List.mem_cons_self), hrest]

/-- What a call does does not depend on the sessions. -/
theorem State.dispatch_put (s : State π) (session : Session π) (row : OutboxEvent π) (answer : Answer) :
    (s.put i session).dispatch cfg row answer =
      ((s.dispatch cfg row answer).1.put i session, (s.dispatch cfg row answer).2) := by
  cases answer with
  | returns =>
    simp only [State.dispatch, State.enqueueTask_put]
    rfl
  | raises err queued =>
    simp only [State.dispatch, State.enqueueTask_put]
    cases queued <;> rfl

theorem State.put_put (s : State π) (session session' : Session π) :
    (s.put i session).put i session' = s.put i session' := by
  simp [State.put]

variable (cfg rows) in
/-- The loop over the batch, call by call. -/
theorem reaches_loop (call : Uuid → Nat × Answer) (poll : Poll π) (hi : i < poll.state.sessions.length) :
    (machine cfg).Reaches (poll.state.put i (.dispatching rows poll.done))
      ((rows.foldl (Poll.attempt cfg call) poll).state.put i
        (.dispatching [] (rows.foldl (Poll.attempt cfg call) poll).done)) := by
  induction rows generalizing poll with
  | nil => exact .refl
  | cons row rows ih =>
    obtain ⟨_, _, _, _, hsessions, _⟩ := poll.attempt_spec cfg call row
    rw [List.foldl_cons]
    refine .trans ?_ (ih (poll.attempt cfg call row) (by rw [hsessions]; exact hi))
    have htick : (machine cfg).step (poll.state.put i (.dispatching (row :: rows) poll.done))
        (.tick (call row.id).1) =
        some ({ poll.state with now := poll.state.now + (call row.id).1 }.put i
          (.dispatching (row :: rows) poll.done)) := rfl
    have hcall : (machine cfg).step ({ poll.state with now := poll.state.now + (call row.id).1 }.put i
        (.dispatching (row :: rows) poll.done)) (.enqueue i (call row.id).2) =
        some ((poll.attempt cfg call row).state.put i (.dispatching rows (poll.attempt cfg call row).done)) := by
      simp only [machine, State.dispatch_put, State.put_put]
      simp only [State.put, List.getElem?_set_self hi, Poll.attempt]
      split <;> rfl
    exact .tail (.single ⟨_, trivial, htick⟩) ⟨_, trivial, hcall⟩

/-- A poll of an idle session is a run of the machine. -/
theorem reaches_dispatchPending (call : Uuid → Nat × Answer) (h : s.Answers batchSize rows)
    (hi : s.sessions[i]? = some .idle) : (machine cfg).Reaches s (dispatchPending cfg call rows s).state := by
  obtain ⟨hlt, hidle⟩ := List.getElem?_eq_some_iff.mp hi
  obtain ⟨_, _, _, _, hsessions, _⟩ := Poll.loop_spec cfg call rows ⟨s, [], 0, 0⟩
  have hselect : (machine cfg).step s (.select i batchSize (rows.map OutboxEvent.id)) =
      some (s.put i (.dispatching rows [])) := by
    simp only [machine, hi, h.mapM_get, h.selectable, if_true]
  have hloop := reaches_loop cfg rows call ⟨s, [], 0, 0⟩ hlt
  refine .tail (.trans (.single ⟨_, trivial, hselect⟩) hloop) ⟨.commit i, trivial, ?_⟩
  have hback : s.sessions.set i .idle = s.sessions := by rw [← hidle, List.set_getElem_self]
  simp only [machine, State.put, dispatchPending, hsessions, List.getElem?_set_self hlt, Option.bind_some,
    State.commit, List.set_set, hback]

/-- So what holds in every state of the outbox holds through the polls. -/
theorem reaches_polled (polls : Polls π batchSize) (hi : s.sessions[i]? = some .idle) (n : Nat) :
    (machine cfg).Reaches s (s.polled cfg polls n) ∧ (s.polled cfg polls n).sessions[i]? = some .idle := by
  induction n with
  | zero => exact ⟨.refl, hi⟩
  | succ n ih =>
    have hpoll := polled_poll cfg polls (s.polled cfg polls n) n
    refine ⟨.trans ih.1 (reaches_dispatchPending (polls.call n) (polls.answers n _) ih.2), ?_⟩
    rw [State.polled, hpoll.sessions]
    exact ih.2

end Machine

/-- **The relay drains.** With no new rows, as many polls as the pending rows have
attempts in all leave none of them pending. No row is tried more often than
`outbox_max_attempts`, each is pending or has just one of the two marks at any time,
and a poll's counts are the rows it tried, each once. -/
theorem relay_drains {cfg : OutboxSettings} (hmax : 1 ≤ cfg.outboxMaxAttempts) {batchSize : Nat}
    (hbatch : 1 ≤ batchSize) (polls : Polls π batchSize) {s : State π} (hfree : ∀ id, s.isLocked id = false) :
    (∀ n, s.pendingRows.length * cfg.outboxMaxAttempts ≤ n → (s.polled cfg polls n).pendingRows = []) ∧
      (∀ row ∈ s.pendingRows, ∀ n, s.tries cfg polls row.id n ≤ cfg.outboxMaxAttempts ∧
        ∃ row', (s.polled cfg polls n).events.get row.id = some row' ∧
          (row'.pending = true ∨ Settled row') ∧
          (s.pendingRows.length * cfg.outboxMaxAttempts ≤ n → Settled row')) ∧
      ∀ n, (polls.poll cfg n (s.polled cfg polls n)).tried.Nodup ∧
        (polls.poll cfg n (s.polled cfg polls n)).dispatched + (polls.poll cfg n (s.polled cfg polls n)).failed =
          (polls.poll cfg n (s.polled cfg polls n)).tried.length := by
  have hdrained : ∀ n, s.pendingRows.length * cfg.outboxMaxAttempts ≤ n →
      (s.polled cfg polls n).pendingRows = [] := by
    intro n hn
    have hleft := left_polled cfg polls hbatch hfree n
    have hbound := s.left_le hmax
    exact (State.left_eq_zero cfg).mp (by omega)
  refine ⟨hdrained, ?_, ?_⟩
  · intro row hrow n
    obtain ⟨row', hmem, hid, hleft, hmark⟩ := row_polled cfg polls hrow n
    have hall := attemptsLeft_le hmax row
    refine ⟨by omega, row', by rw [← hid]; exact Table.get_of_mem hmem, hmark, ?_⟩
    intro hn
    refine hmark.resolve_left ?_
    intro hpending
    have hin : row' ∈ (s.polled cfg polls n).pendingRows := List.mem_filter.mpr ⟨hmem, hpending⟩
    rw [hdrained n hn] at hin
    cases hin
  · intro n
    have hpoll := polled_poll cfg polls (s.polled cfg polls n) n
    exact ⟨hpoll.once, hpoll.counted⟩

/-- Two events of one producer, the first for a task the queue never takes. -/
def sampleBacklog : State String :=
  { State.init 100 with
    events := ⟨[OutboxEvent.new 1 "send_email_task" "welcome" 10, OutboxEvent.new 0 "no_such_task" "reset" 5],
      by decide⟩ }

/-- Polls that take one row each, the oldest first. -/
def samplePolls : Polls String 1 where
  select _ s := (s.waiting.insertionSort (fun row row' => row.createdAt ≤ row'.createdAt)).take 1
  answers _ s := s.exists_answer 1
  call _ id := (3, if id = 0 then .raises "ConnectionError()" false else .returns)

theorem relay_drains_sample : (sampleBacklog.polled ⟨2, 0⟩ samplePolls 4).pendingRows = [] ∧
    sampleBacklog.tries ⟨2, 0⟩ samplePolls 0 4 ≤ 2 :=
  have hmax : 1 ≤ (⟨2, 0⟩ : OutboxSettings).outboxMaxAttempts := by decide
  have hdrains := relay_drains hmax (by decide) samplePolls (s := sampleBacklog) (fun _ => rfl)
  ⟨hdrains.1 4 (by decide), (hdrains.2.1 _ (List.mem_of_getElem? (i := 1) rfl) 4).1⟩

/-- The row that fails is tried first until it is parked, then the other is reached. -/
example : sampleBacklog.tries ⟨2, 0⟩ samplePolls 0 2 = 2 ∧ sampleBacklog.tries ⟨2, 0⟩ samplePolls 1 2 = 0 ∧
    sampleBacklog.tries ⟨2, 0⟩ samplePolls 1 3 = 1 := by decide +kernel

end Outbox
end FastiKit
