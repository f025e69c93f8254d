import FastiKit.DeadLetter.Repository

/- A dead letter is retried at most once, and never by half.

   What is proved, of every state that retries, deletions, purges and cleanups
   reach, wherever their statements fail:
     1. the events committed for a row number one if the row is claimed and none
        if it is not, and the same holds of a row that was removed;
     2. the cleanup and the default purge removed only rows that have their event.
   The claim and the event are in one commit, and the lock the claim takes keeps
   every other writer off the row until then. -/
namespace FastiKit.DeadLetter

open Interleave Relational

namespace State

/-- The session `i`. -/
def session (s : State) : Nat → Session := sessionAt s.sessions

theorem session_put {s s' : State} {i : Nat} {old new : Session} (hi : s.sessions[i]? = some old)
    (hs : s'.sessions = s.sessions.set i new) : s'.session = Function.update s.session i new := by
  unfold State.session
  rw [hs, sessionAt_set hi]

/-- The events ever committed for a row. -/
def retries (s : State) (id : Uuid) : Nat := s.forwarded.countP (fun entry => entry.1 = id)

end State

/-- A row nobody has locked has been written by no session. -/
theorem State.not_written {s : State} {row : DeadLetterJob Json} (hfree : s.isLocked row = false) (j : Nat) :
    row.id ∉ (s.session j).written := by
  intro hwritten
  cases hj : s.sessions[j]? with
  | none =>
    rw [State.session, sessionAt_of_none hj] at hwritten
    cases hwritten
  | some session =>
    rw [State.session, sessionAt_of_some hj] at hwritten
    have hany : s.isLocked row = true :=
      List.any_eq_true.mpr ⟨session, List.mem_of_getElem? hj, by simpa using hwritten⟩
    rw [hfree] at hany
    cases hany

/-- The events a row should have. -/
def DeadLetterJob.claims (row : DeadLetterJob Json) : Nat := if row.retriedAt.isSome then 1 else 0

/-- What the rows a session has written are to the committed table. -/
def Session.Holds (s : State) : Session → Prop
  | .idle => True
  | .recording row => row.id < s.uuids ∧ s.jobs.get row.id = none ∧ s.retries row.id = 0 ∧
      row.retriedAt = none ∧ ∀ entry ∈ s.removed, entry.2.id ≠ row.id
  | .claiming row => row.retriedAt.isSome = true ∧ ∃ old, s.jobs.get row.id = some old ∧ old.retriedAt = none
  | .retrying row _ => row.retriedAt.isSome = true ∧ ∃ old, s.jobs.get row.id = some old ∧ old.retriedAt = none
  | .found _ => True
  | .removing how victims => ∀ row ∈ victims, s.jobs.get row.id = some row ∧
      (how.onlyRetriedRows = true → row.retriedAt.isSome = true)

structure Accounted (s : State) : Prop where
  sessions : ∀ i, (s.session i).Holds s
  apart : Apart Session.written s.session
  rows : ∀ row ∈ s.jobs.rows, row.id < s.uuids ∧ s.retries row.id = DeadLetterJob.claims row
  removed : ∀ entry ∈ s.removed, entry.2.id < s.uuids ∧ s.jobs.get entry.2.id = none ∧
    s.retries entry.2.id = DeadLetterJob.claims entry.2 ∧
    (entry.1.onlyRetriedRows = true → entry.2.retriedAt.isSome = true)
  known : ∀ entry ∈ s.forwarded, entry.1 < s.uuids
  events : s.events.rows = s.forwarded.map Prod.snd

theorem Accounted.init (now : Time) : Accounted (State.init now) :=
  ⟨fun _ => trivial, Apart.init rfl, nofun, nofun, nofun, rfl⟩

namespace Accounted
variable {s s' : State}

/-- A number no call has returned has no row, no event and no history. -/
theorem fresh (hs : Accounted s) : s.jobs.get s.uuids = none ∧ s.retries s.uuids = 0 ∧
    ∀ entry ∈ s.removed, entry.2.id ≠ s.uuids := by
  refine ⟨Table.get_eq_none.mpr ?_, List.countP_eq_zero.mpr ?_, ?_⟩
  · exact fun row hrow => Nat.ne_of_lt (hs.rows row hrow).1
  · intro entry hentry
    simpa using Nat.ne_of_lt (hs.known entry hentry)
  · exact fun entry hentry => Nat.ne_of_lt (hs.removed entry hentry).1

/-- The rows a session has written are below the counter. -/
theorem written_lt (hs : Accounted s) {i : Nat} {id : Uuid} (hid : id ∈ (s.session i).written) : id < s.uuids := by
  have htable : ∀ {row : DeadLetterJob Json}, s.jobs.get id = some row → id < s.uuids := by
    intro row hrow
    have hlt := (hs.rows row (Table.mem_of_get hrow)).1
    rw [Table.get_key hrow] at hlt
    exact hlt
  have hholds := hs.sessions i
  cases hsession : s.session i with
  | idle => rw [hsession] at hid; cases hid
  | found _ => rw [hsession] at hid; cases hid
  | recording row =>
    rw [hsession] at hid hholds
    rw [List.mem_singleton.mp hid]
    exact hholds.1
  | claiming row =>
    rw [hsession] at hid hholds
    obtain ⟨-, old, hold, -⟩ := hholds
    exact htable (List.mem_singleton.mp hid ▸ hold)
  | retrying row event =>
    rw [hsession] at hid hholds
    obtain ⟨-, old, hold, -⟩ := hholds
    exact htable (List.mem_singleton.mp hid ▸ hold)
  | removing how victims =>
    rw [hsession] at hid hholds
    obtain ⟨row, hrow, rfl⟩ := List.mem_map.mp hid
    exact htable (hholds row hrow).1

end Accounted

/-- A session keeps what it holds when nobody else touches its rows. -/
theorem Session.Holds.frame {s s' : State} {session : Session} (h : session.Holds s)
    (huuids : s.uuids ≤ s'.uuids)
    (hsame : ∀ id ∈ session.written, s'.jobs.get id = s.jobs.get id ∧ s'.retries id = s.retries id ∧
      ∀ entry ∈ s'.removed, entry.2.id = id → entry ∈ s.removed) : session.Holds s' := by
  cases session with
  | idle => trivial
  | found _ => trivial
  | recording row =>
    obtain ⟨hget, hretries, hremoved⟩ := hsame row.id (List.mem_singleton_self _)
    obtain ⟨hlt, hnone, hzero, hnew, hgone⟩ := h
    refine ⟨Nat.lt_of_lt_of_le hlt huuids, hget.trans hnone, hretries.trans hzero, hnew, ?_⟩
    exact fun entry hentry hid => hgone entry (hremoved entry hentry hid) hid
  | claiming row =>
    obtain ⟨hclaimed, old, hold, hnew⟩ := h
    exact ⟨hclaimed, old, (hsame row.id (List.mem_singleton_self _)).1.trans hold, hnew⟩
  | retrying row event =>
    obtain ⟨hclaimed, old, hold, hnew⟩ := h
    exact ⟨hclaimed, old, (hsame row.id (List.mem_singleton_self _)).1.trans hold, hnew⟩
  | removing how victims =>
    intro row hrow
    obtain ⟨hget, hretried⟩ := h row hrow
    exact ⟨(hsame row.id (List.mem_map_of_mem hrow)).1.trans hget, hretried⟩

namespace Accounted
variable {s s' : State}

/-- After a step of the session `i`, every session holds what it has. -/
theorem sessions_put (hs : Accounted s) {i : Nat} {new : Session}
    (hput : s'.session = Function.update s.session i new) (hnew : new.Holds s') (huuids : s.uuids ≤ s'.uuids)
    (hsame : ∀ j, j ≠ i → ∀ id ∈ (s.session j).written, s'.jobs.get id = s.jobs.get id ∧
      s'.retries id = s.retries id ∧ ∀ entry ∈ s'.removed, entry.2.id = id → entry ∈ s.removed) :
    ∀ j, (s'.session j).Holds s' := by
  intro j
  rw [hput, Function.update_apply]
  split
  · exact hnew
  · next hji => exact (hs.sessions j).frame huuids (hsame j hji)

/-- A step that changes what one session has written, and no table. -/
theorem put (hs : Accounted s) {i : Nat} {new : Session}
    (hput : s'.session = Function.update s.session i new) (hnew : new.Holds s')
    (hfree : ∀ j, j ≠ i → ∀ id ∈ new.written, id ∉ (s.session j).written)
    (hjobs : s'.jobs = s.jobs) (hevents : s'.events = s.events) (hforwarded : s'.forwarded = s.forwarded)
    (hremoved : s'.removed = s.removed) (huuids : s.uuids ≤ s'.uuids) : Accounted s' := by
  have hretries : s'.retries = s.retries := by
    unfold State.retries
    rw [hforwarded]
  refine ⟨hs.sessions_put hput hnew huuids ?_, hput ▸ hs.apart.update hfree, ?_, ?_, ?_, ?_⟩
  · intro j hji id hid
    rw [hjobs, hretries, hremoved]
    exact ⟨rfl, rfl, fun entry hentry _ => hentry⟩
  · intro row hrow
    rw [hjobs] at hrow
    rw [hretries]
    exact ⟨Nat.lt_of_lt_of_le (hs.rows row hrow).1 huuids, (hs.rows row hrow).2⟩
  · intro entry hentry
    rw [hremoved] at hentry
    obtain ⟨hlt, hrest⟩ := hs.removed entry hentry
    rw [hjobs, hretries]
    exact ⟨Nat.lt_of_lt_of_le hlt huuids, hrest⟩
  · intro entry hentry
    rw [hforwarded] at hentry
    exact Nat.lt_of_lt_of_le (hs.known entry hentry) huuids
  · rw [hevents, hforwarded]
    exact hs.events

theorem record (hs : Accounted s) {i : Nat} {data : Recorded Json} (hi : s.sessions[i]? = some .idle) :
    Accounted { s.put i (.recording (data.row s.uuids s.now)) with uuids := s.uuids + 1 } := by
  obtain ⟨hget, hzero, hgone⟩ := hs.fresh
  refine hs.put (State.session_put hi rfl) ⟨Nat.lt_succ_self _, hget, hzero, rfl, hgone⟩ ?_ rfl rfl rfl rfl
    (Nat.le_succ _)
  intro j hji id hid hwritten
  have hlt := hs.written_lt hwritten
  rw [List.mem_singleton.mp hid] at hlt
  exact Nat.lt_irrefl _ hlt

theorem claim (hs : Accounted s) {i : Nat} {row : DeadLetterJob Json} (hi : s.sessions[i]? = some .idle)
    (hrow : s.jobs.get row.id = some row) (hnew : row.retriedAt = none) (hfree : s.isLocked row = false) :
    Accounted (s.put i (.claiming (row.retried s.now))) := by
  refine hs.put (State.session_put hi rfl) ⟨rfl, row, hrow, hnew⟩ ?_ rfl rfl rfl rfl (Nat.le_refl _)
  intro j hji id hid
  rw [List.mem_singleton.mp hid]
  exact State.not_written hfree j

theorem stageAdd (hs : Accounted s) {i : Nat} {row : DeadLetterJob Json} (hi : s.sessions[i]? = some (.claiming row)) :
    Accounted { s.put i (.retrying row (row.retryEvent Kwargs.json s.uuids s.now)) with uuids := s.uuids + 1 } := by
  have hholds := hs.sessions i
  have hsession : s.session i = .claiming row := sessionAt_of_some hi
  rw [hsession] at hholds
  refine hs.put (State.session_put hi rfl) hholds ?_ rfl rfl rfl rfl (Nat.le_succ _)
  intro j hji id hid
  refine hs.apart i j (Ne.symm hji) id ?_
  rw [hsession]
  exact hid

theorem remove (hs : Accounted s) {i : Nat} {session : Session} {how : Removal} {victims : List (DeadLetterJob Json)}
    (hi : s.sessions[i]? = some session)
    (hvictims : ∀ row ∈ victims, s.jobs.get row.id = some row ∧ s.isLocked row = false ∧
      (how.onlyRetriedRows = true → row.retriedAt.isSome = true)) :
    Accounted (s.put i (.removing how victims)) := by
  refine hs.put (State.session_put hi rfl) ?_ ?_ rfl rfl rfl rfl (Nat.le_refl _)
  · exact fun row hrow => ⟨(hvictims row hrow).1, (hvictims row hrow).2.2⟩
  · intro j hji id hid
    obtain ⟨row, hrow, rfl⟩ := List.mem_map.mp hid
    exact State.not_written (hvictims row hrow).2.1 j

theorem commitRecorded (hs : Accounted s) {i : Nat} {row : DeadLetterJob Json} {jobs : Jobs}
    (hi : s.sessions[i]? = some (.recording row)) (hins : s.jobs.insert row = some jobs) :
    Accounted { s.put i .idle with jobs } := by
  have hholds := hs.sessions i
  have hsession : s.session i = .recording row := sessionAt_of_some hi
  rw [hsession] at hholds
  obtain ⟨hlt, hnone, hzero, hnew, hgone⟩ := hholds
  have hother : ∀ id, id ≠ row.id → jobs.get id = s.jobs.get id := by
    intro id hid
    rw [Table.get_insert hins, if_neg (Ne.symm hid)]
  refine ⟨hs.sessions_put (State.session_put hi rfl) trivial (Nat.le_refl _) ?_, ?_, ?_, ?_, hs.known, hs.events⟩
  · intro j hji id hid
    refine ⟨hother id ?_, rfl, fun entry hentry _ => hentry⟩
    intro h
    refine hs.apart j i hji id hid ?_
    rw [hsession, h]
    exact List.mem_singleton_self _
  · rw [State.session_put hi rfl]
    exact hs.apart.shrink (List.nil_subset _)
  · intro row' hrow'
    replace hrow' : row' ∈ jobs.rows := hrow'
    rw [Table.rows_insert hins] at hrow'
    cases List.mem_cons.mp hrow' with
    | inl h =>
      rw [h]
      refine ⟨hlt, hzero.trans ?_⟩
      simp [DeadLetterJob.claims, hnew]
    | inr h => exact hs.rows row' h
  · intro entry hentry
    obtain ⟨hlt', hnone', hrest⟩ := hs.removed entry hentry
    exact ⟨hlt', (hother _ (hgone entry hentry)).trans hnone', hrest⟩

theorem commitRetried (hs : Accounted s) {i : Nat} {row : DeadLetterJob Json} {event : OutboxEvent Kwargs}
    {events : Table Uuid (OutboxEvent Kwargs) OutboxEvent.id}
    (hi : s.sessions[i]? = some (.retrying row event)) (hins : s.events.insert event = some events) :
    Accounted { s.put i .idle with
      jobs := s.jobs.updateWhere (fun old => old.id = row.id) (fun old => { old with retriedAt := row.retriedAt })
        (fun _ => rfl)
      events
      forwarded := (row.id, event) :: s.forwarded } := by
  have hholds := hs.sessions i
  have hsession : s.session i = .retrying row event := sessionAt_of_some hi
  rw [hsession] at hholds
  obtain ⟨hclaimed, old, hold, hnew⟩ := hholds
  have hmem : old ∈ s.jobs.rows := Table.mem_of_get hold
  have hid : old.id = row.id := Table.get_key hold
  generalize hjobs : s.jobs.updateWhere (fun old => old.id = row.id)
    (fun old => { old with retriedAt := row.retriedAt }) (fun _ => rfl) = jobs
  have hget : ∀ id, jobs.get id =
      (s.jobs.get id).map (fun r => if r.id = row.id then { r with retriedAt := row.retriedAt } else r) := by
    intro id
    rw [← hjobs, Table.get_updateWhere]
    simp
  have hother : ∀ id, id ≠ row.id → jobs.get id = s.jobs.get id := by
    intro id hne
    rw [hget]
    cases hrow : s.jobs.get id with
    | none => rfl
    | some r =>
      have hkey : r.id = id := Table.get_key hrow
      simp [hkey, hne]
  have hretries : ∀ id, State.retries { s.put i .idle with jobs, events, forwarded := (row.id, event) :: s.forwarded } id =
      s.retries id + if row.id = id then 1 else 0 := by
    intro id
    simp [State.retries, List.countP_cons]
  refine ⟨hs.sessions_put (State.session_put hi rfl) trivial (Nat.le_refl _) ?_, ?_, ?_, ?_, ?_, ?_⟩
  · intro j hji id hwritten
    have hne : id ≠ row.id := by
      intro h
      refine hs.apart j i hji id hwritten ?_
      rw [hsession, h]
      exact List.mem_singleton_self _
    refine ⟨hother id hne, ?_, fun entry hentry _ => hentry⟩
    rw [hretries, if_neg (Ne.symm hne), Nat.add_zero]
  · rw [State.session_put hi rfl]
    exact hs.apart.shrink (List.nil_subset _)
  · intro row' hrow'
    have hget' : jobs.get row'.id = some row' := Table.get_of_mem hrow'
    rw [hretries]
    by_cases hne : row.id = row'.id
    · -- the claim and the event arrive together
      rw [hget, ← hne, hold, Option.map_some, if_pos hid] at hget'
      obtain ⟨hlt, hzero⟩ := hs.rows old hmem
      rw [if_pos hne, ← hne, ← hid, hzero, ← Option.some.inj hget']
      refine ⟨hlt, ?_⟩
      simp [DeadLetterJob.claims, hnew, hclaimed]
    · rw [hother _ (Ne.symm hne)] at hget'
      rw [if_neg hne, Nat.add_zero]
      exact hs.rows row' (Table.mem_of_get hget')
  · intro entry hentry
    obtain ⟨hlt, hnone, hcount, hretried⟩ := hs.removed entry hentry
    have hne : entry.2.id ≠ row.id := by
      intro h
      rw [h, hold] at hnone
      cases hnone
    refine ⟨hlt, (hother _ hne).trans hnone, ?_, hretried⟩
    rw [hretries, if_neg (Ne.symm hne), Nat.add_zero]
    exact hcount
  · intro entry hentry
    cases List.mem_cons.mp hentry with
    | inl h =>
      rw [h, ← hid]
      exact (hs.rows old hmem).1
    | inr h => exact hs.known entry h
  · rw [Table.rows_insert hins, hs.events]
    rfl

theorem commitRemoved (hs : Accounted s) {i : Nat} {how : Removal} {victims : List (DeadLetterJob Json)}
    (hi : s.sessions[i]? = some (.removing how victims)) :
    Accounted { s.put i .idle with
      jobs := s.jobs.deleteWhere (fun row => (victims.map DeadLetterJob.id).contains row.id)
      removed := victims.map (fun row => (how, row)) ++ s.removed } := by
  have hholds := hs.sessions i
  have hsession : s.session i = .removing how victims := sessionAt_of_some hi
  rw [hsession] at hholds
  generalize hjobs : s.jobs.deleteWhere (fun row => (victims.map DeadLetterJob.id).contains row.id) = jobs
  have hget : ∀ id, jobs.get id = if id ∈ victims.map DeadLetterJob.id then none else s.jobs.get id := by
    intro id
    rw [← hjobs, Table.get_deleteWhere]
    cases hrow : s.jobs.get id with
    | none => simp
    | some row =>
      have hkey : row.id = id := Table.get_key hrow
      rw [Option.filter_some, hkey, List.contains_eq_mem]
      by_cases hmem : id ∈ victims.map DeadLetterJob.id <;> simp [hmem]
  refine ⟨hs.sessions_put (State.session_put hi rfl) trivial (Nat.le_refl _) ?_, ?_, ?_, ?_, hs.known, hs.events⟩
  · intro j hji id hid
    have hmem : id ∉ victims.map DeadLetterJob.id := by
      intro hmem
      refine hs.apart j i hji id hid ?_
      rw [hsession]
      exact hmem
    refine ⟨(hget id).trans (if_neg hmem), rfl, ?_⟩
    intro entry hentry hkey
    cases List.mem_append.mp hentry with
    | inl h =>
      obtain ⟨row, hrow, rfl⟩ := List.mem_map.mp h
      exact absurd (hkey ▸ List.mem_map_of_mem hrow) hmem
    | inr h => exact h
  · rw [State.session_put hi rfl]
    exact hs.apart.shrink (List.nil_subset _)
  · intro row hrow
    rw [← hjobs] at hrow
    exact hs.rows row (Table.mem_deleteWhere.mp hrow).1
  · intro entry hentry
    cases List.mem_append.mp hentry with
    | inl h =>
      obtain ⟨row, hrow, rfl⟩ := List.mem_map.mp h
      obtain ⟨hrowget, hretried⟩ := hholds row hrow
      obtain ⟨hlt, hcount⟩ := hs.rows row (Table.mem_of_get hrowget)
      exact ⟨hlt, (hget _).trans (if_pos (List.mem_map_of_mem hrow)), hcount, hretried⟩
    | inr h =>
      obtain ⟨hlt, hnone, hrest⟩ := hs.removed entry h
      refine ⟨hlt, ?_, hrest⟩
      show jobs.get entry.2.id = none
      rw [hget, hnone, ite_self]

theorem step {a : Action} (hs : Accounted s) (ha : machine.step s a = some s') : Accounted s' := by
  cases moves_of_step ha with
  | connect =>
    have hsession : State.session { s with sessions := s.sessions ++ [.idle] } = s.session :=
      sessionAt_connect s.sessions
    exact ⟨fun i => hsession ▸ hs.sessions i, hsession ▸ hs.apart, hs.rows, hs.removed, hs.known, hs.events⟩
  | record hi => exact hs.record hi
  | claim hi hrow hnew hfree => exact hs.claim hi hrow hnew hfree
  | stageAdd hi => exact hs.stageAdd hi
  | get hi =>
    exact hs.put (State.session_put hi rfl) trivial (fun _ _ _ h => nomatch h) rfl rfl rfl rfl (Nat.le_refl _)
  | remove hi hfree hvictims => exact hs.remove hi hvictims
  | commitRecorded hi hins => exact hs.commitRecorded hi hins
  | commitRetried hi hins => exact hs.commitRetried hi hins
  | commitRemoved hi => exact hs.commitRemoved hi
  | rollback hi =>
    exact hs.put (State.session_put hi rfl) trivial (fun _ _ _ h => nomatch h) rfl rfl rfl rfl (Nat.le_refl _)
  | nothing => exact hs
  | tick => exact ⟨hs.sessions, hs.apart, hs.rows, hs.removed, hs.known, hs.events⟩

end Accounted

/-- A row has one event if it is claimed and none otherwise, while it is there
and after; what is restricted to retried rows removed no other. -/
theorem retried_at_most_once {now : Time} {s : State} (h : machine.Reaches (State.init now) s) :
    (∀ row ∈ s.jobs.rows, s.retries row.id = if row.retriedAt.isSome then 1 else 0) ∧
      (∀ entry ∈ s.removed, s.retries entry.2.id = if entry.2.retriedAt.isSome then 1 else 0) ∧
      (∀ entry ∈ s.removed, entry.1.onlyRetriedRows = true → s.retries entry.2.id = 1) ∧
      s.events.rows = s.forwarded.map Prod.snd := by
  have hs : Accounted s := h.invariant (fun _ _ _ hv _ ha => hv.step ha) (Accounted.init now)
  refine ⟨fun row hrow => (hs.rows row hrow).2, ?_, ?_, hs.events⟩
  · intro entry hentry
    exact (hs.removed entry hentry).2.2.1
  · intro entry hentry honly
    obtain ⟨-, -, hcount, hretried⟩ := hs.removed entry hentry
    rw [hcount, DeadLetterJob.claims, if_pos (hretried honly)]

/-- Two rows are recorded and one is claimed. A second retry of it waits, the
first fails after its event was staged, the second succeeds, a third finds
nothing; the cleanup removes that row and a request the other. -/
def sampleRun : List Action :=
  let data : Recorded Json :=
    ⟨"outbox:0", "send_email_task", "default", ⟨[("subject", .string "hello")], by simp⟩, "failed", none, 3⟩
  [.connect, .connect, .record 0 data, .commit 0, .record 0 data, .commit 0, .claim 0 0, .stageAdd 0, .fail 0,
    .claim 1 0, .stageAdd 1, .commit 1, .claim 0 0, .get 1 1, .tick 1, .purge 0 (some 1) true, .commit 0,
    .delete 1, .commit 1]

theorem retried_at_most_once_sample : ∃ s, machine.run (State.init 0) sampleRun = some s ∧
    s.removed.map (fun entry => (entry.1, entry.2.id)) = [(.delete, 1), (Removal.cleanup 1, 0)] ∧
    ∀ entry ∈ s.removed, s.retries entry.2.id = if entry.2.retriedAt.isSome then 1 else 0 := by
  have hrun : ((machine.run (State.init 0) sampleRun).any (fun s =>
      s.removed.map (fun entry => (entry.1, entry.2.id)) = [(.delete, 1), (Removal.cleanup 1, 0)])) = true := by
    decide +kernel
  obtain ⟨s, hs, hends⟩ := (Option.any_eq_true _ _).mp hrun
  exact ⟨s, hs, of_decide_eq_true hends, (retried_at_most_once (Machine.reaches_of_run hs)).2.1⟩

end FastiKit.DeadLetter
