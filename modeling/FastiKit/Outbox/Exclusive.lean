import FastiKit.Outbox.Relay
import FastiKit.Relational.Sessions

/- No row is dispatched twice, however many relays run.

   What is proved, of every run in which no relay dies between its select and
   its commit: `enqueue_task` returns at most once for a row; the queue is given
   a second job of a row only by a call that raised after putting one.
   A row belongs to one session at a time: to its producer until the commit, to
   the relay that selected it until the relay's commit, to the cleanup that
   deletes it. A row whose call returned is marked in the session that owns it,
   or is no longer one a select can return. -/
namespace FastiKit.Outbox

open Interleave Relational

variable {π : Type}

namespace Session

/-- The rows that belong to the session. -/
def owned : Session π → List Uuid
  | idle => []
  | staging events => events.map OutboxEvent.id
  | dispatching todo done => (done ++ todo).map OutboxEvent.id
  | cleaning victims => victims

/-- The rows the session has dispatched and not committed. -/
def done : Session π → List (OutboxEvent π)
  | dispatching _ done => done
  | _ => []

end Session

namespace State

/-- The session `i`. -/
def session (s : State π) : Nat → Session π := sessionAt s.sessions

theorem session_of_some {s : State π} {i : Nat} {session : Session π} (h : s.sessions[i]? = some session) :
    s.session i = session := sessionAt_of_some h

theorem session_put {s s' : State π} {i : Nat} {old new : Session π} (hi : s.sessions[i]? = some old)
    (hs : s'.sessions = s.sessions.set i new) : s'.session = Function.update s.session i new := by
  unfold State.session
  rw [hs, sessionAt_set hi]

/-- A select can return the row. -/
def Available (s : State π) (id : Uuid) : Prop := ∃ row, s.events.get id = some row ∧ row.pending = true

/-- A session has dispatched the row and not committed. -/
def Marked (s : State π) (id : Uuid) : Prop :=
  ∃ i, ∃ row ∈ (s.session i).done, row.id = id ∧ row.dispatchedAt.isSome = true

/-- The relay of the session dies before its commit, or the commit fails. -/
def dies (s : State π) : Action π → Bool
  | .close i => match s.sessions[i]? with
    | some (.dispatching _ _) => true
    | _ => false
  | _ => false

end State

/-- What the rows of a session are to the table and to the calls made. -/
def Session.Owns (s : State π) : Session π → Prop
  | .idle => True
  | .staging events => ∀ event ∈ events, event.id < s.uuids ∧ s.events.get event.id = none ∧ event.id ∉ s.returned
  | .dispatching todo done =>
    ((done ++ todo).map OutboxEvent.id).Nodup ∧ ∀ row ∈ done ++ todo, s.Available row.id
  | .cleaning victims => ∀ id ∈ victims, id < s.uuids

structure Allotted (s : State π) : Prop where
  sessions : ∀ i, (s.session i).Owns s
  apart : Apart Session.owned s.session
  rows : ∀ row ∈ s.events.rows, row.id < s.uuids
  known : ∀ id ∈ s.returned, id < s.uuids
  settled : ∀ id ∈ s.returned, s.Available id → s.Marked id
  once : ∀ id, s.returned.count id ≤ 1

theorem Allotted.init (now : Time) : Allotted (State.init now : State π) := by
  exact ⟨fun i => trivial, Apart.init rfl, nofun, nofun, nofun, fun id => Nat.zero_le 1⟩

namespace Allotted
variable {s s' : State π}

theorem available_lt (hs : Allotted s) {id : Uuid} (h : s.Available id) : id < s.uuids := by
  obtain ⟨row, hrow, -⟩ := h
  have hlt := hs.rows row (Table.mem_of_get hrow)
  rw [Table.get_key hrow] at hlt
  exact hlt

theorem owned_lt (hs : Allotted s) {i : Nat} {id : Uuid} (hid : id ∈ (s.session i).owned) : id < s.uuids := by
  have howns := hs.sessions i
  cases hsession : s.session i with
  | idle => simp [hsession, Session.owned] at hid
  | staging events =>
    rw [hsession] at hid howns
    obtain ⟨event, hevent, rfl⟩ := List.mem_map.mp hid
    exact (howns event hevent).1
  | dispatching todo done =>
    rw [hsession] at hid howns
    obtain ⟨row, hrow, rfl⟩ := List.mem_map.mp hid
    exact hs.available_lt (howns.2 row hrow)
  | cleaning victims =>
    rw [hsession] at hid howns
    exact howns id hid

/-- What no step of a session changes. -/
theorem same (hs : Allotted s) (hsession : s'.session = s.session) (hevents : s'.events = s.events)
    (hreturned : s'.returned = s.returned) (huuids : s'.uuids = s.uuids) : Allotted s' := by
  have howns : ∀ session : Session π, session.Owns s → session.Owns s' := by
    intro session howns
    cases session <;> simp only [Session.Owns, State.Available, hevents, hreturned, huuids] at howns ⊢ <;>
      exact howns
  refine ⟨fun i => hsession ▸ howns _ (hs.sessions i), hsession ▸ hs.apart, ?_, ?_, ?_, ?_⟩
  · rw [hevents, huuids]
    exact hs.rows
  · rw [hreturned, huuids]
    exact hs.known
  · simp only [State.Available, State.Marked, hevents, hreturned, hsession]
    exact hs.settled
  · rw [hreturned]
    exact hs.once

/-- A step that changes what one session holds and not the table. -/
theorem put (hs : Allotted s) {i : Nat} {new : Session π}
    (hput : s'.session = Function.update s.session i new) (hnew : new.Owns s')
    (hfree : ∀ j, j ≠ i → ∀ id ∈ new.owned, id ∉ (s.session j).owned)
    (hdone : (s.session i).done = []) (hevents : s'.events = s.events)
    (hreturned : s'.returned = s.returned) (huuids : s.uuids ≤ s'.uuids) : Allotted s' := by
  have havail : ∀ id, s'.Available id ↔ s.Available id := by
    intro id
    unfold State.Available
    rw [hevents]
  have hkeep : ∀ session : Session π, session.Owns s → session.Owns s' := by
    intro session howns
    cases session with
    | idle => trivial
    | staging events =>
      intro event hevent
      obtain ⟨hlt, hget, hret⟩ := howns event hevent
      exact ⟨Nat.lt_of_lt_of_le hlt huuids, hevents ▸ hget, hreturned ▸ hret⟩
    | dispatching todo done => exact ⟨howns.1, fun row hrow => (havail _).mpr (howns.2 row hrow)⟩
    | cleaning victims => exact fun id hid => Nat.lt_of_lt_of_le (howns id hid) huuids
  refine ⟨?_, hput ▸ hs.apart.update hfree, ?_, ?_, ?_, ?_⟩
  · intro j
    rw [hput, Function.update_apply]
    split
    · exact hnew
    · exact hkeep _ (hs.sessions j)
  · intro row hrow
    rw [hevents] at hrow
    exact Nat.lt_of_lt_of_le (hs.rows row hrow) huuids
  · intro id hid
    rw [hreturned] at hid
    exact Nat.lt_of_lt_of_le (hs.known id hid) huuids
  · intro id hid hav
    rw [hreturned] at hid
    obtain ⟨j, row, hrow, hmark⟩ := hs.settled id hid ((havail id).mp hav)
    refine ⟨j, row, ?_, hmark⟩
    have hji : j ≠ i := by
      intro h
      rw [h, hdone] at hrow
      cases hrow
    rw [hput, Function.update_of_ne hji]
    exact hrow
  · intro id
    rw [hreturned]
    exact hs.once id

theorem stageAdd (hs : Allotted s) {i : Nat} {taskName : String} {payload : π} {session : Session π}
    {staged : List (OutboxEvent π)} (hi : s.sessions[i]? = some session)
    (hstaged : session.staged = some staged) :
    Allotted { s.put i (.staging (staged ++ [OutboxEvent.new s.uuids taskName payload s.now])) with
      uuids := s.uuids + 1 } := by
  have hsession := State.session_of_some hi
  have hold : (Session.staging staged).Owns s ∧ (Session.staging staged).owned = session.owned ∧
      session.done = [] := by
    have howns := hs.sessions i
    rw [hsession] at howns
    cases session with
    | idle =>
      cases hstaged
      exact ⟨nofun, rfl, rfl⟩
    | staging events =>
      cases hstaged
      exact ⟨howns, rfl, rfl⟩
    | dispatching todo done => cases hstaged
    | cleaning victims => cases hstaged
  refine hs.put (State.session_put hi rfl) ?_ ?_ (hsession ▸ hold.2.2) rfl rfl (Nat.le_succ _)
  · intro event hevent
    cases List.mem_append.mp hevent with
    | inl h =>
      obtain ⟨hlt, hrest⟩ := hold.1 event h
      exact ⟨Nat.lt_succ_of_lt hlt, hrest⟩
    | inr h =>
      -- the new id is one nobody has seen
      rw [List.mem_singleton.mp h]
      refine ⟨Nat.lt_succ_self _, Table.get_eq_none.mpr ?_, ?_⟩
      · exact fun row hrow => Nat.ne_of_lt (hs.rows row hrow)
      · exact fun hret => Nat.lt_irrefl _ (hs.known _ hret)
  · intro j hji id hid
    simp only [Session.owned, List.map_append, List.mem_append, List.map_cons, List.map_nil,
      List.mem_singleton] at hid
    cases hid with
    | inl h =>
      have hmem : id ∈ (s.session i).owned := by
        rw [hsession, ← hold.2.1]
        exact h
      exact hs.apart i j (Ne.symm hji) id hmem
    | inr h =>
      intro howned
      have hlt := hs.owned_lt howned
      rw [h] at hlt
      exact Nat.lt_irrefl _ hlt

/-- A row of the table that nobody has locked belongs to no session. -/
theorem not_owned (hs : Allotted s) {row : OutboxEvent π} (hrow : s.events.get row.id = some row)
    (hfree : s.isLocked row.id = false) (j : Nat) : row.id ∉ (s.session j).owned := by
  intro howned
  have howns := hs.sessions j
  cases hi : s.sessions[j]? with
  | none =>
    rw [State.session, sessionAt_of_none hi] at howned
    cases howned
  | some session =>
    rw [State.session_of_some hi] at howned howns
    have hlocked : row.id ∉ session.locked := by
      intro hmem
      have hany : s.isLocked row.id = true :=
        List.any_eq_true.mpr ⟨session, List.mem_of_getElem? hi, by simpa using hmem⟩
      rw [hfree] at hany
      cases hany
    cases session with
    | idle => cases howned
    | staging events =>
      obtain ⟨event, hevent, hid⟩ := List.mem_map.mp howned
      have hnone := (howns event hevent).2.1
      rw [hid, hrow] at hnone
      cases hnone
    | dispatching todo done => exact hlocked howned
    | cleaning victims => exact hlocked howned

theorem select (hs : Allotted s) {i batchSize : Nat} {rows : List (OutboxEvent π)}
    (hi : s.sessions[i]? = some .idle) (hrows : ∀ row ∈ rows, s.events.get row.id = some row)
    (hsel : s.selectable batchSize rows = true) : Allotted (s.put i (.dispatching rows [])) := by
  simp only [State.selectable, Bool.and_eq_true, List.all_eq_true, Bool.not_eq_true', decide_eq_true_eq] at hsel
  obtain ⟨⟨⟨hrow, hnodup⟩, -⟩, -⟩ := hsel
  have hsession := State.session_of_some hi
  refine hs.put (State.session_put hi rfl) ⟨hnodup, ?_⟩ ?_ (hsession ▸ rfl) rfl rfl (Nat.le_refl _)
  · exact fun row hmem => ⟨row, hrows row hmem, (hrow row hmem).1⟩
  · intro j hji id hid
    obtain ⟨row, hmem, rfl⟩ := List.mem_map.mp hid
    exact hs.not_owned (hrows row hmem) (hrow row hmem).2 j

theorem delete (hs : Allotted s) {i : Nat} {victims : List Uuid} (hi : s.sessions[i]? = some .idle)
    (hvictims : ∀ id ∈ victims, ∃ row ∈ s.events.rows, row.id = id)
    (hfree : ∀ id ∈ victims, s.isLocked id = false) : Allotted (s.put i (.cleaning victims)) := by
  have hsession := State.session_of_some hi
  refine hs.put (State.session_put hi rfl) ?_ ?_ (hsession ▸ rfl) rfl rfl (Nat.le_refl _)
  · intro id hid
    obtain ⟨row, hrow, rfl⟩ := hvictims id hid
    exact hs.rows row hrow
  · intro j hji id hid
    obtain ⟨row, hrow, rfl⟩ := hvictims id hid
    exact hs.not_owned (Table.get_of_mem hrow) (hfree _ hid) j

/-- The row the relay is about to dispatch has not been dispatched. -/
theorem next_not_returned (hs : Allotted s) {i : Nat} {row : OutboxEvent π} {todo done : List (OutboxEvent π)}
    (hi : s.session i = .dispatching (row :: todo) done) : row.id ∉ s.returned := by
  intro hret
  have howns := hs.sessions i
  rw [hi] at howns
  have hmem : row ∈ done ++ row :: todo := List.mem_append_right _ List.mem_cons_self
  obtain ⟨j, row', hrow', hid, -⟩ := hs.settled row.id hret (howns.2 row hmem)
  by_cases hji : j = i
  · -- it would be both before and after the cut of the batch
    rw [hji, hi] at hrow'
    have hnodup := howns.1
    rw [List.map_append, List.nodup_append] at hnodup
    exact hnodup.2.2 row'.id (List.mem_map_of_mem hrow') row.id (List.mem_map_of_mem List.mem_cons_self) hid
  · have howned : row.id ∈ (s.session i).owned := by
      rw [hi]
      exact List.mem_map_of_mem hmem
    refine hs.apart i j (Ne.symm hji) row.id howned ?_
    rw [← hid]
    cases hj : s.session j with
    | dispatching todo' done' =>
      rw [hj] at hrow'
      exact List.mem_map_of_mem (List.mem_append_left _ hrow')
    | _ => rw [hj] at hrow'; cases hrow'

end Allotted

/-- What a call and its mark leave: the call that returned is recorded, and the
row marked. -/
theorem State.dispatch_cases (cfg : OutboxSettings) (s : State π) (row : OutboxEvent π) (answer : Answer) :
    (s.dispatch cfg row answer).1.events = s.events ∧ (s.dispatch cfg row answer).1.uuids = s.uuids ∧
      (s.dispatch cfg row answer).1.sessions = s.sessions ∧ (s.dispatch cfg row answer).2.id = row.id ∧
      ((s.dispatch cfg row answer).1.returned = s.returned ∨
        (s.dispatch cfg row answer).1.returned = row.id :: s.returned ∧
          (s.dispatch cfg row answer).2.dispatchedAt.isSome = true) := by
  have hput : (s.enqueueTask row).events = s.events ∧ (s.enqueueTask row).uuids = s.uuids ∧
      (s.enqueueTask row).sessions = s.sessions ∧ (s.enqueueTask row).returned = s.returned := by
    unfold State.enqueueTask
    split <;> exact ⟨rfl, rfl, rfl, rfl⟩
  obtain ⟨he, hu, hses, hr⟩ := hput
  cases answer with
  | returns => exact ⟨he, hu, hses, rfl, .inr ⟨rfl, rfl⟩⟩
  | raises err queued =>
    cases queued with
    | false => exact ⟨rfl, rfl, rfl, rfl, .inl rfl⟩
    | true => exact ⟨he, hu, hses, rfl, .inl hr⟩

namespace Allotted
variable {s s' : State π}

theorem enqueue (hs : Allotted s) (cfg : OutboxSettings) {i : Nat} {answer : Answer} {row : OutboxEvent π}
    {todo done : List (OutboxEvent π)} (hi : s.sessions[i]? = some (.dispatching (row :: todo) done)) :
    Allotted ((s.dispatch cfg row answer).1.put i
      (.dispatching todo (done ++ [(s.dispatch cfg row answer).2]))) := by
  have hsession := State.session_of_some hi
  have hnew := hs.next_not_returned hsession
  obtain ⟨hevents, huuids, hsessions, hid, hreturned⟩ := State.dispatch_cases cfg s row answer
  generalize (s.dispatch cfg row answer).1 = s₁, (s.dispatch cfg row answer).2 = row' at *
  have hput : (s₁.put i (.dispatching todo (done ++ [row']))).session =
      Function.update s.session i (.dispatching todo (done ++ [row'])) :=
    State.session_put hi (by rw [← hsessions]; rfl)
  have hids : ((done ++ [row']) ++ todo).map OutboxEvent.id = (done ++ row :: todo).map OutboxEvent.id := by
    simp [hid]
  generalize hs' : s₁.put i (.dispatching todo (done ++ [row'])) = s' at *
  have hevents : s'.events = s.events := by rw [← hs']; exact hevents
  have huuids : s'.uuids = s.uuids := by rw [← hs']; exact huuids
  have hreturned : s'.returned = s.returned ∨
      s'.returned = row.id :: s.returned ∧ row'.dispatchedAt.isSome = true := by
    rw [← hs']
    exact hreturned
  have havail : ∀ id, s'.Available id ↔ s.Available id := by
    intro id
    unfold State.Available
    rw [hevents]
  have howns := hs.sessions i
  rw [hsession] at howns
  have hheld : ∀ id ∈ (done ++ row :: todo).map OutboxEvent.id, s.Available id := by
    intro id hid
    obtain ⟨held, hmem, rfl⟩ := List.mem_map.mp hid
    exact howns.2 held hmem
  have hrow : s.Available row.id := hheld row.id (List.mem_map_of_mem (List.mem_append_right _ List.mem_cons_self))
  have hmem : ∀ id ∈ s'.returned, id ∈ s.returned ∨ id = row.id ∧ row'.dispatchedAt.isSome = true := by
    intro id hid'
    rcases hreturned with heq | ⟨heq, hmark⟩
    · exact .inl (heq ▸ hid')
    · rw [heq] at hid'
      cases List.mem_cons.mp hid' with
      | inl h => exact .inr ⟨h, hmark⟩
      | inr h => exact .inl h
  have hkeep : ∀ session : Session π, session.Owns s → session.Owns s' := by
    intro session hj
    cases session with
    | idle => trivial
    | staging events =>
      intro event hevent
      obtain ⟨hlt, hget, hret⟩ := hj event hevent
      refine ⟨huuids ▸ hlt, hevents ▸ hget, ?_⟩
      intro hret'
      rcases hmem _ hret' with hold | ⟨heq, -⟩
      · exact hret hold
      · obtain ⟨held, hheld, -⟩ := hrow
        rw [← heq, hget] at hheld
        cases hheld
    | dispatching todo' done' => exact ⟨hj.1, fun held hmem' => (havail _).mpr (hj.2 held hmem')⟩
    | cleaning victims => exact fun id hid' => huuids ▸ hj id hid'
  refine ⟨?_, hput ▸ hs.apart.shrink ?_, ?_, ?_, ?_, ?_⟩
  · intro j
    rw [hput, Function.update_apply]
    split
    · refine ⟨hids ▸ howns.1, ?_⟩
      intro held hmem'
      exact (havail _).mpr (hheld _ (hids ▸ List.mem_map_of_mem hmem'))
    · exact hkeep _ (hs.sessions j)
  · rw [hsession]
    intro id hid'
    show id ∈ (done ++ row :: todo).map OutboxEvent.id
    rw [← hids]
    exact hid'
  · rw [hevents, huuids]
    exact hs.rows
  · intro id hid'
    rw [huuids]
    rcases hmem id hid' with hold | ⟨rfl, -⟩
    · exact hs.known id hold
    · exact hs.available_lt hrow
  · intro id hid' hav
    rcases hmem id hid' with hold | ⟨rfl, hmark⟩
    · obtain ⟨j, held, hdone, hheldid, hmark⟩ := hs.settled id hold ((havail id).mp hav)
      refine ⟨j, held, ?_, hheldid, hmark⟩
      rw [hput, Function.update_apply]
      split
      · next hji =>
        rw [hji, hsession] at hdone
        exact List.mem_append_left _ hdone
      · exact hdone
    · refine ⟨i, row', ?_, hid, hmark⟩
      rw [hput, Function.update_self]
      exact List.mem_append_right _ (List.mem_singleton_self _)
  · intro id
    rcases hreturned with heq | ⟨heq, -⟩
    · exact heq ▸ hs.once id
    · rw [heq, List.count_cons]
      by_cases hid' : row.id = id
      · have hzero : s.returned.count id = 0 := List.count_eq_zero.mpr (hid' ▸ hnew)
        simp [hid', hzero]
      · simpa [hid'] using hs.once id

/-- A commit: the session gives up its rows, and the table changes only there. -/
theorem commit (hs : Allotted s) {i : Nat} (hput : s'.session = Function.update s.session i .idle)
    (hreturned : s'.returned = s.returned) (huuids : s'.uuids = s.uuids)
    (hsame : ∀ j, j ≠ i → ∀ id ∈ (s.session j).owned, s'.events.get id = s.events.get id)
    (hrows : ∀ row ∈ s'.events.rows, row.id < s.uuids)
    (hsettled : ∀ id ∈ s.returned, s'.Available id → s.Available id ∧
      ∀ row ∈ (s.session i).done, row.id = id → row.dispatchedAt.isSome = false) : Allotted s' := by
  refine ⟨?_, hput ▸ hs.apart.shrink (List.nil_subset _), ?_, ?_, ?_, ?_⟩
  · intro j
    rw [hput, Function.update_apply]
    split
    · trivial
    · next hji =>
      have howns := hs.sessions j
      have hsame := hsame j hji
      cases hj : s.session j with
      | idle => trivial
      | staging events =>
        rw [hj] at howns hsame
        intro event hevent
        obtain ⟨hlt, hget, hret⟩ := howns event hevent
        exact ⟨huuids ▸ hlt, (hsame _ (List.mem_map_of_mem hevent)).trans hget, hreturned ▸ hret⟩
      | dispatching todo done =>
        rw [hj] at howns hsame
        refine ⟨howns.1, ?_⟩
        intro row hrow
        obtain ⟨old, hold, hpending⟩ := howns.2 row hrow
        exact ⟨old, (hsame _ (List.mem_map_of_mem hrow)).trans hold, hpending⟩
      | cleaning victims =>
        rw [hj] at howns
        exact fun id hid => huuids ▸ howns id hid
  · exact fun row hrow => huuids ▸ hrows row hrow
  · exact fun id hid => huuids ▸ hs.known id (hreturned ▸ hid)
  · intro id hid hav
    rw [hreturned] at hid
    obtain ⟨hav, hunmarked⟩ := hsettled id hid hav
    obtain ⟨j, row, hrow, hrowid, hmark⟩ := hs.settled id hid hav
    refine ⟨j, row, ?_, hrowid, hmark⟩
    have hji : j ≠ i := by
      intro h
      rw [h] at hrow
      rw [hunmarked row hrow hrowid] at hmark
      cases hmark
    rw [hput, Function.update_of_ne hji]
    exact hrow
  · intro id
    rw [hreturned]
    exact hs.once id

theorem commitStaged (hs : Allotted s) {i : Nat} {staged : List (OutboxEvent π)} {events : Events π}
    (hi : s.sessions[i]? = some (.staging staged)) (hins : s.events.insertAll staged = some events) :
    Allotted { s.put i .idle with events, committed := staged ++ s.committed } := by
  have hrows := Table.rows_insertAll hins
  have hsession := State.session_of_some hi
  have howns := hs.sessions i
  rw [hsession] at howns
  have hold : ∀ id, id ∉ staged.map OutboxEvent.id → events.get id = s.events.get id :=
    fun id hid => Table.get_insertAll_of_not_mem hins hid
  refine hs.commit (State.session_put hi rfl) rfl rfl ?_ ?_ ?_
  · intro j hji id hid
    refine hold id ?_
    intro hmem
    refine hs.apart j i hji id hid ?_
    rw [hsession]
    exact hmem
  · intro row hrow
    replace hrow : row ∈ events.rows := hrow
    rw [hrows, List.mem_append, List.mem_reverse] at hrow
    cases hrow with
    | inl hnew => exact (howns row hnew).1
    | inr hold => exact hs.rows row hold
  · intro id hid hav
    have hnew : id ∉ staged.map OutboxEvent.id := by
      intro hmem
      obtain ⟨event, hevent, rfl⟩ := List.mem_map.mp hmem
      exact (howns event hevent).2.2 hid
    obtain ⟨row, hrow, hpending⟩ := hav
    refine ⟨⟨row, (hold id hnew).symm.trans hrow, hpending⟩, ?_⟩
    rw [hsession]
    exact nofun

theorem commitDispatched (hs : Allotted s) {i : Nat} {done : List (OutboxEvent π)}
    (hi : s.sessions[i]? = some (.dispatching [] done)) :
    Allotted { s.put i .idle with events := flushAll done s.events } := by
  have hsession := State.session_of_some hi
  have howns := hs.sessions i
  rw [hsession] at howns
  simp only [Session.Owns, List.append_nil] at howns
  refine hs.commit (State.session_put hi rfl) rfl rfl ?_ ?_ ?_
  · intro j hji id hid
    refine get_flushAll_of_not_mem ?_
    intro hmem
    refine hs.apart j i hji id hid ?_
    rw [hsession]
    simpa [Session.owned] using hmem
  · intro row hrow
    have hget := Table.get_of_mem hrow
    replace hget : (flushAll done s.events).get row.id = some row := hget
    rw [get_flushAll, Option.map_eq_some_iff] at hget
    obtain ⟨old, hold, rfl⟩ := hget
    rw [flushInto_id]
    exact hs.rows old (Table.mem_of_get hold)
  · intro id hid hav
    by_cases hmem : id ∈ done.map OutboxEvent.id
    · obtain ⟨row, hrow, rfl⟩ := List.mem_map.mp hmem
      refine ⟨howns.2 row hrow, ?_⟩
      -- a marked row is no longer pending once the mark is flushed
      obtain ⟨new, hnew, hpending⟩ := hav
      replace hnew : (flushAll done s.events).get row.id = some new := hnew
      rw [get_flushAll, Option.map_eq_some_iff] at hnew
      obtain ⟨old, hold, rfl⟩ := hnew
      intro row' hrow' hid'
      rw [hsession] at hrow'
      have hsame : changed done old.id = some row' := by
        have hkey : old.id = row.id := Table.get_key hold
        rw [hkey, ← hid']
        exact changed_of_mem howns.1 hrow'
      simp only [flushInto, hsame, Option.elim_some, OutboxEvent.pending, OutboxEvent.flush_dispatchedAt,
        Bool.and_eq_true, Option.isNone_iff_eq_none] at hpending
      simp [hpending.1]
    · obtain ⟨row, hrow, hpending⟩ := hav
      refine ⟨⟨row, (get_flushAll_of_not_mem hmem).symm.trans hrow, hpending⟩, ?_⟩
      rw [hsession]
      intro row' hrow' hid'
      exact absurd (hid' ▸ List.mem_map_of_mem hrow') hmem

theorem commitCleaned (hs : Allotted s) {i : Nat} {victims : List Uuid}
    (hi : s.sessions[i]? = some (.cleaning victims)) :
    Allotted { s.put i .idle with
      events := s.events.deleteWhere (fun row => victims.contains row.id) } := by
  have hsession := State.session_of_some hi
  have hget : ∀ id, (s.events.deleteWhere (fun row => victims.contains row.id)).get id =
      if id ∈ victims then none else s.events.get id := by
    intro id
    rw [Table.get_deleteWhere]
    cases hrow : s.events.get id with
    | none => simp
    | some row =>
      have hkey : row.id = id := Table.get_key hrow
      by_cases hmem : id ∈ victims <;> simp [hkey, hmem]
  refine hs.commit (State.session_put hi rfl) rfl rfl ?_ ?_ ?_
  · intro j hji id hid
    have hmem : id ∉ victims := by
      intro hmem
      refine hs.apart j i hji id hid ?_
      rw [hsession]
      exact hmem
    exact (hget id).trans (if_neg hmem)
  · exact fun row hrow => hs.rows row (Table.mem_deleteWhere.mp hrow).1
  · intro id hid hav
    obtain ⟨row, hrow, hpending⟩ := hav
    replace hrow := (hget id).symm.trans hrow
    split at hrow
    · cases hrow
    · refine ⟨⟨row, hrow, hpending⟩, ?_⟩
      rw [hsession]
      intro row' hdone
      cases hdone

theorem step {cfg : OutboxSettings} {a : Action π} (hs : Allotted s) (halive : s.dies a = false)
    (ha : (machine cfg).step s a = some s') : Allotted s' := by
  cases moves_of_step ha with
  | connect => exact hs.same (sessionAt_connect s.sessions) rfl rfl rfl
  | stageAdd hi hstaged => exact hs.stageAdd hi hstaged
  | select hi hrows hsel => exact hs.select hi hrows hsel
  | enqueue hi => exact hs.enqueue cfg hi
  | delete hi hvictims hfree =>
    refine hs.delete hi ?_ hfree
    intro id hid
    obtain ⟨row, hrow, hkey, -⟩ := hvictims id hid
    exact ⟨row, hrow, hkey⟩
  | commitStaged hi hins => exact hs.commitStaged hi hins
  | commitRefused hi =>
    exact hs.put (State.session_put hi rfl) trivial (fun _ _ _ h => nomatch h)
      (State.session_of_some hi ▸ rfl) rfl rfl (Nat.le_refl _)
  | commitDispatched hi => exact hs.commitDispatched hi
  | commitCleaned hi => exact hs.commitCleaned hi
  | @close i session hi =>
    have hdone : session.done = [] := by
      cases session with
      | dispatching todo done => simp [State.dies, hi] at halive
      | _ => rfl
    exact hs.put (State.session_put hi rfl) trivial (fun _ _ _ h => nomatch h)
      (State.session_of_some hi ▸ hdone) rfl rfl (Nat.le_refl _)
  | finish => exact hs.same rfl rfl rfl rfl
  | tick => exact hs.same rfl rfl rfl rfl

end Allotted

/-! The jobs of a row: one for each call that returned or was lost, at most. -/

def Counted (s : State π) : Prop :=
  ∀ id, s.enqueued.countP (fun job => job.key = jobKey id) ≤ s.returned.count id + s.lost.count id

theorem Counted.step {cfg : OutboxSettings} {s s' : State π} {a : Action π} (hs : Counted s)
    (ha : (machine cfg).step s a = some s') : Counted s' := by
  cases moves_of_step ha with
  | @enqueue i answer row todo done hi =>
    intro id
    have hput : (s.enqueueTask row).enqueued.countP (fun job => job.key = jobKey id) ≤
        s.returned.count id + s.lost.count id + [row.id].count id := by
      have hle := hs id
      unfold State.enqueueTask
      split
      · exact Nat.le_add_right_of_le hle
      · have hone : (if row.job.key = jobKey id then 1 else 0) ≤ [row.id].count id := by
          split
          · next hkey =>
            have hid : row.id = id := jobKey_injective hkey
            simp [hid]
          · exact Nat.zero_le _
        simp only [List.countP_cons, decide_eq_true_eq]
        omega
    have hcons : ∀ ids : List Uuid, (row.id :: ids).count id = ids.count id + [row.id].count id := by
      intro ids
      rw [← List.singleton_append, List.count_append, Nat.add_comm]
    cases answer with
    | returns =>
      show _ ≤ (row.id :: s.returned).count id + (s.enqueueTask row).lost.count id
      have hlost : (s.enqueueTask row).lost = s.lost := by
        unfold State.enqueueTask
        split <;> rfl
      rw [hcons, hlost]
      exact Nat.le_trans hput (by omega)
    | raises err queued =>
      cases queued with
      | false => exact hs id
      | true =>
        show _ ≤ (s.enqueueTask row).returned.count id + (row.id :: s.lost).count id
        have hreturned : (s.enqueueTask row).returned = s.returned := by
          unfold State.enqueueTask
          split <;> rfl
        rw [hcons, hreturned]
        exact Nat.le_trans hput (by omega)
  | _ => exact hs

/-- In a run in which no relay dies between its select and its commit, the calls
for a row return at most once in all, and every further job of the row comes
from a call that raised. -/
theorem dispatched_at_most_once {cfg : OutboxSettings} {now : Time} {s : State π}
    (h : (machine cfg).Steps (fun s a => s.dies a = false) (State.init now) s) (id : Uuid) :
    s.returned.count id ≤ 1 ∧
      s.enqueued.countP (fun job => job.key = jobKey id) ≤ 1 + s.lost.count id := by
  have hs : Allotted s := h.invariant (fun _ _ _ hv halive ha => hv.step halive ha) (Allotted.init now)
  have hcount : Counted s :=
    h.invariant (fun _ _ _ hv _ ha => hv.step ha) (fun id => Nat.zero_le _)
  have honce := hs.once id
  have hjobs := hcount id
  exact ⟨honce, by omega⟩

/-- Two relays take a row each, and a third finds nothing left. -/
def sampleRelays : List (Action String) :=
  [.connect, .connect, .connect, .stageAdd 0 "send_email_task" "hello", .stageAdd 0 "send_email_task" "bye",
    .commit 0, .select 1 1 [0], .select 2 1 [1], .enqueue 2 .returns, .enqueue 1 (.raises "redis" false),
    .select 0 2 [], .commit 1, .commit 0, .select 1 2 [0], .enqueue 1 .returns, .commit 2, .commit 1]

theorem dispatched_at_most_once_sample : ∃ s,
    (machine ⟨10, 0⟩).runIf (fun s a => !s.dies a) (State.init 0) sampleRelays = some s ∧
      s.returned = [0, 1] ∧ s.returned.count 0 ≤ 1 := by
  have hrun : (((machine ⟨10, 0⟩).runIf (fun s a => !s.dies a) (State.init 0) sampleRelays).any
      (fun s => s.returned = [0, 1])) = true := by decide +kernel
  obtain ⟨s, hs, hends⟩ := (Option.any_eq_true _ _).mp hrun
  refine ⟨s, hs, of_decide_eq_true hends, ?_⟩
  have hsteps : (machine ⟨10, 0⟩).Steps (fun s a => s.dies a = false) (State.init 0) s :=
    (Machine.steps_of_runIf hs).mono (fun s a halive => by simpa using halive)
  exact (dispatched_at_most_once hsteps 0).1

end FastiKit.Outbox
