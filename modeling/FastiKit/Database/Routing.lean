import FastiKit.Database.Session

/- Reads after a write go to the primary.

   The flag is set in three places: by `get_bind` for a clause it recognises, by the
   flush hook, and by the repositories; a scoped read puts it back to what it was.
   What is proved: as long as every statement that modifies data pins the session
   it runs in, a read that comes after a write is sent to the primary, in every
   order of calls and whatever raises. A text that modifies data without
   starting with a keyword is a write the session does not notice (`unnoticed_write`). -/
namespace FastiKit.Database

open Interleave

/-- After a write, reads go to the primary. -/
def ReadsOwnWrites (sent : List Sent) : Prop :=
  sent.Pairwise fun write read => write.writes = true → read.writes = false → read.engine = .primary

/-- A history with the flag it left behind: what wrote has set the flag. -/
structure Routed (flag : Bool) (sent : List Sent) : Prop where
  reads : ReadsOwnWrites sent
  pinned : ∀ e ∈ sent, e.writes = true → flag = true

namespace Routed
variable {flag flag' : Bool} {sent : List Sent}

theorem mono (h : Routed flag sent) (hflag : flag = true → flag' = true) : Routed flag' sent :=
  ⟨h.reads, fun e he hw => hflag (h.pinned e he hw)⟩

theorem append (h : Routed flag sent) {more : List Sent} (hreads : ReadsOwnWrites more)
    (hengine : flag = true → ∀ e ∈ more, e.engine = .primary) (hflag : flag = true → flag' = true)
    (hmore : ∀ e ∈ more, e.writes = true → flag' = true) : Routed flag' (sent ++ more) := by
  constructor
  · refine List.pairwise_append.mpr ⟨h.reads, hreads, ?_⟩
    intro w hw e he hwrites _
    exact hengine (h.pinned w hw hwrites) e he
  · intro e he hwrites
    rcases List.mem_append.mp he with hold | hnew
    · exact hflag (h.pinned e hold hwrites)
    · exact hmore e hnew hwrites

end Routed

def Session.Routed (s : Session) : Prop := Database.Routed s.forcePrimary s.sent

namespace Session
variable {modifies : String → Bool} {s : Session}

theorem Routed.attempt (h : s.Routed) {clause : Clause}
    (hrec : clause.writes modifies = true → s.forcePrimary = true ∨ clause.pins = true) :
    (s.attempt modifies clause).Routed := by
  have hflag : (s.attempt modifies clause).forcePrimary = (s.forcePrimary || clause.pins) :=
    attempt_flag s clause
  unfold Session.Routed
  rw [attempt_sent, hflag]
  refine h.append (List.pairwise_singleton _ _) ?_ ?_ ?_
  · intro hpinned e he
    rw [List.mem_singleton.mp he, hpinned]
    exact getBind_pinned (some clause)
  · intro hpinned
    simp [hpinned]
  · intro e he hwrites
    rw [List.mem_singleton.mp he] at hwrites
    simpa using hrec hwrites

theorem Routed.pin (h : s.Routed) : Session.Routed { s with forcePrimary := true } := h.mono (fun _ => rfl)

/-- A failover pins the session after the attempt, whatever the statement was. -/
theorem Routed.attempt_pin (h : s.Routed) (clause : Clause) :
    Session.Routed { s.attempt modifies clause with forcePrimary := true } := by
  unfold Session.Routed
  rw [attempt_sent]
  refine h.append (List.pairwise_singleton _ _) ?_ (fun _ => rfl) (fun _ _ _ => rfl)
  intro hpinned e he
  rw [List.mem_singleton.mp he, hpinned]
  exact getBind_pinned (some clause)

theorem Routed.withFailover (h : s.Routed) {clause : Clause} {raises : Raises}
    (hrec : recognised modifies s (.execute clause raises) = true) :
    (s.withFailover modifies clause raises).Routed := by
  -- where the session does not fail over, the statement has to be recognised
  have htried : (s.attempt modifies clause).canFailOver = false ∨ raises = .nowhere →
      (s.attempt modifies clause).Routed := by
    intro hstays
    refine h.attempt ?_
    intro hwrites
    rw [canFailOver_attempt] at hstays
    simp only [recognised, hwrites] at hrec
    cases hpins : clause.pins with
    | true => exact Or.inr rfl
    | false =>
      left
      rcases hstays with hno | hno <;> simp_all
  have hpinned : Session.Routed { s.attempt modifies clause with forcePrimary := true } :=
    h.attempt_pin clause
  cases raises with
  | nowhere => exact htried (Or.inr rfl)
  | statement =>
    simp only [Session.withFailover]
    split
    · -- the retry is one more attempt, of a session that is pinned by now
      have hretried : ({ s.attempt modifies clause with forcePrimary := true }.rollback.attempt modifies clause).Routed :=
        Routed.attempt hpinned (fun _ => Or.inl rfl)
      exact hretried
    · next hstays => exact htried (Or.inl (Bool.eq_false_iff.mpr hstays))
  | alsoRollback =>
    simp only [Session.withFailover]
    split
    · exact hpinned
    · next hstays => exact htried (Or.inl (Bool.eq_false_iff.mpr hstays))

theorem Routed.scopedRead (h : s.Routed) (raises : Raises) : (s.scopedRead modifies raises).Routed := by
  have hread : (s.scopedRead modifies raises).sent = s.sent ++ [⟨s.calls, false, .primary⟩] := by
    simp only [Session.scopedRead]
    rw [withFailover_pinned rfl]
    rfl
  have hflag : (s.scopedRead modifies raises).forcePrimary = s.forcePrimary := rfl
  unfold Session.Routed
  rw [hread, hflag]
  refine h.append (List.pairwise_singleton _ _) ?_ id ?_
  · intro _ e he
    rw [List.mem_singleton.mp he]
  · intro e he hwrites
    rw [List.mem_singleton.mp he] at hwrites
    cases hwrites

theorem Routed.flush (h : s.Routed) (raisesAt : Option Nat) : (s.flush raisesAt).Routed := by
  by_cases hpending : s.pending = []
  · simpa [Session.flush, hpending] using h
  · obtain ⟨numbers, _, hflag, hsent, _⟩ := flush_sends hpending raisesAt
    unfold Session.Routed
    rw [hflag, hsent]
    refine h.append ?_ ?_ (fun _ => rfl) (fun _ _ _ => rfl)
    · refine List.pairwise_map.mpr (List.pairwise_of_forall ?_)
      intro _ _ _ hread
      cases hread
    · intro _ e he
      obtain ⟨n, _, hn⟩ := List.mem_map.mp he
      rw [← hn]

theorem Routed.commit (h : s.Routed) (flushRaisesAt : Option Nat) (raises : Bool) :
    (s.commit flushRaisesAt raises).Routed := by
  have hflushed := h.flush flushRaisesAt
  cases raises with
  | true => exact hflushed
  | false => exact hflushed

theorem Routed.call (h : s.Routed) {call : Call} (hrec : recognised modifies s call = true) :
    (s.call modifies call).Routed := by
  cases call with
  | flush raisesAt => exact h.flush raisesAt
  | execute clause raises => exact h.withFailover hrec
  | get loaded raises =>
    cases loaded with
    | true => exact h
    | false => exact h.withFailover rfl
  | scopedRead raises => exact h.scopedRead raises
  | forcePrimary => exact h.pin
  | commit flushRaisesAt raises => exact h.commit flushRaisesAt raises
  | _ => exact h

end Session

theorem routed_of_steps {modifies : String → Bool} {s : Session}
    (h : (sessionCalls modifies).Steps (fun s call => recognised modifies s call = true) .init s) : s.Routed := by
  refine h.invariant ?_ ⟨List.Pairwise.nil, nofun⟩
  intro s call s' hs hrec hstep
  rw [← Option.some.inj hstep]
  have hcall := hs.call hrec
  exact hcall

/-- A session that recognises every write it runs unpinned reads its own writes. -/
theorem recognised_writes_pin {modifies : String → Bool} {s : Session}
    (h : (sessionCalls modifies).Steps (fun s call => recognised modifies s call = true) .init s) :
    ReadsOwnWrites s.sent :=
  (routed_of_steps h).reads

def deleteText : String := "  DELETE FROM outbox_jobs WHERE failed_at IS NOT NULL"

/-- A scoped read, a delete as text, a read that raises, an add with a commit, a read. -/
def pinnedCalls : List Call :=
  [.scopedRead .nowhere, .execute (.text deleteText) .nowhere, .execute (.select false) .statement,
   .add, .commit none false, .get false .nowhere]

theorem recognised_writes_pin_sample : ∃ s,
    (sessionCalls (· == deleteText)).runIf (recognised (· == deleteText)) .init pinnedCalls = some s ∧
    s.sent.length = 5 ∧ ReadsOwnWrites s.sent := by
  obtain ⟨s, hs, hlen⟩ : ∃ s, (sessionCalls (· == deleteText)).runIf (recognised (· == deleteText)) .init
      pinnedCalls = some s ∧ s.sent.length = 5 := by
    have hrun : ((sessionCalls (· == deleteText)).runIf (recognised (· == deleteText)) .init pinnedCalls).any
        (fun s => decide (s.sent.length = 5)) = true := by decide +kernel
    obtain ⟨s, hs, hlen⟩ := (Option.any_eq_true _ _).mp hrun
    exact ⟨s, hs, of_decide_eq_true hlen⟩
  exact ⟨s, hs, hlen, recognised_writes_pin (Machine.steps_of_runIf hs)⟩

/-- A statement that is not recognised leaves the next select to the replica. -/
theorem unrecognised_write_leaks {modifies : String → Bool} {s : Session} {clause : Clause} {raises : Raises}
    (h : recognised modifies s (.execute clause raises) = false) : ∃ write read,
    ((s.call modifies (.execute clause raises)).call modifies (.execute (.select false) .nowhere)).sent =
      s.sent ++ [write, read] ∧ write.writes = true ∧ read.writes = false ∧ read.engine = .replica := by
  simp only [recognised, Bool.or_eq_false_iff, Bool.not_eq_eq_eq_not, Bool.not_false] at h
  obtain ⟨⟨⟨hwrites, hflag⟩, hpins⟩, hstays⟩ := h
  have honce : s.withFailover modifies clause raises = s.attempt modifies clause := by
    cases raises <;> simp_all [Session.withFailover, Session.canFailOver_attempt]
  have hunpinned : (s.attempt modifies clause).forcePrimary = false := by
    simp [Session.attempt_flag, hflag, hpins]
  refine ⟨⟨s.calls, clause.writes modifies, (getBind none s.forcePrimary (some clause)).1⟩,
    ⟨s.calls, false, .replica⟩, ?_, hwrites, rfl, rfl⟩
  have hread : ((s.attempt modifies clause).withFailover modifies (.select false) .nowhere).sent =
      (s.attempt modifies clause).sent ++ [⟨s.calls, false, .replica⟩] := by
    simp only [Session.withFailover]
    rw [Session.attempt_sent, hunpinned]
    rfl
  rw [Session.call, Session.call, honce, hread, Session.attempt_sent, List.append_assoc]
  rfl

def cteText : String := "WITH gone AS (DELETE FROM users RETURNING id) SELECT count(*) FROM gone"

/-- The text deletes users, and the select after it is sent to the replica. -/
theorem unnoticed_write : ¬ ∀ (modifies : String → Bool) (s : Session),
    (sessionCalls modifies).Reaches .init s → ReadsOwnWrites s.sent := by
  intro h
  obtain ⟨s, hs, hsent⟩ : ∃ s, (sessionCalls (· == cteText)).run .init
      [.execute (.text cteText) .nowhere, .execute (.select false) .nowhere] = some s ∧
      s.sent = [⟨0, true, .primary⟩, ⟨1, false, .replica⟩] := ⟨_, rfl, by decide +kernel⟩
  have hreads := h (· == cteText) s (Machine.reaches_of_run hs)
  rw [hsent] at hreads
  have hengine := List.rel_of_pairwise_cons hreads (List.mem_singleton.mpr rfl) rfl rfl
  cases hengine

end FastiKit.Database
