import FastiKit.Database.Session
import Mathlib.Data.List.Nodup

/- When a failover discards a write.

   `_can_fail_over` reads the flag and the three collections of pending changes. It
   does not see what was flushed or executed and is not committed yet: the invariant
   is that such work has set the flag, or stands beside changes that are pending
   still, and that nothing unsets the flag while the work is there. A call that pins
   the session does not fail over, so what is sent twice is a read.
   A `select()` with a CTE that writes is a write `get_bind` takes for a read: it is
   sent without the flag, and the next failover rolls it back (`unnoticed_discarded`). -/
namespace FastiKit.Database

open Interleave

/-- The calls a session is used with besides texts. -/
def listed : Call → Bool
  | .execute (.text _) _ => false
  | _ => true

/-- A statement that modifies data, does not pin the session and finds it ready to
fail over. (Where it raises and the rollback raises too, the session is pinned and
empty afterwards.) -/
def unnoticed (modifies : String → Bool) (s : Session) : Call → Bool
  | .execute clause raises =>
    clause.writes modifies && !clause.pins && s.canFailOver && raises != .alsoRollback
  | _ => false

/-- The statements of a history that write, by the calls they came from. -/
def written (sent : List Sent) : List Nat := (sent.filter (·.writes)).map (·.number)

theorem written_append (sent more : List Sent) : written (sent ++ more) = written sent ++ written more := by
  simp [written]

theorem written_flush (numbers : List Nat) : written (numbers.map fun n => ⟨n, true, .primary⟩) = numbers := by
  simp [written, List.filter_map, Function.comp_def]

theorem written_single (e : Sent) : written [e] = if e.writes then [e.number] else [] := by
  cases h : e.writes <;> simp [written, h]

/-- Each retry ran on the primary after a rollback of a session that held nothing,
and no write was sent twice. -/
def DiscardsNothing (s : Session) : Prop :=
  (∀ r ∈ s.retries, r.pending = [] ∧ r.uncommitted = [] ∧ r.engine = .primary) ∧ (written s.sent).Nodup

/-- Where there is work that is not committed the session cannot fail over, and no
change is written twice; the calls so far have the numbers below `calls`. -/
structure Guarded (calls : Nat) (s : Session) : Prop where
  uncommitted : s.uncommitted ≠ [] → s.canFailOver = false
  once : (written s.sent ++ s.pending).Nodup
  fresh : ∀ n ∈ written s.sent ++ s.pending, n < calls
  retries : ∀ r ∈ s.retries, r.pending = [] ∧ r.uncommitted = [] ∧ r.engine = .primary

namespace Guarded
variable {modifies : String → Bool} {calls : Nat} {s : Session}

theorem later (h : Guarded calls s) : Guarded (calls + 1) s :=
  ⟨h.uncommitted, h.once, fun n hn => Nat.lt_succ_of_lt (h.fresh n hn), h.retries⟩

theorem pin (h : Guarded calls s) : Guarded calls { s with forcePrimary := true } :=
  ⟨fun _ => Session.not_canFailOver rfl, h.once, h.fresh, h.retries⟩

theorem rollback (h : Guarded calls s) : Guarded calls s.rollback := by
  have hkept : (written s.sent ++ s.rollback.pending).Sublist (written s.sent ++ s.pending) :=
    (List.Sublist.refl _).append (List.nil_sublist _)
  exact ⟨fun hne => absurd rfl hne, hkept.nodup h.once, fun n hn => h.fresh n (hkept.subset hn), h.retries⟩

/-- A call adds its number, as a pending change or as a write. -/
theorem one_more (h : Guarded s.calls s) {s' : Session}
    (hperm : (written s'.sent ++ s'.pending).Perm (s.calls :: (written s.sent ++ s.pending)))
    (huncommitted : s'.uncommitted ≠ [] → s'.canFailOver = false) (hretries : s'.retries = s.retries) :
    Guarded (s.calls + 1) s' := by
  have hnew : s.calls ∉ written s.sent ++ s.pending := fun hold => Nat.lt_irrefl _ (h.fresh _ hold)
  constructor
  · exact huncommitted
  · exact hperm.nodup_iff.mpr (List.nodup_cons.mpr ⟨hnew, h.once⟩)
  · intro n hn
    rcases List.mem_cons.mp (hperm.mem_iff.mp hn) with hlast | hold
    · omega
    · have := h.fresh n hold
      omega
  · rw [hretries]
    exact h.retries

theorem flush (h : Guarded calls s) (raisesAt : Option Nat) : Guarded calls (s.flush raisesAt) := by
  by_cases hpending : s.pending = []
  · simpa [Session.flush, hpending] using h
  · have hretries : (s.flush raisesAt).retries = s.retries := by
      cases raisesAt <;> simp [Session.flush, hpending, Session.rollback]
    obtain ⟨numbers, hnumbers, hflag, hsent, hleft⟩ := Session.flush_sends hpending raisesAt
    have hkept : (written (s.flush raisesAt).sent ++ (s.flush raisesAt).pending).Sublist
        (written s.sent ++ s.pending) := by
      rw [hsent, hleft, List.append_nil, written_append, written_flush]
      exact (List.Sublist.refl _).append hnumbers
    exact ⟨fun _ => Session.not_canFailOver hflag, hkept.nodup h.once, fun n hn => h.fresh n (hkept.subset hn), hretries ▸ h.retries⟩

theorem attempt_read (h : Guarded calls s) {clause : Clause} (hread : clause.writes modifies = false) :
    Guarded calls (s.attempt modifies clause) := by
  have hwritten : written (s.attempt modifies clause).sent = written s.sent := by
    rw [Session.attempt_sent, written_append, written_single, hread]
    exact List.append_nil _
  have hkept : (s.attempt modifies clause).uncommitted = s.uncommitted := by
    simp [Session.attempt, hread]
  refine ⟨?_, ?_, ?_, h.retries⟩
  · rw [hkept, Session.canFailOver_attempt]
    intro hne
    simp [h.uncommitted hne]
  · rw [hwritten]
    exact h.once
  · rw [hwritten]
    exact h.fresh

theorem sent_write {clause : Clause} (hwrites : clause.writes modifies = true) :
    (written (s.attempt modifies clause).sent ++ s.pending).Perm (s.calls :: (written s.sent ++ s.pending)) := by
  have hwritten : written (s.attempt modifies clause).sent = written s.sent ++ [s.calls] := by
    rw [Session.attempt_sent, written_append, written_single, hwrites]
    rfl
  rw [hwritten, List.append_assoc]
  exact List.perm_middle

theorem attempt_write (h : Guarded s.calls s) {clause : Clause} (hwrites : clause.writes modifies = true)
    (hstays : (s.attempt modifies clause).canFailOver = false) :
    Guarded (s.calls + 1) (s.attempt modifies clause) :=
  h.one_more (sent_write hwrites) (fun _ => hstays) rfl

theorem retry (h : Guarded calls s) {clause : Clause} (hread : clause.writes modifies = false)
    (hover : s.canFailOver = true) : Guarded calls (s.retry modifies clause) := by
  have hnone : s.uncommitted = [] := by
    by_contra hne
    simp [h.uncommitted hne] at hover
  simp only [Session.canFailOver, Bool.and_eq_true, List.isEmpty_iff] at hover
  have hagain := h.pin.rollback.attempt_read hread
  refine ⟨hagain.uncommitted, hagain.once, hagain.fresh, ?_⟩
  intro r hr
  rcases List.mem_append.mp hr with hold | hnew
  · exact h.retries r hold
  · rw [List.mem_singleton.mp hnew]
    exact ⟨hover.2, hnone, getBind_pinned (some clause)⟩

/-- A read may be tried again. -/
theorem failover_read (h : Guarded calls s) {clause : Clause} (hread : clause.writes modifies = false)
    (raises : Raises) : Guarded calls (s.withFailover modifies clause raises) := by
  have htried := h.attempt_read hread
  cases raises with
  | nowhere => exact htried
  | statement =>
    simp only [Session.withFailover]
    split
    · next hover => exact htried.retry hread hover
    · exact htried
  | alsoRollback =>
    simp only [Session.withFailover]
    split
    · exact htried.pin.rollback
    · exact htried

/-- A write is tried once, unless it is one the session does not notice. -/
theorem failover_write (h : Guarded s.calls s) {clause : Clause} (hwrites : clause.writes modifies = true)
    {raises : Raises} (hnoticed : unnoticed modifies s (.execute clause raises) = false) :
    Guarded (s.calls + 1) (s.withFailover modifies clause raises) := by
  cases hstays : (s.attempt modifies clause).canFailOver with
  | false =>
    have honce : s.withFailover modifies clause raises = s.attempt modifies clause := by
      cases raises <;> simp [Session.withFailover, hstays]
    rw [honce]
    exact h.attempt_write hwrites hstays
  | true =>
    -- only the rollback that raises is left: the session is pinned and holds nothing
    have hraises : raises = .alsoRollback := by
      rw [Session.canFailOver_attempt] at hstays
      simp_all [unnoticed]
    have hempty : s.pending = [] := by
      rw [Session.canFailOver_attempt] at hstays
      simp_all [Session.canFailOver]
    have hgone : s.withFailover modifies clause raises =
        Session.rollback { s.attempt modifies clause with forcePrimary := true } := by
      rw [hraises]
      simp [Session.withFailover, hstays]
    rw [hgone]
    refine h.one_more ?_ (fun hne => absurd rfl hne) rfl
    have hsent := sent_write hwrites (s := s)
    rw [hempty] at hsent ⊢
    exact hsent

theorem scopedRead (h : Guarded calls s) (raises : Raises) : Guarded calls (s.scopedRead modifies raises) := by
  have hselect : Clause.writes modifies (.select false) = false := rfl
  have hread := h.pin.attempt_read hselect
  have honce : Session.withFailover modifies { s with forcePrimary := true } (.select false) raises =
      Session.attempt modifies { s with forcePrimary := true } (.select false) :=
    Session.withFailover_pinned rfl (.select false) raises
  simp only [Session.scopedRead, honce]
  exact ⟨h.uncommitted, hread.once, hread.fresh, hread.retries⟩

theorem commit (h : Guarded calls s) (flushRaisesAt : Option Nat) (raises : Bool) :
    Guarded calls (s.commit flushRaisesAt raises) := by
  have hflushed := h.flush flushRaisesAt
  cases raises with
  | true => exact hflushed
  | false => exact ⟨fun hne => absurd rfl hne, hflushed.once, hflushed.fresh, hflushed.retries⟩

theorem call (h : Guarded s.calls s) {call : Call} (hnoticed : unnoticed modifies s call = false) :
    Guarded (s.calls + 1) (s.call modifies call) := by
  cases call with
  | add | setAttribute | delete =>
    refine h.one_more (List.perm_iff_count.mpr ?_) ?_ rfl
    · intro n
      simp only [Session.call, Session.pending, List.count_append, List.count_cons, List.count_nil]
      omega
    · intro _
      -- the change that is pending keeps the session from failing over
      simp [Session.call, Session.canFailOver, Session.pending]
  | flush raisesAt => exact (h.flush raisesAt).later
  | execute clause raises =>
    cases hwrites : clause.writes modifies with
    | true => exact h.failover_write hwrites hnoticed
    | false => exact (h.failover_read hwrites raises).later
  | get loaded raises =>
    cases loaded with
    | true => exact h.later
    | false => exact (h.failover_read rfl raises).later
  | scopedRead raises => exact (h.scopedRead raises).later
  | forcePrimary => exact h.pin.later
  | commit flushRaisesAt raises => exact (h.commit flushRaisesAt raises).later
  | rollback => exact h.rollback.later

end Guarded

/-- A session that meets no unnoticed write discards nothing and sends no write twice. -/
theorem failover_discards_nothing {modifies : String → Bool} {s : Session}
    (h : (sessionCalls modifies).Steps (fun s call => unnoticed modifies s call = false) .init s) :
    DiscardsNothing s := by
  have hguarded : Guarded s.calls s := by
    refine h.invariant (J := fun s => Guarded s.calls s) ?_ ⟨nofun, List.nodup_nil, nofun, nofun⟩
    intro s call s' hs hnoticed hstep
    rw [← Option.some.inj hstep]
    have hcall : Guarded _ (s.call modifies call) := hs.call hnoticed
    exact ⟨hcall.uncommitted, hcall.once, hcall.fresh, hcall.retries⟩
  exact ⟨hguarded.retries, (List.sublist_append_left _ _).nodup hguarded.once⟩

/-- A read that fails over, a flush that raises, a read that may not fail over, a select
that writes in a session that is pinned, a commit. -/
def failingCalls : List Call :=
  [.execute (.select false) .statement, .add, .flush (some 0), .rollback, .add, .get false .statement,
   .scopedRead .statement, .execute (.select true) .nowhere, .commit none false, .get false .statement]

theorem failover_discards_nothing_sample : ∃ s,
    (sessionCalls fun _ => true).runIf (fun s call => !unnoticed (fun _ => true) s call) .init failingCalls = some s ∧
    s.retries = [⟨0, [], [], .primary⟩] ∧ written s.sent = [1, 7, 4] ∧ DiscardsNothing s := by
  obtain ⟨s, hs, hretries, hwritten⟩ : ∃ s,
      (sessionCalls fun _ => true).runIf (fun s call => !unnoticed (fun _ => true) s call) .init failingCalls = some s ∧
      s.retries = [⟨0, [], [], .primary⟩] ∧ written s.sent = [1, 7, 4] :=
    ⟨_, rfl, by decide +kernel, by decide +kernel⟩
  have hsteps : (sessionCalls fun _ => true).Steps (fun s call => unnoticed (fun _ => true) s call = false) .init s := by
    simpa only [Bool.not_eq_eq_eq_not, Bool.not_true] using Machine.steps_of_runIf hs
  exact ⟨s, hs, hretries, hwritten, failover_discards_nothing hsteps⟩

/-- A call keeps the retries there are. -/
theorem retries_kept {modifies : String → Bool} {s : Session} {clause : Clause} {raises : Raises} :
    s.retries ⊆ (s.withFailover modifies clause raises).retries := by
  intro r hr
  cases raises <;> simp only [Session.withFailover] <;> (try split) <;>
    simp [Session.attempt, Session.retry, Session.rollback, hr]

theorem retried {modifies : String → Bool} {s : Session} {clause : Clause}
    (hover : (s.attempt modifies clause).canFailOver = true) : ∃ r ∈ (s.withFailover modifies clause .statement).retries,
      r.uncommitted = (s.attempt modifies clause).uncommitted := by
  rw [Session.withFailover, if_pos hover]
  exact ⟨_, List.mem_append_right _ (List.mem_singleton.mpr rfl), rfl⟩

/-- What an unnoticed write did is rolled back for its own retry, or for that of a
select that raises after it. -/
theorem unnoticed_discarded {modifies : String → Bool} {s : Session} {call : Call}
    (h : unnoticed modifies s call = true) :
    ¬ DiscardsNothing ((s.call modifies call).call modifies (.execute (.select false) .statement)) := by
  cases call with
  | execute clause raises =>
    simp only [unnoticed, Bool.and_eq_true, Bool.not_eq_eq_eq_not, Bool.not_true] at h
    obtain ⟨⟨⟨hwrites, hpins⟩, hstays⟩, hraises⟩ := h
    have hover : (s.attempt modifies clause).canFailOver = true := by
      simp [Session.canFailOver_attempt, hstays, hpins]
    have hheld : (s.attempt modifies clause).uncommitted ≠ [] := by
      simp [Session.attempt, hwrites]
    rintro ⟨hretries, -⟩
    cases raises with
    | nowhere =>
      -- the select after it fails over and takes the write with it
      have hagain : ((s.attempt modifies clause).attempt modifies (.select false)).canFailOver = true := by
        rw [Session.canFailOver_attempt, hover]
        rfl
      obtain ⟨r, hr, hdiscarded⟩ := retried hagain
      have hnone := (hretries r hr).2.1
      rw [hdiscarded] at hnone
      exact hheld hnone
    | statement =>
      obtain ⟨r, hr, hdiscarded⟩ := retried hover
      have hnone := (hretries r (retries_kept hr)).2.1
      rw [hdiscarded] at hnone
      exact hheld hnone
    | alsoRollback => cases hraises
  | _ => cases h

/-- A `select()` whose CTE inserts, where the replica is the primary too. -/
def lostInsert : List Call := [.execute (.select true) .nowhere, .execute (.select false) .statement]

/-- The insert is rolled back for the retry of the select after it. -/
theorem cte_insert_discarded : ¬ ∀ (modifies : String → Bool) (s : Session),
    (sessionCalls modifies).Steps (fun _ call => listed call = true) .init s → DiscardsNothing s := by
  intro h
  obtain ⟨s, hs, hretries⟩ : ∃ s, (sessionCalls fun _ => true).runIf (fun _ => listed) .init lostInsert = some s ∧
      s.retries = [⟨1, [], [0], .primary⟩] := ⟨_, rfl, by decide +kernel⟩
  have hretry := (h _ s (Machine.steps_of_runIf hs)).1 ⟨1, [], [0], .primary⟩ (hretries ▸ List.mem_singleton.mpr rfl)
  exact absurd hretry.2.1 (by simp)

end FastiKit.Database
