import FastiKit.DeadLetter.Admin
import FastiKit.Interleave.Linearizable

/- The requests of the operators on the dead-letter table, at once.

   What a request does takes effect with its commit, or with the read that tells it
   what it did not find. A retry holds its row from the claim to the commit, so nothing
   can come in between. Two other requests can be overtaken: a delete that has read its
   row, when another removes the row before its DELETE (a DELETE that finds no row is
   only warned about, so both report success: `deletes_overlap`); and a purge, when a
   row comes to match between its DELETE and its commit. Where neither happens, the
   requests are linearizable (`admin_linearizable`). -/
namespace FastiKit.DeadLetter.Admin
open Interleave Relational

/-! Where a request stands. -/

/-- The rows a purge has deleted so far match. -/
structure Gone (s : State) (before : Option Time) (onlyRetried : Bool) (c count : Nat) (gone rest : List Uuid) : Prop where
  written : s.written c = gone.map (fun id => (id, Change.deleted))
  count : gone.length = count
  nodup : (gone ++ rest).Nodup
  rows : ∀ id ∈ gone, ∃ row, s.jobs.get id = some row ∧ purged before onlyRetried row = true

/-- What is left of a request, and what it counts on. -/
inductive Stage (s : State) : Request → Api Response → Prop where
  | first (req : Request) : Stage s req (program req)
  | retrying (c : Nat) (jobId : Uuid) (now : Time) (hnew : s.written c = []) :
    Stage s (.retryJob jobId now) (retrying c jobId now)
  | claimed (c : Nat) (jobId : Uuid) (now : Time) (row : DeadLetterJob Json) (hrow : claimable s.jobs jobId = some row)
    (hwritten : s.written c = [(jobId, .retried now)]) :
    Stage s (.retryJob jobId now) (claimed c jobId (some (row.retried now)))
  | notClaimed (c : Nat) (jobId : Uuid) (now : Time) (hnone : claimable s.jobs jobId = none) (hnew : s.written c = []) :
    Stage s (.retryJob jobId now) (Admin.claimed c jobId none)
  | unclaimed (c : Nat) (jobId : Uuid) (now : Time) (hnone : claimable s.jobs jobId = none) :
    Stage s (.retryJob jobId now) (unclaimed c jobId)
  | deleting (c : Nat) (jobId : Uuid) (hnew : s.written c = []) : Stage s (.deleteJob jobId) (deleting c jobId)
  | found (c : Nat) (jobId : Uuid) (hnew : s.written c = []) : Stage s (.deleteJob jobId) (found c jobId)
  | removed (c : Nat) (jobId : Uuid) (hrow : (s.jobs.get jobId).isSome = true)
    (hwritten : s.written c = [(jobId, .deleted)]) : Stage s (.deleteJob jobId) (removed c)
  | purging (c : Nat) (before : Option Time) (onlyRetried : Bool) (hbound : (before.isNone && !onlyRetried) = false)
    (hnew : s.written c = []) : Stage s (.purge before onlyRetried) (purging c before onlyRetried)
  | purgeRows (c : Nat) (before : Option Time) (onlyRetried : Bool) (hbound : (before.isNone && !onlyRetried) = false)
    (count : Nat) (gone rest : List Uuid) (hgone : Gone s before onlyRetried c count gone rest) :
    Stage s (.purge before onlyRetried) (purgeRows c before onlyRetried count rest)

/-- The other sessions have left alone what the session counts on. -/
structure Kept (c : Nat) (s s' : State) : Prop where
  written : s'.written c = s.written c
  rows : ∀ id ∈ (s.written c).map Prod.fst, s'.jobs.get id = s.jobs.get id
  claimable : ∀ id, claimable s.jobs id = none → claimable s'.jobs id = none

theorem Stage.keep {s s' : State} {req : Request} {op : Op} {k : op.Res → Api Response} (h : Stage s req (.call op k))
    (hkept : ∀ c, op.session = some c → Kept c s s') : Stage s' req (.call op k) := by
  generalize hcode : (Prog.call op k : Api Response) = code at h ⊢
  cases h with
  | first => exact .first _
  | retrying c jobId now hnew =>
    cases hcode
    exact .retrying c jobId now ((hkept c rfl).written.trans hnew)
  | claimed c jobId now row hrow hwritten =>
    cases hcode
    have hc := hkept c rfl
    refine .claimed c jobId now row ?_ (hc.written.trans hwritten)
    rw [Admin.claimable, hc.rows jobId (by simp [hwritten])]
    exact hrow
  | notClaimed c jobId now hnone hnew =>
    cases hcode
    exact .notClaimed c jobId now ((hkept c rfl).claimable jobId hnone) ((hkept c rfl).written.trans hnew)
  | unclaimed c jobId now hnone =>
    cases hcode
    exact .unclaimed c jobId now ((hkept c rfl).claimable jobId hnone)
  | deleting c jobId hnew =>
    cases hcode
    exact .deleting c jobId ((hkept c rfl).written.trans hnew)
  | found c jobId hnew =>
    cases hcode
    exact .found c jobId ((hkept c rfl).written.trans hnew)
  | removed c jobId hrow hwritten =>
    cases hcode
    have hc := hkept c rfl
    refine .removed c jobId ?_ (hc.written.trans hwritten)
    rw [hc.rows jobId (by simp [hwritten])]
    exact hrow
  | purging c before onlyRetried hbound hnew =>
    cases hcode
    exact .purging c before onlyRetried hbound ((hkept c rfl).written.trans hnew)
  | purgeRows c before onlyRetried hbound count gone rest hgone =>
    have hc : Kept c s s' := by
      cases rest with
      | nil =>
        cases hcode
        exact hkept c rfl
      | cons id rest =>
        cases hcode
        exact hkept c rfl
    refine .purgeRows c before onlyRetried hbound count gone rest
      ⟨hc.written.trans hgone.written, hgone.count, hgone.nodup, ?_⟩
    intro id hid
    rw [hc.rows id (by rw [hgone.written]; simpa using hid)]
    exact hgone.rows id hid

/-! A request alone. -/

theorem alone_retry {jobs : Jobs} {jobId : Uuid} {now : Time} {row : DeadLetterJob Json} (h : claimable jobs jobId = some row) :
    alone (.retryJob jobId now) jobs = (.ok (.retried (row.retried now)), Change.apply jobs (jobId, .retried now)) := by
  simp only [alone, program, retryJob, retrying, claimed, api, Prog.perform_bind, Prog.eval_call, exec, State.init, h]
  rfl

theorem alone_unclaimed {jobs : Jobs} {jobId : Uuid} {now : Time} (h : claimable jobs jobId = none) :
    alone (.retryJob jobId now) jobs = match jobs.get jobId with
      | none => (.error (notFound jobId), jobs)
      | some _ => (.error (.conflict "job already retried"), jobs) := by
  have hretry : (program (.retryJob jobId now)).eval exec (.init jobs) = (unclaimed 0 jobId).eval exec ⟨jobs, [[]]⟩ := by
    simp only [program, retryJob, retrying, claimed, api, Prog.perform_bind, Prog.eval_call, exec, State.init, h]
    rfl
  rw [alone, hretry]
  simp only [unclaimed, api, Prog.perform_bind, Prog.eval_call, exec]
  cases jobs.get jobId <;> rfl

theorem alone_delete {jobs : Jobs} {jobId : Uuid} (h : (jobs.get jobId).isSome = true) :
    alone (.deleteJob jobId) jobs = (.ok .deleted, Change.apply jobs (jobId, .deleted)) := by
  obtain ⟨row, hrow⟩ := Option.isSome_iff_exists.mp h
  simp only [alone, program, deleteJob, deleting, found, removed, api, Prog.perform_bind, Prog.eval_call, exec,
    State.init, hrow, Option.isSome_some, if_true]
  rfl

theorem alone_not_found {jobs : Jobs} {jobId : Uuid} (h : jobs.get jobId = none) :
    alone (.deleteJob jobId) jobs = (.error (notFound jobId), jobs) := by
  simp only [alone, program, deleteJob, deleting, api, Prog.perform_bind, Prog.eval_call, exec, State.init, h]
  rfl

/-- Alone, a purge finds every row it has scanned. -/
theorem eval_purgeRows {jobs : Jobs} {before : Option Time} {onlyRetried : Bool} (rest : List Uuid) (count : Nat)
    (changes : List (Uuid × Change))
    (h : ∀ id ∈ rest, ((jobs.get id).filter (purged before onlyRetried)).isSome = true) :
    (purgeRows 0 before onlyRetried count rest).eval exec ⟨jobs, [changes]⟩ =
      (.ok (.purged (count + rest.length)),
        ⟨(changes ++ rest.map (fun id => (id, Change.deleted))).foldl Change.apply jobs, [[]]⟩) := by
  induction rest generalizing count changes with
  | nil =>
    rw [List.map_nil, List.append_nil]
    rfl
  | cons id rest ih =>
    have hfound := h id List.mem_cons_self
    simp only [purgeRows, api, Prog.perform_bind, Prog.eval_call, exec, hfound, if_true]
    have hwrite : State.write ⟨jobs, [changes]⟩ 0 (id, Change.deleted) = ⟨jobs, [changes ++ [(id, Change.deleted)]]⟩ := rfl
    have hrest := ih (count + 1) (changes ++ [(id, Change.deleted)]) (fun id' hid' => h id' (List.mem_cons_of_mem _ hid'))
    rw [hwrite, hrest, List.append_assoc, Nat.add_assoc, Nat.add_comm 1]
    rfl

/-- To delete the rows that match one by one is to delete all of them. -/
theorem deleteWhere_ids {jobs : Jobs} {gone : List Uuid} {p : DeadLetterJob Json → Bool}
    (h : ∀ row ∈ jobs.rows, row.id ∈ gone ↔ p row = true) :
    jobs.deleteWhere (fun row => gone.contains row.id) = jobs.deleteWhere p := by
  simp only [Table.deleteWhere, Table.mk.injEq]
  apply List.filter_congr
  intro row hrow
  have hsame : gone.contains row.id = p row := by
    rw [Bool.eq_iff_iff, List.contains_iff_mem]
    exact h row hrow
  rw [hsame]

theorem nodup_matching (jobs : Jobs) (p : DeadLetterJob Json → Bool) :
    ((jobs.rows.filter p).map DeadLetterJob.id).Nodup :=
  jobs.nodup.sublist (List.filter_sublist.map _)

theorem mem_matching {jobs : Jobs} {p : DeadLetterJob Json → Bool} {row : DeadLetterJob Json} (hrow : row ∈ jobs.rows) :
    row.id ∈ (jobs.rows.filter p).map DeadLetterJob.id ↔ p row = true := by
  rw [List.mem_map]
  constructor
  · intro hsome
    obtain ⟨row', hrow', hid⟩ := hsome
    obtain ⟨hmem, hp⟩ := List.mem_filter.mp hrow'
    have hget := Table.get_of_mem hrow
    rw [← hid, Table.get_of_mem hmem] at hget
    rwa [← Option.some.inj hget]
  · exact fun hp => ⟨row, List.mem_filter.mpr ⟨hrow, hp⟩, rfl⟩

theorem alone_purge {jobs : Jobs} {before : Option Time} {onlyRetried : Bool}
    (hbound : (before.isNone && !onlyRetried) = false) : alone (.purge before onlyRetried) jobs =
      (.ok (.purged (jobs.rows.filter (purged before onlyRetried)).length), jobs.deleteWhere (purged before onlyRetried)) := by
  have hids : ∀ id ∈ (jobs.rows.filter (purged before onlyRetried)).map DeadLetterJob.id,
      ((jobs.get id).filter (purged before onlyRetried)).isSome = true := by
    intro id hid
    obtain ⟨row, hrow, rfl⟩ := List.mem_map.mp hid
    obtain ⟨hmem, hmatch⟩ := List.mem_filter.mp hrow
    rw [Table.get_of_mem hmem, Option.filter_some, if_pos hmatch]
    rfl
  have hpurge : (program (.purge before onlyRetried)).eval exec (.init jobs) =
      (purgeRows 0 before onlyRetried 0 ((jobs.rows.filter (purged before onlyRetried)).map DeadLetterJob.id)).eval exec
        ⟨jobs, [[]]⟩ := by
    simp only [program, purge, hbound, Bool.false_eq_true, if_false, purging, api, Prog.perform_bind, Prog.eval_call, exec]
    rfl
  rw [alone, hpurge, eval_purgeRows _ 0 [] hids]
  rw [List.nil_append, Nat.zero_add, List.length_map, foldl_deleted, deleteWhere_ids (fun _ => mem_matching)]

/-! One statement. -/

/-- What is left after a statement: more of the request, with nothing committed, or the
answer, and the request has done what it does alone. -/
inductive Next (s : State) (req : Request) (op : Op) (s' : State) : Api Response → Prop where
  | more {op' : Op} {k : op'.Res → Api Response} (hstage : Stage s' req (.call op' k)) (hjobs : s'.jobs = s.jobs)
    (hsession : op'.session = some (op.session.getD s.sessions.length)) : Next s req op s' (.call op' k)
  | answer {code : Api Response} {out : Except AdminError Response} (hout : code.outcome = some out)
    (halone : alone req s.jobs = (out, s'.jobs)) : Next s req op s' code

/-- A purge that commits has deleted what a purge alone deletes. -/
theorem Gone.commit {s : State} {before : Option Time} {onlyRetried : Bool} {c count : Nat} {gone : List Uuid}
    (h : Gone s before onlyRetried c count gone []) (hbound : (before.isNone && !onlyRetried) = false)
    (hall : ∀ row ∈ s.jobs.rows, purged before onlyRetried row = true → (row.id, Change.deleted) ∈ s.written c) :
    alone (.purge before onlyRetried) s.jobs = (.ok (.purged count), (s.written c).foldl Change.apply s.jobs) := by
  have hmem : ∀ row ∈ s.jobs.rows, row.id ∈ gone ↔ purged before onlyRetried row = true := by
    intro row hrow
    constructor
    · intro hid
      obtain ⟨row', hget, hmatch⟩ := h.rows row.id hid
      rw [Table.get_of_mem hrow] at hget
      rwa [Option.some.inj hget]
    · intro hmatch
      simpa [h.written] using hall row hrow hmatch
  have hperm : gone.Perm ((s.jobs.rows.filter (purged before onlyRetried)).map DeadLetterJob.id) := by
    have hnodup : gone.Nodup := by simpa using h.nodup
    refine (List.perm_ext_iff_of_nodup hnodup (nodup_matching _ _)).mpr ?_
    intro id
    constructor
    · intro hid
      obtain ⟨row, hget, hmatch⟩ := h.rows id hid
      exact List.mem_map.mpr ⟨row, List.mem_filter.mpr ⟨Table.mem_of_get hget, hmatch⟩, Table.get_key hget⟩
    · intro hid
      obtain ⟨row, hrow, rfl⟩ := List.mem_map.mp hid
      obtain ⟨hrow, hmatch⟩ := List.mem_filter.mp hrow
      exact (hmem row hrow).mpr hmatch
  have hcount : (s.jobs.rows.filter (purged before onlyRetried)).length = count := by
    rw [← h.count, hperm.length_eq, List.length_map]
  rw [alone_purge hbound, hcount, h.written, foldl_deleted, deleteWhere_ids hmem]

/-- The DELETE of a purge deletes its next row. -/
theorem Gone.delete {s : State} {before : Option Time} {onlyRetried : Bool} {c count : Nat} {gone rest : List Uuid}
    {jobId : Uuid} (h : Gone s before onlyRetried c count gone (jobId :: rest)) (hopen : c < s.sessions.length)
    (hmatch : ((s.jobs.get jobId).filter (purged before onlyRetried)).isSome = true) :
    Gone (s.write c (jobId, .deleted)) before onlyRetried c (count + 1) (gone ++ [jobId]) rest := by
  refine ⟨?_, ?_, ?_, ?_⟩
  · rw [State.written_write hopen, Function.update_self, h.written, List.map_append]
    rfl
  · simp [h.count]
  · simpa using h.nodup
  · intro id hid
    rw [List.mem_append, List.mem_singleton] at hid
    cases hid with
    | inl hold => exact h.rows id hold
    | inr hnew =>
      obtain ⟨row, hrow⟩ := Option.isSome_iff_exists.mp hmatch
      obtain ⟨hget, hp⟩ := Option.filter_eq_some_iff.mp hrow
      exact ⟨row, hnew ▸ hget, hp⟩

/-- Or passes over it. -/
theorem Gone.skip {s : State} {before : Option Time} {onlyRetried : Bool} {c count : Nat} {gone rest : List Uuid}
    {jobId : Uuid} (h : Gone s before onlyRetried c count gone (jobId :: rest)) :
    Gone s before onlyRetried c count gone rest :=
  ⟨h.written, h.count, h.nodup.sublist ((List.sublist_cons_self jobId rest).append_left gone), h.rows⟩

/-- The DELETE of a purge, at its rows or at its commit. -/
theorem Next.purgeRows {s s' : State} {op : Op} {before : Option Time} {onlyRetried : Bool} {c count : Nat}
    {gone rest : List Uuid} (hbound : (before.isNone && !onlyRetried) = false)
    (hgone : Gone s' before onlyRetried c count gone rest) (hjobs : s'.jobs = s.jobs)
    (hsession : c = op.session.getD s.sessions.length) :
    Next s (.purge before onlyRetried) op s' (Admin.purgeRows c before onlyRetried count rest) := by
  have hstage := Stage.purgeRows c before onlyRetried hbound count gone rest hgone
  cases rest with
  | nil => exact .more hstage hjobs (congrArg some hsession)
  | cons jobId rest => exact .more hstage hjobs (congrArg some hsession)

theorem Stage.run {s : State} {req : Request} {op : Op} {k : op.Res → Api Response} (h : Stage s req (.call op k))
    (hopen : ∀ c, op.session = some c → c < s.sessions.length)
    (hfound : ∀ c jobId, op = .delete c jobId → (s.jobs.get jobId).isSome = true)
    (hall : ∀ c before onlyRetried, op = .commit c → req = .purge before onlyRetried → ∀ row ∈ s.jobs.rows,
      purged before onlyRetried row = true → (row.id, Change.deleted) ∈ s.written c) :
    Next s req op (exec op s).2 (k (exec op s).1) := by
  generalize hcode : (Prog.call op k : Api Response) = code at h
  cases h with
  | first req =>
    have hnew : State.written { s with sessions := s.sessions ++ [[]] } s.sessions.length = [] := by
      rw [State.written_connect, State.written_new]
    cases req with
    | retryJob jobId now =>
      cases hcode
      exact .more (.retrying _ jobId now hnew) rfl rfl
    | deleteJob jobId =>
      cases hcode
      exact .more (.deleting _ jobId hnew) rfl rfl
    | purge before onlyRetried =>
      simp only [program, Admin.purge] at hcode
      split at hcode
      · cases hcode
      · next hbound =>
        cases hcode
        exact .more (.purging _ before onlyRetried (Bool.eq_false_iff.mpr hbound) hnew) rfl rfl
  | retrying c jobId now hnew =>
    cases hcode
    simp only [exec]
    cases hclaim : claimable s.jobs jobId with
    | none => exact .more (.notClaimed c jobId now hclaim hnew) rfl rfl
    | some row =>
      refine .more (.claimed c jobId now row hclaim ?_) rfl rfl
      rw [State.written_write (hopen c rfl), Function.update_self, hnew, List.nil_append]
  | claimed c jobId now row hrow hwritten =>
    cases hcode
    refine .answer rfl ?_
    rw [alone_retry hrow]
    simp only [exec, hwritten, List.foldl_cons, List.foldl_nil]
  | notClaimed c jobId now hnone hnew =>
    cases hcode
    have hjobs : (exec (.commit c) s).2.jobs = s.jobs := by
      simp only [exec, hnew, List.foldl_nil]
    refine .more (.unclaimed c jobId now ?_) hjobs rfl
    rwa [hjobs]
  | unclaimed c jobId now hnone =>
    have halone := @alone_unclaimed s.jobs jobId now hnone
    cases hcode
    simp only [exec]
    cases hrow : s.jobs.get jobId with
    | none =>
      rw [hrow] at halone
      exact .answer rfl halone
    | some row =>
      rw [hrow] at halone
      exact .answer rfl halone
  | deleting c jobId hnew =>
    cases hcode
    simp only [exec]
    cases hrow : s.jobs.get jobId with
    | none => exact .answer rfl (alone_not_found hrow)
    | some row => exact .more (.found c jobId hnew) rfl rfl
  | found c jobId hnew =>
    cases hcode
    have hrow := hfound c jobId rfl
    simp only [exec, if_pos hrow]
    refine .more (.removed c jobId hrow ?_) rfl rfl
    rw [State.written_write (hopen c rfl), Function.update_self, hnew, List.nil_append]
  | removed c jobId hrow hwritten =>
    cases hcode
    refine .answer rfl ?_
    rw [alone_delete hrow]
    simp only [exec, hwritten, List.foldl_cons, List.foldl_nil]
  | purging c before onlyRetried hbound hnew =>
    cases hcode
    have hgone : Gone s before onlyRetried c 0 [] ((s.jobs.rows.filter (purged before onlyRetried)).map DeadLetterJob.id) :=
      ⟨hnew, rfl, nodup_matching _ _, by simp⟩
    exact Next.purgeRows hbound hgone rfl rfl
  | purgeRows c before onlyRetried hbound count gone rest hgone =>
    cases rest with
    | nil =>
      cases hcode
      exact .answer rfl (hgone.commit hbound (hall c before onlyRetried rfl rfl))
    | cons jobId rest =>
      cases hcode
      simp only [exec]
      by_cases hmatch : ((s.jobs.get jobId).filter (purged before onlyRetried)).isSome = true
      · rw [if_pos hmatch]
        exact Next.purgeRows hbound (hgone.delete (hopen c rfl) hmatch) rfl rfl
      · rw [if_neg hmatch]
        exact Next.purgeRows hbound hgone.skip rfl rfl

/-! All requests. -/

/-- Every request that goes on is at a stage in a session of its own, and no row is
written in two sessions. -/
structure Staged (s : Admins) : Prop where
  stage : ∀ (i : Nat) req op k, s.threads[i]? = some ⟨req, .call op k, true⟩ → Stage s.state req (.call op k)
  opened : ∀ i op c, s.Waits i op → op.session = some c → c < s.state.sessions.length
  apart : ∀ i j op op' c, s.Waits i op → s.Waits j op' → op.session = some c → op'.session = some c → i = j
  owned : Apart (List.map Prod.fst) s.state.written

/-- A statement leaves alone what another session counts on. -/
theorem exec_kept {s : State} {op : Op} {c : Nat} (hopen : ∀ c', op.session = some c' → c' < s.sessions.length)
    (hne : op.session ≠ some c) (howned : Apart (List.map Prod.fst) s.written) : Kept c s (exec op s).2 := by
  have hsame : Kept c s s := ⟨rfl, fun _ _ => rfl, fun _ h => h⟩
  have hwrite : ∀ c' change, op.session = some c' → Kept c s (s.write c' change) := by
    intro c' change hc'
    refine ⟨?_, fun _ _ => rfl, fun _ h => h⟩
    rw [State.written_write (hopen c' hc'), Function.update_of_ne]
    rintro rfl
    exact hne hc'
  cases op with
  | connect =>
    refine ⟨?_, fun _ _ => rfl, fun _ h => h⟩
    simp only [exec, State.written_connect]
  | claim c' jobId now =>
    simp only [exec]
    split
    · exact hsame
    · exact hwrite c' _ rfl
  | get c' jobId => exact hsame
  | delete c' jobId =>
    simp only [exec]
    split
    · exact hwrite c' _ rfl
    · exact hsame
  | scan c' before onlyRetried => exact hsame
  | purgeRow c' before onlyRetried jobId =>
    simp only [exec]
    split
    · exact hwrite c' _ rfl
    · exact hsame
  | commit c' =>
    have hcc : c ≠ c' := fun h => hne (congrArg some h.symm)
    refine ⟨?_, ?_, fun _ h => foldl_apply_claimable h⟩
    · show (s.clear c').written c = s.written c
      rw [State.written_clear, Function.update_of_ne hcc]
    · exact fun id hid => foldl_apply_get (howned c c' hcc id hid)

/-- A statement that does not wait takes no row of another session. -/
theorem exec_owned {s : State} {op : Op} (hopen : ∀ c, op.session = some c → c < s.sessions.length)
    (hfree : blocked s op = false) (howned : Apart (List.map Prod.fst) s.written) :
    Apart (List.map Prod.fst) (exec op s).2.written := by
  have hwrite : ∀ c jobId change, op.session = some c → s.locked c jobId = false →
      Apart (List.map Prod.fst) (s.write c (jobId, change)).written := by
    intro c jobId change hc hlock
    rw [State.written_write (hopen c hc)]
    refine howned.update ?_
    intro c' hne id hid
    rw [List.map_append, List.mem_append] at hid
    cases hid with
    | inl hold => exact howned c c' (Ne.symm hne) id hold
    | inr hnew =>
      rw [List.map_singleton, List.mem_singleton] at hnew
      rw [hnew]
      exact State.not_written hlock hne
  cases op with
  | connect => simpa only [exec, State.written_connect] using howned
  | claim c jobId now =>
    simp only [exec]
    split
    · exact howned
    · next row hrow =>
      refine hwrite c jobId _ rfl ?_
      simpa [blocked, hrow] using hfree
  | get c jobId => exact howned
  | delete c jobId =>
    simp only [exec]
    split
    · next hrow =>
      refine hwrite c jobId _ rfl ?_
      simpa only [blocked, hrow, Bool.true_and] using hfree
    · exact howned
  | scan c before onlyRetried => exact howned
  | purgeRow c before onlyRetried jobId =>
    simp only [exec]
    split
    · next hmatch =>
      obtain ⟨row, hrow⟩ := Option.isSome_iff_exists.mp hmatch
      refine hwrite c jobId _ rfl ?_
      simpa [blocked, (Option.filter_eq_some_iff.mp hrow).1] using hfree
    · exact howned
  | commit c =>
    show Apart (List.map Prod.fst) (s.clear c).written
    rw [State.written_clear]
    exact howned.shrink (by simp)

/-- The sessions stay open. -/
theorem exec_sessions (op : Op) (s : State) : s.sessions.length ≤ (exec op s).2.sessions.length := by
  have hwrite : ∀ c change, (s.write c change).sessions.length = s.sessions.length :=
    fun _ _ => List.length_set
  cases op <;> simp only [exec]
  case connect => simp
  case commit c => exact Nat.le_of_eq List.length_set.symm
  case claim c jobId now => split <;> simp [hwrite]
  case delete c jobId => split <;> simp [hwrite]
  case purgeRow c before onlyRetried jobId => split <;> simp [hwrite]
  all_goals exact Nat.le_refl _

/-- And the session of the next statement is open. -/
theorem exec_opened {op : Op} {s : State} (hopen : ∀ c, op.session = some c → c < s.sessions.length) :
    op.session.getD s.sessions.length < (exec op s).2.sessions.length := by
  cases hc : op.session with
  | some c => exact Nat.lt_of_lt_of_le (hopen c hc) (exec_sessions op s)
  | none =>
    cases op with
    | connect => simp [exec]
    | _ => cases hc

/-- A program starts without a session. -/
theorem program_next {req : Request} {op : Op} (h : (program req).next = some op) : op.session = none := by
  cases req with
  | retryJob jobId now =>
    cases h
    rfl
  | deleteJob jobId =>
    cases h
    rfl
  | purge before onlyRetried =>
    simp only [program, purge] at h
    split at h
    · cases h
    · cases h
      rfl

/-- A request that has its answer waits for nothing. -/
theorem Staged.leave {s s' : Admins} (hs : Staged s) (hstate : s'.state = s.state)
    (hthreads : ∀ (i : Nat) req op k, s'.threads[i]? = some ⟨req, .call op k, true⟩ →
      s.threads[i]? = some ⟨req, .call op k, true⟩) : Staged s' := by
  have hwaits : ∀ i op, s'.Waits i op → s.Waits i op := by
    rintro i op ⟨⟨req, code, live⟩, hth, hlive, hop⟩
    cases code with
    | ret a => cases hop
    | raise e => cases hop
    | call op' k =>
      cases hlive
      exact ⟨_, hthreads i req op' k hth, rfl, hop⟩
  refine ⟨?_, ?_, ?_, ?_⟩
  · intro i req op k hi
    rw [hstate]
    exact hs.stage i req op k (hthreads i req op k hi)
  · intro i op c hw hc
    rw [hstate]
    exact hs.opened i op c (hwaits i op hw) hc
  · exact fun i j op op' c hw hw' => hs.apart i j op op' c (hwaits i op hw) (hwaits j op' hw')
  · rw [hstate]
    exact hs.owned

theorem Staged.spawn {s s' : Admins} {req : Request} (hs : Staged s) (ha : admin.step s (.spawn req) = some s') :
    Staged s' := by
  obtain ⟨-, rfl⟩ := System.step_spawn ha
  have hstate : admin.settle req (admin.program req) s.state = s.state := settle_of_respond (fun _ _ _ => rfl) _ _ _
  rw [hstate]
  -- a thread is an old one, or the new one
  have hcases : ∀ {i : Nat} {th : Thread Op Op.Res AdminError Response Request},
      (s.threads ++ [⟨req, admin.program req, true⟩])[i]? = some th →
        s.threads[i]? = some th ∨ th = ⟨req, admin.program req, true⟩ := by
    intro i th hth
    rcases Nat.lt_or_ge i s.threads.length with hi | hi
    · rw [List.getElem?_append_left hi] at hth
      exact .inl hth
    · rw [List.getElem?_append_right hi, List.getElem?_singleton] at hth
      split at hth
      · exact .inr (Option.some.inj hth).symm
      · cases hth
  have hwaits : ∀ {i : Nat} {op : Op} {c : Nat},
      Pool.Waits ⟨s.state, s.threads ++ [⟨req, admin.program req, true⟩]⟩ i op → op.session = some c → s.Waits i op := by
    intro i op c hw hc
    obtain ⟨th, hth, hlive, hop⟩ := hw
    obtain hold | rfl := hcases hth
    · exact ⟨th, hold, hlive, hop⟩
    · rw [program_next hop] at hc
      cases hc
  refine ⟨?_, ?_, ?_, hs.owned⟩
  · intro i req' op k hth
    obtain hold | hnew := hcases hth
    · exact hs.stage i req' op k hold
    · obtain ⟨rfl, hcode, -⟩ := Thread.mk.inj hnew
      rw [hcode]
      exact .first req'
  · exact fun i op c hw hc => hs.opened i op c (hwaits hw hc) hc
  · exact fun i j op op' c hw hw' hc hc' => hs.apart i j op op' c (hwaits hw hc) (hwaits hw' hc') hc hc'

/-- What a request that goes on counts on after a statement. -/
theorem Next.goes_on {s s' : State} {req : Request} {op op' : Op} {code : Api Response} {k : op'.Res → Api Response}
    (h : Next s req op s' code) (hcode : code = .call op' k) :
    Stage s' req code ∧ s'.jobs = s.jobs ∧ op'.session = some (op.session.getD s.sessions.length) := by
  cases h with
  | more hstage hjobs hsession =>
    cases hcode
    exact ⟨hstage, hjobs, hsession⟩
  | answer hout halone =>
    rw [hcode] at hout
    cases hout

theorem Staged.run {s s' : Admins} {i : Nat} {req : Request} {op : Op} {k : op.Res → Api Response} (hs : Staged s)
    (hi : s.threads[i]? = some ⟨req, .call op k, true⟩) (hfree : blocked s.state op = false)
    (hnext : Next s.state req op (exec op s.state).2 (k (exec op s.state).1))
    (hs' : s' = ⟨(exec op s.state).2, s.threads.set i ⟨req, k (exec op s.state).1, true⟩⟩) : Staged s' := by
  subst hs'
  have hw : s.Waits i op := ⟨_, hi, rfl, rfl⟩
  have hopen : ∀ c, op.session = some c → c < s.state.sessions.length := fun c hc => hs.opened i op c hw hc
  have hself : ∀ {th}, (s.threads.set i ⟨req, k (exec op s.state).1, true⟩)[i]? = some th →
      th = ⟨req, k (exec op s.state).1, true⟩ := by
    intro th hth
    rw [List.getElem?_set_self (List.getElem?_eq_some_iff.mp hi).1] at hth
    exact (Option.some.inj hth).symm
  -- the session of the next statement of this request
  have hnew : ∀ {op' c}, Pool.Waits ⟨(exec op s.state).2, s.threads.set i ⟨req, k (exec op s.state).1, true⟩⟩ i op' →
      op'.session = some c → c = op.session.getD s.state.sessions.length := by
    intro op' c hw' hc
    obtain ⟨th, hth, -, hop⟩ := hw'
    rw [hself hth] at hop
    cases hcode : k (exec op s.state).1 with
    | ret a => simp [hcode, Prog.next] at hop
    | raise e => simp [hcode, Prog.next] at hop
    | call op₁ k₁ =>
      obtain rfl : op₁ = op' := by simpa [hcode, Prog.next] using hop
      rw [(hnext.goes_on hcode).2.2] at hc
      exact (Option.some.inj hc).symm
  have hold : ∀ {j op'}, i ≠ j →
      Pool.Waits ⟨(exec op s.state).2, s.threads.set i ⟨req, k (exec op s.state).1, true⟩⟩ j op' → s.Waits j op' := by
    intro j op' hij hw'
    obtain ⟨th, hth, hrest⟩ := hw'
    exact ⟨th, by rwa [List.getElem?_set_ne hij] at hth, hrest⟩
  -- and no other request is in it
  have hother : ∀ {j op'}, i ≠ j → s.Waits j op' → op'.session ≠ some (op.session.getD s.state.sessions.length) := by
    intro j op' hij hw' hc
    cases hsession : op.session with
    | some c =>
      rw [hsession, Option.getD_some] at hc
      exact hij (hs.apart i j op op' c hw hw' hsession hc)
    | none =>
      rw [hsession, Option.getD_none] at hc
      exact Nat.lt_irrefl _ (hs.opened j op' _ hw' hc)
  refine ⟨?_, ?_, ?_, exec_owned hopen hfree hs.owned⟩
  · intro j req' op' k' hth
    by_cases hij : i = j
    · subst hij
      obtain ⟨rfl, hcode, -⟩ := Thread.mk.inj (hself hth)
      rw [hcode]
      exact (hnext.goes_on hcode.symm).1
    · rw [List.getElem?_set_ne hij] at hth
      refine (hs.stage j req' op' k' hth).keep ?_
      intro c hc
      refine exec_kept hopen ?_ hs.owned
      intro hsame
      exact hij (hs.apart i j op op' c hw ⟨_, hth, rfl, rfl⟩ hsame hc)
  · intro j op' c hw' hc
    by_cases hij : i = j
    · subst hij
      rw [hnew hw' hc]
      exact exec_opened hopen
    · exact Nat.lt_of_lt_of_le (hs.opened j op' c (hold hij hw') hc) (exec_sessions op s.state)
  · intro j j' op₁ op₂ c hw₁ hw₂ hc₁ hc₂
    by_cases hij : i = j
    · by_cases hij' : i = j'
      · rw [← hij, ← hij']
      · subst hij
        rw [hnew hw₁ hc₁] at hc₂
        exact absurd hc₂ (hother hij' (hold hij' hw₂))
    · by_cases hij' : i = j'
      · subst hij'
        rw [hnew hw₂ hc₂] at hc₁
        exact absurd hc₁ (hother hij (hold hij hw₁))
      · exact hs.apart j j' op₁ op₂ c (hold hij hw₁) (hold hij' hw₂) hc₁ hc₂

/-- The session that is rolled back is nobody's. -/
theorem Staged.rollback {s : Admins} {c : Nat} (hs : Staged s)
    (hfair : s.waiting.all (fun op => op.session ≠ some c) = true) : Staged { s with state := s.state.clear c } := by
  have hlen : (s.state.clear c).sessions.length = s.state.sessions.length := List.length_set
  refine ⟨?_, ?_, hs.apart, ?_⟩
  · intro i req op k hi
    have hnot : op.session ≠ some c :=
      of_decide_eq_true (List.all_eq_true.mp hfair op (Pool.mem_waiting ⟨_, hi, rfl, rfl⟩))
    refine (hs.stage i req op k hi).keep ?_
    intro c' hc'
    refine ⟨?_, fun _ _ => rfl, fun _ h => h⟩
    rw [State.written_clear, Function.update_of_ne]
    rintro rfl
    exact hnot hc'
  · intro i op c' hw hc'
    show c' < (s.state.clear c).sessions.length
    rw [hlen]
    exact hs.opened i op c' hw hc'
  · show Apart (List.map Prod.fst) (s.state.clear c).written
    rw [State.written_clear]
    exact hs.owned.shrink (by simp)

/-- What `fair` and `orderly` say of a statement. -/
theorem Staged.next {s : Admins} {i : Nat} {req : Request} {op : Op} {k : op.Res → Api Response} (hs : Staged s)
    (hi : s.threads[i]? = some ⟨req, .call op k, true⟩) (horderly : orderly s (.run i) = true) :
    Next s.state req op (exec op s.state).2 (k (exec op s.state).1) := by
  have hw : s.Waits i op := ⟨_, hi, rfl, rfl⟩
  have hpending : s.pending i = some op := Pool.pending_of_waits hw
  simp only [orderly, hpending, hi, Option.map_some] at horderly
  refine (hs.stage i req op k hi).run (fun c hc => hs.opened i op c hw hc) ?_ ?_
  · intro c jobId hop
    subst hop
    exact horderly
  · intro c before onlyRetried hop hreq row hrow hmatch
    subst hop hreq
    have hin := List.all_eq_true.mp horderly row (List.mem_filter.mpr ⟨hrow, hmatch⟩)
    exact List.contains_iff_mem.mp hin

/-- The commits of the operators, and the reads that find nothing, are their requests
alone, where `orderly` says that none is overtaken. -/
theorem admin_takesEffectLast : TakesEffectLast admin (fun s a => fair s a = true ∧ orderly s a = true) Staged alone
    State.jobs where
  keep s a s' hs hC ha := by
    cases a with
    | spawn req => exact hs.spawn ha
    | run i =>
      obtain ⟨req, op, k, hi, rfl⟩ := System.step_run ha
      have hpending : s.pending i = some op := Pool.pending_of_waits ⟨_, hi, rfl, rfl⟩
      have hfree : blocked s.state op = false := by
        have hfair := hC.1
        simpa only [fair, hpending, Option.all_some, Bool.not_eq_true'] using hfair
      refine hs.run hi hfree (hs.next hi hC.2) ?_
      rw [settle_of_respond (fun _ _ _ => rfl)]
      rfl
    | cancel i =>
      obtain ⟨th', hi, rfl⟩ := System.step_cancel ha
      refine hs.leave rfl ?_
      intro j req op k hth
      by_cases hij : i = j
      · subst hij
        rw [List.getElem?_set_self (List.getElem?_eq_some_iff.mp hi).1] at hth
        obtain ⟨-, -, hlive⟩ := Thread.mk.inj (Option.some.inj hth)
        cases hlive
      · rwa [List.getElem?_set_ne hij] at hth
    | env c =>
      obtain ⟨w, hw, rfl⟩ := System.step_env ha
      obtain rfl : s.state.clear c = w := Option.some.inj hw
      exact hs.rollback hC.1
  atOnce req out s _ hout := by
    have hout : (program req).outcome = some out := hout
    simp only [alone, eval_of_outcome hout]
    rfl
  middle s i req op k hs hC hi hout := by
    have hnext := hs.next hi hC.2
    cases hcode : k (exec op s.state).1 with
    | ret a =>
      rw [show (admin.exec op s.state).1 = (exec op s.state).1 from rfl, hcode] at hout
      cases hout
    | raise e =>
      rw [show (admin.exec op s.state).1 = (exec op s.state).1 from rfl, hcode] at hout
      cases hout
    | call op' k' => exact (hnext.goes_on hcode).2.1
  last s i req op k out hs hC hi hout := by
    have hnext := hs.next hi hC.2
    generalize hcode : k (exec op s.state).1 = code at hnext
    have hanswer : code.outcome = some out := hcode ▸ hout
    cases hnext with
    | more hstage hjobs hsession => cases hanswer
    | answer hout' halone =>
      rw [hout'] at hanswer
      cases hanswer
      exact halone
  respond _ _ _ := rfl
  env c s w hw := by
    obtain rfl : s.clear c = w := Option.some.inj hw
    rfl

/-! One delete of a row. -/

/-- Nothing that is committed brings a row back. -/
theorem foldl_apply_absent {jobs : Jobs} {jobId : Uuid} {changes : List (Uuid × Change)} (h : jobs.get jobId = none) :
    (changes.foldl Change.apply jobs).get jobId = none := by
  induction changes generalizing jobs with
  | nil => exact h
  | cons change changes ih =>
    refine ih ?_
    obtain ⟨id, change⟩ := change
    cases change <;> simp [Change.apply, Table.get_updateWhere, Table.get_deleteWhere, h]

theorem exec_absent (op : Op) {s : State} {jobId : Uuid} (h : s.jobs.get jobId = none) :
    (exec op s).2.jobs.get jobId = none := by
  cases op <;> simp only [exec]
  case commit c => exact foldl_apply_absent h
  case claim c id now => split <;> exact h
  case delete c id => split <;> exact h
  case purgeRow c before onlyRetried id => split <;> exact h
  all_goals exact h

/-- No request brings a row back. -/
theorem alone_absent (req : Request) {jobs : Jobs} {jobId : Uuid} (h : jobs.get jobId = none) :
    (alone req jobs).2.get jobId = none :=
  Prog.eval_invariant (J := fun s : State => s.jobs.get jobId = none) (fun op _ hs => exec_absent op hs) (program req)
    (.init jobs) h

/-- The answer reports that the row was deleted. -/
def reportsDelete (jobId : Uuid) (answer : Answer Request AdminError Response) : Bool :=
  match answer.req, answer.out with
  | .deleteJob id, .ok _ => id = jobId
  | _, _ => false

/-- Alone, a delete that reports success has found the row, and leaves none. -/
theorem deleteJob_alone {jobs : Jobs} {jobId : Uuid} {response : Response}
    (h : (alone (.deleteJob jobId) jobs).1 = .ok response) :
    (jobs.get jobId).isSome = true ∧ (alone (.deleteJob jobId) jobs).2.get jobId = none := by
  cases hrow : jobs.get jobId with
  | none =>
    rw [alone_not_found hrow] at h
    cases h
  | some row =>
    refine ⟨rfl, ?_⟩
    have hkey : row.id = jobId := Table.get_key hrow
    rw [alone_delete (by rw [hrow]; rfl)]
    simp [Change.apply, Table.get_deleteWhere, hrow, hkey]

/-- One request at a time, one delete of a row succeeds. -/
theorem serial_deletes_once {jobs jobs' : Jobs} {order : List (Answer Request AdminError Response)} (jobId : Uuid)
    (h : Serial alone jobs order jobs') : order.countP (reportsDelete jobId) ≤ 1 ∧
      (0 < order.countP (reportsDelete jobId) → jobs'.get jobId = none) := by
  induction h with
  | nil => simp
  | @snoc jobs₁ order answer h hout ih =>
    obtain ⟨hone, habsent⟩ := ih
    rw [List.countP_append, List.countP_singleton]
    cases hreports : reportsDelete jobId answer with
    | false =>
      simp only [Bool.false_eq_true, if_false, Nat.add_zero]
      exact ⟨hone, fun hpos => alone_absent _ (habsent hpos)⟩
    | true =>
      obtain ⟨thread, req, out⟩ := answer
      cases req with
      | retryJob id now => cases hreports
      | purge before onlyRetried => cases hreports
      | deleteJob id =>
        cases out with
        | error e => cases hreports
        | ok response =>
          obtain rfl : id = jobId := of_decide_eq_true hreports
          obtain ⟨hfound, hgone⟩ := deleteJob_alone hout
          have hzero : order.countP (reportsDelete id) = 0 := by
            by_contra hpos
            rw [habsent (Nat.pos_of_ne_zero hpos)] at hfound
            cases hfound
          rw [hzero]
          exact ⟨by simp, fun _ => hgone⟩

/-- Where no delete and no purge is overtaken, the requests of the operators are
linearizable, and one delete of a row at most reports success. -/
theorem admin_linearizable (jobs : Jobs) (h : History Request AdminError Response) (s : Admins)
    (hrun : admin.Traces (fun v a => fair v a = true ∧ orderly v a = true) (System.start (.init jobs)) h s) :
    Linearizable alone jobs s.state.jobs h ∧ ∀ jobId, (answers h).countP (reportsDelete jobId) ≤ 1 := by
  have hstart : Staged (System.start (.init jobs)) := by
    refine ⟨?_, ?_, ?_, Apart.init rfl⟩
    · exact fun i req op k hi => by cases hi
    · rintro i op c ⟨th, hth, -⟩
      cases hth
    · rintro i j op op' c ⟨th, hth, -⟩
      cases hth
  have hlin := linearizable_of_last admin_takesEffectLast hrun hstart
  refine ⟨hlin, fun jobId => ?_⟩
  obtain ⟨order, horder⟩ := hlin
  rw [← horder.perm.countP_eq]
  exact (serial_deletes_once jobId horder.legal).1

/-! A table of two jobs, of which one was retried. -/

def sampleJob (id : Uuid) (retriedAt : Option Time) : DeadLetterJob Json :=
  { id := id, jobKey := "key", function := "send_email_task", queueName := "default", kwargs := .empty, status := "failed",
    error := none, attempts := 3, failedAt := 0, retriedAt := retriedAt }

def sampleJobs : Jobs := ⟨[sampleJob 0 none, sampleJob 1 (some 3)], by decide⟩

/-- A delete, two retries and a purge at once: one retry waits for the other's row. -/
theorem admin_linearizable_overlap : ∃ h s,
    admin.Traces (fun v a => fair v a = true ∧ orderly v a = true) (System.start (.init sampleJobs)) h s ∧
      (answers h).length = 4 ∧ Linearizable alone sampleJobs s.state.jobs h := by
  have hrun : (admin.traceIf (fun v a => fair v a && orderly v a) (System.start (.init sampleJobs))
      [.spawn (.retryJob 0 5), .run 0, .run 0, .spawn (.retryJob 0 6), .run 1, .spawn (.deleteJob 1), .run 2, .run 2,
        .run 0, .run 1, .run 1, .run 2, .run 2, .spawn (.purge none true), .run 1, .run 3, .run 3, .run 3, .run 3]).any
          (fun trace => (answers trace.1).length = 4) = true := by
    decide +kernel
  obtain ⟨⟨h, s⟩, htrace, hlen⟩ := (Option.any_eq_true _ _).mp hrun
  have htraces : admin.Traces (fun v a => fair v a = true ∧ orderly v a = true) (System.start (.init sampleJobs)) h s :=
    (System.traces_of_traceIf htrace).mono (fun v a hva => Bool.and_eq_true_iff.mp hva)
  exact ⟨h, s, htraces, of_decide_eq_true hlen, (admin_linearizable sampleJobs h s htraces).1⟩

/-- Two deletes that both read the row both report success. -/
theorem deletes_overlap : ¬ ∀ (jobs : Jobs) (h : History Request AdminError Response) (s : Admins),
    admin.Traces (fun v a => fair v a = true) (System.start (.init jobs)) h s →
      Linearizable alone jobs s.state.jobs h := by
  intro hall
  have hrun : (admin.traceIf fair (System.start (.init sampleJobs)) [.spawn (.deleteJob 0), .spawn (.deleteJob 0), .run 0,
      .run 1, .run 0, .run 1, .run 0, .run 0, .run 1, .run 1]).any (fun trace =>
        (answers trace.1).countP (reportsDelete 0) = 2) = true := by
    decide +kernel
  obtain ⟨⟨h, s⟩, htrace, htwo⟩ := (Option.any_eq_true _ _).mp hrun
  obtain ⟨order, horder⟩ := hall sampleJobs h s (System.traces_of_traceIf htrace)
  have hone := (serial_deletes_once 0 horder.legal).1
  rw [horder.perm.countP_eq, of_decide_eq_true htwo] at hone
  omega

end FastiKit.DeadLetter.Admin
