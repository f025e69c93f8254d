import FastiKit.Auth.IssuedTokens
import FastiKit.Auth.Pipelines

/- The blocklist in Redis and the table behind it.

   A logout SETs its jtis before it commits its rows; a seeding lists the rows before
   it SETs their jtis and READY. Neither waits for the other, and Redis can lose its
   keys in between: a seeding that lists after a logout's keys were lost and before
   its rows are there sets READY without them (`seeded_past_logout`), and so does one
   whose own keys are lost before READY. While no jti is lost at such a moment
   (`keysKept`), READY is never there without the jti of a token that was revoked, and
   every check of such a token refuses it until it expires (`blocklist_sound`). -/
namespace FastiKit

open Interleave Relational

/-- The blocklist has the token's jti, or needs it no more. -/
def World.blocks (w : World) (token : TokenRef) : Bool :=
  decide (token.expiresAt ≤ w.now) || w.redis.jtis.contains token

/-- The tokens that a logout or a closure has revoked with this answer. -/
def Op.revoked : (op : Op) → op.Res → List TokenRef
  | .logout _ tokens _, .ok () => tokens
  | .closeAccount _ tokens _, .ok (some _) => tokens
  | _, _ => []

/-- No jti is lost that READY would be set without: `revoke` is not asked for a token in
the last millisecond of its lifetime; a seeding lists the table while what the logouts
underway have sent is still in Redis, or in the table; and Redis loses its keys only
while every seeding underway has still to send those that are needed. -/
def keysKept (s : Service) : Action Request Event → Bool
  | .run i =>
    match s.pending i with
    | some (.revokeClock _ tokens) => tokens.all (fun token =>
        decide (token.expiresAt ≤ s.state.now) || decide (0 < TokenBlocklist.ttlMs token s.state.now))
    | some (.listActive now) => s.waiting.all (fun op => op.acknowledged.all (fun token =>
        s.state.blocks token || (RevokedTokenRepository.listActive s.state.db now).contains token))
    | _ => true
  | .env .loseKeys => s.waiting.all (fun op => op.owed.all (fun rest =>
      s.state.redis.jtis.all (fun token => decide (token.expiresAt ≤ s.state.now) || rest.contains token)))
  | _ => true

/-- The step from `s` to `s'` ends a logout or a closure that covers the token. -/
def Revokes (cfg : Config) (c : Service → Action Request Event → Bool) (token : TokenPayload)
    (s s' : Service) : Prop :=
  ∃ i op, s.Waits i op ∧ token.ref ∈ op.revoked (execOp cfg op s.state).1 ∧ c s (.run i) = true ∧
    (service cfg).step s (.run i) = some s'

/-- The token a request presents to `is_token_revoked`. -/
def Request.bearer : Request → Option TokenPayload
  | .refresh cookie => some cookie
  | .logout header _ => some header
  | .deleteUser header _ => some header
  | .updateUser header _ => some header
  | .getUser header => some header
  | .listUsers header _ => some header
  | .isTokenRevoked token => some token
  | _ => none

/-- The answer to a request whose token is revoked. -/
def Request.refusal : Request → Except Err Response
  | .isTokenRevoked _ => .ok (.revoked true)
  | _ => .error (.authx "RevokedTokenError")

/-! One operation. -/

section Operations
variable (cfg : Config)

theorem World.send_jtis (w : World) (command : Redis → Redis) (h : ∀ r, ∀ t ∈ r.jtis, t ∈ (command r).jtis) :
    ∀ t ∈ w.redis.jtis, t ∈ (w.send command).2.redis.jtis := by
  intro t ht
  unfold send
  split
  · exact h _ t ht
  · exact ht
  · exact h _ t ht

theorem World.send_ready (w : World) (command : Redis → Redis) (hsame : ∀ r, (command r).ready = r.ready)
    (h : (w.send command).2.redis.ready = true) : w.redis.ready = true := by
  unfold send at h
  split at h
  · rw [← hsame]; exact h
  · exact h
  · rw [← hsame]; exact h

/-- No operation takes a jti away. -/
theorem execOp_jtis (op : Op) (w : World) : ∀ t ∈ w.redis.jtis, t ∈ (execOp cfg op w).2.redis.jtis := by
  cases op
  case setJti pipe token => exact w.send_jtis _ (fun _ _ h => List.mem_cons_of_mem _ h)
  case setReady => exact w.send_jtis _ (fun _ _ h => h)
  case setSeeding =>
    simp only [execOp]
    split
    · exact fun _ h => h
    · exact w.send_jtis _ (fun _ _ h => h)
  all_goals exact fun _ h => h

/-- An acknowledged SET has been done. -/
theorem setJti_acknowledged {pipe : Pipeline} {token : TokenRef} {w : World}
    (h : (execOp cfg (.setJti pipe token) w).1 = true) :
    token ∈ (execOp cfg (.setJti pipe token) w).2.redis.jtis := by
  simp only [execOp, World.send] at h ⊢
  cases hfault : w.redis.fault with
  | up => exact List.mem_cons_self
  | lost => rw [hfault] at h; cases h
  | unacknowledged => rw [hfault] at h; cases h

/-- Only SET READY makes the blocklist ready. -/
theorem execOp_ready (op : Op) (w : World) (h : (execOp cfg op w).2.redis.ready = true) :
    w.redis.ready = true ∨ op = .setReady := by
  cases op
  case setReady => exact .inr rfl
  case setJti pipe token =>
    left
    refine w.send_ready _ ?_ h
    exact fun _ => rfl
  case setSeeding =>
    left
    simp only [execOp] at h
    split at h
    · exact h
    · refine w.send_ready _ ?_ h
      exact fun _ => rfl
  all_goals exact .inl h

/-- What an operation has revoked has a row. -/
theorem revoked_row (op : Op) (w : World) {t : TokenRef} (h : t ∈ op.revoked (execOp cfg op w).1) :
    ((execOp cfg op w).2.db.revokedTokens.get t.jti).isSome = true := by
  cases op with
  | logout userId tokens refreshSessionId =>
    simp only [execOp, World.transact, transaction_logout] at h ⊢
    cases refreshSessionId with
    | none => exact Db.added_addAll h
    | some sid => exact Db.added_addAll h
  | closeAccount userId tokens snapshot =>
    simp only [execOp, World.transact] at h ⊢
    rcases transaction_closeAccount cfg userId tokens snapshot w.now w.db with ⟨-, htx⟩ | ⟨e, htx⟩ | ⟨u, -, htx⟩
    · rw [htx] at h
      cases h
    · rw [htx] at h
      cases h
    · rw [htx] at h ⊢
      exact Db.added_addAll h
  | _ => cases h

theorem Op.revoked_acknowledged {op : Op} {r : op.Res} {t : TokenRef} (h : t ∈ op.revoked r) :
    t ∈ op.acknowledged ∧ t ∈ op.revokes := by
  cases op with
  | logout userId tokens refreshSessionId =>
    cases r with
    | error e => cases h
    | ok _ => exact ⟨h, h⟩
  | closeAccount userId tokens snapshot =>
    rcases r with e | _ | user
    · cases h
    · cases h
    · exact ⟨h, h⟩
  | _ => cases h

/-- A row that has not expired is listed. -/
theorem mem_listActive {db : Db} {t : TokenRef} {reading : Time}
    (h : db.revokedTokens.get t.jti = some ⟨t.jti, t.expiresAt⟩) (hlive : reading < t.expiresAt) :
    t ∈ RevokedTokenRepository.listActive db reading := by
  refine List.mem_map.mpr ⟨_, List.mem_filter.mpr ⟨Table.mem_of_get h, ?_⟩, rfl⟩
  exact decide_eq_true hlive

/-- And it is found. -/
theorem exists_of_row {db : Db} {t : TokenRef} {reading : Time}
    (h : db.revokedTokens.get t.jti = some ⟨t.jti, t.expiresAt⟩) (hlive : reading < t.expiresAt) :
    RevokedTokenRepository.exists_ db t.jti reading = true := by
  refine List.any_eq_true.mpr ⟨_, Table.mem_of_get h, ?_⟩
  simp [hlive]

end Operations

theorem World.blocks_iff {w : World} {t : TokenRef} :
    w.blocks t = true ↔ t.expiresAt ≤ w.now ∨ t ∈ w.redis.jtis := by
  simp [blocks]

theorem World.blocks_mono {w w' : World} (hnow : w.now ≤ w'.now)
    (hjtis : ∀ t ∈ w.redis.jtis, t ∈ w'.redis.jtis) {t : TokenRef} (h : w.blocks t = true) :
    w'.blocks t = true := by
  rw [blocks_iff] at h ⊢
  rcases h with hpast | hmem
  · exact .inl (Int.le_trans hpast hnow)
  · exact .inr (hjtis t hmem)

theorem Guarantee.blocks {cfg : Config} {op : Op} {w w' : World} (hg : Guarantee cfg op w w') {t : TokenRef}
    (h : w.blocks t = true) : w'.blocks t = true := by
  refine World.blocks_mono hg.evolves.now ?_ h
  rw [hg.redis]
  exact execOp_jtis cfg op w

/-! What the condition says where it is needed. -/

section Condition
variable {s : Service} {i j : Nat} {op : Op}

theorem keysKept_clock {seeding : Bool} {tokens : List TokenRef} (h : keysKept s (.run i) = true)
    (hw : s.Waits i (.revokeClock seeding tokens)) :
    ∀ t ∈ tokens, t.expiresAt ≤ s.state.now ∨ 0 < TokenBlocklist.ttlMs t s.state.now := by
  simpa [keysKept, Pool.pending_of_waits hw] using h

theorem keysKept_list {now : Time} (h : keysKept s (.run i) = true) (hw : s.Waits i (.listActive now))
    (hop : s.Waits j op) : ∀ t ∈ op.acknowledged,
    s.state.blocks t = true ∨ t ∈ RevokedTokenRepository.listActive s.state.db now := by
  simp only [keysKept, Pool.pending_of_waits hw, List.all_eq_true, Bool.or_eq_true, List.contains_iff_mem] at h
  exact h op (Pool.mem_waiting hop)

theorem keysKept_lose (h : keysKept s (.env .loseKeys) = true) (hop : s.Waits j op) {rest : List TokenRef}
    (howed : op.owed = some rest) : ∀ t ∈ s.state.redis.jtis, t.expiresAt ≤ s.state.now ∨ t ∈ rest := by
  simp only [keysKept, List.all_eq_true] at h
  simpa [howed] using h op (Pool.mem_waiting hop)

end Condition

/-! The invariant. -/

/-- The token was revoked, or a logout underway counts on its jti. -/
def Covered (done : Set TokenRef) (s : Service) (t : TokenRef) : Prop :=
  t ∈ done ∨ ∃ i op, s.Waits i op ∧ t ∈ op.acknowledged

/-- The tokens of `done` were revoked. They have their rows; where READY is, or a
seeding may still set it, their jtis are in Redis or yet to be sent. -/
structure Blocklist (done : Set TokenRef) (m : Nat → Progress) (s : Service) : Prop where
  watched : pipelines.Watches s m
  read : ∀ i now, (m i).read = some now → now ≤ s.state.now
  leftOut : ∀ i, ∀ t ∈ (m i).leftOut, t.expiresAt ≤ s.state.now
  rows : ∀ t ∈ done, s.state.now < t.expiresAt →
    s.state.db.revokedTokens.get t.jti = some ⟨t.jti, t.expiresAt⟩
  ready : s.state.redis.ready = true → ∀ t, Covered done s t → s.state.blocks t = true
  seeding : ∀ i op rest, s.Waits i op → op.owed = some rest →
    ∀ t, Covered done s t → s.state.blocks t = true ∨ t ∈ rest

theorem blocklist_start (now : Time) :
    Blocklist ∅ (fun _ => pipelines.start) (System.start (World.init now)) := by
  refine ⟨Monitor.watches_start _ _, ?_, ?_, ?_, ?_, ?_⟩
  · intro i now h
    cases h
  · intro i t h
    cases h
  · intro t h
    cases h
  · intro h
    cases h
  · intro i op rest hw
    obtain ⟨th, hth, -⟩ := hw
    cases hth

/-- A new thread counts on nothing and owes nothing. -/
theorem pipelines_start {op : Op} (h : pipelines.allows pipelines.start op) :
    op.acknowledged = [] ∧ op.owed = none := by
  refine ⟨?_, ?_⟩
  · refine List.eq_nil_iff_forall_not_mem.mpr ?_
    intro t ht
    rcases h.2.2 t ht with hmem | hmem
    · cases hmem
    · cases hmem
  · cases howed : op.owed with
    | none => rfl
    | some rest => cases h.2.1 rest howed

/-! An operation. -/

section Run
variable {cfg : Config} {done : Set TokenRef} {m : Nat → Progress} {s s' : Service} {i : Nat} {op : Op}

/-- What `revoke` leaves out has expired. -/
theorem leavesOut_expired (hc : keysKept s (.run i) = true) (hw : s.Waits i op) {t : TokenRef}
    (h : t ∈ op.leavesOut (execOp cfg op s.state).1) : t.expiresAt ≤ s.state.now := by
  cases op with
  | revokeClock seeding tokens =>
    obtain ⟨hmem, hlate⟩ := List.mem_filter.mp h
    have hlate' : TokenBlocklist.ttlMs t s.state.now ≤ 0 := of_decide_eq_true hlate
    rcases keysKept_clock hc hw t hmem with hexpired | hpos
    · exact hexpired
    · exact absurd hpos (Int.not_lt.mpr hlate')
  | _ => cases h

/-- What a logout counts on next, it counted on before or has just sent. -/
theorem acknowledgedBy_from {w : World} {t : TokenRef} (h : t ∈ op.acknowledgedBy (execOp cfg op w).1) :
    t ∈ op.acknowledged ∨ t ∈ (execOp cfg op w).2.redis.jtis := by
  cases op with
  | setJti pipe token =>
    have hset : (execOp cfg (.setJti pipe token) w).1 = true →
        token ∈ (execOp cfg (.setJti pipe token) w).2.redis.jtis := setJti_acknowledged cfg
    cases pipe with
    | revoking sent =>
      cases hanswer : (execOp cfg (.setJti (.revoking sent) token) w).1 with
      | true =>
        rw [hanswer] at h
        rcases List.mem_append.mp h with hsent | hnew
        · exact .inl hsent
        · rw [List.mem_singleton.mp hnew]
          exact .inr (hset hanswer)
      | false =>
        rw [hanswer] at h
        cases h
    | seeding rest => cases h
    | failed => cases h
  | snapshot tokens => exact .inl h
  | _ => cases h

/-- What a seeding owes next: the rest is in Redis. -/
theorem Blocklist.owedAfter (h : Blocklist done m s) (hc : keysKept s (.run i) = true) (hw : s.Waits i op)
    {w' : World} (hg : Guarantee cfg op s.state w') {rest : List TokenRef}
    (howed : op.owedAfter (execOp cfg op s.state).1 = some rest) {t : TokenRef} (ht : Covered done s t) :
    w'.blocks t = true ∨ t ∈ rest := by
  cases op with
  | listActive now =>
    cases howed
    have hlisted : s.state.blocks t = true ∨ t ∈ RevokedTokenRepository.listActive s.state.db now := by
      rcases ht with hdone | ⟨j, op', hw', hack⟩
      · rcases Int.lt_or_le s.state.now t.expiresAt with hlive | hpast
        · have hread : now ≤ s.state.now := h.read i now ((h.watched.allows hw).1 now rfl)
          exact .inr (mem_listActive (h.rows t hdone hlive) (Int.lt_of_le_of_lt hread hlive))
        · exact .inl (World.blocks_iff.mpr (.inl hpast))
      · exact keysKept_list hc hw hw' t hack
    exact hlisted.imp_left hg.blocks
  | revokeClock seeding tokens =>
    cases seeding with
    | false => cases howed
    | true =>
      cases howed
      rcases h.seeding i _ tokens hw rfl t ht with hblocks | hmem
      · exact .inl (hg.blocks hblocks)
      · rcases keysKept_clock hc hw t hmem with hexpired | hpos
        · exact .inl (hg.blocks (World.blocks_iff.mpr (.inl hexpired)))
        · exact .inr (List.mem_filter.mpr ⟨hmem, decide_eq_true hpos⟩)
  | setJti pipe token =>
    cases pipe with
    | revoking sent => cases howed
    | failed => cases howed
    | seeding rest' =>
      cases hanswer : (execOp cfg (.setJti (.seeding rest') token) s.state).1 with
      | false =>
        rw [hanswer] at howed
        cases howed
      | true =>
        rw [hanswer] at howed
        have hrest : rest' = rest := Option.some.inj howed
        subst hrest
        rcases h.seeding i _ (token :: rest') hw rfl t ht with hblocks | hmem
        · exact .inl (hg.blocks hblocks)
        · rcases List.mem_cons.mp hmem with rfl | hrest
          · left
            rw [World.blocks_iff, hg.redis]
            exact .inr (setJti_acknowledged cfg hanswer)
          · exact .inr hrest
  | _ => cases howed

/-- What the operation has revoked. -/
def revokedBy (cfg : Config) (s : Service) : Action Request Event → Set TokenRef
  | .run i => fun t => ∃ op, s.Waits i op ∧ t ∈ op.revoked (execOp cfg op s.state).1
  | _ => ∅

/-- A token revoked now has its own row. -/
theorem revokedBy_row {now : Time} (hs' : StepsIf cfg keysKept (System.start (World.init now)) s')
    (hw : s.Waits i op) (hg : Guarantee cfg op s.state s'.state) {t : TokenRef}
    (ht : t ∈ revokedBy cfg s (.run i)) :
    s'.state.db.revokedTokens.get t.jti = some ⟨t.jti, t.expiresAt⟩ := by
  obtain ⟨op', hw', hmem⟩ := ht
  obtain rfl := System.waits_unique hw hw'
  obtain ⟨row, hrow⟩ := Option.isSome_iff_exists.mp (revoked_row cfg op s.state hmem)
  obtain ⟨p, hp, rfl⟩ := hg.1.revokes t (Op.revoked_acknowledged hmem).2
  rw [← hg.db] at hrow
  have hown : row = ⟨p.ref.jti, p.ref.expiresAt⟩ := row_of_ref hs' (hg.evolves.issued hp) hrow
  rw [← hown]
  exact hrow

/-- The monitor states after the operation: only the thread's own has changed. -/
theorem advance_of_waits (hw : s.Waits i op) :
    pipelines.advance (service cfg) s m (.run i) =
      Function.update m i (pipelines.next (m i) op (execOp cfg op s.state).1) := Monitor.advance_run hw

theorem Blocklist.read_run (h : Blocklist done m s) (hw : s.Waits i op) (j : Nat) (reading : Time)
    (hj : (pipelines.advance (service cfg) s m (.run i) j).read = some reading) : reading ≤ s.state.now := by
  rw [advance_of_waits hw] at hj
  by_cases hij : j = i
  · rw [hij, Function.update_self] at hj
    cases op
    case clock =>
      cases hj
      exact Int.le_refl _
    all_goals exact h.read i reading hj
  · rw [Function.update_of_ne hij] at hj
    exact h.read j reading hj

theorem Blocklist.leftOut_run (h : Blocklist done m s) (hc : keysKept s (.run i) = true) (hw : s.Waits i op)
    (j : Nat) (t : TokenRef) (ht : t ∈ (pipelines.advance (service cfg) s m (.run i) j).leftOut) :
    t.expiresAt ≤ s.state.now := by
  rw [advance_of_waits hw] at ht
  by_cases hij : j = i
  · rw [hij, Function.update_self] at ht
    rcases List.mem_append.mp ht with hold | hnew
    · exact h.leftOut i t hold
    · exact leavesOut_expired hc hw hnew
  · rw [Function.update_of_ne hij] at ht
    exact h.leftOut j t ht

/-- What is covered after the operation was covered before, or is in Redis. -/
theorem Blocklist.covered_run (h : Blocklist done m s) (hc : keysKept s (.run i) = true) (hw : s.Waits i op)
    (ha : (service cfg).step s (.run i) = some s') (hg : Guarantee cfg op s.state s'.state) {t : TokenRef}
    (ht : Covered (done ∪ revokedBy cfg s (.run i)) s' t) : Covered done s t ∨ s'.state.blocks t = true := by
  rcases ht with (hdone | ⟨op', hw', hmem⟩) | ⟨j, op', hw', hmem⟩
  · exact .inl (.inl hdone)
  · exact .inl (.inr ⟨i, op', hw', (Op.revoked_acknowledged hmem).1⟩)
  · have hallowed := (h.watched.step (fun req => serve_follows cfg req _) ha).allows hw'
    rcases Monitor.advance_waits (M := pipelines) (m := m) ha hw' with
      ⟨hold, -⟩ | hstart | ⟨op₀, hrun, hw₀, hnext⟩
    · exact .inl (.inr ⟨j, op', hold, hmem⟩)
    · rw [hstart] at hallowed
      rw [(pipelines_start hallowed).1] at hmem
      cases hmem
    · cases hrun
      obtain rfl := System.waits_unique hw hw₀
      rcases hallowed.2.2 t hmem with hack | hlate
      · rw [hnext] at hack
        have hfrom : t ∈ op.acknowledged ∨ t ∈ (execOp cfg op s.state).2.redis.jtis := acknowledgedBy_from hack
        rcases hfrom with hold | hsent
        · exact .inl (.inr ⟨i, op, hw, hold⟩)
        · right
          rw [World.blocks_iff, hg.redis]
          exact .inr hsent
      · have hpast := h.leftOut_run hc hw i t hlate
        exact .inr (World.blocks_iff.mpr (.inl (Int.le_trans hpast hg.evolves.now)))

theorem Blocklist.run {now : Time} (hs' : StepsIf cfg keysKept (System.start (World.init now)) s')
    (h : Blocklist done m s) (hc : keysKept s (.run i) = true) (hw : s.Waits i op)
    (ha : (service cfg).step s (.run i) = some s') (hg : Guarantee cfg op s.state s'.state) :
    Blocklist (done ∪ revokedBy cfg s (.run i)) (pipelines.advance (service cfg) s m (.run i)) s' := by
  have hnow := hg.evolves.now
  have hwatched := h.watched.step (fun req => serve_follows cfg req _) ha
  refine ⟨hwatched, ?_, ?_, ?_, ?_, ?_⟩
  · intro j reading hj
    exact Int.le_trans (h.read_run hw j reading hj) hnow
  · intro j t ht
    exact Int.le_trans (h.leftOut_run hc hw j t ht) hnow
  · intro t ht hlive
    rcases ht with hdone | hrevoked
    · exact hg.evolves.db.tokens _ _ (h.rows t hdone (Int.lt_of_le_of_lt hnow hlive)) hlive
    · exact revokedBy_row hs' hw hg hrevoked
  · intro hready t ht
    rcases h.covered_run hc hw ha hg ht with hold | hblocks
    · rw [hg.redis] at hready
      rcases execOp_ready cfg op s.state hready with hwas | rfl
      · exact hg.blocks (h.ready hwas t hold)
      · -- SET READY: nothing was owed
        rcases h.seeding i _ [] hw rfl t hold with hblocks | hnone
        · exact hg.blocks hblocks
        · cases hnone
    · exact hblocks
  · intro j op' rest hw' howed t ht
    rcases h.covered_run hc hw ha hg ht with hold | hblocks
    · rcases Monitor.advance_waits (M := pipelines) (m := m) ha hw' with
        ⟨hwait, -⟩ | hstart | ⟨op₀, hrun, hw₀, hnext⟩
      · exact (h.seeding j op' rest hwait howed t hold).imp_left hg.blocks
      · have hallowed := hwatched.allows hw'
        rw [hstart] at hallowed
        rw [(pipelines_start hallowed).2] at howed
        cases howed
      · cases hrun
        obtain rfl := System.waits_unique hw hw₀
        have hallowed := (hwatched.allows hw').2.1 rest howed
        rw [hnext] at hallowed
        exact h.owedAfter hc hw hg hallowed hold
    · exact .inl hblocks

end Run

/-! The other actions. -/

section Other
variable {cfg : Config} {done : Set TokenRef} {m : Nat → Progress} {s s' : Service}

/-- An action that runs no operation: threads that wait waited before, or are new. -/
theorem Blocklist.other {a : Action Request Event} (h : Blocklist done m s)
    (ha : (service cfg).step s a = some s') (hrun : ∀ i, a ≠ .run i)
    (hdb : s'.state.db = s.state.db) (hnow : s.state.now ≤ s'.state.now)
    (hready : s'.state.redis.ready = true → s.state.redis.ready = true)
    (hkeep : s'.state.redis.ready = true → ∀ t, s.state.blocks t = true → s'.state.blocks t = true)
    (hseed : ∀ i op rest, s.Waits i op → op.owed = some rest → ∀ t, s.state.blocks t = true →
      s'.state.blocks t = true ∨ t ∈ rest) :
    Blocklist (done ∪ revokedBy cfg s a) (pipelines.advance (service cfg) s m a) s' := by
  have hwatched := h.watched.step (fun req => serve_follows cfg req _) ha
  have hnone : revokedBy cfg s a = ∅ := by
    cases a with
    | run i => exact absurd rfl (hrun i)
    | _ => rfl
  have hstate : ∀ j, pipelines.advance (service cfg) s m a j = m j ∨
      pipelines.advance (service cfg) s m a j = pipelines.start := by
    intro j
    cases a with
    | spawn req =>
      rw [Monitor.advance_spawn]
      by_cases hj : j = s.threads.length
      · rw [hj, Function.update_self]
        exact .inr rfl
      · rw [Function.update_of_ne hj]
        exact .inl rfl
    | run i => exact absurd rfl (hrun i)
    | cancel i => exact .inl rfl
    | env e => exact .inl rfl
  have hwaits : ∀ j op, s'.Waits j op → s.Waits j op ∨ op.acknowledged = [] ∧ op.owed = none := by
    intro j op hw
    rcases Monitor.advance_waits (M := pipelines) (m := m) ha hw with ⟨hold, -⟩ | hstart | ⟨op₀, heq, -⟩
    · exact .inl hold
    · have hallowed := hwatched.allows hw
      rw [hstart] at hallowed
      exact .inr (pipelines_start hallowed)
    · exact absurd heq (hrun j)
  have hcovered : ∀ t, Covered done s' t → Covered done s t := by
    intro t ht
    rcases ht with hdone | ⟨j, op, hw, hmem⟩
    · exact .inl hdone
    · rcases hwaits j op hw with hold | ⟨hempty, -⟩
      · exact .inr ⟨j, op, hold, hmem⟩
      · rw [hempty] at hmem
        cases hmem
  rw [hnone, Set.union_empty]
  refine ⟨hwatched, ?_, ?_, ?_, ?_, ?_⟩
  · intro j reading hj
    rcases hstate j with hold | hnew
    · rw [hold] at hj
      exact Int.le_trans (h.read j reading hj) hnow
    · rw [hnew] at hj
      cases hj
  · intro j t ht
    rcases hstate j with hold | hnew
    · rw [hold] at ht
      exact Int.le_trans (h.leftOut j t ht) hnow
    · rw [hnew] at ht
      cases ht
  · intro t ht hlive
    rw [hdb]
    exact h.rows t ht (Int.lt_of_le_of_lt hnow hlive)
  · intro hr t ht
    exact hkeep hr t (h.ready (hready hr) t (hcovered t ht))
  · intro j op rest hw howed t ht
    rcases hwaits j op hw with hold | ⟨-, hfree⟩
    · rcases h.seeding j op rest hold howed t (hcovered t ht) with hblocks | hmem
      · exact hseed j op rest hold howed t hblocks
      · exact .inr hmem
    · rw [hfree] at howed
      cases howed

theorem Blocklist.step {now : Time} {a : Action Request Event}
    (hs' : StepsIf cfg keysKept (System.start (World.init now)) s') (hserved : Served.Pool cfg s)
    (h : Blocklist done m s) (hc : keysKept s a = true) (ha : (service cfg).step s a = some s') :
    Blocklist (done ∪ revokedBy cfg s a) (pipelines.advance (service cfg) s m a) s' := by
  have hsame : (∀ i, a ≠ .run i) → s'.state.db = s.state.db → s.state.now ≤ s'.state.now →
      s'.state.redis.ready = s.state.redis.ready → s'.state.redis.jtis = s.state.redis.jtis →
      Blocklist (done ∪ revokedBy cfg s a) (pipelines.advance (service cfg) s m a) s' := by
    intro hrun hdb hnow hready hjtis
    have hkeep : ∀ t, s.state.blocks t = true → s'.state.blocks t = true := by
      intro t
      refine World.blocks_mono hnow ?_
      rw [hjtis]
      exact fun _ h => h
    exact h.other ha hrun hdb hnow (fun hr => by rw [← hready]; exact hr) (fun _ => hkeep)
      (fun _ _ _ _ _ t ht => .inl (hkeep t ht))
  rcases step_world hserved ha with ⟨hrun, -, hstate⟩ | ⟨i, op, rfl, hw, hg⟩ | ⟨e, rfl, he⟩
  · exact hsame hrun (by rw [hstate]) (by rw [hstate]) (by rw [hstate]) (by rw [hstate])
  · exact h.run hs' hc hw ha hg
  · obtain ⟨hdb, -, -, -, hnow⟩ := World.event_frame he
    cases e with
    | tick elapsed =>
      have hredis : s'.state.redis = s.state.redis := by
        rw [← Option.some.inj he]
      exact hsame nofun hdb hnow (by rw [hredis]) (by rw [hredis])
    | replicate version =>
      have hredis : s'.state.redis = s.state.redis := by
        obtain ⟨replica, -, hw'⟩ := Option.map_eq_some_iff.mp he
        rw [← hw']
      exact hsame nofun hdb hnow (by rw [hredis]) (by rw [hredis])
    | redisFault fault =>
      exact hsame nofun hdb hnow (by rw [← Option.some.inj he]) (by rw [← Option.some.inj he])
    | loseKeys =>
      have hready : s'.state.redis.ready = false := by rw [← Option.some.inj he]
      have hlost : ¬ s'.state.redis.ready = true := by
        rw [hready]
        exact Bool.false_ne_true
      refine h.other ha nofun hdb hnow (fun hr => absurd hr hlost) (fun hr => absurd hr hlost) ?_
      intro i op rest hw howed t hblocks
      rcases World.blocks_iff.mp hblocks with hpast | hmem
      · exact .inl (World.blocks_iff.mpr (.inl (Int.le_trans hpast hnow)))
      · rcases keysKept_lose hc hw howed t hmem with hpast | hrest
        · exact .inl (World.blocks_iff.mpr (.inl (Int.le_trans hpast hnow)))
        · exact .inr hrest

end Other

/-! The check of a token. -/

/-- What the check of a revoked token is told before the token expires. -/
def Answered (token : TokenPayload) : (op : Op) → op.Res → Prop
  | .clock, now => now < token.expiryDatetime
  | .mget jti, r => jti = token.jti → ∀ revoked, r = some (revoked, true) → revoked = true
  | .tokenExists jti _, found => jti = token.jti → found = true
  | _, _ => True

theorem isTokenRevoked_given (token : TokenPayload) :
    (isTokenRevoked token).Given (Answered token) (fun out => out = .ok true) := by
  intro now hnow
  have hvalid : jwtDecode token now = true := decide_eq_true hnow
  show Prog.Given _ _ (ite _ _ _)
  rw [hvalid]
  simp only [Bool.not_true, Bool.false_eq_true, if_false]
  intro r hr
  have hfallback : (do
      let revoked : Bool ← api (.tokenExists token.jti (← FastiKit.now))
      if ← TokenBlocklist.claimSeeding then
        let active : List TokenRef ← api (.listActive (← FastiKit.now))
        TokenBlocklist.seed active
      return revoked : Api Bool).Given (Answered token) (fun out => out = .ok true) := by
    intro now _ found hfound
    have hrow : found = true := hfound rfl
    subst hrow
    intro claimed _
    rcases claimed with _ | _ | _
    · rfl
    · rfl
    · intro now _ active _
      show Prog.Given _ _ (TokenBlocklist.seed active >>= fun _ => return true)
      rw [Prog.given_bind]
      refine (Prog.given_of_uses (seed_uses active)).mono ?_
      intro out hout
      rw [hout]
      rfl
  rcases r with _ | ⟨revoked, _ | _⟩
  · exact hfallback
  · exact hfallback
  · have hrevoked : revoked = true := hr rfl revoked rfl
    rw [hrevoked]
    rfl

theorem tokenRequired_given (type : TokenType) (token : TokenPayload) :
    (tokenRequired type token).Given (Answered token) (fun out => out = .error (.authx "RevokedTokenError")) := by
  rw [tokenRequired, Prog.given_bind]
  refine (isTokenRevoked_given token).mono ?_
  intro out hout
  rw [hout]
  rfl

/-- A request that presents a revoked token is refused. -/
theorem serve_given (cfg : Config) {req : Request} {token : TokenPayload} (h : req.bearer = some token) :
    (serve cfg req).Given (Answered token) (fun out => out = req.refusal) := by
  have hraise : ∀ {α : Type} {p : Api α} {f : α → Api Response},
      p.Given (Answered token) (fun out => out = .error (.authx "RevokedTokenError")) →
      (p >>= f).Given (Answered token) (fun out => out = .error (.authx "RevokedTokenError")) := by
    intro α p f hp
    rw [Prog.given_bind]
    refine hp.mono ?_
    intro out hout
    rw [hout]
  have hsession : ∀ cookie, (getAuthSession token cookie).Given (Answered token)
      (fun out => out = .error (.authx "RevokedTokenError")) := by
    intro cookie
    rw [getAuthSession, Prog.given_bind]
    refine (tokenRequired_given .access token).mono ?_
    intro out hout
    rw [hout]
  cases req with
  | refresh cookie =>
    cases h
    exact hraise (tokenRequired_given .refresh _)
  | logout header cookie =>
    cases h
    exact hraise (hsession cookie)
  | deleteUser header cookie =>
    cases h
    exact hraise (hsession cookie)
  | updateUser header data =>
    cases h
    exact hraise (tokenRequired_given .access _)
  | listUsers header params =>
    cases h
    apply hraise
    rw [requireScopes, Prog.given_bind]
    refine (tokenRequired_given .access _).mono ?_
    intro out hout
    rw [hout]
  | getUser header =>
    cases h
    apply hraise
    rw [getCurrentUser, Prog.given_bind]
    refine (tokenRequired_given .access _).mono ?_
    intro out hout
    rw [hout]
  | isTokenRevoked header =>
    cases h
    rw [serve, Prog.given_bind]
    refine (isTokenRevoked_given _).mono ?_
    intro out hout
    rw [hout]
    rfl
  | _ => cases h

/-! Runs. -/

section Runs
variable {cfg : Config} {done : Set TokenRef} {m : Nat → Progress} {s t : Service} {token : TokenPayload}

/-- Where READY is, the jti of a revoked token is. -/
theorem Blocklist.holds (h : Blocklist done m s) {ref : TokenRef} (hdone : ref ∈ done)
    (hlive : s.state.now < ref.expiresAt) (hready : s.state.redis.ready = true) :
    s.state.redis.holds ref.jti s.state.now = true := by
  rcases World.blocks_iff.mp (h.ready hready ref (.inl hdone)) with hpast | hmem
  · exact absurd hlive (Int.not_lt.mpr hpast)
  · exact List.any_eq_true.mpr ⟨ref, hmem, by simp [hlive]⟩

theorem Blocklist.answered (h : Blocklist done m s) (hdone : token.ref ∈ done)
    (hlive : s.state.now < token.expiryDatetime) {i : Nat} {op : Op} (hw : s.Waits i op) :
    Answered token op (execOp cfg op s.state).1 := by
  cases op with
  | clock => exact hlive
  | mget jti =>
    intro hjti revoked hr
    simp only [execOp] at hr
    split at hr
    · simp only [Option.some.injEq, Prod.mk.injEq] at hr
      obtain ⟨hheld, hready⟩ := hr
      rw [← hheld, hjti]
      exact h.holds hdone hlive hready
    · cases hr
  | tokenExists jti reading =>
    intro hjti
    have hread : reading ≤ s.state.now := h.read i reading ((h.watched.allows hw).1 reading rfl)
    rw [hjti]
    exact exists_of_row (h.rows token.ref hdone hlive) (Int.lt_of_le_of_lt hread hlive)
  | _ => trivial

theorem blocklist_steps {now : Time} (hs : StepsIf cfg keysKept (System.start (World.init now)) s)
    (h : Blocklist done m s) (ht : StepsIf cfg keysKept s t) :
    ∃ done' m', done ⊆ done' ∧ Blocklist done' m' t := by
  have key : StepsIf cfg keysKept (System.start (World.init now)) t ∧
      ∃ done' m', done ⊆ done' ∧ Blocklist done' m' t := by
    refine ht.invariant (J := fun v => StepsIf cfg keysKept (System.start (World.init now)) v ∧
      ∃ done' m', done ⊆ done' ∧ Blocklist done' m' v) ?_ ⟨hs, done, m, subset_rfl, h⟩
    intro v a v' hv hC ha
    obtain ⟨hv, done', m', hsub, hblocklist⟩ := hv
    have hv' := hv.snoc hC ha
    exact ⟨hv', _, _, hsub.trans Set.subset_union_left,
      hblocklist.step hv' (served_steps hv (served_start now)) hC ha⟩
  exact key.2

theorem steps_now (hs : Served.Pool cfg s) (h : StepsIf cfg keysKept s t) : s.state.now ≤ t.state.now :=
  (steps_evolves h hs).now

end Runs

/-- The blocklist is sound while no jti is lost that READY would be set without. Once a
logout or a closure that covers the token has returned, READY is never there without
the jti, and every request that presents the token is refused, until it expires. -/
theorem blocklist_sound (cfg : Config) (now : Time) (s s' t : Service) (token : TokenPayload)
    (hs : StepsIf cfg keysKept (System.start (World.init now)) s) (hrevokes : Revokes cfg keysKept token s s')
    (ht : StepsIf cfg keysKept s' t) :
    (t.state.redis.ready = true → t.state.now < token.expiryDatetime →
      t.state.redis.holds token.jti t.state.now = true) ∧
    ∀ req out t', req.bearer = some token →
      (service cfg).Completes (fun v a => keysKept v a = true) t req out t' →
      t'.state.now < token.expiryDatetime → out = req.refusal := by
  obtain ⟨i, op, hw, hmem, hC, ha⟩ := hrevokes
  have hs' := hs.snoc hC ha
  obtain ⟨done, m, -, hblocklist⟩ := blocklist_steps .refl (blocklist_start now) hs
  have hstep := hblocklist.step hs' (served_steps hs (served_start now)) hC ha
  have hdone : token.ref ∈ done ∪ revokedBy cfg s (.run i) := .inr ⟨op, hw, hmem⟩
  have hafter : ∀ v, StepsIf cfg keysKept s' v → ∃ done' m', token.ref ∈ done' ∧ Blocklist done' m' v := by
    intro v hv
    obtain ⟨done', m', hsub, hblocklist'⟩ := blocklist_steps hs' hstep hv
    exact ⟨done', m', hsub hdone, hblocklist'⟩
  refine ⟨?_, ?_⟩
  · intro hready hlive
    obtain ⟨done', m', hin, hblocklist'⟩ := hafter t ht
    exact hblocklist'.holds hin hlive hready
  · intro req out t' hbearer hcompletes hlive
    refine hcompletes.given (serve_given cfg hbearer) ?_
    intro v op' hv hv' hw'
    obtain ⟨done', m', hin, hblocklist'⟩ := hafter v (ht.trans hv)
    have hserved : Served.Pool cfg v := served_steps ((hs'.trans ht).trans hv) (served_start now)
    exact hblocklist'.answered hin (Int.lt_of_le_of_lt (steps_now hserved hv') hlive) hw'

/-! A logout, and keys that Redis loses. -/

/-- A run up to the commit of a logout or a closure, and what follows it. -/
theorem revokes_of_run (c : Service → Action Request Event → Bool) (as bs : List (Action Request Event))
    (i : Nat) (op : Op) (token : TokenPayload) (p : Service → Bool)
    (h : ((service .sample).runIf c (System.start (World.init 0)) as).any (fun s =>
      ((service .sample).step s (.run i)).any (fun s' =>
        ((service .sample).runIf c s' bs).any (fun t => p t && decide (
          s.pending i = some op ∧ token.ref ∈ op.revoked (execOp .sample op s.state).1 ∧
          c s (.run i) = true)))) = true) :
    ∃ s s' t, StepsIf .sample c (System.start (World.init 0)) s ∧ Revokes .sample c token s s' ∧
      StepsIf .sample c s' t ∧ p t = true := by
  obtain ⟨s, hs, h⟩ := (Option.any_eq_true _ _).mp h
  obtain ⟨s', hs', h⟩ := (Option.any_eq_true _ _).mp h
  obtain ⟨t, ht, h⟩ := (Option.any_eq_true _ _).mp h
  obtain ⟨hp, hfacts⟩ := Bool.and_eq_true_iff.mp h
  obtain ⟨hop, hmem, hc⟩ := of_decide_eq_true hfacts
  exact ⟨s, s', t, System.steps_of_runIf _ _ _ hs, ⟨i, op, Pool.waits_of_pending hop, hmem, hc, hs'⟩,
    System.steps_of_runIf _ _ _ ht, hp⟩

/-- The sample user logs out; the request has sent its SET. -/
def sentLogout : List (Action Request Event) :=
  signIn ++ .spawn (.logout sampleAccess none) :: List.replicate 13 (.run 3)

/-- The keys are lost after a logout, and the next check seeds the blocklist again. -/
theorem blocklist_sound_sample : ∃ s s' t, Revokes .sample keysKept sampleAccess s s' ∧
    StepsIf .sample keysKept s' t ∧ t.state.redis.ready = true ∧ t.state.redis.holds 5 t.state.now = true := by
  have hrun := revokes_of_run keysKept sentLogout (.env .loseKeys :: serially 4 11 (.isTokenRevoked sampleAccess))
    3 (.logout 0 [sampleAccess.ref] none) sampleAccess
    (fun t => t.state.redis.ready && decide (t.state.now < sampleAccess.expiryDatetime)) (by decide +kernel)
  obtain ⟨s, s', t, hs, hrevokes, ht, hlast⟩ := hrun
  obtain ⟨hready, hlive⟩ := Bool.and_eq_true_iff.mp hlast
  exact ⟨s, s', t, hrevokes, ht, hready,
    (blocklist_sound .sample 0 s s' t sampleAccess hs hrevokes ht).1 hready (of_decide_eq_true hlive)⟩

/-- The keys are lost when a logout has sent its SET; a check lists the table before the
logout commits and sets READY. The token passes the next check. -/
theorem seeded_past_logout : ¬ ∀ (now : Time) (s s' t : Service) (token : TokenPayload),
    StepsIf .sample anyStep (System.start (World.init now)) s → Revokes .sample anyStep token s s' →
    StepsIf .sample anyStep s' t →
    (t.state.redis.ready = true → t.state.now < token.expiryDatetime →
      t.state.redis.holds token.jti t.state.now = true) ∧
    ∀ req out t', req.bearer = some token →
      (service .sample).Completes (fun v a => anyStep v a = true) t req out t' →
      t'.state.now < token.expiryDatetime → out = req.refusal := by
  intro h
  have hrun := revokes_of_run anyStep
    (sentLogout ++ .env .loseKeys :: serially 4 10 (.isTokenRevoked sampleAccess)) [] 3
    (.logout 0 [sampleAccess.ref] none) sampleAccess
    (fun t => ((service .sample).run t (.spawn (.isTokenRevoked sampleAccess) :: ([.run 5] ++ [.run 5]))).any
      (fun t' => decide (t.threads.length = 5 ∧ t'.state.now < sampleAccess.expiryDatetime ∧
        t'.threads[5]?.map (fun th => (th.req, th.code.outcome)) =
          some (.isTokenRevoked sampleAccess, some (.ok (.revoked false)))))) (by decide +kernel)
  obtain ⟨s, s', t, hs, hrevokes, ht, hlast⟩ := hrun
  obtain ⟨t', ht', hfacts⟩ := (Option.any_eq_true _ _).mp hlast
  obtain ⟨hlen, hlive, hout⟩ := of_decide_eq_true hfacts
  rw [← hlen] at ht' hout
  have hcompletes := System.completes_of_run (C := fun v a => anyStep v a = true) (fun _ _ => rfl)
    [.run t.threads.length] ht' hout
  have hanswer := (h 0 s s' t sampleAccess hs hrevokes ht).2 _ _ t' rfl hcompletes hlive
  cases hanswer

end FastiKit
