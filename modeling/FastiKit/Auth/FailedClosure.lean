import FastiKit.Auth.AllOrNothing
import FastiKit.Auth.LaterChecks

/- A closure of an account that fails.

   `AuthService.close_account` SETs the jtis in Redis before it asks the database, and
   only the database part is a transaction. If there is no such user, or a statement or
   the commit raises, the rows are as they were but the jtis stay, and the checks to come
   turn away tokens that nobody has revoked: at once where READY is there
   (`failed_closure_revokes`), else once a check has filled the blocklist. They are
   never seen where Redis got none of the SETs, or where they are hidden. -/
namespace FastiKit

open Interleave Relational

/-- The operations where statements and the commit of the closure may raise. -/
def execFailing (cfg : Config) (failures : Failures) : (op : Op) → World → Except Raised op.Res × World
  | .closeAccount userId tokens snapshot, w =>
    match transactionUnder cfg failures (AccountRepository.closeAccount userId tokens snapshot w.now) w.db with
    | (.ok user, db) => (.ok (.ok user), { w with db, versions := db :: w.versions })
    | (.error (.inl e), db) => (.ok (.error e), { w with db, versions := db :: w.versions })
    | (.error (.inr e), db) => (.error e, { w with db, versions := db :: w.versions })
  | op, w => (.ok (execOp cfg op w).1, (execOp cfg op w).2)

/-- Every check to come is answered as it would have been, whatever happens around the
requests in between, and the rows are the same. -/
structure Unchanged (cfg : Config) (w w' : World) : Prop where
  answers : ∀ later, laterAnswers cfg later w' = laterAnswers cfg later w
  sessions : w'.db.refreshSessions = w.db.refreshSessions
  users : w'.db.users = w.db.users

/-- Like `w` but for what the SETs of these tokens leave, if they reach Redis. -/
structure Sent (tokens : List TokenRef) (w w' : World) : Prop extends SameButJtis w w' where
  jtis : ∀ token, token ∈ w'.redis.jtis ↔ w.redis.fault ≠ .lost ∧ token ∈ tokens ∨ token ∈ w.redis.jtis

namespace Sent
variable {w v w' : World} {tokens rest : List TokenRef}

theorem refl (w : World) : Sent [] w w := ⟨⟨rfl, rfl, rfl, rfl, rfl⟩, fun _ => by simp⟩

/-- One SET, and those after it. -/
theorem set (token : TokenRef)
    (h : Sent rest (w.send (fun r => { r with jtis := token :: r.jtis })).2 w') : Sent (token :: rest) w w' := by
  unfold World.send at h
  cases hfault : w.redis.fault with
  | lost =>
    rw [hfault] at h
    refine ⟨h.toSameButJtis, ?_⟩
    intro t
    rw [h.jtis t, hfault]
    simp
  | up =>
    rw [hfault] at h
    refine ⟨⟨h.now, h.db, h.fault, h.ready, h.lock⟩, ?_⟩
    intro t
    rw [h.jtis t, List.mem_cons, List.mem_cons]
    simp only [hfault]
    tauto
  | unacknowledged =>
    rw [hfault] at h
    refine ⟨⟨h.now, h.db, h.fault, h.ready, h.lock⟩, ?_⟩
    intro t
    rw [h.jtis t, List.mem_cons, List.mem_cons]
    simp only [hfault]
    tauto

end Sent

section Closing
variable {cfg : Config} {failures : Failures} {w w' : World} {tokens : List TokenRef}

end Closing

/-- The commit of a closure fails after a check has set READY: the user is still active,
and the token is revoked. -/
theorem failed_closure_revokes : ¬ ∀ (now : Time) (s : Service) (failures : Failures) (userId : Uuid)
    (tokens : List TokenRef) (e : Err ⊕ Raised) (w' : World), Reaches .sample (System.start (World.init now)) s →
    (AuthService.closeAccount userId tokens).evalRaising (execFailing .sample failures) s.state = (.error e, w') →
    Unchanged .sample s.state w' := by
  intro h
  let failures : Failures := ⟨fun _ => none, some (.other "OperationalError")⟩
  have hrun : ((service .sample).run (System.start (World.init 0))
      (signIn ++ serially 3 10 (.isTokenRevoked sampleAccess))).any (fun s =>
        let closed := (AuthService.closeAccount 0 [sampleAccess.ref]).evalRaising (execFailing .sample failures) s.state
        decide (closed.1 = .error (.inr (.other "OperationalError")) ∧
          ((isTokenRevoked sampleAccess).eval (execOp .sample) s.state).1 = .ok false ∧
          ((isTokenRevoked sampleAccess).eval (execOp .sample) closed.2).1 = .ok true)) = true := by
    decide +kernel
  obtain ⟨s, hs, hfacts⟩ := (Option.any_eq_true _ _).mp hrun
  obtain ⟨hraises, hbefore, hafter⟩ := of_decide_eq_true hfacts
  have hreach : Reaches .sample (System.start (World.init 0)) s := System.steps_of_run (fun _ _ => trivial) _ _ _ hs
  have hsame := h 0 s failures 0 [sampleAccess.ref] _ _ hreach (Prod.ext hraises rfl)
  have hanswer := (List.cons.inj (hsame.answers [.check sampleAccess])).1
  rw [hafter, hbefore] at hanswer
  cases hanswer

end FastiKit
