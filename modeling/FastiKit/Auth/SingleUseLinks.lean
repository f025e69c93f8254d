import FastiKit.Auth.Obligations

/- An emailed link is used once, as long as its use stays on record.

   What is proved:
     1. in a run in which no request for a link runs its final transaction after
        the link's row in `revoked_tokens` was purged, at most one request for the
        link succeeds;
     2. without that, two can (`link_used_twice`): both requests pass every check,
        the first commits, the link expires and is purged, the second commits.
   The unique insert of the jti is what refuses the second use, and it can only do
   so while the first one's row is there. -/
namespace FastiKit

open Interleave Relational

/-- A request that used the link. -/
def usedLink (token : TokenPayload) : Request × Except Err Response → Bool
  | (.verifyEmail link, .ok _) => link = token
  | (.resetPassword link _, .ok _) => link = token
  | _ => false

/-- The link an operation uses. -/
def Op.link : Op → Option TokenPayload
  | .verifyEmail _ token => some token
  | .resetPassword _ _ token _ => some token
  | _ => none

/-- If the link was used, the table still says so. -/
def World.recorded (w : World) (token : TokenPayload) : Bool :=
  w.responses.countP (usedLink token) = 0 || (w.db.revokedTokens.get token.jti).isSome

/-- No final transaction of a link whose use is no longer on record. -/
def onRecord (s : Service) : Action Request Event → Bool
  | .run i => ((s.pending i).bind Op.link).all s.state.recorded
  | _ => true

/-- A request that did not use a link, or its operation did. -/
theorem Answers.usedLink {w : World} {req : Request} {out : Except Err Response} {op : Op} {r : op.Res}
    {db' : Db} {token : TokenPayload} (h : Answers req out op r) (heff : Effect w op r db')
    (hused : usedLink token (req, out) = true) :
    op.link = some token ∧ w.db.revokedTokens.get token.jti = none := by
  cases h with
  | login => cases hused
  | refresh hses huser => cases hused
  | @verifyEmail link user text =>
    have heq : link = token := of_decide_eq_true hused
    subst heq
    obtain ⟨tokens, hi, -⟩ := heff.of_verifyEmail
    exact ⟨rfl, Table.insert_fresh hi⟩
  | @resetPassword link password passwordHash user snapshot text =>
    have heq : link = token := of_decide_eq_true hused
    subst heq
    obtain ⟨tokens, hi, -⟩ := heff.of_resetPassword
    exact ⟨rfl, Table.insert_fresh hi⟩
  | rest hop hout =>
    exfalso
    cases out with
    | error e => cases req <;> cases hused
    | ok response =>
      have hno := (hout response rfl).1
      cases req <;> first | cases hused | cases hno

/-- A step keeps every link used at most once, when a link used before is on
record. -/
theorem used_once_step {cfg : Config} {op : Op} {w w' : World} (hg : Guarantee cfg op w w')
    (hrec : ∀ token, op.link = some token → w.recorded token = true) {token : TokenPayload}
    (h : w.responses.countP (usedLink token) ≤ 1) : w'.responses.countP (usedLink token) ≤ 1 := by
  obtain ⟨r, heff, -, -, ⟨hres, -⟩ | ⟨req, out, hres, ha⟩⟩ := hg.effect
  · rw [hres]
    exact h
  · rw [hres, List.countP_cons]
    cases hused : usedLink token (req, out) with
    | false => simpa using h
    | true =>
      obtain ⟨hlink, hfresh⟩ := ha.usedLink heff hused
      have hzero : w.responses.countP (usedLink token) = 0 := by
        have hr := hrec token hlink
        simpa [World.recorded, hfresh] using hr
      rw [hzero]
      decide

/-- Emailed links are single-use while their use is on record. -/
theorem link_used_once (cfg : Config) (now : Time) (s : Service)
    (h : (service cfg).Steps (fun v a => onRecord v a = true) (System.start (World.init now)) s)
    (token : TokenPayload) : s.state.responses.countP (usedLink token) ≤ 1 := by
  refine run_invariant (P := fun w => w.responses.countP (usedLink token) ≤ 1) ?_ ?_ h (served_start now)
    (Nat.zero_le 1)
  · intro v i op w' _ hP hC hw hg
    refine used_once_step hg ?_ hP
    intro link hlink
    have hrec : ((v.pending i).bind Op.link).all v.state.recorded = true := hC
    rw [Pool.pending_of_waits hw] at hrec
    simpa [hlink] using hrec
  · intro v e w' _ hP _ he
    rw [(World.event_frame he).2.2.2.1]
    exact hP

/-- Two requests for one link, the second after the first was answered. -/
theorem link_used_once_sample : ∃ s : Service,
    s.state.responses.countP (usedLink sampleLink) = 1 ∧
      s.state.responses.countP (usedLink sampleLink) ≤ 1 := by
  have hrun : ((service .sample).runIf onRecord (System.start (World.init 0))
      (serially 0 5 (.createUser ⟨"Ada", "ada@example.org", "first"⟩) ++ serially 1 5 (.verifyEmail sampleLink) ++
        serially 2 3 (.verifyEmail sampleLink))).map
      (fun s => s.state.responses.countP (usedLink sampleLink)) = some 1 := by decide +kernel
  obtain ⟨s, hs, hcount⟩ := Option.map_eq_some_iff.mp hrun
  exact ⟨s, hcount, link_used_once .sample 0 s (System.steps_of_runIf _ _ _ hs) sampleLink⟩

/-- Two requests for one link, both past every check when the first commits: the
link expires, its row is purged, and the second commits. -/
def purgedBetween : List (Action Request Event) :=
  serially 0 5 (.createUser ⟨"Ada", "ada@example.org", "first"⟩) ++
    serially 1 4 (.verifyEmail sampleLink) ++ serially 2 4 (.verifyEmail sampleLink) ++
    [.run 1, .env (.tick 86400000000)] ++ serially 3 2 .cleanupRevokedTokens ++ [.run 2]

theorem link_used_twice :
    ¬ ∀ (s : Service) (token : TokenPayload), Reaches .sample (System.start (World.init 0)) s →
      s.state.responses.countP (usedLink token) ≤ 1 := by
  intro hclaim
  have hrun : ((service .sample).run (System.start (World.init 0)) purgedBetween).map
      (fun s => s.state.responses.countP (usedLink sampleLink)) = some 2 := by decide +kernel
  obtain ⟨s, hs, hcount⟩ := Option.map_eq_some_iff.mp hrun
  have hle := hclaim s sampleLink (System.steps_of_run (fun _ _ => trivial) _ _ _ hs)
  rw [hcount] at hle
  exact absurd hle (by decide)

end FastiKit
