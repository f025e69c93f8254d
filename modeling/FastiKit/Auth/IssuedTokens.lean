import FastiKit.Auth.Calls
import Mathlib.Data.Set.Function

/- The tokens that were handed out, and the table of the ones that were taken back.
   A jti is drawn for one token only, by the request that mails the token's link or by
   the response that signs it, so no two issued tokens share one
   (`distinctJtis_steps`); and every row of `revoked_tokens` is an issued token's
   (`listed_steps`). A token's row is therefore its own, with its own expiry
   (`row_of_ref`). -/
namespace FastiKit

open Interleave Relational

/-- The email an operation stages. -/
def Op.email : Op → Option EmailPayload
  | .register _ _ _ _ _ payload => some payload
  | .startEmailVerification _ _ payload => some payload
  | .startPasswordReset _ _ payload => some payload
  | _ => none

/-- The jti of a link: drawn by `uuid4`, spent by the transaction that mails it. -/
def linkJtis : Keys Op Op.Res World where
  counter := World.uuids
  draws
    | .uuid4, jti => some jti
    | _, _ => none
  spends op := op.email.map (fun payload => payload.token.jti)

theorem linkJtis_lawful (cfg : Config) : linkJtis.Lawful (service cfg) := by
  apply drawn_lawful rfl
  intro op w jti h
  cases op <;> cases h
  exact ⟨rfl, rfl⟩

/-- A request mails only links under jtis it drew. -/
theorem serve_keeps_linkJtis (cfg : Config) (req : Request) : linkJtis.Keeps (serve cfg req) ∅ := by
  have hrest : (∀ op, Calls req op → linkJtis.spends op = none) → linkJtis.Keeps (serve cfg req) ∅ :=
    fun h => Keys.keeps_of_uses ((serve_calls cfg req).mono h (fun _ h => h))
  cases req with
  | createUser data =>
    refine ⟨nofun, fun userId => ⟨nofun, fun now => ⟨nofun, fun jti => ⟨nofun, fun salt => ⟨?_, ?_⟩⟩⟩⟩⟩
    · intro key hkey
      cases hkey
      exact .inl ⟨.inr rfl, nofun⟩
    · intro r
      cases r <;> trivial
  | resendVerification email =>
    refine ⟨nofun, ?_⟩
    intro user
    cases user with
    | none => trivial
    | some user =>
      show linkJtis.Keeps (Prog.bind (ite _ _ _) _) _
      split
      · trivial
      · refine ⟨nofun, fun now => ⟨nofun, fun jti => ⟨?_, ?_⟩⟩⟩
        · intro key hkey
          cases hkey
          exact .inr rfl
        · intro r
          cases r <;> trivial
  | forgotPassword email =>
    refine ⟨nofun, ?_⟩
    intro user
    cases user with
    | none => trivial
    | some user =>
      show linkJtis.Keeps (Prog.bind (ite _ _ _) _) _
      split
      · trivial
      · refine ⟨nofun, fun now => ⟨nofun, fun jti => ⟨?_, ?_⟩⟩⟩
        · intro key hkey
          cases hkey
          exact .inr rfl
        · intro r
          cases r <;> trivial
  | _ =>
    apply hrest
    intro op hop
    cases op <;> first | rfl | cases hop

/-! The tokens handed out. -/

def World.issuedTokens (w : World) : Set TokenPayload := fun token => w.issued token = true

theorem World.mem_issuedTokens {w : World} {token : TokenPayload} :
    token ∈ w.issuedTokens ↔
      token ∈ w.signed ∨ ∃ e ∈ w.staged, e.payload.token = token := by
  show w.issued token = true ↔ _
  simp only [issued, Bool.or_eq_true, List.contains_iff_mem, List.any_eq_true, decide_eq_true_eq]

/-- An operation hands out the token of the email it stages. -/
theorem issuedTokens_execOp (cfg : Config) (op : Op) (w : World) :
    ∀ token ∈ (execOp cfg op w).2.issuedTokens, token ∈ w.issuedTokens ∨
      ∃ payload, op.email = some payload ∧ payload.token = token := by
  intro token h
  rw [World.mem_issuedTokens] at h ⊢
  rw [(execOp_frame cfg op w).2.1] at h
  rcases h with hsigned | ⟨e, he, htoken⟩
  · exact .inl (.inl hsigned)
  · rcases execOp_event_from cfg op he with ⟨e₀, he₀, hsame⟩ | ⟨_, _, _, _, _, rfl, -⟩ | ⟨userId, pending, hop⟩
    · exact .inl (.inr ⟨e₀, he₀, by rw [← hsame.2]; exact htoken⟩)
    · exact .inr ⟨e.payload, rfl, htoken⟩
    · refine .inr ⟨e.payload, ?_, htoken⟩
      cases op <;> cases hop <;> rfl

/-- A response hands out two tokens, under the next two ids, or none. -/
theorem World.signed_respond (cfg : Config) (req : Request) (out : Except Err Response) (w : World) :
    (w.respond cfg req out).signed = w.signed ∨
      ∃ access refresh, (w.respond cfg req out).signed = refresh :: access :: w.signed ∧
        access.jti = w.uuids ∧ refresh.jti = w.uuids + 1 ∧ (w.respond cfg req out).uuids = w.uuids + 2 := by
  unfold respond
  split
  · exact .inr ⟨_, _, rfl, rfl, rfl, rfl⟩
  · exact .inl rfl

theorem issuedTokens_respond (cfg : Config) (req : Request) (out : Except Err Response) (w : World) :
    (w.respond cfg req out).issuedTokens = w.issuedTokens ∨
      ∃ access refresh, access.jti = w.uuids ∧ refresh.jti = w.uuids + 1 ∧
        (w.respond cfg req out).uuids = w.uuids + 2 ∧
        (w.respond cfg req out).issuedTokens = insert refresh (insert access w.issuedTokens) := by
  have hstaged := (w.respond_staged cfg req out).2
  rcases w.signed_respond cfg req out with hsame | ⟨access, refresh, hsigned, haccess, hrefresh, huuids⟩
  · left
    ext token
    rw [World.mem_issuedTokens, World.mem_issuedTokens, hsame, hstaged]
  · right
    refine ⟨access, refresh, haccess, hrefresh, huuids, ?_⟩
    ext token
    simp only [Set.mem_insert_iff, World.mem_issuedTokens, hsigned, hstaged, List.mem_cons, or_assoc]

/-- One more key that is not there yet. -/
theorem injOn_insert_fresh {α : Type} {f : α → Nat} {t : Set α} {a : α} (ht : Set.InjOn f t)
    (ha : ∀ b ∈ t, f b ≠ f a) : Set.InjOn f (insert a t) := by
  have hnot : a ∉ t := fun h => ha a h rfl
  refine (Set.injOn_insert hnot).mpr ⟨ht, ?_⟩
  intro himage
  obtain ⟨b, hb, heq⟩ := himage
  exact ha b hb heq

/-- The jtis of the issued tokens are spent, each for one token. -/
def DistinctJtis (s : Service) : Prop :=
  ∃ gone, linkJtis.Owned gone s ∧ (∀ token ∈ s.state.issuedTokens, token.jti ∈ gone) ∧
    Set.InjOn TokenPayload.jti s.state.issuedTokens

/-- The operation hands out at most the token whose jti it spends. -/
theorem distinctJtis_execOp (cfg : Config) {s : Service} {gone : Set Nat} {i : Nat} {op : Op}
    (howned : linkJtis.Owned gone s) (hw : s.Waits i op)
    (hjtis : ∀ token ∈ s.state.issuedTokens, token.jti ∈ gone)
    (hinj : Set.InjOn TokenPayload.jti s.state.issuedTokens) :
    (∀ token ∈ (execOp cfg op s.state).2.issuedTokens,
      token.jti ∈ gone ∪ linkJtis.spentBy s (.run i : Action Request Event)) ∧
    Set.InjOn TokenPayload.jti (execOp cfg op s.state).2.issuedTokens := by
  have hfrom := issuedTokens_execOp cfg op s.state
  have hspends : ∀ payload, op.email = some payload → linkJtis.spends op = some payload.token.jti := by
    intro payload hemail
    show op.email.map _ = _
    rw [hemail]
    rfl
  refine ⟨?_, ?_⟩
  · intro token htoken
    rcases hfrom token htoken with hold | ⟨payload, hemail, rfl⟩
    · exact .inl (hjtis token hold)
    · exact .inr ⟨op, hw, hspends payload hemail⟩
  · cases hemail : op.email with
    | none =>
      refine hinj.mono ?_
      intro token htoken
      rcases hfrom token htoken with hold | ⟨payload, hpayload, -⟩
      · exact hold
      · rw [hemail] at hpayload
        cases hpayload
    | some payload =>
      have hnew : ∀ token ∈ s.state.issuedTokens, token.jti ≠ payload.token.jti := by
        intro token htoken heq
        exact howned.not_gone hw (hspends payload hemail) (heq ▸ hjtis token htoken)
      refine (injOn_insert_fresh hinj hnew).mono ?_
      intro token htoken
      rcases hfrom token htoken with hold | ⟨payload', hpayload, rfl⟩
      · exact Set.mem_insert_of_mem _ hold
      · rw [hemail] at hpayload
        cases hpayload
        exact Set.mem_insert _ _

theorem distinctJtis_run {cfg : Config} {s s' : Service} {i : Nat} {op : Op} (hs : Served.Pool cfg s)
    (hw : s.Waits i op) (ha : (service cfg).step s (.run i) = some s') (h : DistinctJtis s) :
    DistinctJtis s' := by
  obtain ⟨gone, howned, hjtis, hinj⟩ := h
  obtain ⟨hjtis₁, hinj₁⟩ := distinctJtis_execOp cfg howned hw hjtis hinj
  have hbelow : ∀ token ∈ (execOp cfg op s.state).2.issuedTokens,
      token.jti < (execOp cfg op s.state).2.uuids := by
    intro token htoken
    have hspent : token.jti < s.state.uuids := by
      rcases hjtis₁ token htoken with hgone | ⟨op', hw', hspends⟩
      · exact Keys.Owned.past howned hgone
      · exact Keys.Owned.drawn howned hw' hspends
    exact Nat.lt_of_lt_of_le hspent (execOp_uuids cfg op s.state)
  refine ⟨_, Keys.Owned.run (linkJtis_lawful cfg) howned ha, ?_⟩
  obtain ⟨-, ⟨hstate, -⟩ | ⟨req, out, hstate, -⟩⟩ := run_guarantee hs hw ha
  · rw [hstate]
    exact ⟨fun token htoken => .inl (hjtis₁ token htoken), hinj₁⟩
  · rcases issuedTokens_respond cfg req out (execOp cfg op s.state).2 with
      hsame | ⟨access, refresh, haccess, hrefresh, hnext, hissued⟩
    · rw [hstate, hsame]
      exact ⟨fun token htoken => .inl (hjtis₁ token htoken), hinj₁⟩
    · -- the response's two tokens take the ids the counter passes over
      have hpass : ∀ key, (execOp cfg op s.state).2.uuids ≤ key → key < (execOp cfg op s.state).2.uuids + 2 →
          key ∈ linkJtis.passedBy (service cfg) s s' i := by
        intro key hle hlt
        refine ⟨op, hw, hle, ?_⟩
        show key < s'.state.uuids
        rw [hstate, hnext]
        exact hlt
      rw [hstate, hissued]
      refine ⟨?_, injOn_insert_fresh (injOn_insert_fresh hinj₁ ?_) ?_⟩
      · intro token htoken
        rcases htoken with rfl | rfl | hold
        · exact .inr (hpass _ (by omega) (by omega))
        · exact .inr (hpass _ (by omega) (by omega))
        · exact .inl (hjtis₁ token hold)
      · intro token htoken
        rw [haccess]
        exact Nat.ne_of_lt (hbelow token htoken)
      · intro token htoken
        rw [hrefresh]
        rcases htoken with rfl | hold
        · omega
        · exact Nat.ne_of_lt (Nat.lt_succ_of_lt (hbelow token hold))

theorem distinctJtis_step {cfg : Config} {s s' : Service} {a : Action Request Event} (hs : Served.Pool cfg s)
    (ha : (service cfg).step s a = some s') (h : DistinctJtis s) : DistinctJtis s' := by
  have hrest : s'.state.issuedTokens = s.state.issuedTokens → DistinctJtis s' := by
    intro hsame
    obtain ⟨gone, howned, hjtis, hinj⟩ := h
    refine ⟨gone, ?_, ?_⟩
    · exact (howned.step (linkJtis_lawful cfg) (serve_keeps_linkJtis cfg) ha).mono Set.subset_union_left
    · rw [hsame]
      exact ⟨hjtis, hinj⟩
  rcases step_world hs ha with ⟨-, -, hstate⟩ | ⟨i, op, rfl, hw, -⟩ | ⟨e, rfl, he⟩
  · exact hrest (by rw [hstate])
  · exact distinctJtis_run hs hw ha h
  · obtain ⟨-, -, hsigned, -⟩ := World.event_frame he
    apply hrest
    ext token
    rw [World.mem_issuedTokens, World.mem_issuedTokens, (World.event_staged he).2, hsigned]

/-! The tokens taken back. -/

/-- The tokens an operation puts into the table. -/
def Op.revokes : Op → List TokenRef
  | .verifyEmail _ token => [token.ref]
  | .resetPassword _ _ token _ => [token.ref]
  | .logout _ tokens _ => tokens
  | .closeAccount _ tokens _ => tokens
  | _ => []

theorem Justified.revokes {op : Op} {w : World} (h : Justified op w) :
    ∀ ref ∈ op.revokes, ∃ p, w.issued p = true ∧ p.ref = ref := by
  intro ref href
  cases op with
  | verifyEmail userId token => exact ⟨token, h.2.2, (List.mem_singleton.mp href).symm⟩
  | resetPassword userId passwordHash token snapshot => exact ⟨token, h.2.2, (List.mem_singleton.mp href).symm⟩
  | logout userId tokens refreshSessionId => exact h ref href
  | closeAccount userId tokens snapshot => exact h ref href
  | _ => cases href

/-- Every row was there before or is one of the tokens'. -/
theorem Db.row_addAll {tokens : List TokenRef} {db : Db} {k : Uuid} {row : RevokedToken}
    (h : (db.addAll tokens).revokedTokens.get k = some row) :
    db.revokedTokens.get k = some row ∨ ∃ ref ∈ tokens, row = ⟨ref.jti, ref.expiresAt⟩ := by
  rw [Db.get_addAll, Option.or_eq_some_iff, Option.map_eq_some_iff] at h
  rcases h with hold | ⟨-, ref, hfind, hrow⟩
  · exact .inl hold
  · exact .inr ⟨ref, List.mem_of_find?_eq_some hfind, hrow.symm⟩

/-- Every token has a row. -/
theorem Db.added_addAll {tokens : List TokenRef} {db : Db} {ref : TokenRef} (h : ref ∈ tokens) :
    ((db.addAll tokens).revokedTokens.get ref.jti).isSome = true := by
  have hfind : (tokens.find? (fun token => token.jti = ref.jti)).isSome = true := by
    rw [List.find?_isSome]
    exact ⟨ref, h, decide_eq_true rfl⟩
  simp [Db.get_addAll, hfind]

theorem Effect.row_from {w : World} {op : Op} {r : op.Res} {db' : Db} (h : Effect w op r db') {k : Uuid}
    {row : RevokedToken} (hrow : db'.revokedTokens.get k = some row) :
    w.db.revokedTokens.get k = some row ∨ ∃ ref ∈ op.revokes, row = ⟨ref.jti, ref.expiresAt⟩ := by
  have hinsert : ∀ {model : RevokedToken} {revokedTokens}, w.db.revokedTokens.insert model = some revokedTokens →
      revokedTokens.get k = some row → w.db.revokedTokens.get k = some row ∨ row = model := by
    intro model revokedTokens hi hget
    rw [Table.get_insert hi] at hget
    split at hget
    · cases hget
      exact .inr rfl
    · exact .inl hget
  cases h with
  | same _ => exact .inl hrow
  | registered hu he => exact .inl hrow
  | updated hu => exact .inl hrow
  | @verified userId token u revokedTokens hu ht =>
    exact (hinsert ht hrow).imp_right (fun h => ⟨token.ref, List.mem_singleton_self _, h⟩)
  | @reset userId passwordHash token snapshot u revokedTokens hu ht =>
    exact (hinsert ht hrow).imp_right (fun h => ⟨token.ref, List.mem_singleton_self _, h⟩)
  | mailed hop hu he => exact .inl hrow
  | @loggedOut userId tokens sid =>
    cases sid with
    | none => exact Db.row_addAll hrow
    | some sid => exact Db.row_addAll hrow
  | @closed userId tokens snapshot u hu =>
    have hadd : ((w.db.setUser userId { isActive := some false } w.now).addAll tokens).revokedTokens.get k =
      some row := hrow
    have hfrom := Db.row_addAll hadd
    exact hfrom
  | opened hu hi => exact .inl hrow
  | rotated hr hrot => exact .inl hrow
  | revoked => exact .inl hrow
  | purgedSessions => exact .inl hrow
  | purgedTokens =>
    rw [Table.get_deleteWhere, Option.filter_eq_some_iff] at hrow
    exact .inl hrow.1
  | purgedEvents => exact .inl hrow
  | dispatched => exact .inl hrow

/-- The rows are issued tokens'. -/
def RowsIssued (w : World) : Prop :=
  ∀ k row, w.db.revokedTokens.get k = some row → ∃ p, w.issued p = true ∧ p.ref = ⟨row.jti, row.expiresAt⟩

theorem rowsIssued_guarantee {cfg : Config} {op : Op} {w w' : World} (hg : Guarantee cfg op w w')
    (h : RowsIssued w) : RowsIssued w' := by
  intro k row hrow
  obtain ⟨r, heff, -⟩ := hg.effect
  have hissued : ∃ p, w.issued p = true ∧ p.ref = ⟨row.jti, row.expiresAt⟩ := by
    rcases heff.row_from hrow with hold | ⟨ref, href, rfl⟩
    · exact h k row hold
    · exact hg.1.revokes ref href
  obtain ⟨p, hp, href⟩ := hissued
  exact ⟨p, hg.evolves.issued hp, href⟩

section Runs
variable {cfg : Config} {C : Service → Action Request Event → Prop} {now : Time} {s : Service}

theorem distinctJtis_steps (h : (service cfg).Steps C (System.start (World.init now)) s) : DistinctJtis s := by
  have key : Served.Pool cfg s ∧ DistinctJtis s := by
    refine h.invariant (J := fun v => Served.Pool cfg v ∧ DistinctJtis v) ?_
      ⟨served_start now, ∅, Keys.owned_start _, ?_, ?_⟩
    · intro v a v' hv _ ha
      exact ⟨(service_sound cfg (fun _ _ => True)).step hv.1 trivial ha, distinctJtis_step hv.1 ha hv.2⟩
    · intro token htoken
      cases htoken
    · intro token htoken
      cases htoken
  exact key.2

theorem rowsIssued_steps (h : (service cfg).Steps C (System.start (World.init now)) s) : RowsIssued s.state := by
  refine run_invariant (P := RowsIssued) ?_ ?_ h (served_start now) ?_
  · intro v i op w' _ hP _ _ hg
    exact rowsIssued_guarantee hg hP
  · intro v e w' _ hP _ he k row hrow
    rw [(World.event_frame he).1] at hrow
    obtain ⟨p, hp, href⟩ := hP k row hrow
    exact ⟨p, (World.event_evolves he).issued hp, href⟩
  · intro k row hrow
    cases hrow

/-- The row under an issued token's jti is that token's. -/
theorem row_of_ref (h : (service cfg).Steps C (System.start (World.init now)) s) {p : TokenPayload}
    (hp : s.state.issued p = true) {row : RevokedToken} (hrow : s.state.db.revokedTokens.get p.jti = some row) :
    row = ⟨p.ref.jti, p.ref.expiresAt⟩ := by
  obtain ⟨gone, -, -, hinj⟩ := distinctJtis_steps h
  obtain ⟨q, hq, href⟩ := rowsIssued_steps h _ _ hrow
  have hkey : row.jti = p.jti := Table.get_key hrow
  have hsame : q.jti = p.jti := by
    rw [← hkey]
    exact congrArg TokenRef.jti href
  rw [hinj hq hp hsame] at href
  rw [href]

end Runs

end FastiKit
