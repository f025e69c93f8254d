import Mathlib
import FastiKit.Auth.Keyed

/- `UserService.update` down to the UPDATE, and the error it makes of a refusal.

   Correspondence (Python ↔ Lean):
     `UserModel.email`, `full_name` (`String(255)`)   ↔ `varchar`
     `UserRepository.stage_update`                    ↔ `flush`, after the `get`
     `_flush_or_raise`                                ↔ `flushOrRaise`
     `UserService.update`                             ↔ `update`
   Postgres coerces what the UPDATE sets, then checks NOT NULL column by column, then
   the unique index. What it writes of a refusal is a parameter (`Texts`), and so is
   bcrypt, which refuses long passwords. `_flush_or_raise` looks for "email" anywhere
   in the text. -/
namespace FastiKit.EmailConflict
open Relational

/-- `"email" in str(err.orig).lower()` -/
def mentionsEmail (orig : String) : Bool := decide ("email".toList <:+: orig.toLower.toList)

/-- The texts of integrity errors: each names the column or the constraint, and one
about a column shows the row, which is null in that column. -/
structure Texts where
  orig : Violation → String
  failingRow : String → User → String
  null_email : ∀ row, mentionsEmail (orig (.notNull "email" row)) = true
  null_fullName : ∀ row, mentionsEmail (orig (.notNull "full_name" row)) = mentionsEmail (failingRow "full_name" row)
  unique_email : ∀ email, mentionsEmail (orig (.uniqueEmail email)) = true

inductive UpdateError where
  | value
  | notFound
  | conflict
  | integrity (err : IntegrityError)
  | data
  deriving DecidableEq, Repr

/-- A text as a `varchar(255)` stores it: what is too long is cut where only blanks are
lost, and refused elsewhere. -/
def varchar (text : String) : Option String :=
  if '\x00' ∈ text.toList then none
  else if text.toList.length ≤ 255 then some text
  else if (text.toList.drop 255).all (· = ' ') then some (String.ofList (text.toList.take 255))
  else none

/-- What becomes of a column's value; one that has not changed is not sent. -/
def coerced (old : String) : Option (Option String) → Option (Option (Option String))
  | some (some text) =>
    if text = old then some (some (some text)) else (varchar text).map (fun stored => some (some stored))
  | absent => some absent

def coercedFields (u : User) (f : UserFields) : Option UserFields :=
  (coerced u.email f.email).bind (fun email =>
    (coerced u.fullName f.fullName).map (fun fullName => { f with email, fullName }))

/-- Some attribute has a new value. -/
def changes (u : User) (f : UserFields) : Bool := f.nullColumn.isSome || decide (f.set u ≠ u)

/-- The row as the UPDATE writes it. -/
def sent (f : UserFields) (now : Time) (u : User) : User := { f.set u with updatedAt := now }

theorem sent_id (f : UserFields) (now : Time) (u : User) : (sent f now u).id = u.id := rfl

/-- The UPDATE of a row, sent if something changes, and the entity that is returned. -/
def flush (texts : Texts) (db : Db) (u : User) (f : UserFields) (now : Time) : Except UpdateError (User × Db) :=
  if !changes u f then .ok (u, db)
  else match coercedFields u f with
    | none => .error .data
    | some stored =>
      match stored.nullColumn with
      | some column => .error (.integrity ⟨texts.orig (.notNull column (stored.set u))⟩)
      | none =>
        if db.emailTaken (stored.set u).email u.id then
          .error (.integrity ⟨texts.orig (.uniqueEmail (stored.set u).email)⟩)
        else
          let users := db.users.updateWhere (fun r => r.id = u.id) (sent stored now) (sent_id stored now)
          .ok (sent f now u, { db with users })

/-- `_flush_or_raise` -/
def flushOrRaise {α : Type} : Except UpdateError α → Except UpdateError α
  | .error (.integrity err) => if mentionsEmail err.orig then .error .conflict else .error (.integrity err)
  | out => out

/-- The fields of a request: those that are set, and the hash of a password that is not null. -/
def fieldsOf (hashpw : String → Option PasswordHash) (data : UpdateUserRequest) : UserFields :=
  { email := data.email, fullName := data.fullName, passwordHash := data.password.join.bind hashpw }

/-- `hashpw` does not raise. -/
def Hashable (hashpw : String → Option PasswordHash) (data : UpdateUserRequest) : Prop :=
  ∀ password, data.password = some (some password) → (hashpw password).isSome

instance (hashpw : String → Option PasswordHash) (data : UpdateUserRequest) : Decidable (Hashable hashpw data) :=
  match h : data.password with
  | some (some password) =>
    decidable_of_iff ((hashpw password).isSome = true) ⟨by
      intro hsome p hp
      rw [h] at hp
      cases hp
      exact hsome, fun hall => hall password h⟩
  | some none => isTrue (by intro p hp; rw [h] at hp; cases hp)
  | none => isTrue (by intro p hp; rw [h] at hp; cases hp)

/-- `UserService.update` -/
def update (texts : Texts) (hashpw : String → Option PasswordHash) (db : Db) (userId : Uuid) (data : UpdateUserRequest)
    (now : Time) : Except UpdateError (User × Db) :=
  if Hashable hashpw data then
    match db.users.get userId with
    | none => .error .notFound
    | some u => flushOrRaise (flush texts db u (fieldsOf hashpw data) now)
  else .error .value

/-- What `EmailStr` accepts is short, and has no NUL. -/
def Accepted (data : UpdateUserRequest) : Prop :=
  ∀ email, data.email = some (some email) → email.toList.length ≤ 254 ∧ '\x00' ∉ email.toList

/-- The request sets an email that another user has. -/
def EmailHeld (db : Db) (userId : Uuid) (data : UpdateUserRequest) : Prop :=
  ∃ email, data.email = some (some email) ∧ ∃ r ∈ db.users.rows, r.email = email ∧ r.id ≠ userId

/-- The row with the values of the request, and nothing else but `updated_at` changed. -/
def Supplied (hashpw : String → Option PasswordHash) (data : UpdateUserRequest) (u row : User) : Prop :=
  ∃ updatedAt, row = { u with
    email := data.email.join.getD u.email
    fullName := data.fullName.join.getD u.fullName
    passwordHash := (data.password.join.bind hashpw).getD u.passwordHash
    updatedAt }

/-- The error tells a conflict of emails, and a return that the row has what was supplied. -/
structure Exact (texts : Texts) (hashpw : String → Option PasswordHash) (db : Db) (u : User) (data : UpdateUserRequest)
    (now : Time) : Prop where
  conflict : update texts hashpw db u.id data now = .error .conflict ↔ EmailHeld db u.id data
  row : ∀ result db', update texts hashpw db u.id data now = .ok (result, db') →
    ∃ row, db'.users.get u.id = some row ∧ Supplied hashpw data u row

/-- A name that is given, new and not stored as it is. -/
def NewName (u : User) (data : UpdateUserRequest) (stored : String → Option String → Prop) : Prop :=
  ∃ name, data.fullName = some (some name) ∧ name ≠ u.fullName ∧ stored name (varchar name)

/-- The column refuses the name. -/
def Refused (u : User) (data : UpdateUserRequest) : Prop := NewName u data (fun _ stored => stored = none)

/-- The column cuts the name. -/
def Cut (u : User) (data : UpdateUserRequest) : Prop :=
  NewName u data (fun name stored => stored.isSome ∧ stored ≠ some name)

/-- The row that is shown when the name is null mentions an email. -/
def RowMentions (texts : Texts) (hashpw : String → Option PasswordHash) (u : User) (data : UpdateUserRequest) : Prop :=
  mentionsEmail (texts.failingRow "full_name" ((fieldsOf hashpw data).set u)) = true

/-- What keeps the error exact. -/
structure Clear (texts : Texts) (hashpw : String → Option PasswordHash) (db : Db) (u : User) (data : UpdateUserRequest) :
    Prop where
  held : EmailHeld db u.id data → Hashable hashpw data ∧ ¬ Refused u data ∧
    (data.fullName = some none → RowMentions texts hashpw u data)
  free : ¬ EmailHeld db u.id data → Hashable hashpw data → ¬ Refused u data →
    data.email ≠ some none ∧ (data.fullName = some none → ¬ RowMentions texts hashpw u data)
  whole : Cut u data → Hashable hashpw data → data.email ≠ some none → EmailHeld db u.id data

/-- The fields of the UPDATE, with this name. -/
def sentFields (hashpw : String → Option PasswordHash) (data : UpdateUserRequest) (stored : Option (Option String)) :
    UserFields :=
  { email := data.email, fullName := stored, passwordHash := data.password.join.bind hashpw }

/-! The columns. -/

theorem varchar_short {text : String} (hlen : text.toList.length ≤ 255) (hnul : '\x00' ∉ text.toList) :
    varchar text = some text := by
  rw [varchar, if_neg hnul, if_pos hlen]

section Columns
variable {hashpw : String → Option PasswordHash} {data : UpdateUserRequest} {u : User} {db : Db}

/-- An accepted email is stored as it is. -/
theorem coerced_email (h : Accepted data) : coerced u.email data.email = some data.email := by
  match hemail : data.email with
  | none => rfl
  | some none => rfl
  | some (some email) =>
    obtain ⟨hlen, hnul⟩ := h email hemail
    rw [coerced, varchar_short (by omega) hnul]
    split <;> rfl

theorem coercedFields_eq (h : Accepted data) : coercedFields u (fieldsOf hashpw data) =
    (coerced u.fullName data.fullName).map (sentFields hashpw data) := by
  have hemail : (fieldsOf hashpw data).email = data.email := rfl
  rw [coercedFields, hemail, coerced_email h]
  rfl

theorem coerced_eq_none : coerced u.fullName data.fullName = none ↔ Refused u data := by
  unfold Refused NewName
  match hname : data.fullName with
  | none => simp [coerced]
  | some none => simp [coerced]
  | some (some name) =>
    by_cases hsame : name = u.fullName
    · simp [coerced, hsame]
    · simp [coerced, hsame]

/-- What the column stores of a name that it does not refuse. -/
theorem coerced_name {stored : Option (Option String)} (h : coerced u.fullName data.fullName = some stored) :
    (data.fullName = some none ↔ stored = some none) ∧
      (stored.join.getD u.fullName = data.fullName.join.getD u.fullName ↔ ¬ Cut u data) := by
  unfold Cut NewName
  match hname : data.fullName with
  | none =>
    rw [hname] at h
    obtain rfl := Option.some.inj h
    simp
  | some none =>
    rw [hname] at h
    obtain rfl := Option.some.inj h
    simp
  | some (some name) =>
    rw [hname, coerced] at h
    by_cases hsame : name = u.fullName
    · rw [if_pos hsame] at h
      obtain rfl := Option.some.inj h
      simp [hsame]
    · rw [if_neg hsame] at h
      obtain ⟨text, htext, rfl⟩ := Option.map_eq_some_iff.mp h
      simp [hsame, htext]

end Columns

/-! The flush. -/

section Flush
variable {texts : Texts} {hashpw : String → Option PasswordHash} {data : UpdateUserRequest} {u : User} {db : Db}
  {now : Time}

/-- What is null, or differs from the row, is a change. -/
theorem changes_of_null (h : data.email = some none ∨ data.fullName = some none) :
    changes u (fieldsOf hashpw data) = true := by
  have hnull : (fieldsOf hashpw data).nullColumn.isSome = true := by
    unfold UserFields.nullColumn fieldsOf
    obtain h | h := h
    · simp [h]
    · by_cases hemail : data.email = some none
      · simp [hemail]
      · simp [hemail, h]
  simp [changes, hnull]

theorem changes_of_set (h : (fieldsOf hashpw data).set u ≠ u) : changes u (fieldsOf hashpw data) = true := by
  simp [changes, h]

theorem set_email (stored : Option (Option String)) :
    ((sentFields hashpw data stored).set u).email = data.email.join.getD u.email := rfl

theorem changes_of_name {stored : String → Option String → Prop} (h : NewName u data stored) :
    changes u (fieldsOf hashpw data) = true := by
  obtain ⟨name, hname, hnew, -⟩ := h
  apply changes_of_set
  intro hsame
  refine hnew ?_
  have hfull : ((fieldsOf hashpw data).set u).fullName = name := by simp [fieldsOf, UserFields.set, hname]
  rw [← hfull, hsame]

theorem flush_refused (h : Accepted data) (hrefused : Refused u data) :
    flush texts db u (fieldsOf hashpw data) now = .error .data := by
  rw [flush, changes_of_name hrefused, coercedFields_eq h, coerced_eq_none.mpr hrefused]
  rfl

variable (hashpw) in
/-- The fields the UPDATE sets. -/
theorem coercedFields_some (h : Accepted data) (hfits : ¬ Refused u data) : ∃ stored,
    coerced u.fullName data.fullName = some stored ∧
      coercedFields u (fieldsOf hashpw data) = some (sentFields hashpw data stored) := by
  cases hstored : coerced u.fullName data.fullName with
  | none => exact absurd (coerced_eq_none.mp hstored) hfits
  | some stored =>
    refine ⟨stored, rfl, ?_⟩
    rw [coercedFields_eq h, hstored]
    rfl

variable (texts hashpw db now) in
theorem flush_null_email (h : Accepted data) (hfits : ¬ Refused u data) (hnull : data.email = some none) : ∃ row,
    flush texts db u (fieldsOf hashpw data) now = .error (.integrity ⟨texts.orig (.notNull "email" row)⟩) := by
  obtain ⟨stored, -, hfields⟩ := coercedFields_some hashpw h hfits
  have hcolumn : (sentFields hashpw data stored).nullColumn = some "email" := by
    simp [UserFields.nullColumn, sentFields, hnull]
  refine ⟨(sentFields hashpw data stored).set u, ?_⟩
  rw [flush, changes_of_null (.inl hnull), hfields]
  simp only [Bool.not_true, Bool.false_eq_true, if_false, hcolumn]

theorem flush_null_name (h : Accepted data) (hemail : data.email ≠ some none) (hnull : data.fullName = some none) :
    flush texts db u (fieldsOf hashpw data) now =
      .error (.integrity ⟨texts.orig (.notNull "full_name" ((fieldsOf hashpw data).set u))⟩) := by
  have hfields : coercedFields u (fieldsOf hashpw data) = some (fieldsOf hashpw data) := by
    rw [coercedFields_eq h, hnull]
    simp only [coerced, Option.map_some, Option.some.injEq]
    rw [← hnull]
    rfl
  have hcolumn : (fieldsOf hashpw data).nullColumn = some "full_name" := by
    simp [UserFields.nullColumn, fieldsOf, hemail, hnull]
  rw [flush, changes_of_null (.inr hnull), hfields]
  simp only [Bool.not_true, Bool.false_eq_true, if_false, hcolumn]

/-- The unique index refuses exactly an email that another user has. -/
theorem emailTaken_iff (hunique : db.UniqueEmails) (hu : db.users.get u.id = some u) (hnull : data.email ≠ some none) :
    db.emailTaken (data.email.join.getD u.email) u.id = true ↔ EmailHeld db u.id data := by
  unfold EmailHeld
  match hemail : data.email with
  | none =>
    have hown : db.emailTaken u.email u.id = false := hunique.emailTaken (Table.mem_of_get hu)
    simp [hown]
  | some none => exact absurd hemail hnull
  | some (some email) =>
    simp only [Db.emailTaken, List.any_eq_true, Bool.and_eq_true, decide_eq_true_eq, ne_eq, Option.some.injEq]
    constructor
    · intro htaken
      obtain ⟨r, hr, hsame, hother⟩ := htaken
      exact ⟨email, rfl, r, hr, hsame, hother⟩
    · intro hheld
      obtain ⟨held, rfl, r, hr, hsame, hother⟩ := hheld
      exact ⟨r, hr, hsame, hother⟩

theorem nullColumn_none {stored : Option (Option String)} (hemail : data.email ≠ some none)
    (hname : data.fullName ≠ some none) (hstored : coerced u.fullName data.fullName = some stored) :
    (sentFields hashpw data stored).nullColumn = none := by
  have hnull : stored ≠ some none := fun heq => hname ((coerced_name hstored).1.mpr heq)
  simp [UserFields.nullColumn, sentFields, hemail, hnull]

variable (texts hashpw now) in
theorem flush_held (h : Accepted data) (hunique : db.UniqueEmails) (hu : db.users.get u.id = some u)
    (hfits : ¬ Refused u data) (hname : data.fullName ≠ some none) (hheld : EmailHeld db u.id data) : ∃ email,
    flush texts db u (fieldsOf hashpw data) now = .error (.integrity ⟨texts.orig (.uniqueEmail email)⟩) := by
  obtain ⟨email, hemail, r, hr, hsame, hother⟩ := hheld
  have hnull : data.email ≠ some none := by simp [hemail]
  have hchanges : changes u (fieldsOf hashpw data) = true := by
    apply changes_of_set
    intro heq
    have hown : u.email = email := by
      have hset : ((fieldsOf hashpw data).set u).email = email := by simp [fieldsOf, UserFields.set, hemail]
      rw [← hset, heq]
    exact hother (hunique r hr u (Table.mem_of_get hu) (hsame.trans hown.symm))
  obtain ⟨stored, hstored, hfields⟩ := coercedFields_some hashpw h hfits
  have htaken := (emailTaken_iff hunique hu hnull).mpr ⟨email, hemail, r, hr, hsame, hother⟩
  refine ⟨data.email.join.getD u.email, ?_⟩
  rw [flush, hchanges, hfields]
  simp only [Bool.not_true, Bool.false_eq_true, if_false, nullColumn_none hnull hname hstored, set_email, htaken, if_true]

variable (texts hashpw now) in
/-- The row a flush leaves has what was supplied unless the name was cut. -/
theorem flush_free (h : Accepted data) (hunique : db.UniqueEmails) (hu : db.users.get u.id = some u)
    (hfits : ¬ Refused u data) (hemail : data.email ≠ some none) (hname : data.fullName ≠ some none)
    (hfree : ¬ EmailHeld db u.id data) : ∃ result db' row,
    flush texts db u (fieldsOf hashpw data) now = .ok (result, db') ∧ db'.users.get u.id = some row ∧
      (Supplied hashpw data u row ↔ ¬ Cut u data) := by
  cases hchanges : changes u (fieldsOf hashpw data) with
  | false =>
    refine ⟨u, db, u, by rw [flush, hchanges]; rfl, hu, ?_⟩
    have hwhole : ¬ Cut u data := by
      intro hcut
      rw [changes_of_name hcut] at hchanges
      cases hchanges
    have hsame : (fieldsOf hashpw data).set u = u := by
      by_contra hne
      rw [changes_of_set hne] at hchanges
      cases hchanges
    refine ⟨fun _ => hwhole, fun _ => ⟨u.updatedAt, ?_⟩⟩
    exact hsame.symm
  | true =>
    obtain ⟨stored, hstored, hfields⟩ := coercedFields_some hashpw h hfits
    have htaken : db.emailTaken (data.email.join.getD u.email) u.id = false := by
      rw [← Bool.not_eq_true, emailTaken_iff hunique hu hemail]
      exact hfree
    let users := db.users.updateWhere (fun r => r.id = u.id) (sent (sentFields hashpw data stored) now)
      (sent_id _ now)
    refine ⟨sent (fieldsOf hashpw data) now u, { db with users }, sent (sentFields hashpw data stored) now u, ?_, ?_, ?_⟩
    · rw [flush, hchanges, hfields]
      simp only [Bool.not_true, Bool.false_eq_true, if_false, nullColumn_none hemail hname hstored, set_email, htaken,
        users]
    · have hget : users.get u.id = some (sent (sentFields hashpw data stored) now u) := by
        simp only [users, Table.get_updateWhere, hu]
        simp
      exact hget
    · rw [← (coerced_name hstored).2]
      constructor
      · intro hrow
        obtain ⟨updatedAt, hrow⟩ := hrow
        exact congrArg User.fullName hrow
      · intro hfull
        refine ⟨now, ?_⟩
        rw [← hfull]
        rfl

end Flush

/-! The service. -/

section Update
variable {texts : Texts} {hashpw : String → Option PasswordHash} {data : UpdateUserRequest} {u : User} {db : Db}
  {now : Time}

theorem update_eq (hhash : Hashable hashpw data) (hu : db.users.get u.id = some u) :
    update texts hashpw db u.id data now = flushOrRaise (flush texts db u (fieldsOf hashpw data) now) := by
  rw [update, if_pos hhash, hu]

theorem flushOrRaise_integrity {α : Type} {orig : String} :
    (flushOrRaise (.error (.integrity ⟨orig⟩)) : Except UpdateError α) = .error .conflict ↔ mentionsEmail orig = true := by
  unfold flushOrRaise
  cases hmentions : mentionsEmail orig with
  | true => simp [hmentions]
  | false => simp [hmentions]

variable (texts hashpw now) in
/-- When an update ends in a conflict. -/
theorem update_conflict_iff (h : Accepted data) (hunique : db.UniqueEmails) (hu : db.users.get u.id = some u) :
    update texts hashpw db u.id data now = .error .conflict ↔
      Hashable hashpw data ∧ ¬ Refused u data ∧
        (data.email = some none ∨
          data.email ≠ some none ∧ (data.fullName = some none ∧ RowMentions texts hashpw u data ∨
            data.fullName ≠ some none ∧ EmailHeld db u.id data)) := by
  by_cases hhash : Hashable hashpw data
  · rw [update_eq hhash hu]
    simp only [hhash, true_and]
    by_cases hrefused : Refused u data
    · rw [flush_refused h hrefused]
      simp [flushOrRaise, hrefused]
    · simp only [hrefused, not_false_eq_true, true_and]
      by_cases hemail : data.email = some none
      · obtain ⟨row, hflush⟩ := flush_null_email texts hashpw db now h hrefused hemail
        rw [hflush, flushOrRaise_integrity]
        simp [texts.null_email, hemail]
      · simp only [hemail, ne_eq, not_false_eq_true, true_and, false_or]
        by_cases hname : data.fullName = some none
        · rw [flush_null_name h hemail hname, flushOrRaise_integrity, texts.null_fullName]
          simp [hname, RowMentions]
        · by_cases hheld : EmailHeld db u.id data
          · obtain ⟨email, hflush⟩ := flush_held texts hashpw now h hunique hu hrefused hname hheld
            rw [hflush, flushOrRaise_integrity]
            simp [texts.unique_email, hname, hheld]
          · obtain ⟨result, db', row, hflush, -⟩ :=
              flush_free texts hashpw now h hunique hu hrefused hemail hname hheld
            rw [hflush]
            simp [flushOrRaise, hname, hheld]
  · simp [update, hhash]

/-- What an update that returns has found, and the row it leaves. -/
theorem update_ok {result : User} {db' : Db} (h : Accepted data) (hunique : db.UniqueEmails)
    (hu : db.users.get u.id = some u) (hok : update texts hashpw db u.id data now = .ok (result, db')) :
    data.email ≠ some none ∧ ¬ EmailHeld db u.id data ∧ Hashable hashpw data ∧
      ∃ row, db'.users.get u.id = some row ∧ (Supplied hashpw data u row ↔ ¬ Cut u data) := by
  have hhash : Hashable hashpw data := by
    by_contra hno
    rw [update, if_neg hno] at hok
    cases hok
  rw [update_eq hhash hu] at hok
  -- a refusal does not return
  have hraises : ∀ err : IntegrityError, flushOrRaise (.error (.integrity err)) ≠ (.ok (result, db') : Except UpdateError (User × Db)) := by
    intro err
    unfold flushOrRaise
    simp only
    split <;> exact nofun
  have hfits : ¬ Refused u data := by
    intro hrefused
    rw [flush_refused h hrefused] at hok
    cases hok
  have hemail : data.email ≠ some none := by
    intro hnull
    obtain ⟨row, hflush⟩ := flush_null_email texts hashpw db now h hfits hnull
    rw [hflush] at hok
    exact hraises _ hok
  have hname : data.fullName ≠ some none := by
    intro hnull
    rw [flush_null_name h hemail hnull] at hok
    exact hraises _ hok
  have hfree : ¬ EmailHeld db u.id data := by
    intro hheld
    obtain ⟨email, hflush⟩ := flush_held texts hashpw now h hunique hu hfits hname hheld
    rw [hflush] at hok
    exact hraises _ hok
  obtain ⟨result', db'', row, hflush, hrow⟩ :=
    flush_free texts hashpw now h hunique hu hfits hemail hname hfree
  rw [hflush] at hok
  cases hok
  exact ⟨hemail, hfree, hhash, row, hrow⟩

/-- The error tells a conflict of emails and the row has what was supplied, if and only
if nothing gets in the way. -/
theorem update_exact_iff (texts : Texts) (hashpw : String → Option PasswordHash) (db : Db) (u : User)
    (data : UpdateUserRequest) (now : Time) (h : Accepted data) (hunique : db.UniqueEmails)
    (hu : db.users.get u.id = some u) : Exact texts hashpw db u data now ↔ Clear texts hashpw db u data := by
  have hiff := update_conflict_iff texts hashpw now h hunique hu
  have hset : EmailHeld db u.id data → data.email ≠ some none := by
    intro hheld
    obtain ⟨email, hemail, -⟩ := hheld
    simp [hemail]
  constructor
  · intro hexact
    have hconflict := hiff.symm.trans hexact.conflict
    refine ⟨?_, ?_, ?_⟩
    · intro hheld
      obtain ⟨hhash, hfits, hcase⟩ := hconflict.mpr hheld
      refine ⟨hhash, hfits, fun hname => ?_⟩
      obtain hnull | ⟨-, ⟨-, hmentions⟩ | ⟨hnot, -⟩⟩ := hcase
      · exact absurd hnull (hset hheld)
      · exact hmentions
      · exact absurd hname hnot
    · intro hfree hhash hfits
      have hno : ∀ hcase, False := fun hcase => hfree (hconflict.mp ⟨hhash, hfits, hcase⟩)
      have hemail : data.email ≠ some none := fun hnull => hno (.inl hnull)
      exact ⟨hemail, fun hname hmentions => hno (.inr ⟨hemail, .inl ⟨hname, hmentions⟩⟩)⟩
    · intro hcut hhash hemail
      by_contra hfree
      obtain ⟨name, hname, hnew, hsome, hother⟩ := hcut
      have hfits : ¬ Refused u data := by
        intro hrefused
        obtain ⟨name', hname', -, hnone⟩ := hrefused
        rw [hname] at hname'
        cases hname'
        rw [hnone] at hsome
        cases hsome
      obtain ⟨result, db', row, hflush, hrow, hsupplied⟩ :=
        flush_free texts hashpw now h hunique hu hfits hemail (by simp [hname]) hfree
      have hok : update texts hashpw db u.id data now = .ok (result, db') := by
        rw [update_eq hhash hu, hflush]
        rfl
      obtain ⟨row', hrow', hsup⟩ := hexact.row result db' hok
      rw [hrow] at hrow'
      cases hrow'
      exact hsupplied.mp hsup ⟨name, hname, hnew, hsome, hother⟩
  · intro hclear
    refine ⟨hiff.trans ⟨?_, ?_⟩, ?_⟩
    · intro hcase
      obtain ⟨hhash, hfits, hcase⟩ := hcase
      by_contra hfree
      obtain ⟨hemail, hname⟩ := hclear.free hfree hhash hfits
      obtain hnull | ⟨-, ⟨hnull, hmentions⟩ | ⟨-, hheld⟩⟩ := hcase
      · exact hemail hnull
      · exact hname hnull hmentions
      · exact hfree hheld
    · intro hheld
      obtain ⟨hhash, hfits, hmentions⟩ := hclear.held hheld
      refine ⟨hhash, hfits, .inr ⟨hset hheld, ?_⟩⟩
      by_cases hname : data.fullName = some none
      · exact .inl ⟨hname, hmentions hname⟩
      · exact .inr ⟨hname, hheld⟩
    · intro result db' hok
      obtain ⟨hemail, hfree, hhash, row, hrow, hsupplied⟩ := update_ok h hunique hu hok
      exact ⟨row, hrow, hsupplied.mpr (fun hcut => hfree (hclear.whole hcut hhash hemail))⟩

end Update

/-! Postgres' texts, of a row with its other columns left out. -/

/-- A text on both sides of a character that a pattern does not have. -/
theorem infix_cons {p a b : List Char} {x : Char} (hx : x ∉ p) (h : p <:+: a ++ x :: b) : p <:+: a ∨ p <:+: b := by
  obtain ⟨s, t, h⟩ := h
  obtain ⟨m, rfl, -⟩ | ⟨m, hm, hb⟩ := List.append_eq_append_iff.mp h
  · exact .inl ⟨s, m, rfl⟩
  · cases m with
    | nil => exact .inl ⟨s, [], by simpa using hm⟩
    | cons y m =>
      obtain ⟨rfl, rfl⟩ := List.cons.inj hb
      obtain ⟨n, -, rfl⟩ | ⟨n, -, hn⟩ := List.append_eq_append_iff.mp hm
      · exact absurd (by simp) hx
      · cases n with
        | nil =>
          rw [List.nil_append] at hn
          rw [← hn] at hx
          exact absurd (by simp) hx
        | cons z n =>
          obtain ⟨-, rfl⟩ := List.cons.inj hn
          exact .inr ⟨n, t, by simp⟩

theorem mentionsEmail_iff {text : String} :
    mentionsEmail text = true ↔ ['e', 'm', 'a', 'i', 'l'] <:+: text.toList.map Char.toLower := by
  simp [mentionsEmail, String.toLower]

theorem mentionsEmail_append (a b : String) : mentionsEmail (a ++ ("email" ++ b)) = true := by
  have hemail : "email".toList.map Char.toLower = ['e', 'm', 'a', 'i', 'l'] := by decide
  rw [mentionsEmail_iff]
  simp only [String.toList_append, List.map_append, hemail]
  exact List.infix_append' _ _ _

/-- What stands before a parenthesis does not matter if it mentions no email. -/
theorem mentionsEmail_open {a : String} (b : String) (ha : mentionsEmail a = false) :
    mentionsEmail (a ++ ("(" ++ b)) = mentionsEmail ("(" ++ b) := by
  have hopen : "(".toList.map Char.toLower = ['('] := by decide
  rw [← Bool.not_eq_true, mentionsEmail_iff] at ha
  rw [Bool.eq_iff_iff, mentionsEmail_iff, mentionsEmail_iff]
  simp only [String.toList_append, List.map_append, hopen, List.cons_append, List.nil_append]
  constructor
  · intro h
    obtain h | h := infix_cons (by decide) h
    · exact absurd h ha
    · exact h.trans (List.suffix_cons _ _).isInfix
  · intro h
    exact h.trans (List.suffix_append _ _).isInfix

def postgresRow (column : String) (row : User) : String :=
  "(" ++ ((if column = "email" then "null" else row.email) ++ (", " ++ ((if column = "full_name" then "null" else row.fullName) ++ ")")))

def nullText (column : String) (row : User) : String :=
  "null value in column " ++ (column ++ (" violates not-null constraint: failing row contains " ++ postgresRow column row))

def duplicateText (email : String) : String :=
  "duplicate key value violates unique constraint users_" ++ ("email" ++ ("_key: key (email)=(" ++ (email ++ ")")))

theorem nullText_eq (column : String) (row : User) : nullText column row =
    ("null value in column " ++ (column ++ " violates not-null constraint: failing row contains ")) ++
      postgresRow column row := by
  unfold nullText
  generalize postgresRow column row = shown
  rw [String.append_assoc, String.append_assoc]

theorem nullText_fullName (row : User) :
    mentionsEmail (nullText "full_name" row) = mentionsEmail (postgresRow "full_name" row) := by
  have hplain : mentionsEmail ("null value in column " ++ ("full_name" ++
      " violates not-null constraint: failing row contains ")) = false := by decide +kernel
  rw [nullText_eq]
  exact mentionsEmail_open _ hplain

def postgresTexts : Texts where
  orig
    | .notNull column row => nullText column row
    | .uniqueEmail email => duplicateText email
    | .primaryKey table _ => table
    | .uniqueJti _ => "revoked_tokens_jti_key"
    | .foreignKey _ => "refresh_sessions_user_id_fkey"
  failingRow := postgresRow
  null_email _ := mentionsEmail_append _ _
  null_fullName := nullText_fullName
  unique_email _ := mentionsEmail_append _ _

/-- bcrypt under the salt 3, for passwords it takes. -/
def sampleHashpw (password : String) : Option PasswordHash :=
  if password.utf8ByteSize ≤ 72 then some ⟨3, password⟩ else none

def sampleDb : Db := { Db.empty with users := ⟨[sampleUser, { sampleUser with id := 7, email := "bob@example.org" }], by decide⟩ }

theorem sampleDb_unique : sampleDb.UniqueEmails := by
  unfold Db.UniqueEmails
  decide +kernel

/-- A new name and a free address. -/
theorem update_exact_iff_rename :
    Exact postgresTexts sampleHashpw sampleDb sampleUser ⟨some (some "Eve"), some (some "eve@example.org"), none⟩ 5 := by
  have hfree : ¬ EmailHeld sampleDb 0 ⟨some (some "Eve"), some (some "eve@example.org"), none⟩ := by
    intro hheld
    obtain ⟨email, hemail, r, hr, hsame, -⟩ := hheld
    cases hemail
    have hnone : ∀ r ∈ sampleDb.users.rows, r.email ≠ "eve@example.org" := by decide +kernel
    exact hnone r hr hsame
  refine (update_exact_iff postgresTexts sampleHashpw sampleDb sampleUser _ 5 ?_ sampleDb_unique (by decide +kernel)).mpr
    ⟨fun hheld => absurd hheld hfree, fun _ _ _ => ⟨nofun, nofun⟩, ?_⟩
  · intro email hemail
    cases hemail
    decide +kernel
  · intro hcut
    obtain ⟨name, hname, -, -, hother⟩ := hcut
    cases hname
    exact absurd (by decide +kernel) hother

/-- A null address is a conflict with no one. -/
theorem null_email_conflicts :
    Accepted ⟨none, some none, none⟩ ∧ sampleDb.UniqueEmails ∧ sampleDb.users.get sampleUser.id = some sampleUser ∧
      ¬ Exact postgresTexts sampleHashpw sampleDb sampleUser ⟨none, some none, none⟩ 5 := by
  refine ⟨nofun, sampleDb_unique, by decide +kernel, fun h => ?_⟩
  have hconflict : update postgresTexts sampleHashpw sampleDb sampleUser.id ⟨none, some none, none⟩ 5 = .error .conflict := by
    rw [update_eq (by decide) (by decide +kernel)]
    exact flushOrRaise_integrity.mpr (mentionsEmail_append _ _)
  obtain ⟨email, hemail, -⟩ := h.conflict.mp hconflict
  cases hemail

end FastiKit.EmailConflict
