import FastiKit.Auth.Entities
import FastiKit.Language.Words
import FastiKit.Relational.Table

/- The migration d223a0cb723d: the two default user scopes go, and who could read as
   an administrator may also write.

   Correspondence (Python ↔ Lean):
     `_remove_scopes`          ↔ `removeScopes`, on every row `ScopeMigration.remove`
     `upgrade`, `downgrade`    ↔ `ScopeMigration.upgrade`, `ScopeMigration.downgrade`
     a row of `users`          ↔ `ScopedUser`: the column that no request writes comes in here
     `User.scope_list`         ↔ `ScopedUser.scopeList`
   The server default of the column, which both also set, is for rows to come. -/
namespace FastiKit
open Relational Words

structure ScopedUser extends User where
  scopes : String
  deriving DecidableEq, Repr

def ScopedUser.scopeList (user : ScopedUser) : List String := split user.scopes

def defaultScopes : String := "users:read users:write"

/-- `array_to_string(ARRAY(SELECT s FROM unnest(string_to_array(scopes, ' ')) AS s
WHERE s <> '' AND s <> ALL(:scopes)), ' ')` -/
def removeScopes (removed : List String) (scopes : String) : String :=
  arrayToString ((stringToArray scopes).filter (fun s => s ≠ "" ∧ s ∉ removed))

namespace ScopeMigration

abbrev Users := Table Uuid ScopedUser (fun user => user.id)

def remove (removed : List String) (users : Users) : Users :=
  users.updateWhere (fun _ => true) (fun user => { user with scopes := removeScopes removed user.scopes }) (fun _ => rfl)

/-- `'admin:read' = ANY(string_to_array(scopes, ' ')) AND NOT 'admin:write' = ANY(...)`: the
rows the second statement of `upgrade` writes. -/
def readsOnly (scopes : String) : Bool :=
  (stringToArray scopes).contains "admin:read" && !(stringToArray scopes).contains "admin:write"

def upgrade (users : Users) : Users :=
  (remove ["users:read", "users:write"] users).updateWhere (fun user => readsOnly user.scopes)
    (fun user => { user with scopes := trim (user.scopes ++ " admin:write") }) (fun _ => rfl)

def downgrade (users : Users) : Users :=
  (remove ["admin:write"] users).updateWhere (fun _ => true)
    (fun user => { user with scopes := trim (defaultScopes ++ " " ++ user.scopes) }) (fun _ => rfl)

/-! What the statements make of one row. -/

/-- The tokens `upgrade` keeps, and those it leaves. -/
def kept (tokens : List String) : List String := tokens.filter (· ∉ ["users:read", "users:write"])

def upgraded (tokens : List String) : List String :=
  if "admin:read" ∈ kept tokens ∧ "admin:write" ∉ kept tokens then kept tokens ++ ["admin:write"] else kept tokens

/-- The tokens `downgrade` leaves. -/
def downgraded (tokens : List String) : List String :=
  ["users:read", "users:write"] ++ tokens.filter (· ∉ ["admin:write"])

theorem removeScopes_eq (removed : List String) (scopes : String) :
    removeScopes removed scopes = arrayToString ((words scopes).filter (· ∉ removed)) := by
  rw [removeScopes, words, List.filter_filter]
  congr 1
  apply List.filter_congr
  intro s _
  simp [Bool.and_comm]

theorem isWord_filter {scopes : String} {p : String → Bool} {w : String} (h : w ∈ (words scopes).filter p) : IsWord w :=
  (isWord_of_mem_words (List.mem_filter.mp h).1).1

theorem get_upgrade {users : Users} {id : Uuid} {user : ScopedUser} (h : users.get id = some user) :
    (upgrade users).get id = some { user with scopes := arrayToString (upgraded (words user.scopes)) } := by
  have hremoved : (remove ["users:read", "users:write"] users).get id =
      some { user with scopes := arrayToString (kept (words user.scopes)) } := by
    rw [remove, Table.get_updateWhere, h, Option.map_some, if_pos rfl, removeScopes_eq]
    rfl
  have hkept : ∀ w ∈ kept (words user.scopes), IsWord w := fun w hw => isWord_filter hw
  have hadded : trim (arrayToString (kept (words user.scopes)) ++ " admin:write") =
      arrayToString (kept (words user.scopes) ++ ["admin:write"]) := by
    rw [← trim_arrayToString_append hkept (by simp [IsWord]), String.append_assoc]
    rfl
  have hreads : readsOnly (arrayToString (kept (words user.scopes))) =
      decide ("admin:read" ∈ kept (words user.scopes) ∧ "admin:write" ∉ kept (words user.scopes)) := by
    simp [readsOnly, stringToArray_arrayToString hkept]
  rw [upgrade, Table.get_updateWhere, hremoved, Option.map_some, hreads, upgraded]
  by_cases hcond : "admin:read" ∈ kept (words user.scopes) ∧ "admin:write" ∉ kept (words user.scopes)
  · rw [if_pos (decide_eq_true hcond), if_pos hcond, hadded]
  · rw [if_neg (by simpa using hcond), if_neg hcond]

theorem get_downgrade {users : Users} {id : Uuid} {user : ScopedUser} (h : users.get id = some user) :
    (downgrade users).get id = some { user with scopes := arrayToString (downgraded (words user.scopes)) } := by
  have hremoved : (remove ["admin:write"] users).get id =
      some { user with scopes := arrayToString ((words user.scopes).filter (· ∉ ["admin:write"])) } := by
    rw [remove, Table.get_updateWhere, h, Option.map_some, if_pos rfl, removeScopes_eq]
  have hdefaults : defaultScopes = arrayToString ["users:read", "users:write"] := by decide +kernel
  rw [downgrade, Table.get_updateWhere, hremoved, Option.map_some, if_pos rfl, hdefaults,
    trim_arrayToString_append (by simp [IsWord]) (fun w hw => isWord_filter hw)]
  rfl

section Tokens
variable {tokens : List String}

theorem mem_upgraded {t : String} (hnone : "admin:write" ∉ tokens) : t ∈ upgraded tokens ↔
    (t ∈ tokens ∧ t ≠ "users:read" ∧ t ≠ "users:write") ∨ (t = "admin:write" ∧ "admin:read" ∈ tokens) := by
  have hreads : "admin:read" ∈ kept tokens ∧ "admin:write" ∉ kept tokens ↔ "admin:read" ∈ tokens := by
    simp [kept, hnone]
  simp only [upgraded, hreads]
  split
  · next hread => simp [kept, hread]
  · next hread => simp [kept, hread]

/-- What `upgrade` leaves it leaves again. -/
theorem upgraded_upgraded : upgraded (upgraded tokens) = upgraded tokens := by
  have hkept : kept (upgraded tokens) = upgraded tokens := by
    unfold upgraded
    split <;> simp [kept]
  have hwrites : "admin:read" ∈ upgraded tokens → "admin:write" ∈ upgraded tokens := by
    unfold upgraded
    split
    · simp
    · next hcond =>
      intro hread
      exact not_not.mp (fun hno => hcond ⟨hread, hno⟩)
  rw [upgraded, hkept, if_neg (fun h => h.2 (hwrites h.1))]

theorem mem_downgraded_upgraded {t : String} (hread : "users:read" ∈ tokens) (hwrite : "users:write" ∈ tokens)
    (hnone : "admin:write" ∉ tokens) : t ∈ downgraded (upgraded tokens) ↔ t ∈ tokens := by
  simp only [downgraded, List.mem_append, List.mem_cons, List.not_mem_nil, or_false, List.mem_filter, mem_upgraded hnone,
    decide_eq_true_eq]
  constructor
  · rintro ((rfl | rfl) | ⟨⟨hin, -⟩ | ⟨rfl, -⟩, hne⟩)
    · exact hread
    · exact hwrite
    · exact hin
    · exact absurd rfl hne
  · intro hin
    by_cases hr : t = "users:read"
    · exact .inl (.inl hr)
    · by_cases hw : t = "users:write"
      · exact .inl (.inr hw)
      · refine .inr ⟨.inl ⟨hin, hr, hw⟩, ?_⟩
        intro heq
        exact hnone (heq ▸ hin)

theorem isToken_upgraded (h : ∀ t ∈ tokens, IsToken t) : ∀ t ∈ upgraded tokens, IsToken t := by
  have hkept : ∀ t ∈ kept tokens, IsToken t := fun t ht => h t (List.mem_filter.mp ht).1
  unfold upgraded
  split
  · intro t ht
    cases List.mem_append.mp ht with
    | inl hin => exact hkept t hin
    | inr hin =>
      rw [List.mem_singleton.mp hin]
      exact ⟨by simp, by simp [isSpace]⟩
  · exact hkept

theorem isToken_downgraded (h : ∀ t ∈ tokens, IsToken t) : ∀ t ∈ downgraded tokens, IsToken t := by
  intro t ht
  cases List.mem_append.mp ht with
  | inl hin =>
    have hdefault : t = "users:read" ∨ t = "users:write" := by simpa using hin
    obtain rfl | rfl := hdefault
    · exact ⟨by simp, by simp [isSpace]⟩
    · exact ⟨by simp, by simp [isSpace]⟩
  | inr hin => exact h t (List.mem_filter.mp hin).1

end Tokens

/-- Rows whose scopes are tokens and spaces. -/
theorem isToken_words {scopes : String} (h : ∀ c ∈ scopes.toList, isSpace c = true → c = ' ') :
    ∀ w ∈ words scopes, IsToken w := by
  intro w hw
  obtain ⟨⟨hne, hno⟩, hsub⟩ := isWord_of_mem_words hw
  refine ⟨hne, ?_⟩
  intro c hc
  cases hspace : isSpace c with
  | false => rfl
  | true => exact absurd (h c (hsub c hc) hspace ▸ hc) hno

/-- After `upgrade` a row has lost the default scopes and may write as an administrator
if it may read as one; a second `upgrade` changes nothing of it, and `downgrade` gives
its tokens back. -/
theorem scopes_migrate {users : Users} {id : Uuid} {user : ScopedUser} (hrow : users.get id = some user)
    (hspaces : ∀ c ∈ user.scopes.toList, isSpace c = true → c = ' ')
    (hread : "users:read" ∈ user.scopeList) (hwrite : "users:write" ∈ user.scopeList)
    (hnone : "admin:write" ∉ user.scopeList) :
    ∃ up down, (upgrade users).get id = some up ∧ (downgrade (upgrade users)).get id = some down ∧
      (∀ t, t ∈ up.scopeList ↔ (t ∈ user.scopeList ∧ t ≠ "users:read" ∧ t ≠ "users:write") ∨
        (t = "admin:write" ∧ "admin:read" ∈ user.scopeList)) ∧
      (upgrade (upgrade users)).get id = some up ∧ ∀ t, t ∈ down.scopeList ↔ t ∈ user.scopeList := by
  have hlist : user.scopeList = words user.scopes := split_eq_words hspaces
  rw [hlist] at hread hwrite hnone
  have htokens := isToken_upgraded (isToken_words hspaces)
  have hwords : words (arrayToString (upgraded (words user.scopes))) = upgraded (words user.scopes) :=
    words_arrayToString (fun w hw => (htokens w hw).isWord)
  have hup := get_upgrade hrow
  have hdown := get_downgrade hup
  have hagain := get_upgrade hup
  simp only [hwords] at hdown hagain
  rw [upgraded_upgraded] at hagain
  refine ⟨_, _, hup, hdown, ?_, hagain, ?_⟩
  · intro t
    rw [hlist, ← mem_upgraded hnone, ScopedUser.scopeList, split_arrayToString htokens]
  · intro t
    rw [hlist, ← mem_downgraded_upgraded hread hwrite hnone, ScopedUser.scopeList,
      split_arrayToString (isToken_downgraded htokens)]

/-- A row with a repeated scope and spaces to spare. -/
def sampleUser : ScopedUser :=
  ⟨⟨7, "ann@x.org", "Ann", ⟨1, "d"⟩, true, true, none, none, 0, 0⟩, " users:read  admin:read users:write users:read "⟩

def sampleUsers : Users := ⟨[sampleUser], by simp⟩

theorem sampleUser_scopeList :
    sampleUser.scopeList = ["users:read", "admin:read", "users:write", "users:read"] := by
  decide +kernel

theorem scopes_migrate_sample :
    ∃ up down, (upgrade sampleUsers).get 7 = some up ∧ (downgrade (upgrade sampleUsers)).get 7 = some down ∧
      (∀ t, t ∈ up.scopeList ↔ (t ∈ sampleUser.scopeList ∧ t ≠ "users:read" ∧ t ≠ "users:write") ∨
        (t = "admin:write" ∧ "admin:read" ∈ sampleUser.scopeList)) ∧
      (upgrade (upgrade sampleUsers)).get 7 = some up ∧ ∀ t, t ∈ down.scopeList ↔ t ∈ sampleUser.scopeList :=
  scopes_migrate rfl (by simp [sampleUser, isSpace]) (by simp [sampleUser_scopeList]) (by simp [sampleUser_scopeList])
    (by simp [sampleUser_scopeList])

end ScopeMigration
end FastiKit
