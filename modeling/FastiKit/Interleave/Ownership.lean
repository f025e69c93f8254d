import FastiKit.Interleave.Pool
import Mathlib.Data.Set.Insert

/- Keys that are drawn from a counter and spent by operations. A program keeps
   its keys if it spends only what it drew itself, and each key once. In a pool of
   such programs every key has at most one owner, so a key that was spent is never
   spent again: `Owned gone s` says that the keys of `gone` are spent for good, and
   `Owned.step` adds the ones a step spends. -/
namespace Interleave

variable {Op : Type} {Res : Op → Type} {σ Req ε α β Env : Type}

/-- Which operation draws a key, and which one spends it. Keys are numbers below
the counter. -/
structure Keys (Op : Type) (Res : Op → Type) (σ : Type) where
  counter : σ → Nat
  draws : (op : Op) → Res op → Option Nat
  spends : Op → Option Nat

namespace Keys
variable (K : Keys Op Res σ)

/-- The keys a program that held `held` has after `op` answered `r`. -/
def after (held : Set Nat) (op : Op) (r : Res op) : Set Nat :=
  fun key => key ∈ held ∧ K.spends op ≠ some key ∨ K.draws op r = some key

/-- The program, holding these keys, spends only keys it holds, each once. -/
def Keeps : Prog Op Res ε α → Set Nat → Prop
  | .ret _, _ => True
  | .raise _, _ => True
  | .call op k, held =>
    (∀ key, K.spends op = some key → key ∈ held) ∧ ∀ r, Keeps (k r) (K.after held op r)

/-- Keys are drawn from the counter, and nothing takes the counter back. -/
structure Lawful (sys : System Op Res σ Req ε α Env) : Prop where
  draw : ∀ op s key, K.draws op (sys.exec op s).1 = some key →
    K.counter s ≤ key ∧ key < K.counter (sys.exec op s).2
  exec : ∀ op s, K.counter s ≤ K.counter (sys.exec op s).2
  respond : ∀ req out s, K.counter s ≤ K.counter (sys.respond req out s)
  env : ∀ e s s', sys.env e s = some s' → K.counter s ≤ K.counter s'

/-- The thread `i` holds the keys `held i`, no two threads hold one key, and the
keys of `gone` are held by none. -/
structure Split (held : Nat → Set Nat) (gone : Set Nat) (s : Pool Op Res σ Req ε α) : Prop where
  keeps : ∀ i th, s.threads[i]? = some th → K.Keeps th.code (held i)
  drawn : ∀ i key, key ∈ held i → key < K.counter s.state
  kept : ∀ i key, key ∈ held i → key ∉ gone
  past : ∀ key ∈ gone, key < K.counter s.state
  apart : ∀ i j key, key ∈ held i → key ∈ held j → i = j

def Owned (gone : Set Nat) (s : Pool Op Res σ Req ε α) : Prop := ∃ held, K.Split held gone s

/-- The keys an action spends. -/
def spentBy (s : Pool Op Res σ Req ε α) : Action Req Env → Set Nat
  | .run i => fun key => ∃ op, s.Waits i op ∧ K.spends op = some key
  | _ => ∅

/-- The keys that the counter passes over in the response of the thread `i`. -/
def passedBy (sys : System Op Res σ Req ε α Env) (s s' : Pool Op Res σ Req ε α) (i : Nat) : Set Nat :=
  fun key => ∃ op, s.Waits i op ∧ K.counter (sys.exec op s.state).2 ≤ key ∧ key < K.counter s'.state

variable {K}

/-! Programs. -/

theorem Keeps.mono {p : Prog Op Res ε α} {held held' : Set Nat} (h : K.Keeps p held)
    (hsub : held ⊆ held') : K.Keeps p held' := by
  induction p generalizing held held' with
  | ret a => trivial
  | raise e => trivial
  | call op k ih =>
    refine ⟨fun key hkey => hsub (h.1 key hkey), ?_⟩
    intro r
    apply ih r (h.2 r)
    intro key hkey
    rcases hkey with ⟨hheld, hne⟩ | hdraw
    · exact .inl ⟨hsub hheld, hne⟩
    · exact .inr hdraw

/-- A program that spends nothing. -/
theorem keeps_of_uses {L : Except ε α → Prop} {p : Prog Op Res ε α} {held : Set Nat}
    (h : p.Uses (fun op => K.spends op = none) L) : K.Keeps p held := by
  induction p generalizing held with
  | ret a => trivial
  | raise e => trivial
  | call op k ih =>
    refine ⟨?_, fun r => ih r (h.2 r)⟩
    intro key hkey
    rw [h.1] at hkey
    cases hkey

/-- A program that starts with operations that spend nothing. -/
theorem keeps_bind {L : Except ε α → Prop} {p : Prog Op Res ε α} {f : α → Prog Op Res ε β} {held : Set Nat}
    (hp : p.Uses (fun op => K.spends op = none) L) (hf : ∀ a, L (.ok a) → K.Keeps (f a) ∅) :
    K.Keeps (p >>= f) held := by
  induction p generalizing held with
  | ret a => exact (hf a hp).mono (Set.empty_subset _)
  | raise e => trivial
  | call op k ih =>
    refine ⟨?_, fun r => ih r (hp.2 r)⟩
    intro key hkey
    rw [hp.1] at hkey
    cases hkey

/-! Pools. -/

theorem Owned.mono {gone gone' : Set Nat} {s : Pool Op Res σ Req ε α} (h : K.Owned gone s)
    (hsub : gone' ⊆ gone) : K.Owned gone' s := by
  obtain ⟨held, h⟩ := h
  exact ⟨held, h.keeps, h.drawn, fun i key hkey hgone => h.kept i key hkey (hsub hgone),
    fun key hkey => h.past key (hsub hkey), h.apart⟩

theorem owned_start (w : σ) : K.Owned ∅ (System.start w : Pool Op Res σ Req ε α) := by
  refine ⟨fun _ => ∅, ?_, ?_, ?_, ?_, ?_⟩
  · intro i th hth
    cases hth
  · intro i key hkey
    exact hkey.elim
  · intro i key hkey
    exact hkey.elim
  · intro key hkey
    exact hkey.elim
  · intro i j key hkey
    exact hkey.elim

/-- What a thread that waits is about to spend, it holds. -/
theorem Split.holds {held : Nat → Set Nat} {gone : Set Nat} {s : Pool Op Res σ Req ε α}
    (h : K.Split held gone s) {i : Nat} {op : Op} (hw : s.Waits i op) {key : Nat}
    (hkey : K.spends op = some key) : key ∈ held i := by
  obtain ⟨⟨req, code, live⟩, hth, -, hop⟩ := hw
  have hkeeps := h.keeps i _ hth
  cases code with
  | ret a => cases hop
  | raise e => cases hop
  | call op' k =>
    cases hop
    exact hkeeps.1 key hkey

/-- No operation spends a key that is gone. -/
theorem Owned.not_gone {gone : Set Nat} {s : Pool Op Res σ Req ε α} (h : K.Owned gone s) {i : Nat}
    {op : Op} (hw : s.Waits i op) {key : Nat} (hkey : K.spends op = some key) : key ∉ gone := by
  obtain ⟨held, h⟩ := h
  exact h.kept i key (h.holds hw hkey)

/-- A key that is gone was drawn. -/
theorem Owned.past {gone : Set Nat} {s : Pool Op Res σ Req ε α} (h : K.Owned gone s) {key : Nat}
    (hkey : key ∈ gone) : key < K.counter s.state := by
  obtain ⟨held, h⟩ := h
  exact h.past key hkey

/-- And so was a key that is about to be spent. -/
theorem Owned.drawn {gone : Set Nat} {s : Pool Op Res σ Req ε α} (h : K.Owned gone s) {i : Nat} {op : Op}
    (hw : s.Waits i op) {key : Nat} (hkey : K.spends op = some key) : key < K.counter s.state := by
  obtain ⟨held, h⟩ := h
  exact h.drawn i key (h.holds hw hkey)

section Steps
variable {sys : System Op Res σ Req ε α Env} (law : K.Lawful sys)
include law

theorem counter_settle (req : Req) (p : Prog Op Res ε α) (s : σ) :
    K.counter s ≤ K.counter (sys.settle req p s) := by
  unfold System.settle
  split
  · exact law.respond _ _ _
  · exact Nat.le_refl _

omit law in
/-- A step that spends nothing. -/
theorem Split.grow {held : Nat → Set Nat} {gone : Set Nat} {s s' : Pool Op Res σ Req ε α}
    (h : K.Split held gone s) (hle : K.counter s.state ≤ K.counter s'.state)
    (hkeeps : ∀ i th, s'.threads[i]? = some th → K.Keeps th.code (held i)) : K.Split held gone s' := by
  refine ⟨hkeeps, ?_, h.kept, ?_, h.apart⟩
  · intro i key hkey
    exact Nat.lt_of_lt_of_le (h.drawn i key hkey) hle
  · intro key hkey
    exact Nat.lt_of_lt_of_le (h.past key hkey) hle

/-- One operation of the thread `i`. The keys its response takes from the counter are
gone as well: no thread draws them. -/
theorem Split.run {held : Nat → Set Nat} {gone : Set Nat} {s s' : Pool Op Res σ Req ε α} {i : Nat}
    (h : K.Split held gone s) (ha : sys.step s (.run i) = some s') :
    K.Owned (gone ∪ K.spentBy s (.run i : Action Req Env) ∪ K.passedBy sys s s' i) s' := by
  obtain ⟨req, op, k, hi, rfl⟩ := System.step_run ha
  have hw : s.Waits i op := ⟨_, hi, rfl, rfl⟩
  have hlt : i < s.threads.length := (List.getElem?_eq_some_iff.mp hi).1
  have hspent : ∀ key, key ∈ K.spentBy s (.run i : Action Req Env) → K.spends op = some key := by
    intro key hkey
    obtain ⟨op', hw', hop'⟩ := hkey
    rw [System.waits_unique hw hw']
    exact hop'
  have hpassed : ∀ key, key ∈ K.passedBy sys s
      ⟨sys.settle req (k (sys.exec op s.state).1) (sys.exec op s.state).2,
        s.threads.set i ⟨req, k (sys.exec op s.state).1, true⟩⟩ i →
      K.counter (sys.exec op s.state).2 ≤ key ∧
        key < K.counter (sys.settle req (k (sys.exec op s.state).1) (sys.exec op s.state).2) := by
    intro key hkey
    obtain ⟨op', hw', hbounds⟩ := hkey
    rw [← System.waits_unique hw hw'] at hbounds
    exact hbounds
  have hexec := law.exec op s.state
  have hle := Nat.le_trans hexec (counter_settle law req (k (sys.exec op s.state).1) (sys.exec op s.state).2)
  -- a key of the new share was held before and is not spent, or it is new
  have hnew : ∀ key, key ∈ K.after (held i) op (sys.exec op s.state).1 →
      key ∈ held i ∧ K.spends op ≠ some key ∨
        K.counter s.state ≤ key ∧ key < K.counter (sys.exec op s.state).2 := by
    intro key hkey
    rcases hkey with hold | hdraw
    · exact .inl hold
    · exact .inr (law.draw op s.state key hdraw)
  refine ⟨Function.update held i (K.after (held i) op (sys.exec op s.state).1), ?_, ?_, ?_, ?_, ?_⟩
  · intro j th hth
    by_cases hij : i = j
    · subst hij
      rw [List.getElem?_set_self hlt] at hth
      cases hth
      rw [Function.update_self]
      exact (h.keeps i _ hi).2 _
    · rw [List.getElem?_set_ne hij] at hth
      rw [Function.update_of_ne (fun e => hij e.symm)]
      exact h.keeps j th hth
  · intro j key hkey
    by_cases hij : j = i
    · rw [hij, Function.update_self] at hkey
      rcases hnew key hkey with ⟨hheld, -⟩ | ⟨-, hbelow⟩
      · exact Nat.lt_of_lt_of_le (h.drawn i key hheld) hle
      · exact Nat.lt_of_lt_of_le hbelow (counter_settle law _ _ _)
    · rw [Function.update_of_ne hij] at hkey
      exact Nat.lt_of_lt_of_le (h.drawn j key hkey) hle
  · intro j key hkey hgone
    by_cases hij : j = i
    · rw [hij, Function.update_self] at hkey
      rcases hnew key hkey with ⟨hheld, hne⟩ | ⟨habove, hbelow⟩
      · rcases hgone with (hgone | hnow) | hpass
        · exact h.kept i key hheld hgone
        · exact hne (hspent key hnow)
        · have hdrawn := h.drawn i key hheld
          have hfrom := (hpassed key hpass).1
          omega
      · rcases hgone with (hgone | hnow) | hpass
        · have hpast := h.past key hgone
          omega
        · have hdrawn := h.drawn i key (h.holds hw (hspent key hnow))
          omega
        · have hfrom := (hpassed key hpass).1
          omega
    · rw [Function.update_of_ne hij] at hkey
      rcases hgone with (hgone | hnow) | hpass
      · exact h.kept j key hkey hgone
      · exact hij (h.apart j i key hkey (h.holds hw (hspent key hnow)))
      · have hdrawn := h.drawn j key hkey
        have hfrom := (hpassed key hpass).1
        omega
  · intro key hkey
    rcases hkey with (hgone | hnow) | hpass
    · exact Nat.lt_of_lt_of_le (h.past key hgone) hle
    · exact Nat.lt_of_lt_of_le (h.drawn i key (h.holds hw (hspent key hnow))) hle
    · exact (hpassed key hpass).2
  · -- a new key is above every key another thread holds
    have hother : ∀ j key, j ≠ i → key ∈ held j →
        key ∉ K.after (held i) op (sys.exec op s.state).1 := by
      intro j key hne hj hi'
      rcases hnew key hi' with ⟨hheld, -⟩ | ⟨habove, -⟩
      · exact hne (h.apart j i key hj hheld)
      · have hbelow := h.drawn j key hj
        omega
    intro j j' key hj hj'
    by_cases hij : j = i
    · by_cases hij' : j' = i
      · rw [hij, hij']
      · rw [hij, Function.update_self] at hj
        rw [Function.update_of_ne hij'] at hj'
        exact absurd hj (hother j' key hij' hj')
    · rw [Function.update_of_ne hij] at hj
      by_cases hij' : j' = i
      · rw [hij', Function.update_self] at hj'
        exact absurd hj' (hother j key hij hj)
      · rw [Function.update_of_ne hij'] at hj'
        exact h.apart j j' key hj hj'

/-- Every step adds the keys it spends to the ones that are gone. -/
theorem Owned.step (hprog : ∀ req, K.Keeps (sys.program req) ∅) {gone : Set Nat}
    {s s' : Pool Op Res σ Req ε α} {a : Action Req Env} (h : K.Owned gone s)
    (ha : sys.step s a = some s') : K.Owned (gone ∪ K.spentBy s a) s' := by
  obtain ⟨held, h⟩ := h
  cases a with
  | spawn req =>
    obtain ⟨-, rfl⟩ := System.step_spawn ha
    have hnone : K.spentBy s (.spawn req : Action Req Env) = ∅ := rfl
    rw [hnone, Set.union_empty]
    refine ⟨held, h.grow (counter_settle law _ _ _) ?_⟩
    intro i th hth
    rcases Nat.lt_or_ge i s.threads.length with hi | hi
    · rw [List.getElem?_append_left hi] at hth
      exact h.keeps i th hth
    · rw [List.getElem?_append_right hi, List.getElem?_singleton] at hth
      split at hth
      · cases hth
        exact (hprog req).mono (Set.empty_subset _)
      · cases hth
  | run i => exact (h.run law ha).mono Set.subset_union_left
  | cancel i =>
    obtain ⟨th', hi, rfl⟩ := System.step_cancel ha
    have hlt : i < s.threads.length := (List.getElem?_eq_some_iff.mp hi).1
    have hnone : K.spentBy s (.cancel i : Action Req Env) = ∅ := rfl
    rw [hnone, Set.union_empty]
    refine ⟨held, h.grow (Nat.le_refl _) ?_⟩
    intro j th hth
    by_cases hij : i = j
    · subst hij
      rw [List.getElem?_set_self hlt] at hth
      cases hth
      exact h.keeps i th' hi
    · rw [List.getElem?_set_ne hij] at hth
      exact h.keeps j th hth
  | env e =>
    obtain ⟨w, he, rfl⟩ := System.step_env ha
    have hnone : K.spentBy s (.env e : Action Req Env) = ∅ := rfl
    rw [hnone, Set.union_empty]
    exact ⟨held, h.grow (law.env e _ _ he) h.keeps⟩

theorem Owned.steps (hprog : ∀ req, K.Keeps (sys.program req) ∅)
    {C : Pool Op Res σ Req ε α → Action Req Env → Prop} {gone : Set Nat} {s s' : Pool Op Res σ Req ε α}
    (hsteps : sys.Steps C s s') (h : K.Owned gone s) : K.Owned gone s' := by
  refine hsteps.invariant (J := fun v => K.Owned gone v) ?_ h
  intro v a v' hv _ ha
  exact (hv.step law hprog ha).mono Set.subset_union_left

/-- An operation, with the keys its response takes from the counter. -/
theorem Owned.run {gone : Set Nat} {s s' : Pool Op Res σ Req ε α} {i : Nat} (h : K.Owned gone s)
    (ha : sys.step s (.run i) = some s') :
    K.Owned (gone ∪ K.spentBy s (.run i : Action Req Env) ∪ K.passedBy sys s s' i) s' := by
  obtain ⟨held, h⟩ := h
  exact h.run law ha

/-- The key of an operation that has run is gone. -/
theorem Owned.spend (hprog : ∀ req, K.Keeps (sys.program req) ∅) {gone : Set Nat}
    {s s' : Pool Op Res σ Req ε α} {i : Nat} {op : Op} {key : Nat} (h : K.Owned gone s) (hw : s.Waits i op)
    (hkey : K.spends op = some key) (ha : sys.step s (.run i) = some s') : K.Owned {key} s' := by
  refine (h.step law hprog ha).mono ?_
  intro key' hkey'
  rw [Set.mem_singleton_iff.mp hkey']
  exact .inr ⟨op, hw, hkey⟩

end Steps

end Keys

end Interleave
