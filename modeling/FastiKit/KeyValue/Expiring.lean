import Mathlib.Logic.Function.Basic
import Mathlib.Data.List.Induction
import Mathlib.Data.List.Lattice

/- A key-value store whose keys expire, and the commands of such a store: SET with
   a time to live, SADD, EXPIRE and DEL. A key past its deadline reads as absent;
   it may or may not still be held. EXPIRE replaces a deadline, also by an earlier
   one, and a time to live that is not positive deletes the key. -/
namespace KeyValue

/-- A value and the moment it expires, if it does. -/
structure Expiring (ν : Type) where
  value : ν
  deadline : Option Int

/-- The value has not expired. -/
def Expiring.liveAt {ν : Type} (now : Int) (x : Expiring ν) : Bool :=
  x.deadline.all (fun deadline => decide (now < deadline))

/-- What is held under each key. -/
abbrev Keys (κ ν : Type) := κ → Option (Expiring ν)

section Commands
variable {κ τ ν : Type} [DecidableEq κ] [DecidableEq τ]

/-- GET, SMEMBERS: what a reader sees at a moment. -/
def read (m : Keys κ ν) (now : Int) (k : κ) : Option (Expiring ν) := (m k).filter (Expiring.liveAt now)

/-- SET k v EX ttl, refused when the time to live is not positive. -/
def setEx (m : Keys κ ν) (now : Int) (k : κ) (v : ν) (ttl : Int) : Keys κ ν :=
  if 0 < ttl then Function.update m k (some ⟨v, some (now + ttl)⟩) else m

/-- The members of a set; an absent one is empty. -/
def members (m : Keys τ (List κ)) (now : Int) (t : τ) : List κ := ((read m now t).map Expiring.value).getD []

/-- SET key value with a time to live, and the moment at which the store gets to it. -/
structure SetCommand (κ ν : Type) where
  moment : Int
  key : κ
  value : ν
  ttl : Int

/-- SETs, one after the other. -/
def setAll (m : Keys κ ν) (sets : List (SetCommand κ ν)) : Keys κ ν :=
  sets.foldl (fun m set => setEx m set.moment set.key set.value set.ttl) m

/-- SADD t k. -/
def sadd (m : Keys τ (List κ)) (now : Int) (t : τ) (k : κ) : Keys τ (List κ) :=
  Function.update m t (some ⟨(members m now t).insert k, (read m now t).bind Expiring.deadline⟩)

/-- EXPIRE t ttl. -/
def expire (m : Keys κ ν) (now : Int) (t : κ) (ttl : Int) : Keys κ ν :=
  match read m now t with
  | none => m
  | some x => Function.update m t (if 0 < ttl then some { x with deadline := some (now + ttl) } else none)

/-- DEL ks. -/
def delete (m : Keys κ ν) (ks : List κ) : Keys κ ν := fun k => if k ∈ ks then none else m k

end Commands

section Reads
variable {κ τ ν : Type}

theorem read_eq_some {m : Keys κ ν} {now : Int} {k : κ} {x : Expiring ν} :
    read m now k = some x ↔ m k = some x ∧ x.liveAt now = true := by
  simp [read, Option.filter_eq_some_iff]

/-- What is seen later was there before. -/
theorem read_of_later {m : Keys κ ν} {now later : Int} (h : now ≤ later) {k : κ} {x : Expiring ν}
    (hx : read m later k = some x) : read m now k = some x := by
  obtain ⟨hm, hlive⟩ := read_eq_some.mp hx
  refine read_eq_some.mpr ⟨hm, ?_⟩
  cases hd : x.deadline with
  | none => simp [Expiring.liveAt, hd]
  | some deadline =>
    simp only [Expiring.liveAt, hd, Option.all_some, decide_eq_true_eq] at hlive ⊢
    omega

/-- What is seen is seen until its deadline. -/
theorem read_later {m : Keys κ ν} {now later : Int} {k : κ} {x : Expiring ν} (hx : read m now k = some x)
    (hlive : x.liveAt later = true) : read m later k = some x :=
  read_eq_some.mpr ⟨(read_eq_some.mp hx).1, hlive⟩

variable [DecidableEq κ] [DecidableEq τ]

theorem read_setEx (m : Keys κ ν) (now : Int) (k : κ) (v : ν) (ttl : Int) (k' : κ) :
    read (setEx m now k v ttl) now k' =
      if 0 < ttl ∧ k' = k then some ⟨v, some (now + ttl)⟩ else read m now k' := by
  by_cases httl : 0 < ttl
  · by_cases hk : k' = k
    · have hlt : now < now + ttl := by omega
      simp [read, setEx, httl, hk, Expiring.liveAt, hlt]
    · simp [read, setEx, httl, hk, Function.update_of_ne]
  · simp [setEx, httl]

/-- The last SET of a key decides. -/
theorem setAll_apply (m : Keys κ ν) {sets : List (SetCommand κ ν)} (h : ∀ set ∈ sets, 0 < set.ttl) (k : κ) :
    setAll m sets k =
      match sets.reverse.find? (fun set => decide (set.key = k)) with
      | some set => some ⟨set.value, some (set.moment + set.ttl)⟩
      | none => m k := by
  induction sets using List.reverseRecOn with
  | nil => rfl
  | append_singleton sets last ih =>
    have hlast : 0 < last.ttl := h last (List.mem_append_right _ (List.mem_singleton_self _))
    have hsets := ih (fun set hset => h set (List.mem_append_left _ hset))
    rw [setAll] at hsets
    rw [setAll, List.foldl_concat, setEx, if_pos hlast, List.reverse_concat, List.find?_cons]
    by_cases hk : last.key = k
    · simp [hk]
    · rw [Function.update_of_ne (Ne.symm hk), hsets, decide_eq_false hk]

theorem read_delete (m : Keys κ ν) (now : Int) (ks : List κ) (k : κ) :
    read (delete m ks) now k = if k ∈ ks then none else read m now k := by
  by_cases hk : k ∈ ks <;> simp [read, delete, hk]

/-- The key is added, with no deadline of its own. -/
theorem read_sadd (m : Keys τ (List κ)) (now : Int) (t : τ) (k : κ) (t' : τ) :
    read (sadd m now t k) now t' =
      if t' = t then some ⟨(members m now t).insert k, (read m now t).bind Expiring.deadline⟩
      else read m now t' := by
  by_cases ht : t' = t
  · rw [if_pos ht, read_eq_some, ht, sadd, Function.update_self]
    refine ⟨rfl, ?_⟩
    cases hread : read m now t with
    | none => rfl
    | some x => exact (read_eq_some.mp hread).2
  · simp [read, sadd, ht, Function.update_of_ne]

theorem read_expire (m : Keys κ ν) (now : Int) (t : κ) (ttl : Int) (t' : κ) :
    read (expire m now t ttl) now t' =
      if t' = t then
        if 0 < ttl then (read m now t).map (fun x => { x with deadline := some (now + ttl) }) else none
      else read m now t' := by
  unfold expire
  cases hread : read m now t with
  | none =>
    by_cases ht : t' = t
    · simp [ht, hread]
    · simp [ht]
  | some x =>
    by_cases ht : t' = t
    · by_cases httl : 0 < ttl
      · have hlt : now < now + ttl := by omega
        simp [read, ht, httl, Expiring.liveAt, hlt]
      · simp [read, ht, httl]
    · simp [read, ht, Function.update_of_ne]

/-- SADD and EXPIRE of one key under several sets, in order. -/
def tagAll (m : Keys τ (List κ)) (now : Int) (k : κ) (ttl : Int) : List τ → Keys τ (List κ)
  | [] => m
  | t :: ts => tagAll (expire (sadd m now t k) now t ttl) now k ttl ts

/-- Each of the sets has the key beside its members, and the new deadline, or is
gone; the others are as they were. -/
theorem read_tagAll (m : Keys τ (List κ)) (now : Int) (k : κ) (ttl : Int) (ts : List τ) (t : τ) :
    read (tagAll m now k ttl ts) now t =
      if t ∈ ts then
        if 0 < ttl then some ⟨(members m now t).insert k, some (now + ttl)⟩ else none
      else read m now t := by
  induction ts generalizing m with
  | nil => rfl
  | cons t₀ ts ih =>
    have hone : read (expire (sadd m now t₀ k) now t₀ ttl) now t =
        if t = t₀ then if 0 < ttl then some ⟨(members m now t).insert k, some (now + ttl)⟩ else none
        else read m now t := by
      rw [read_expire, read_sadd, read_sadd]
      by_cases ht : t = t₀
      · simp [ht]
      · simp [ht]
    rw [tagAll, ih, members, hone]
    by_cases ht : t = t₀
    · -- a set named twice: the key is already a member
      by_cases httl : 0 < ttl <;> simp [ht, httl]
    · simp [ht, members]

end Reads

end KeyValue
