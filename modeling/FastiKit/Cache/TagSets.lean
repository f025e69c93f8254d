import FastiKit.Cache.Decorator
import FastiKit.Interleave.Machine

/- Can every cached entry be reached through its tags?

   A tag set is shared by all functions that name the tag, and every store resets
   its expiry to its own time to live. So a store with a short one can let the set
   die before an entry that another store put there: `tag_set_expires`.
   What is proved: as long as no store cuts the life of a set below that of an
   unexpired entry in it, every unexpired entry is a member of the set of each of
   its tags and invalidating the tag removes it; and the first store that does cut
   one leaves, some time later, an entry no invalidation finds. -/
namespace FastiKit.Cache

open Interleave KeyValue

structure State (V : Type) where
  now : Time
  store : Store V

/-- One call after the other. A call that finds nothing runs its function for
some time and stores the result. -/
inductive Action (V : Type) where
  | call (key : String) (ttl : Option Int) (tags : List String) (result : V) (elapsed : Nat)
  | invalidateTags (tags : List String)
  | tick (elapsed : Nat)

variable {V : Type}

def State.init (now : Time) : State V := ⟨now, .empty⟩

/-- The cache, with the setting `cache_default_ttl`. -/
def machine (cacheDefaultTtl : Int) : Machine (State V) (Action V) where
  step s
    | .call key ttl tags result elapsed =>
      match read s.store.entries s.now key with
      | some _ => some s
      | none =>
        let now := s.now + elapsed
        some ⟨now, s.store.put now key ⟨result, tags⟩ (ttl.getD cacheDefaultTtl)⟩
    | .invalidateTags tags => some { s with store := s.store.wipe (s.store.tagged s.now tags) tags }
    | .tick elapsed => some { s with now := s.now + elapsed }

/-- Every unexpired entry is a member of the unexpired set of each of its tags. -/
def Tagged (s : State V) : Prop :=
  ∀ key entry, read s.store.entries s.now key = some entry →
    ∀ t ∈ entry.value.tags, key ∈ members s.store.tagSets s.now t

/-- A call that stores leaves no set a shorter life than an entry in it has. -/
def Lengthens (cacheDefaultTtl : Int) (s : State V) : Action V → Prop
  | .call key ttl tags _ elapsed =>
    read s.store.entries s.now key = none → ∀ key' entry t,
      read s.store.entries (s.now + elapsed) key' = some entry → t ∈ tags → t ∈ entry.value.tags →
      ∃ deadline, entry.deadline = some deadline ∧
        deadline ≤ s.now + elapsed + seconds (ttl.getD cacheDefaultTtl)
  | _ => True

/-- An entry is in the set of each of its tags, and the set outlives it. -/
def Outlived (s : State V) : Prop :=
  ∀ key entry, read s.store.entries s.now key = some entry → ∀ t ∈ entry.value.tags,
    ∃ set deadline setDeadline, read s.store.tagSets s.now t = some set ∧ key ∈ set.value ∧
      entry.deadline = some deadline ∧ set.deadline = some setDeadline ∧ deadline ≤ setDeadline

theorem Outlived.init (now : Time) : Outlived (State.init now : State V) := nofun

theorem Outlived.tagged {s : State V} (hs : Outlived s) : Tagged s := by
  intro key entry hentry t ht
  obtain ⟨set, -, -, hset, hmem, -⟩ := hs key entry hentry t ht
  rw [members, hset]
  exact hmem

/-- Time passes over entries and sets alike. -/
theorem Outlived.later {s : State V} (hs : Outlived s) {later : Time} (h : s.now ≤ later) :
    Outlived { s with now := later } := by
  intro key entry hentry t ht
  obtain ⟨set, deadline, setDeadline, hset, hmem, hd, hsd, hle⟩ :=
    hs key entry (read_of_later h hentry) t ht
  refine ⟨set, deadline, setDeadline, read_later hset ?_, hmem, hd, hsd, hle⟩
  have hlive := (read_eq_some.mp hentry).2
  simp only [Expiring.liveAt, hd, hsd, Option.all_some, decide_eq_true_eq] at hlive ⊢
  exact Int.lt_of_lt_of_le hlive hle

/-- A store, at its own moment. -/
theorem Outlived.put {s : State V} (hs : Outlived s) {key : String} {ttl : Int} {tags : List String} {result : V}
    (hlong : ∀ key' entry t, read s.store.entries s.now key' = some entry → t ∈ tags → t ∈ entry.value.tags →
      ∃ deadline, entry.deadline = some deadline ∧ deadline ≤ s.now + seconds ttl) :
    Outlived { s with store := s.store.put s.now key ⟨result, tags⟩ ttl } := by
  intro key' entry hentry t ht
  rw [Store.read_put] at hentry
  show ∃ set deadline setDeadline,
    read (s.store.put s.now key ⟨result, tags⟩ ttl).tagSets s.now t = some set ∧ _
  rw [Store.read_put_tag]
  split at hentry
  · next hnew =>
    -- the entry this store put
    cases hentry
    rw [if_pos ht, if_pos hnew.1]
    exact ⟨_, _, _, rfl, by rw [hnew.2]; exact List.mem_insert_self, rfl, rfl, Int.le_refl _⟩
  · obtain ⟨set, deadline, setDeadline, hset, hmem, hd, hsd, hle⟩ := hs key' entry hentry t ht
    by_cases htags : t ∈ tags
    · obtain ⟨deadline', hd', hlong⟩ := hlong key' entry t hentry htags ht
      have hlive := (read_eq_some.mp hentry).2
      simp only [Expiring.liveAt, hd', Option.all_some, decide_eq_true_eq] at hlive
      have httl : 0 < seconds ttl := by
        unfold Time at *
        omega
      rw [if_pos htags, if_pos httl]
      refine ⟨_, _, _, rfl, ?_, hd', rfl, hlong⟩
      rw [members, hset]
      exact List.mem_insert_of_mem hmem
    · rw [if_neg htags]
      exact ⟨set, deadline, setDeadline, hset, hmem, hd, hsd, hle⟩

/-- Sets may be deleted together with all the entries that have their tags. -/
theorem Outlived.wipe {s : State V} (hs : Outlived s) {keys tags : List String}
    (hkeys : ∀ key entry t, read s.store.entries s.now key = some entry → t ∈ tags →
      t ∈ entry.value.tags → key ∈ keys) :
    Outlived { s with store := s.store.wipe keys tags } := by
  intro key entry hentry t ht
  have hread : read (delete s.store.entries keys) s.now key = some entry := hentry
  rw [read_delete] at hread
  split at hread
  · cases hread
  · next hkept =>
    obtain ⟨set, deadline, setDeadline, hset, hmem, hrest⟩ := hs key entry hread t ht
    have hother : t ∉ tags := fun htags => hkept (hkeys key entry t hread htags ht)
    refine ⟨set, deadline, setDeadline, ?_, hmem, hrest⟩
    show read (delete s.store.tagSets tags) s.now t = some set
    rw [read_delete, if_neg hother]
    exact hset

theorem Outlived.step {cacheDefaultTtl : Int} {s s' : State V} {a : Action V} (hs : Outlived s)
    (hlong : Lengthens cacheDefaultTtl s a) (ha : (machine cacheDefaultTtl).step s a = some s') :
    Outlived s' := by
  cases a with
  | call key ttl tags result elapsed =>
    simp only [machine] at ha
    split at ha
    · rw [← Option.some.inj ha]
      exact hs
    · next hmiss =>
      rw [← Option.some.inj ha]
      have hlater : Outlived { s with now := s.now + elapsed } :=
        hs.later (Int.le_add_of_nonneg_right (Int.natCast_nonneg elapsed))
      exact hlater.put (hlong hmiss)
  | invalidateTags tags =>
    rw [← Option.some.inj ha]
    refine hs.wipe ?_
    intro key entry t hentry htags ht
    exact List.mem_flatMap.mpr ⟨t, htags, hs.tagged key entry hentry t ht⟩
  | tick elapsed =>
    rw [← Option.some.inj ha]
    exact hs.later (Int.le_add_of_nonneg_right (Int.natCast_nonneg elapsed))

/-- A store that cuts the life of a set leaves an entry that no set holds, once
the set has expired. -/
theorem Outlived.cut {cacheDefaultTtl : Int} {s s' : State V} {a : Action V} (hs : Outlived s)
    (hcut : ¬ Lengthens cacheDefaultTtl s a) (ha : (machine cacheDefaultTtl).step s a = some s') :
    ∃ elapsed : Nat, ¬ Tagged { s' with now := s'.now + elapsed } := by
  cases a with
  | invalidateTags tags => exact absurd trivial hcut
  | tick elapsed => exact absurd trivial hcut
  | call key ttl tags result elapsed =>
    simp only [Lengthens, Classical.not_imp, not_forall, not_exists, not_and] at hcut
    obtain ⟨hmiss, key', entry, t, hentry, htags, ht, hshort⟩ := hcut
    simp only [machine, hmiss, Option.some.injEq] at ha
    have hold := read_of_later (Int.le_add_of_nonneg_right (Int.natCast_nonneg elapsed)) hentry
    obtain ⟨-, deadline, -, -, -, hd, -⟩ := hs key' entry hold t ht
    have hlong : ¬ deadline ≤ s.now + elapsed + seconds (ttl.getD cacheDefaultTtl) := hshort deadline hd
    have hlive := (read_eq_some.mp hentry).2
    simp only [Expiring.liveAt, hd, Option.all_some, decide_eq_true_eq] at hlive
    -- the entry is another one: its key had a value
    have hne : key' ≠ key := by
      intro h
      rw [h, hmiss] at hold
      cases hold
    subst ha
    let now : Time := s.now + elapsed
    let life : Time := seconds (ttl.getD cacheDefaultTtl)
    have hlater : now ≤ now + life.toNat := Int.le_add_of_nonneg_right (Int.natCast_nonneg _)
    have hend : now + life ≤ now + life.toNat := Int.add_le_add_left (Int.self_le_toNat life) now
    refine ⟨life.toNat, fun htagged => ?_⟩
    have hkept : read (s.store.put now key ⟨result, tags⟩ (ttl.getD cacheDefaultTtl)).entries
        (now + life.toNat) key' = some entry := by
      have hnow : read (s.store.put now key ⟨result, tags⟩ (ttl.getD cacheDefaultTtl)).entries now key' =
          some entry := by
        rw [Store.read_put, if_neg (fun h => hne h.2)]
        exact hentry
      apply read_later hnow
      simp only [Expiring.liveAt, hd, Option.all_some, decide_eq_true_eq]
      by_cases hpos : 0 ≤ life
      · rw [Int.toNat_of_nonneg hpos]
        exact Int.not_le.mp hlong
      · rw [Int.toNat_of_nonpos (Int.le_of_lt (Int.not_le.mp hpos))]
        simpa using hlive
    have hmem : key' ∈ members (s.store.put now key ⟨result, tags⟩ (ttl.getD cacheDefaultTtl)).tagSets
        (now + life.toNat) t := htagged key' entry hkept t ht
    rw [Store.members_put_expired s.store key ⟨result, tags⟩ _ htags hlater hend] at hmem
    cases hmem

/-- As long as no store cuts the life of a tag set, every entry is in the sets of
its tags, and invalidating one of them removes it; a store that cuts one leaves,
some time later, an entry that is in no set. -/
theorem entries_tagged {cacheDefaultTtl : Int} {now : Time} {s : State V}
    (h : (machine cacheDefaultTtl).Steps (Lengthens cacheDefaultTtl) (State.init now) s) :
    (Tagged s ∧ ∀ key entry tags t, read s.store.entries s.now key = some entry → t ∈ tags →
      t ∈ entry.value.tags →
      read (s.store.wipe (s.store.tagged s.now tags) tags).entries s.now key = none) ∧
    ∀ a s', (machine cacheDefaultTtl).step s a = some s' → ¬ Lengthens cacheDefaultTtl s a →
      ∃ elapsed : Nat, ¬ Tagged { s' with now := s'.now + elapsed } := by
  have hs : Outlived s := h.invariant (fun _ _ _ hv hlong ha => hv.step hlong ha) (Outlived.init now)
  refine ⟨⟨hs.tagged, ?_⟩, fun a s' ha hcut => hs.cut hcut ha⟩
  intro key entry tags t hentry htags ht
  have hmem : key ∈ s.store.tagged s.now tags :=
    List.mem_flatMap.mpr ⟨t, htags, hs.tagged key entry hentry t ht⟩
  show read (delete s.store.entries (s.store.tagged s.now tags)) s.now key = none
  rw [read_delete, if_pos hmem]

/-- A function caches for a hundred seconds. -/
def firstCall : Action String := .call "a" (some 100) ["t"] "first" 0

theorem entries_tagged_sample : ∃ s : State String, (machine 3600).run (State.init 0) [firstCall] = some s ∧
    (∃ entry, read s.store.entries s.now "a" = some entry) ∧ Tagged s := by
  have hlong : Lengthens 3600 (State.init 0 : State String) firstCall := by
    intro _ key' entry t hentry
    cases hentry
  have hsteps : (machine 3600).Steps (Lengthens 3600) (State.init 0 : State String) _ :=
    Relation.ReflTransGen.single ⟨firstCall, hlong, rfl⟩
  exact ⟨_, rfl, ⟨_, rfl⟩, (entries_tagged hsteps).1.1⟩

/-- Another function caches for ten seconds under the same tag. Eleven seconds
later the set is gone, the first entry is not. -/
theorem tag_set_expires : ∃ s : State String, (machine 3600).Reaches (State.init 0) s ∧ ¬ Tagged s := by
  let actions : List (Action String) := [firstCall, .call "b" (some 10) ["t"] "second" 0, .tick 11000000]
  obtain ⟨s, hs⟩ : ∃ s, (machine 3600).run (State.init 0) actions = some s := ⟨_, rfl⟩
  refine ⟨s, Machine.reaches_of_run hs, fun htagged => ?_⟩
  cases hs
  have hmem := htagged "a" ⟨⟨"first", ["t"]⟩, some 100000000⟩ rfl "t" List.mem_cons_self
  revert hmem
  decide

end FastiKit.Cache
