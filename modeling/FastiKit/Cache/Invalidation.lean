import FastiKit.Cache.TagSets

/- Cached calls and invalidations side by side, all with one time to live.

   Neither is one step: a call reads, runs its function and stores; an
   invalidation reads the set of each tag and then deletes. So a call can carry a
   value across a whole invalidation (`straddling_call`), and an entry stored
   between the reading of a set and its deletion is left without a set.
   What is proved: when no call does either of the two, and calls that share a key
   share its tags, a call that starts after an invalidation of one of its tags has
   returned never returns a value computed before that invalidation began. -/
namespace FastiKit.Cache

open Interleave KeyValue

/-- Where a call stands; a value goes with the moment it was computed. -/
inductive Phase (V : Type) where
  | started
  | missed
  | computed (value : V) (computedAt : Nat)
  | returned (value : V) (computedAt : Nat)
  | raised

structure Call (V : Type) where
  key : String
  tags : List String
  startedAt : Nat
  phase : Phase V

/-- Where an invalidation stands: the sets it has still to read, or the moment
it deleted what it had collected, and returned. -/
inductive Progress where
  | reading (unread : List String)
  | returned (at' : Nat)
  | raised

structure Invalidation where
  tags : List String
  beganAt : Nat
  collected : List String
  progress : Progress

/-- The shared store, every call and every invalidation. `moment` counts the
steps, `now` is the clock of Redis. -/
structure Concurrent (V : Type) where
  now : Time
  moment : Nat
  store : Store (V × Nat)
  calls : List (Call V)
  invalidations : List Invalidation

inductive Event (V : Type) where
  | call (key : String) (tags : List String)
  | get (i : Nat)
  | compute (i : Nat) (value : V)
  | put (i : Nat) (answered : Bool)
  | raise (i : Nat)
  | invalidateTags (tags : List String)
  | smembers (j : Nat)
  | delete (j : Nat) (answered : Bool)
  | abort (j : Nat)
  | tick (elapsed : Nat)

namespace Concurrent
variable {V : Type}

def init (now : Time) : Concurrent V := ⟨now, 0, .empty, [], []⟩

/-- The call `i` moves on. -/
def resume (s : Concurrent V) (i : Nat) (call : Call V) (phase : Phase V) : Concurrent V :=
  { s with moment := s.moment + 1, calls := s.calls.set i { call with phase } }

/-- The invalidation `j` moves on. -/
def advance (s : Concurrent V) (j : Nat) (inv : Invalidation) : Concurrent V :=
  { s with moment := s.moment + 1, invalidations := s.invalidations.set j inv }

/-- The clock and the store, as the sequential results see them. -/
def view (s : Concurrent V) : State (V × Nat) := ⟨s.now, s.store⟩

end Concurrent

variable {V : Type}

/-- The call or the invalidation is over. -/
def Phase.isOver : Phase V → Bool
  | .returned _ _ => true
  | .raised => true
  | _ => false

def Progress.isOver : Progress → Bool
  | .reading _ => false
  | _ => true

/-- Calls and invalidations step by step. A pipeline that ran may still raise:
its answer was lost, or its SET had no positive time to live. -/
def concurrent (ttl : Int) : Machine (Concurrent V) (Event V) where
  step s
    | .call key tags =>
      some { s with moment := s.moment + 1, calls := s.calls ++ [⟨key, tags, s.moment, .started⟩] }
    | .get i =>
      match s.calls[i]? with
      | some ⟨key, tags, startedAt, .started⟩ =>
        match read s.store.entries s.now key with
        | some entry =>
          some (s.resume i ⟨key, tags, startedAt, .started⟩
            (.returned entry.value.payload.1 entry.value.payload.2))
        | none => some (s.resume i ⟨key, tags, startedAt, .started⟩ .missed)
      | _ => none
    | .compute i value =>
      match s.calls[i]? with
      | some ⟨key, tags, startedAt, .missed⟩ =>
        some (s.resume i ⟨key, tags, startedAt, .missed⟩ (.computed value s.moment))
      | _ => none
    | .put i answered =>
      match s.calls[i]? with
      | some ⟨key, tags, startedAt, .computed value computedAt⟩ =>
        some { s.resume i ⟨key, tags, startedAt, .computed value computedAt⟩
            (if answered && decide (0 < seconds ttl) then .returned value computedAt else .raised) with
          store := s.store.put s.now key ⟨(value, computedAt), tags⟩ ttl }
      | _ => none
    | .raise i =>
      match s.calls[i]? with
      | some call => if call.phase.isOver then none else some (s.resume i call .raised)
      | none => none
    | .invalidateTags tags =>
      some { s with
        moment := s.moment + 1
        invalidations := s.invalidations ++ [⟨tags, s.moment, [], .reading tags⟩] }
    | .smembers j =>
      match s.invalidations[j]? with
      | some ⟨tags, beganAt, collected, .reading (t :: unread)⟩ =>
        some (s.advance j ⟨tags, beganAt, collected ++ members s.store.tagSets s.now t, .reading unread⟩)
      | _ => none
    | .delete j answered =>
      match s.invalidations[j]? with
      | some ⟨tags, beganAt, collected, .reading []⟩ =>
        some { s.advance j ⟨tags, beganAt, collected, if answered then .returned s.moment else .raised⟩ with
          store := s.store.wipe collected tags }
      | _ => none
    | .abort j =>
      match s.invalidations[j]? with
      | some inv => if inv.progress.isOver then none else some (s.advance j { inv with progress := .raised })
      | none => none
    | .tick elapsed => some { s with now := s.now + elapsed, moment := s.moment + 1 }

/-- A value of the call may be stale: it was computed before an invalidation of
one of its tags began that returned before the call started. -/
def Call.FreshOf (call : Call V) (computedAt : Nat) (inv : Invalidation) : Prop :=
  ∀ returnedAt, inv.progress = .returned returnedAt → returnedAt < call.startedAt →
    ∀ t ∈ inv.tags, t ∈ call.tags → inv.beganAt ≤ computedAt

/-- No call that has returned did so with a stale value. -/
def NeverStale (s : Concurrent V) : Prop :=
  ∀ call ∈ s.calls, ∀ value computedAt, call.phase = .returned value computedAt →
    ∀ inv ∈ s.invalidations, call.FreshOf computedAt inv

/-- A value may be stored under a key in spite of an invalidation of one of its
tags: one that has read the set collected the key, one that has returned began
before the value was computed. -/
def Invalidation.admits (inv : Invalidation) (key : String) (tags : List String) (computedAt : Nat) : Bool :=
  inv.tags.all fun t => !tags.contains t || match inv.progress with
    | .reading unread => unread.contains t || inv.collected.contains key
    | .returned _ => decide (inv.beganAt ≤ computedAt)
    | .raised => true

/-- No call stores a value across an invalidation of one of its tags, and a call
that finds an entry has no tag the entry has not. -/
def orderly (s : Concurrent V) : Event V → Bool
  | .get i => s.calls[i]?.all fun call => (read s.store.entries s.now call.key).all fun entry =>
      call.tags.all entry.value.tags.contains
  | .put i _ => s.calls[i]?.all fun call => match call.phase with
      | .computed _ computedAt => s.invalidations.all fun inv => inv.admits call.key call.tags computedAt
      | _ => true
  | _ => true

theorem Invalidation.reading_admits {inv : Invalidation} {key : String} {tags unread : List String}
    {computedAt : Nat} {t : String} (h : inv.admits key tags computedAt = true)
    (hreading : inv.progress = .reading unread) (ht : t ∈ inv.tags) (htag : t ∈ tags) (hread : t ∉ unread) :
    key ∈ inv.collected := by
  have hall := List.all_eq_true.mp h t ht
  simpa [hreading, htag, hread] using hall

theorem Invalidation.returned_admits {inv : Invalidation} {key : String} {tags : List String}
    {computedAt returnedAt : Nat} {t : String} (h : inv.admits key tags computedAt = true)
    (hreturned : inv.progress = .returned returnedAt) (ht : t ∈ inv.tags) (htag : t ∈ tags) :
    inv.beganAt ≤ computedAt := by
  have hall := List.all_eq_true.mp h t ht
  simpa [hreturned, htag] using hall

/-! The invariant. -/

/-- What the entries that are left have to do with an invalidation. -/
def Invalidation.Sound (s : Concurrent V) (inv : Invalidation) : Prop :=
  inv.beganAt < s.moment ∧ match inv.progress with
    | .reading unread => ∀ t ∈ inv.tags, t ∉ unread → ∀ key entry,
        read s.store.entries s.now key = some entry → t ∈ entry.value.tags → key ∈ inv.collected
    | .returned returnedAt => inv.beganAt ≤ returnedAt ∧ ∀ t ∈ inv.tags, ∀ key entry,
        read s.store.entries s.now key = some entry → t ∈ entry.value.tags →
        inv.beganAt ≤ entry.value.payload.2
    | .raised => True

/-- A call's value is not stale, and one it computed itself is younger than the call. -/
def Call.Sound (s : Concurrent V) (call : Call V) : Prop :=
  call.startedAt < s.moment ∧ match call.phase with
    | .computed _ computedAt => call.startedAt < computedAt
    | .returned _ computedAt => ∀ inv ∈ s.invalidations, call.FreshOf computedAt inv
    | _ => True

structure Coherent (ttl : Int) (s : Concurrent V) : Prop where
  lifetimes : ∀ key entry, read s.store.entries s.now key = some entry →
    ∃ deadline, entry.deadline = some deadline ∧ deadline ≤ s.now + seconds ttl
  outlived : Outlived s.view
  calls : ∀ call ∈ s.calls, call.Sound s
  invalidations : ∀ inv ∈ s.invalidations, inv.Sound s

theorem Coherent.init (ttl : Int) (now : Time) : Coherent ttl (Concurrent.init now : Concurrent V) :=
  ⟨nofun, nofun, nofun, nofun⟩

/-- Entries may go and time may pass. -/
theorem Invalidation.Sound.mono {s s' : Concurrent V} {inv : Invalidation} (h : inv.Sound s)
    (hmoment : s.moment ≤ s'.moment)
    (hentries : ∀ key entry, read s'.store.entries s'.now key = some entry →
      read s.store.entries s.now key = some entry) : inv.Sound s' := by
  obtain ⟨hbegan, hrest⟩ := h
  refine ⟨Nat.lt_of_lt_of_le hbegan hmoment, ?_⟩
  cases hprogress : inv.progress with
  | reading unread =>
    rw [hprogress] at hrest
    exact fun t ht hread key entry hentry => hrest t ht hread key entry (hentries key entry hentry)
  | returned returnedAt =>
    rw [hprogress] at hrest
    exact ⟨hrest.1, fun t ht key entry hentry => hrest.2 t ht key entry (hentries key entry hentry)⟩
  | raised => trivial

/-- An invalidation that returns now does so after every call there is started. -/
theorem Call.Sound.mono {s s' : Concurrent V} {call : Call V} (h : call.Sound s) (hmoment : s.moment ≤ s'.moment)
    (hinv : ∀ inv ∈ s'.invalidations, ∀ returnedAt, inv.progress = .returned returnedAt →
      returnedAt < s.moment → inv ∈ s.invalidations) : call.Sound s' := by
  obtain ⟨hstarted, hrest⟩ := h
  refine ⟨Nat.lt_of_lt_of_le hstarted hmoment, ?_⟩
  cases hphase : call.phase with
  | computed value computedAt =>
    rw [hphase] at hrest
    exact hrest
  | returned value computedAt =>
    rw [hphase] at hrest
    intro inv hmem returnedAt hreturned hlt
    exact hrest inv (hinv inv hmem returnedAt hreturned (Nat.lt_trans hlt hstarted)) returnedAt hreturned hlt
  | started => trivial
  | missed => trivial
  | raised => trivial

namespace Coherent
variable {ttl : Int} {s : Concurrent V}

/-- A call moves on, and the store stays as it is. -/
theorem resume (hs : Coherent ttl s) {i : Nat} {call : Call V} {phase : Phase V}
    (hphase : ({ call with phase } : Call V).Sound (s.resume i call phase)) :
    Coherent ttl (s.resume i call phase) := by
  refine ⟨hs.lifetimes, hs.outlived, ?_, ?_⟩
  · intro call' hmem
    cases List.mem_or_eq_of_mem_set hmem with
    | inl hold => exact (hs.calls call' hold).mono (Nat.le_succ _) (fun inv hinv _ _ _ => hinv)
    | inr hnew => exact hnew ▸ hphase
  · exact fun inv hinv => (hs.invalidations inv hinv).mono (Nat.le_succ _) (fun _ _ h => h)

/-- An invalidation moves on, and the store stays as it is. -/
theorem advance (hs : Coherent ttl s) {j : Nat} {inv : Invalidation} (hinv : inv.Sound (s.advance j inv))
    (hopen : ∀ returnedAt, inv.progress ≠ .returned returnedAt) : Coherent ttl (s.advance j inv) := by
  refine ⟨hs.lifetimes, hs.outlived, ?_, ?_⟩
  · intro call hcall
    refine (hs.calls call hcall).mono (Nat.le_succ _) ?_
    intro inv' hmem returnedAt hreturned _
    cases List.mem_or_eq_of_mem_set hmem with
    | inl hold => exact hold
    | inr hnew => exact absurd (hnew ▸ hreturned) (hopen returnedAt)
  · intro inv' hmem
    cases List.mem_or_eq_of_mem_set hmem with
    | inl hold => exact (hs.invalidations inv' hold).mono (Nat.le_succ _) (fun _ _ h => h)
    | inr hnew => exact hnew ▸ hinv

/-- A call that finds an entry: the entry has its tags, so it is not stale. -/
theorem get (hs : Coherent ttl s) {i : Nat} {call : Call V} (hi : s.calls[i]? = some call)
    {entry : Expiring (Cached (V × Nat))} (hentry : read s.store.entries s.now call.key = some entry)
    (htags : call.tags ⊆ entry.value.tags) :
    Coherent ttl (s.resume i call (.returned entry.value.payload.1 entry.value.payload.2)) := by
  refine hs.resume ⟨Nat.lt_succ_of_lt (hs.calls call (List.mem_of_getElem? hi)).1, ?_⟩
  intro inv hinv returnedAt hreturned _ t ht htcall
  have hsound := (hs.invalidations inv hinv).2
  rw [hreturned] at hsound
  exact hsound.2 t ht call.key entry hentry (htags htcall)

/-- A store whose value is not stale, under a key every open invalidation has. -/
theorem put (hs : Coherent ttl s) {i : Nat} {call : Call V} {value : V} {computedAt : Nat} {next : Phase V}
    (hi : s.calls[i]? = some call) (hphase : call.phase = .computed value computedAt)
    (hadmits : ∀ inv ∈ s.invalidations, inv.admits call.key call.tags computedAt = true)
    (hnext : next = .returned value computedAt ∨ next = .raised) :
    Coherent ttl { s.resume i call next with
      store := s.store.put s.now call.key ⟨(value, computedAt), call.tags⟩ ttl } := by
  obtain ⟨hstarted, hcomputed⟩ := hs.calls call (List.mem_of_getElem? hi)
  rw [hphase] at hcomputed
  have hentries : ∀ key entry, read (s.store.put s.now call.key ⟨(value, computedAt), call.tags⟩ ttl).entries s.now key =
      some entry → read s.store.entries s.now key = some entry ∨
        key = call.key ∧ entry = ⟨⟨(value, computedAt), call.tags⟩, some (s.now + seconds ttl)⟩ := by
    intro key entry hentry
    rw [Store.read_put] at hentry
    split at hentry
    · next hnew => exact .inr ⟨hnew.2, (Option.some.inj hentry).symm⟩
    · exact .inl hentry
  refine ⟨?_, ?_, ?_, ?_⟩
  · intro key entry hentry
    rcases hentries key entry hentry with hold | ⟨-, rfl⟩
    · exact hs.lifetimes key entry hold
    · exact ⟨_, rfl, Int.le_refl _⟩
  · exact hs.outlived.put (fun key entry _ hentry _ _ => hs.lifetimes key entry hentry)
  · intro call' hmem
    cases List.mem_or_eq_of_mem_set hmem with
    | inl hold => exact (hs.calls call' hold).mono (Nat.le_succ _) (fun inv hinv _ _ _ => hinv)
    | inr hnew =>
      subst hnew
      refine ⟨Nat.lt_succ_of_lt hstarted, ?_⟩
      rcases hnext with rfl | rfl
      · -- the function ran after the call had started
        intro inv hinv returnedAt hreturned hlt t ht htcall
        have hbegan := (hs.invalidations inv hinv).2
        rw [hreturned] at hbegan
        exact Nat.le_of_lt (Nat.lt_of_le_of_lt hbegan.1 (Nat.lt_trans hlt hcomputed))
      · trivial
  · intro inv hinv
    obtain ⟨hbegan, hrest⟩ := hs.invalidations inv hinv
    have hadmit := hadmits inv hinv
    refine ⟨Nat.lt_succ_of_lt hbegan, ?_⟩
    cases hprogress : inv.progress with
    | reading unread =>
      rw [hprogress] at hrest
      intro t ht hunread key entry hentry htag
      rcases hentries key entry hentry with hold | ⟨rfl, rfl⟩
      · exact hrest t ht hunread key entry hold htag
      · exact Invalidation.reading_admits hadmit hprogress ht htag hunread
    | returned returnedAt =>
      rw [hprogress] at hrest
      refine ⟨hrest.1, ?_⟩
      intro t ht key entry hentry htag
      rcases hentries key entry hentry with hold | ⟨rfl, rfl⟩
      · exact hrest.2 t ht key entry hold htag
      · exact Invalidation.returned_admits hadmit hprogress ht htag
    | raised => trivial

/-- The set of a tag is read: every entry with the tag is in it. -/
theorem smembers (hs : Coherent ttl s) {j : Nat} {tags collected unread : List String} {beganAt : Nat} {t : String}
    (hj : s.invalidations[j]? = some ⟨tags, beganAt, collected, .reading (t :: unread)⟩) :
    Coherent ttl (s.advance j ⟨tags, beganAt, collected ++ members s.store.tagSets s.now t, .reading unread⟩) := by
  obtain ⟨hbegan, hread⟩ := hs.invalidations _ (List.mem_of_getElem? hj)
  refine hs.advance ⟨Nat.lt_succ_of_lt hbegan, ?_⟩ nofun
  intro t' ht' hunread key entry hentry htag
  by_cases heq : t' = t
  · exact List.mem_append_right _ (hs.outlived.tagged key entry hentry t (heq ▸ htag))
  · refine List.mem_append_left _ (hread t' ht' ?_ key entry hentry htag)
    simp [heq, hunread]

/-- All sets are read: what is collected has every entry with one of the tags. -/
theorem delete (hs : Coherent ttl s) {j : Nat} {tags collected : List String} {beganAt : Nat}
    {progress : Progress} (hj : s.invalidations[j]? = some ⟨tags, beganAt, collected, .reading []⟩)
    (hprogress : progress = .returned s.moment ∨ progress = .raised) :
    Coherent ttl { s.advance j ⟨tags, beganAt, collected, progress⟩ with store := s.store.wipe collected tags } := by
  obtain ⟨hbegan, hread⟩ := hs.invalidations _ (List.mem_of_getElem? hj)
  have hcollected : ∀ key entry t, read s.store.entries s.now key = some entry → t ∈ tags →
      t ∈ entry.value.tags → key ∈ collected :=
    fun key entry t hentry ht htag => hread t ht List.not_mem_nil key entry hentry htag
  have hentries : ∀ key entry, read (s.store.wipe collected tags).entries s.now key = some entry →
      key ∉ collected ∧ read s.store.entries s.now key = some entry := by
    intro key entry hentry
    replace hentry : read (KeyValue.delete s.store.entries collected) s.now key = some entry := hentry
    rw [read_delete] at hentry
    split at hentry
    · cases hentry
    · next hkept => exact ⟨hkept, hentry⟩
  refine ⟨?_, ?_, ?_, ?_⟩
  · exact fun key entry hentry => hs.lifetimes key entry (hentries key entry hentry).2
  · exact hs.outlived.wipe hcollected
  · intro call hcall
    refine (hs.calls call hcall).mono (Nat.le_succ _) ?_
    intro inv hmem returnedAt hreturned hlt
    cases List.mem_or_eq_of_mem_set hmem with
    | inl hold => exact hold
    | inr hnew =>
      rw [hnew] at hreturned
      rcases hprogress with rfl | rfl
      · cases hreturned
        exact absurd hlt (Nat.lt_irrefl _)
      · cases hreturned
  · intro inv hmem
    cases List.mem_or_eq_of_mem_set hmem with
    | inl hold =>
      exact (hs.invalidations inv hold).mono (Nat.le_succ _) (fun key entry h => (hentries key entry h).2)
    | inr hnew =>
      subst hnew
      refine ⟨Nat.lt_succ_of_lt hbegan, ?_⟩
      rcases hprogress with rfl | rfl
      · refine ⟨Nat.le_of_lt hbegan, ?_⟩
        intro t ht key entry hentry htag
        obtain ⟨hkept, hold⟩ := hentries key entry hentry
        exact absurd (hcollected key entry t hold ht htag) hkept
      · trivial

theorem step {s' : Concurrent V} {a : Event V} (hs : Coherent ttl s) (horderly : orderly s a = true)
    (ha : (concurrent ttl).step s a = some s') : Coherent ttl s' := by
  cases a with
  | call key tags =>
    rw [← Option.some.inj ha]
    refine ⟨hs.lifetimes, hs.outlived, ?_, ?_⟩
    · intro call hmem
      cases List.mem_append.mp hmem with
      | inl hold => exact (hs.calls call hold).mono (Nat.le_succ _) (fun inv hinv _ _ _ => hinv)
      | inr hnew =>
        rw [List.mem_singleton.mp hnew]
        exact ⟨Nat.lt_succ_self _, trivial⟩
    · exact fun inv hinv => (hs.invalidations inv hinv).mono (Nat.le_succ _) (fun _ _ h => h)
  | get i =>
    simp only [concurrent] at ha
    split at ha
    · next key tags startedAt hi =>
      split at ha
      · next entry hentry =>
        rw [← Option.some.inj ha]
        have htags : tags.all entry.value.tags.contains = true := by
          simpa only [orderly, hi, hentry, Option.all_some] using horderly
        refine hs.get hi hentry ?_
        intro t ht
        exact List.contains_iff_mem.mp (List.all_eq_true.mp htags t ht)
      · rw [← Option.some.inj ha]
        exact hs.resume ⟨Nat.lt_succ_of_lt (hs.calls _ (List.mem_of_getElem? hi)).1, trivial⟩
    · cases ha
  | compute i value =>
    simp only [concurrent] at ha
    split at ha
    · next key tags startedAt hi =>
      rw [← Option.some.inj ha]
      have hstarted := (hs.calls _ (List.mem_of_getElem? hi)).1
      exact hs.resume ⟨Nat.lt_succ_of_lt hstarted, hstarted⟩
    · cases ha
  | put i answered =>
    simp only [concurrent] at ha
    split at ha
    · next key tags startedAt value computedAt hi =>
      rw [← Option.some.inj ha]
      have hadmits : (s.invalidations.all fun inv => inv.admits key tags computedAt) = true := by
        simpa only [orderly, hi, Option.all_some] using horderly
      refine hs.put hi rfl (List.all_eq_true.mp hadmits) ?_
      split
      · exact .inl rfl
      · exact .inr rfl
    · cases ha
  | raise i =>
    simp only [concurrent] at ha
    split at ha
    · next call hi =>
      split at ha
      · cases ha
      · rw [← Option.some.inj ha]
        exact hs.resume ⟨Nat.lt_succ_of_lt (hs.calls _ (List.mem_of_getElem? hi)).1, trivial⟩
    · cases ha
  | invalidateTags tags =>
    rw [← Option.some.inj ha]
    refine ⟨hs.lifetimes, hs.outlived, ?_, ?_⟩
    · intro call hcall
      refine (hs.calls call hcall).mono (Nat.le_succ _) ?_
      intro inv hmem returnedAt hreturned _
      cases List.mem_append.mp hmem with
      | inl hold => exact hold
      | inr hnew =>
        rw [List.mem_singleton.mp hnew] at hreturned
        cases hreturned
    · intro inv hmem
      cases List.mem_append.mp hmem with
      | inl hold => exact (hs.invalidations inv hold).mono (Nat.le_succ _) (fun _ _ h => h)
      | inr hnew =>
        rw [List.mem_singleton.mp hnew]
        exact ⟨Nat.lt_succ_self _, fun t ht hunread => absurd ht hunread⟩
  | smembers j =>
    simp only [concurrent] at ha
    split at ha
    · next hj =>
      rw [← Option.some.inj ha]
      exact hs.smembers hj
    · cases ha
  | delete j answered =>
    simp only [concurrent] at ha
    split at ha
    · next hj =>
      rw [← Option.some.inj ha]
      refine hs.delete hj ?_
      split
      · exact .inl rfl
      · exact .inr rfl
    · cases ha
  | abort j =>
    simp only [concurrent] at ha
    split at ha
    · next inv hj =>
      split at ha
      · cases ha
      · rw [← Option.some.inj ha]
        exact hs.advance ⟨Nat.lt_succ_of_lt (hs.invalidations _ (List.mem_of_getElem? hj)).1, trivial⟩ nofun
    · cases ha
  | tick elapsed =>
    rw [← Option.some.inj ha]
    have hle : s.now ≤ s.now + (elapsed : Time) := Int.le_add_of_nonneg_right (Int.natCast_nonneg elapsed)
    have hentries : ∀ key entry, read s.store.entries (s.now + (elapsed : Time)) key = some entry →
        read s.store.entries s.now key = some entry := fun key entry => read_of_later hle
    refine ⟨?_, hs.outlived.later hle, ?_, ?_⟩
    · intro key entry hentry
      obtain ⟨deadline, hd, hlt⟩ := hs.lifetimes key entry (hentries key entry hentry)
      exact ⟨deadline, hd, Int.le_trans hlt (Int.add_le_add_right hle _)⟩
    · exact fun call hcall => (hs.calls call hcall).mono (Nat.le_succ _) (fun inv hinv _ _ _ => hinv)
    · exact fun inv hinv => (hs.invalidations inv hinv).mono (Nat.le_succ _) hentries

end Coherent

/-- In every run whose calls are orderly, no call that starts after an
invalidation of one of its tags has returned returns a value computed before
that invalidation began. -/
theorem orderly_calls_never_stale {ttl : Int} {now : Time} {s : Concurrent V}
    (h : (concurrent ttl).Steps (fun s a => orderly s a = true) (Concurrent.init now) s) : NeverStale s := by
  have hs : Coherent ttl s := h.invariant (fun _ _ _ hv horderly ha => hv.step horderly ha) (Coherent.init ttl now)
  intro call hcall value computedAt hphase
  have hsound := (hs.calls call hcall).2
  rw [hphase] at hsound
  exact hsound

/-- A call caches a value; an invalidation deletes it while a second call is
waiting, and the second call computes a new one. -/
def orderlyRun : List (Event String) :=
  [.call "k" ["t"], .get 0, .compute 0 "old", .put 0 true, .invalidateTags ["t"], .call "k" ["t"], .smembers 0,
    .delete 0 true, .get 1, .compute 1 "new", .put 1 true, .call "k" ["t"], .get 2]

theorem orderly_calls_never_stale_sample : ∃ s,
    (concurrent 60).runIf orderly (Concurrent.init 0) orderlyRun = some s ∧
    s.calls.map Call.phase = [.returned "old" 2, .returned "new" 9, .returned "new" 9] ∧ NeverStale s := by
  obtain ⟨s, hs⟩ : ∃ s, (concurrent 60).runIf orderly (Concurrent.init 0) orderlyRun = some s := ⟨_, rfl⟩
  refine ⟨s, hs, ?_, orderly_calls_never_stale (Machine.steps_of_runIf hs)⟩
  cases hs
  rfl

/-- A call finds nothing and runs its function; the whole invalidation passes
before it stores. The next call returns what it stored. -/
def straddlingRun : List (Event String) :=
  [.call "k" ["t"], .get 0, .compute 0 "old", .invalidateTags ["t"], .smembers 0, .delete 0 true, .put 0 true,
    .call "k" ["t"], .get 1]

theorem straddling_call : ∃ s : Concurrent String, (concurrent 60).Reaches (Concurrent.init 0) s ∧ ¬ NeverStale s := by
  obtain ⟨s, hs⟩ : ∃ s, (concurrent 60).run (Concurrent.init 0) straddlingRun = some s := ⟨_, rfl⟩
  refine ⟨s, Machine.reaches_of_run hs, fun hfresh => ?_⟩
  cases hs
  have hstale := hfresh ⟨"k", ["t"], 7, .returned "old" 2⟩ (List.mem_of_getElem? (i := 1) rfl) "old" 2 rfl
    ⟨["t"], 3, [], .returned 5⟩ (List.mem_of_getElem? (i := 0) rfl) 5 rfl (by decide) "t"
    List.mem_cons_self List.mem_cons_self
  revert hstale
  decide

end FastiKit.Cache
