import FastiKit.Auth.Entities
import FastiKit.KeyValue.Expiring

/- What the `@cache` decorator and `invalidate_tags` send to Redis.

   Correspondence (Python ↔ Lean):
     `redis.get(cache_key)`                     ↔ `KeyValue.read` of `Store.entries`
     the pipeline of `cache.wrapper`            ↔ `Store.put`
     `redis.smembers(tag_key)`                  ↔ `KeyValue.members` of `Store.tagSets`
     the pipeline of `invalidate_tags`          ↔ `Store.wipe`
   A pipeline is one MULTI/EXEC. A cache key is what `_generate_cache_key` made of
   the call; a tag stands for its key `{prefix}:tags:{tag}`. The two kinds of keys
   are kept apart. -/
namespace FastiKit.Cache

open KeyValue

/-- What a store writes under a cache key, and the tags it was stored with. -/
structure Cached (V : Type) where
  payload : V
  tags : List String

structure Store (V : Type) where
  entries : Keys String (Cached V)
  tagSets : Keys String (List String)

/-- A time to live is in seconds. -/
def seconds (ttl : Int) : Time := ttl * 1000000

namespace Store
variable {V : Type}

def empty : Store V := ⟨fun _ => none, fun _ => none⟩

/-- SET the entry, then SADD and EXPIRE for each tag. -/
def put (s : Store V) (now : Time) (key : String) (entry : Cached V) (ttl : Int) : Store V :=
  ⟨setEx s.entries now key entry (seconds ttl), tagAll s.tagSets now key (seconds ttl) entry.tags⟩

/-- The members of the tag sets, one SMEMBERS after the other. -/
def tagged (s : Store V) (now : Time) (tags : List String) : List String := tags.flatMap (members s.tagSets now)

/-- DEL the entries and the tag sets. -/
def wipe (s : Store V) (keys tags : List String) : Store V := ⟨delete s.entries keys, delete s.tagSets tags⟩

theorem read_put (s : Store V) (now : Time) (key : String) (entry : Cached V) (ttl : Int) (key' : String) :
    read (s.put now key entry ttl).entries now key' =
      if 0 < seconds ttl ∧ key' = key then some ⟨entry, some (now + seconds ttl)⟩
      else read s.entries now key' :=
  read_setEx s.entries now key entry (seconds ttl) key'

theorem read_put_tag (s : Store V) (now : Time) (key : String) (entry : Cached V) (ttl : Int) (t : String) :
    read (s.put now key entry ttl).tagSets now t =
      if t ∈ entry.tags then
        if 0 < seconds ttl then some ⟨(members s.tagSets now t).insert key, some (now + seconds ttl)⟩ else none
      else read s.tagSets now t :=
  read_tagAll s.tagSets now key (seconds ttl) entry.tags t

/-- The sets of a store's tags are gone once its time to live is over. -/
theorem members_put_expired (s : Store V) {now later : Time} (key : String) (entry : Cached V) (ttl : Int)
    {t : String} (ht : t ∈ entry.tags) (hlater : now ≤ later) (hend : now + seconds ttl ≤ later) :
    members (s.put now key entry ttl).tagSets later t = [] := by
  rw [members]
  cases hread : read (s.put now key entry ttl).tagSets later t with
  | none => rfl
  | some set =>
    have hbefore := read_of_later hlater hread
    rw [read_put_tag, if_pos ht] at hbefore
    split at hbefore
    · have hlive := (read_eq_some.mp hread).2
      rw [← Option.some.inj hbefore] at hlive
      simp only [Expiring.liveAt, Option.all_some, decide_eq_true_eq] at hlive
      exact absurd (Int.lt_of_lt_of_le hlive hend) (Int.lt_irrefl _)
    · cases hbefore

end Store

end FastiKit.Cache
