import FastiKit.Language.Json
import FastiKit.Language.Keywords
import FastiKit.Outbox.Relay
import Mathlib.Data.List.Sort

/- What the job queue makes of a call of `enqueue_task`.

   Correspondence (Python ↔ Lean):
     `enqueue_task(row.task_name, key=..., **row.payload)`  ↔ `Saq.handOver`
     `enqueue_task`                                         ↔ `Saq.enqueueTask`
     SAQ's `Queue.enqueue`                                  ↔ `Saq.enqueue`
     `saq.Job`                                              ↔ `SaqJob`, the fields that are read
     a JSONB column                                         ↔ `Jsonb`
   The payload goes into the keywords of two calls that have keywords of their own, and
   SAQ then takes from them what it has a `Job` field for. SAQ and Postgres are no part of
   the repository: `Saq.Routes` and `Jsonb.Returns` say what is relied on. The type `ν` is
   that of JSON values: a number is one value however it is written, and a dictionary is
   one value in whatever order its keys come. -/
namespace FastiKit

open Interleave Relational Keyword

/-- The retry policy of the settings. -/
structure QueueSettings (ν : Type) where
  taskMaxRetries : ν
  taskRetryDelay : ν
  taskRetryBackoff : ν

namespace Outbox
variable {ν : Type}

/-- A job as its worker and the failure hook see it. -/
structure SaqJob (ν : Type) where
  key : String
  function : String
  kwargs : Option (Args ν)
  queue : Option String

/-- What the worker calls the function with. -/
def SaqJob.arguments (job : SaqJob ν) : Args ν := job.kwargs.getD .empty

/-- The parameters of `Queue.enqueue`, the fields of `Job`, how a text and a dictionary are
values, and the job an `enqueue` on a reachable queue makes of the task's name and the
keywords. -/
structure Saq (ν : Type) where
  params : List String
  fields : List String
  str : String → ν
  dict : Args ν → ν
  enqueue : String → Args ν → Except String (SaqJob ν)

/-- The keywords `enqueue_task` passes itself. -/
def ownKeywords : List String := ["key", "retries", "retry_delay", "retry_backoff"]

/-- What `Queue.enqueue` is documented to do with its keywords: those named after fields of
the job set them, and the others are the job's arguments. -/
structure Saq.Routes (saq : Saq ν) : Prop where
  policy : ∀ name ∈ "kwargs" :: ownKeywords, name ∈ saq.fields ∧ name ∉ saq.params
  function : ∀ {task : String} {args : Args ν} {job : SaqJob ν}, saq.enqueue task args = .ok job →
    job.function = task
  routes : ∀ {task : String} {args : Args ν} {job : SaqJob ν}, saq.enqueue task args = .ok job →
    args.value "kwargs" = none → ∀ name, job.arguments.value name = (args.without saq.fields).value name
  kwargs : ∀ {task : String} {args : Args ν} {job : SaqJob ν} {kwargs : Args ν}, saq.enqueue task args = .ok job →
    args.value "kwargs" = some (saq.dict kwargs) → (∀ name, (args.without saq.fields).value name = none) →
    ∀ name, job.arguments.value name = kwargs.value name
  takes : ∀ (task : String) (args : Args ν), (∀ name ∈ saq.params, args.value name = none) →
    (∀ name ∈ saq.fields, (args.value name).isSome = true → name ∈ "kwargs" :: ownKeywords) →
    (∀ value, args.value "kwargs" = some value → ∃ kwargs, value = saq.dict kwargs) →
    ∃ job, saq.enqueue task args = .ok job

/-- A JSONB column: the dictionaries it takes, and what is read of one. -/
structure Jsonb (ν : Type) where
  takes : Args ν → Bool
  read : Args ν → Args ν

/-- What is read is an equal dictionary; the keys may come in another order and the numbers
in another form. -/
def Jsonb.Returns (jsonb : Jsonb ν) : Prop := ∀ args name, (jsonb.read args).value name = args.value name

/-- A call that binds a name twice raises. -/
def orTypeError (args : Option (Args ν)) : Except String (Args ν) :=
  args.elim (.error "TypeError: multiple values for an argument") .ok

namespace Saq
variable (saq : Saq ν) (jsonb : Jsonb ν) (cfg : QueueSettings ν)

/-- `enqueue_task(task_name, *, key, **kwargs)`, with the keywords of the call. -/
def enqueueTask (taskName : String) (args : Args ν) : Except String (SaqJob ν) := do
  let args ← orTypeError (args.beside ["task_name"])
  match args.value "key" with
  | none => .error "TypeError: missing keyword-only argument key"
  | some key =>
    let kwargs := args.without ["key"]
    let call ← orTypeError (kwargs.spread [("key", key), ("retries", cfg.taskMaxRetries),
      ("retry_delay", cfg.taskRetryDelay), ("retry_backoff", cfg.taskRetryBackoff)])
    let call ← orTypeError (call.beside saq.params)
    saq.enqueue taskName call

/-- The call of the relay, which reads the payload from its column. -/
def handOver (job : Job (Args ν)) : Except String (SaqJob ν) := do
  let args ← orTypeError ((jsonb.read job.payload).spread [("key", saq.str job.key)])
  saq.enqueueTask cfg job.function args

end Saq

theorem orTypeError_eq_ok {args : Option (Args ν)} {args' : Args ν} :
    orTypeError args = .ok args' ↔ args = some args' := by
  cases args <;> simp [orTypeError]

theorem bind_eq_ok {ε α β : Type} {x : Except ε α} {f : α → Except ε β} {b : β} :
    x >>= f = .ok b ↔ ∃ a, x = .ok a ∧ f a = .ok b := by
  cases x with
  | error err => simp [bind, Except.bind]
  | ok a => simp [bind, Except.bind]

/-! The names on their way through the two calls. -/

/-- The keywords SAQ gets for a payload: the four of `enqueue_task` and the payload's. -/
structure Passes (payload call : Args ν) : Prop where
  own : ∀ name ∈ "task_name" :: ownKeywords, payload.value name = none
  rest : ∀ name ∉ ownKeywords, call.value name = payload.value name

/-- The relay's `key=` leaves the other names of a payload as they are. -/
theorem value_relayed {payload args : Args ν} {key : ν} (h : payload.spread [("key", key)] = some args)
    {name : String} (hname : name ≠ "key") :
    args.value name = payload.value name ∧ (args.without ["key"]).value name = payload.value name := by
  have hvalue : args.value name = payload.value name := Args.value_spread h (by simpa using hname)
  refine ⟨hvalue, ?_⟩
  rw [Args.value_without, if_neg (by simpa using hname), hvalue]

theorem ne_key_of_not_own {name : String} (hname : name ∉ ownKeywords) : name ≠ "key" := by
  intro heq
  exact hname (by simp [heq, ownKeywords])

section Names
variable {saq : Saq ν} {jsonb : Jsonb ν} {cfg : QueueSettings ν} {job : Job (Args ν)} {made : SaqJob ν}

/-- A call that made a job gave SAQ the payload beside the four keywords. -/
theorem passes_of_handOver (h : saq.handOver jsonb cfg job = .ok made) :
    ∃ call, Passes (jsonb.read job.payload) call ∧ (∀ name ∈ saq.params, call.value name = none) ∧
      saq.enqueue job.function call = .ok made := by
  unfold Saq.handOver at h
  obtain ⟨args, hargs, hcallee⟩ := bind_eq_ok.mp h
  rw [orTypeError_eq_ok] at hargs
  unfold Saq.enqueueTask at hcallee
  obtain ⟨args', hbeside, hbody⟩ := bind_eq_ok.mp hcallee
  obtain ⟨rfl, htask⟩ := Args.beside_eq_some.mp (orTypeError_eq_ok.mp hbeside)
  cases hkey : args'.value "key" with
  | none =>
    rw [hkey] at hbody
    cases hbody
  | some key =>
    rw [hkey] at hbody
    obtain ⟨call, hcall, hrest⟩ := bind_eq_ok.mp hbody
    obtain ⟨call', hbeside', hput⟩ := bind_eq_ok.mp hrest
    obtain ⟨rfl, hparams⟩ := Args.beside_eq_some.mp (orTypeError_eq_ok.mp hbeside')
    rw [orTypeError_eq_ok] at hcall
    refine ⟨_, ⟨?_, ?_⟩, hparams, hput⟩
    · intro name hname
      by_cases hisKey : name = "key"
      · subst hisKey
        exact Args.fresh_of_spread hargs (by simp)
      · cases List.mem_cons.mp hname with
        | inl htaskName =>
          rw [← (value_relayed hargs hisKey).1, htaskName]
          exact htask "task_name" (by simp)
        | inr hown =>
          rw [← (value_relayed hargs hisKey).2]
          exact Args.fresh_of_spread hcall hown
    · intro name hname
      rw [Args.value_spread hcall hname, (value_relayed hargs (ne_key_of_not_own hname)).2]

variable (cfg) in
/-- A payload without the names of the two calls reaches SAQ. -/
theorem handOver_of_free (hfree : ∀ name ∈ "task_name" :: ownKeywords, (jsonb.read job.payload).value name = none)
    (hparams : ∀ name ∈ saq.params, name ∉ ownKeywords ∧ (jsonb.read job.payload).value name = none) :
    ∃ call, Passes (jsonb.read job.payload) call ∧ (∀ name ∈ saq.params, call.value name = none) ∧
      saq.handOver jsonb cfg job = saq.enqueue job.function call := by
  obtain ⟨args, hargs⟩ : ∃ args, (jsonb.read job.payload).spread [("key", saq.str job.key)] = some args := by
    refine Args.spread_of_fresh (by simp) ?_
    intro name hname
    exact hfree name (by simp_all [ownKeywords])
  have hmem : ("key", saq.str job.key) ∈ [("key", saq.str job.key)] := List.mem_singleton.mpr rfl
  have hkey : args.value "key" = some (saq.str job.key) := Args.value_spread_named hargs hmem
  have htask : args.beside ["task_name"] = some args := by
    refine Args.beside_eq_some.mpr ⟨rfl, ?_⟩
    intro name hname
    rw [List.mem_singleton.mp hname, (value_relayed hargs (by decide)).1]
    exact hfree "task_name" List.mem_cons_self
  have hkeyless : ∀ name ∈ ownKeywords, (args.without ["key"]).value name = none := by
    intro name hname
    by_cases hne : name = "key"
    · rw [Args.value_without, if_pos (by simp [hne])]
    · rw [(value_relayed hargs hne).2]
      exact hfree name (List.mem_cons_of_mem _ hname)
  obtain ⟨call, hcall⟩ : ∃ call, (args.without ["key"]).spread [("key", saq.str job.key),
      ("retries", cfg.taskMaxRetries), ("retry_delay", cfg.taskRetryDelay),
      ("retry_backoff", cfg.taskRetryBackoff)] = some call :=
    Args.spread_of_fresh (by simp) hkeyless
  have hpasses : Passes (jsonb.read job.payload) call := by
    refine ⟨hfree, ?_⟩
    intro name hname
    rw [Args.value_spread hcall hname, (value_relayed hargs (ne_key_of_not_own hname)).2]
  have hfresh : ∀ name ∈ saq.params, call.value name = none := by
    intro name hname
    rw [hpasses.rest name (hparams name hname).1]
    exact (hparams name hname).2
  have hbeside : call.beside saq.params = some call := Args.beside_eq_some.mpr ⟨rfl, hfresh⟩
  refine ⟨call, hpasses, hfresh, ?_⟩
  simp [Saq.handOver, Saq.enqueueTask, orTypeError, hargs, htask, hkey, hcall, hbeside, bind, Except.bind]

end Names

/-! SAQ and a JSONB column as they are documented. -/

/-- The fields of SAQ's `Job`. -/
def jobFields : List String :=
  ["function", "kwargs", "queue", "key", "timeout", "heartbeat", "retries", "ttl", "retry_delay", "retry_backoff",
    "scheduled", "progress", "attempts", "completed", "queued", "started", "touched", "result", "error", "status",
    "priority", "group_key", "worker_id", "meta"]

/-- The dictionary that a value is. -/
def dictionary : Json → Option (Args Json)
  | .object members => if h : (members.map Prod.fst).Nodup then some ⟨members, h⟩ else none
  | _ => none

theorem dictionary_object (args : Args Json) : dictionary (.object args.rows) = some args := dif_pos args.nodup

/-- `kwargs.update(others)` -/
def updated (kwargs others : Args Json) : Args Json :=
  ((kwargs.without (others.rows.map Prod.fst)).spread others.rows).getD kwargs

/-- The arguments of the job: a dictionary given as `kwargs`, and what is no field. -/
def sampleKwargs (args : Args Json) : Except String (Option (Args Json)) :=
  let others := args.without jobFields
  match args.value "kwargs" with
  | none => .ok (if others.rows.isEmpty then none else some others)
  | some value =>
    match dictionary value with
    | some kwargs => .ok (some (updated kwargs others))
    | none => .error "TypeError: kwargs is no dictionary"

def sampleSaq : Saq Json where
  params := ["self", "job_or_func"]
  fields := jobFields
  str := .string
  dict args := .object args.rows
  enqueue task args :=
    if (args.value "function").isSome then .error "TypeError: multiple values for function"
    else do
      let kwargs ← sampleKwargs args
      let key := match args.value "key" with
        | some (.string key) => key
        | _ => ""
      return ⟨key, task, kwargs, some "default"⟩

theorem sampleSaq_enqueue {task : String} {args : Args Json} {job : SaqJob Json}
    (h : sampleSaq.enqueue task args = .ok job) : job.function = task ∧ sampleKwargs args = .ok job.kwargs := by
  simp only [sampleSaq] at h
  split at h
  · cases h
  · obtain ⟨kwargs, hkwargs, hjob⟩ := bind_eq_ok.mp h
    rw [← Except.ok.inj hjob]
    exact ⟨rfl, hkwargs⟩

theorem value_empty_rows {args : Args Json} (h : ∀ name, args.value name = none) : args.rows = [] := by
  rw [List.eq_nil_iff_forall_not_mem]
  intro arg harg
  have hvalue := h arg.1
  rw [Args.value, Table.get_of_mem harg] at hvalue
  cases hvalue

theorem sampleSaq_routes : sampleSaq.Routes where
  policy := by decide
  function h := (sampleSaq_enqueue h).1
  routes {task args job} h hnone name := by
    have hkwargs := (sampleSaq_enqueue h).2
    simp only [sampleKwargs, hnone, Except.ok.injEq] at hkwargs
    rw [SaqJob.arguments, ← hkwargs]
    split
    · next hempty =>
      have hrows : (args.without jobFields).rows = [] := List.isEmpty_iff.mp hempty
      have hget : (args.without jobFields).get name = none := by
        rw [Table.get, hrows]
        rfl
      exact (congrArg (Option.map Prod.snd) hget).symm
    · rfl
  kwargs {task args job kwargs} h hvalue hothers name := by
    have hkwargs := (sampleSaq_enqueue h).2
    have hrows : (args.without jobFields).rows = [] := value_empty_rows hothers
    have hdict : dictionary (sampleSaq.dict kwargs) = some kwargs := dictionary_object kwargs
    simp only [sampleKwargs, hvalue, hdict, Except.ok.injEq] at hkwargs
    rw [SaqJob.arguments, ← hkwargs, Option.getD_some, updated, hrows]
    exact (Args.value_without [] kwargs name).trans (if_neg (by simp))
  takes task args _ hfields hdict := by
    have hfunction : (args.value "function").isSome = false := by
      rw [Bool.eq_false_iff]
      intro hsome
      exact absurd (hfields "function" (by decide) hsome) (by decide)
    have hkwargs : ∃ kwargs, sampleKwargs args = .ok kwargs := by
      unfold sampleKwargs
      cases hvalue : args.value "kwargs" with
      | none => exact ⟨_, rfl⟩
      | some value =>
        obtain ⟨kwargs, rfl⟩ := hdict value hvalue
        have hread : dictionary (sampleSaq.dict kwargs) = some kwargs := dictionary_object kwargs
        simp only [hread]
        exact ⟨_, rfl⟩
    obtain ⟨kwargs, hkwargs⟩ := hkwargs
    simp only [sampleSaq, hfunction, hkwargs]
    exact ⟨_, rfl⟩

/-- Postgres stores any text but one with a NUL character. -/
def textStorable (text : String) : Bool := !text.toList.contains '\x00'

mutual

def storable : Json → Bool
  | .null => true
  | .bool _ => true
  | .number _ => true
  | .string text => textStorable text
  | .array items => itemsStorable items
  | .object members => membersStorable members

def itemsStorable : List Json → Bool
  | [] => true
  | item :: rest => storable item && itemsStorable rest

def membersStorable : List (String × Json) → Bool
  | [] => true
  | (name, value) :: rest => textStorable name && storable value && membersStorable rest

end

/-- The order of the keys in a JSONB object: the shorter ones first. -/
def keyLe (entry entry' : String × Json) : Bool :=
  decide (entry.1.length < entry'.1.length) || (entry.1.length = entry'.1.length && decide (entry.1 ≤ entry'.1))

/-- JSONB, of the entries of a dictionary. -/
def sampleJsonb : Jsonb Json where
  takes args := membersStorable args.rows
  read args := ⟨args.rows.insertionSort (fun entry entry' => keyLe entry entry' = true),
    ((List.perm_insertionSort _ args.rows).map Prod.fst).nodup_iff.mpr args.nodup⟩

theorem sampleJsonb_returns : sampleJsonb.Returns := by
  intro args name
  have hperm := List.perm_insertionSort (fun entry entry' => keyLe entry entry' = true) args.rows
  have hget : (sampleJsonb.read args).get name = args.get name := by
    cases h : args.get name with
    | none =>
      rw [Table.get_eq_none] at h ⊢
      exact fun entry hentry => h entry (hperm.mem_iff.mp hentry)
    | some entry =>
      rw [← Table.get_key h]
      exact Table.get_of_mem (t := sampleJsonb.read args) (hperm.mem_iff.mpr (Table.mem_of_get h))
  rw [Args.value, Args.value, hget]

/-- Three retries, five seconds apart at first. -/
def samplePolicy : QueueSettings Json := ⟨.number ⟨['3'], rfl⟩, .number ⟨['5', '.', '0'], rfl⟩, .bool true⟩

end Outbox
end FastiKit
