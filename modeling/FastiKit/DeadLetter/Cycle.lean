import FastiKit.DeadLetter.Repository
import FastiKit.Outbox.Enqueue

/- A job that fails, is recorded, retried, relayed and enqueued again is the same
   job, whatever its arguments are called.

   What is proved: after any number of such rounds the worker receives the
   function and the keyword arguments of the first job; a round that delivers
   nothing is one in which the database refused a row, never one whose arguments
   clashed. The arguments travel as the value of one entry, `kwargs`, so none of
   their names meets a parameter on the way.

   Correspondence (Python ↔ Lean):
     `record_dead_letter_job`                    ↔ `recordDeadLetterJob`
     `DeadLetterJobModel`'s column types         ↔ `DeadLetterJob.fits`
     `OutboxEvent`'s column types                ↔ `OutboxEvent.fits`
     the call of `enqueue_task` in `dispatch_pending` ↔ `Outbox.Saq.handOver` -/
namespace FastiKit

open Interleave Relational Keyword Outbox

/-- A `String(n)` column stores the text. -/
def varchar (n : Nat) (text : String) : Bool := decide (text.length ≤ n) && textStorable text

namespace DeadLetterJob
variable {ν : Type} (jsonb : Jsonb ν)

/-- The row is within the column types. -/
def fits (row : DeadLetterJob ν) : Bool :=
  varchar 255 row.jobKey && varchar 255 row.function && varchar 255 row.queueName && varchar 32 row.status &&
    row.error.all textStorable && decide (row.attempts < 2 ^ 31) && jsonb.takes row.kwargs

/-- What is read of the row. -/
def stored (row : DeadLetterJob ν) : DeadLetterJob ν := { row with kwargs := jsonb.read row.kwargs }

end DeadLetterJob

/-- A new event is within the column types. -/
def OutboxEvent.fits {ν : Type} (jsonb : Jsonb ν) (event : OutboxEvent (Args ν)) : Bool :=
  varchar 255 event.taskName && jsonb.takes event.payload

namespace DeadLetter
variable {ν : Type}

/-- One round: how the job failed, and the ids and moments of its rows. -/
structure Round where
  status : String
  error : Option String
  attempts : Nat
  jobId : Uuid
  failedAt : Time
  eventId : Uuid
  retriedAt : Time

/-- `record_dead_letter_job` -/
def recordDeadLetterJob (job : SaqJob ν) (round : Round) : Recorded ν :=
  { jobKey := job.key, function := job.function, queueName := job.queue.getD "default", kwargs := job.arguments,
    status := round.status, error := round.error, attempts := round.attempts }

/-- The row the hook inserts. -/
def recordedRow (job : SaqJob ν) (round : Round) : DeadLetterJob ν :=
  (recordDeadLetterJob job round).row round.jobId round.failedAt

section Rounds
variable (saq : Saq ν) (jsonb : Jsonb ν) (settings : QueueSettings ν)

/-- The event the retry of the recorded row stages. -/
def retriedEvent (job : SaqJob ν) (round : Round) : OutboxEvent (Args ν) :=
  (((recordedRow job round).stored jsonb).retried round.retriedAt).retryEvent saq.dict round.eventId round.retriedAt

/-- The database refuses a row of the round: the one the hook inserts, or the retry's event. -/
def refuses (job : SaqJob ν) (round : Round) : Bool :=
  !((recordedRow job round).fits jsonb && (retriedEvent saq jsonb job round).fits jsonb)

/-- Fail, record, retry, relay, enqueue. -/
def cycle (job : SaqJob ν) (round : Round) : Except String (SaqJob ν) :=
  if refuses saq jsonb job round then .error "DataError"
  else saq.handOver jsonb settings (retriedEvent saq jsonb job round).job

/-- Round after round, each with the job the one before delivered. -/
def cycles (job : SaqJob ν) (rounds : List Round) : Except String (SaqJob ν) :=
  rounds.foldlM (cycle saq jsonb settings) job

end Rounds

section Preservation
variable {saq : Saq ν} {jsonb : Jsonb ν} {settings : QueueSettings ν}

/-- The one entry of a retry's event passes both calls and becomes the job's arguments. -/
theorem handOver_nested (hsaq : saq.Routes) (hjsonb : jsonb.Returns) (settings : QueueSettings ν)
    {job : Job (Args ν)} {kwargs : Args ν}
    (hpayload : ∀ name, job.payload.value name = if name = "kwargs" then some (saq.dict kwargs) else none) :
    ∃ made, saq.handOver jsonb settings job = .ok made ∧ made.function = job.function ∧
      ∀ name, made.arguments.value name = kwargs.value name := by
  have hread : ∀ name, name ≠ "kwargs" → (jsonb.read job.payload).value name = none := by
    intro name hname
    rw [hjsonb job.payload name, hpayload name, if_neg hname]
  have hfree : ∀ name ∈ "task_name" :: ownKeywords, (jsonb.read job.payload).value name = none := by
    intro name hname
    apply hread
    rintro rfl
    revert hname
    decide
  have hparams : ∀ name ∈ saq.params, name ∉ ownKeywords ∧ (jsonb.read job.payload).value name = none := by
    intro name hname
    have hnot : name ∉ "kwargs" :: ownKeywords := fun hin => (hsaq.policy name hin).2 hname
    rw [List.mem_cons, not_or] at hnot
    exact ⟨hnot.2, hread name hnot.1⟩
  obtain ⟨call, hpasses, hfresh, hcall⟩ := handOver_of_free settings hfree hparams
  have hentry : call.value "kwargs" = some (saq.dict kwargs) := by
    rw [hpasses.rest "kwargs" (by decide), hjsonb job.payload "kwargs", hpayload "kwargs", if_pos rfl]
  -- besides the four keywords of `enqueue_task` SAQ is given `kwargs` alone
  have honly : ∀ name, name ∉ "kwargs" :: ownKeywords → call.value name = none := by
    intro name hname
    rw [List.mem_cons, not_or] at hname
    rw [hpasses.rest name hname.2, hread name hname.1]
  have htakes : ∃ made, saq.enqueue job.function call = .ok made := by
    apply hsaq.takes
    · exact hfresh
    · intro name _ hsome
      by_contra hnot
      rw [honly name hnot] at hsome
      cases hsome
    · intro value hvalue
      rw [hentry] at hvalue
      exact ⟨kwargs, (Option.some.inj hvalue).symm⟩
  have hothers : ∀ name, (call.without saq.fields).value name = none := by
    intro name
    rw [Args.value_without]
    split
    · rfl
    · next hfield => exact honly name (fun hin => hfield (hsaq.policy name hin).1)
  obtain ⟨made, hmade⟩ := htakes
  exact ⟨made, hcall.trans hmade, hsaq.function hmade, hsaq.kwargs hmade hentry hothers⟩

variable (saq jsonb) in
theorem retriedEvent_payload (job : SaqJob ν) (round : Round) (name : String) :
    (retriedEvent saq jsonb job round).job.payload.value name =
      if name = "kwargs" then some (saq.dict (jsonb.read job.arguments)) else none := by
  by_cases hname : name = "kwargs"
  · rw [if_pos hname, hname]
    rfl
  · have hother : ¬"kwargs" = name := fun h => hname h.symm
    simp [retriedEvent, DeadLetterJob.retryEvent, OutboxEvent.new, OutboxEvent.job, Args.value, Table.get, hname, hother]

/-- A round whose rows the database takes keeps the function and the arguments. -/
theorem cycle_of_taken (hsaq : saq.Routes) (hjsonb : jsonb.Returns) (settings : QueueSettings ν) {job : SaqJob ν}
    {round : Round} (htaken : refuses saq jsonb job round = false) :
    ∃ job', cycle saq jsonb settings job round = .ok job' ∧ job'.function = job.function ∧
      ∀ name, job'.arguments.value name = job.arguments.value name := by
  obtain ⟨job', hjob', hfunction, harguments⟩ :=
    handOver_nested hsaq hjsonb settings (retriedEvent_payload saq jsonb job round)
  refine ⟨job', ?_, hfunction, ?_⟩
  · rw [cycle, if_neg (by simp [htaken]), hjob']
  · intro name
    rw [harguments name, hjsonb job.arguments name]

theorem cycles_nil (job : SaqJob ν) : cycles saq jsonb settings job [] = .ok job := rfl

theorem cycles_cons (job : SaqJob ν) (round : Round) (rounds : List Round) :
    cycles saq jsonb settings job (round :: rounds) =
      (cycle saq jsonb settings job round).bind (fun job' => cycles saq jsonb settings job' rounds) := by
  simp only [cycles, List.foldlM_cons, bind]

end Preservation

/-- Over any number of rounds the worker receives the function and the arguments
of the first job; what ends them is a row the database refuses. -/
theorem cycles_preserve {saq : Saq ν} (hsaq : saq.Routes) {jsonb : Jsonb ν} (hjsonb : jsonb.Returns)
    (settings : QueueSettings ν) (job : SaqJob ν) (rounds : List Round) :
    (∀ job', cycles saq jsonb settings job rounds = .ok job' →
      job'.function = job.function ∧ ∀ name, job'.arguments.value name = job.arguments.value name) ∧
    ∀ err, cycles saq jsonb settings job rounds = .error err → ∃ earlier round later job',
      rounds = earlier ++ round :: later ∧ cycles saq jsonb settings job earlier = .ok job' ∧
        refuses saq jsonb job' round = true := by
  induction rounds generalizing job with
  | nil =>
    rw [cycles_nil]
    constructor
    · intro job' h
      rw [← Except.ok.inj h]
      exact ⟨rfl, fun name => rfl⟩
    · rintro err ⟨⟩
  | cons round rounds ih =>
    cases hrefused : refuses saq jsonb job round with
    | true =>
      have herror : cycles saq jsonb settings job (round :: rounds) = .error "DataError" := by
        rw [cycles_cons, cycle, if_pos hrefused]
        rfl
      refine ⟨?_, fun err _ => ⟨[], round, rounds, job, rfl, cycles_nil job, hrefused⟩⟩
      intro job' h
      rw [herror] at h
      cases h
    | false =>
      obtain ⟨next, hnext, hfunction, harguments⟩ := cycle_of_taken hsaq hjsonb settings hrefused
      have hsteps : ∀ rest, cycles saq jsonb settings job (round :: rest) = cycles saq jsonb settings next rest := by
        intro rest
        rw [cycles_cons, hnext]
        rfl
      obtain ⟨hok, herror⟩ := ih next
      rw [hsteps]
      constructor
      · intro job' h
        obtain ⟨hf, hargs⟩ := hok job' h
        exact ⟨hf.trans hfunction, fun name => (hargs name).trans (harguments name)⟩
      · intro err h
        obtain ⟨earlier, refused, later, job', hsplit, hearlier, hrefused⟩ := herror err h
        refine ⟨round :: earlier, refused, later, job', by rw [hsplit]; rfl, ?_, hrefused⟩
        rw [hsteps]
        exact hearlier

/-- Arguments named after fields of the job and after parameters on the way. -/
def clashingKwargs : Args Json :=
  ⟨[("key", .string "k"), ("timeout", .number ⟨['5'], rfl⟩), ("retries", .null), ("task_name", .string "t"),
    ("kwargs", .object [("self", .bool true)]), ("function", .array [])], by decide⟩

def clashingJob : SaqJob Json := ⟨"first", "send_email_task", some clashingKwargs, none⟩

def sampleRound (id : Uuid) : Round := ⟨"failed", some "boom", 3, id, 0, id + 1, 1⟩

theorem cycles_preserve_sample : ∃ job',
    cycles sampleSaq sampleJsonb samplePolicy clashingJob [sampleRound 0, sampleRound 2] = .ok job' ∧
    job'.function = "send_email_task" ∧ ∀ name, job'.arguments.value name = clashingKwargs.value name := by
  have hok : (cycles sampleSaq sampleJsonb samplePolicy clashingJob [sampleRound 0, sampleRound 2]).isOk = true := by
    decide +kernel
  cases hrun : cycles sampleSaq sampleJsonb samplePolicy clashingJob [sampleRound 0, sampleRound 2] with
  | error err =>
    rw [hrun] at hok
    cases hok
  | ok job' =>
    exact ⟨job', rfl, (cycles_preserve sampleSaq_routes sampleJsonb_returns samplePolicy clashingJob
      [sampleRound 0, sampleRound 2]).1 job' hrun⟩

end DeadLetter
end FastiKit
