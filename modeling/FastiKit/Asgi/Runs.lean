import Mathlib.Data.List.Induction
import Mathlib.Data.List.Nodup

/- What an ASGI application does with one request: the messages it sends, what it
   does in between, and the exception it ends with, if it does.
   A middleware that wraps `send` sees one message at a time and what was done
   before it (`Run.rewrap`); one that catches sees the exception, and what it sends
   comes after all that has been sent (`Run.rescue`). The server accepts one response: one start,
   and nothing after the body that says it is the last. -/
namespace Asgi

/-- Named values in order. -/
abbrev Fields (α : Type) := List (String × α)

namespace Fields
variable {α : Type}

/-- The first value of that name. -/
def value (fields : Fields α) (name : String) : Option α := (fields.find? (fun field => field.1 = name)).map Prod.snd

/-- The value of that name, in the place of the first one there was. -/
def set (name : String) (a : α) : Fields α → Fields α
  | [] => [(name, a)]
  | field :: fields =>
    if field.1 = name then (name, a) :: fields.filter (fun field => field.1 ≠ name) else field :: set name a fields

/-- All of these, one after the other. -/
def setAll (news : Fields α) (fields : Fields α) : Fields α := news.foldl (fun fields new => set new.1 new.2 fields) fields

@[simp] theorem value_nil (name : String) : value ([] : Fields α) name = none := rfl

theorem value_cons (field : String × α) (fields : Fields α) (name : String) :
    value (field :: fields) name = if field.1 = name then some field.2 else value fields name := by
  by_cases h : field.1 = name <;> simp [value, h]

theorem value_filter_ne {fields : Fields α} {name other : String} (h : name ≠ other) :
    value (fields.filter (fun field => field.1 ≠ name)) other = value fields other := by
  induction fields with
  | nil => rfl
  | cons field fields ih =>
    by_cases hname : field.1 = name
    · rw [List.filter_cons_of_neg (by simpa using hname), ih, value_cons, hname, if_neg h]
    · rw [List.filter_cons_of_pos (by simpa using hname), value_cons, value_cons, ih]

theorem value_set (name : String) (a : α) (fields : Fields α) (other : String) :
    value (set name a fields) other = if name = other then some a else value fields other := by
  induction fields with
  | nil => rw [set, value_cons]
  | cons field fields ih =>
    unfold set
    by_cases hfield : field.1 = name
    · rw [if_pos hfield, value_cons]
      by_cases hother : name = other
      · simp [hother]
      · rw [if_neg hother, if_neg hother, value_filter_ne hother, value_cons, hfield, if_neg hother]
    · rw [if_neg hfield, value_cons, ih, value_cons]
      by_cases hother : field.1 = other
      · have hne : name ≠ other := by
          rw [← hother]
          exact Ne.symm hfield
        simp [hother, hne]
      · simp [hother]

/-- Setting other names leaves a value as it is. -/
theorem value_setAll_of_ne {news : Fields α} {fields : Fields α} {name : String} (h : ∀ new ∈ news, new.1 ≠ name) :
    value (setAll news fields) name = value fields name := by
  unfold setAll
  induction news generalizing fields with
  | nil => rfl
  | cons new news ih =>
    rw [List.foldl_cons, ih (fun new' hnew' => h new' (List.mem_cons_of_mem _ hnew')), value_set,
      if_neg (h new List.mem_cons_self)]

theorem value_setAll {news : Fields α} (hnodup : (news.map Prod.fst).Nodup) (fields : Fields α) {new : String × α}
    (h : new ∈ news) : value (setAll news fields) new.1 = some new.2 := by
  unfold setAll
  induction news generalizing fields with
  | nil => cases h
  | cons first news ih =>
    obtain ⟨hfirst, hrest⟩ := List.nodup_cons.mp hnodup
    rw [List.foldl_cons]
    cases List.mem_cons.mp h with
    | inl heq =>
      have hlater : ∀ new' ∈ news, new'.1 ≠ new.1 := by
        intro new' hnew' hsame
        rw [heq] at hsame
        exact hfirst (hsame ▸ List.mem_map_of_mem hnew')
      have : value (setAll news (set first.1 first.2 fields)) new.1 = _ := value_setAll_of_ne hlater
      unfold setAll at this
      rw [this, value_set, heq, if_pos rfl]
    | inr hmem => exact ih hrest _ hmem

/-- A value survives unless one of the new ones takes its place. -/
theorem value_setAll_iff {news fields : Fields α} (hnodup : (news.map Prod.fst).Nodup) {name : String} {a : α}
    (hold : value fields name = some a) :
    value (setAll news fields) name = some a ↔ ∀ new ∈ news, new.1 = name → new.2 = a := by
  by_cases htaken : ∃ new ∈ news, new.1 = name
  · obtain ⟨new, hnew, rfl⟩ := htaken
    rw [value_setAll hnodup fields hnew, Option.some.injEq]
    constructor
    · intro heq other hother hname
      rw [List.inj_on_of_nodup_map hnodup hother hnew hname, heq]
    · intro h
      exact h new hnew rfl
  · have hkept : ∀ new ∈ news, new.1 ≠ name := fun new hnew hname => htaken ⟨new, hnew, hname⟩
    rw [value_setAll_of_ne hkept, hold]
    simp only [true_iff]
    exact fun new hnew hname => absurd hname (hkept new hnew)

end Fields

/-- A message of the `http` protocol. -/
inductive Message (β : Type) where
  | start (status : Nat) (headers : Fields String)
  | body (content : β) (more : Bool)
  | other (type : String)
  deriving DecidableEq, Repr

/-- What the protocol looks at in a message. -/
inductive Kind where
  | start
  | more
  | final
  | other
  deriving DecidableEq, Repr

namespace Message
variable {β γ : Type}

def kind : Message β → Kind
  | start _ _ => .start
  | body _ true => .more
  | body _ false => .final
  | other _ => .other

/-- A change of the headers of a start. -/
def mapHeaders (f : Fields String → Fields String) : Message β → Message β
  | start status headers => start status (f headers)
  | message => message

/-- The same message with another kind of content. -/
def mapBody (f : β → γ) : Message β → Message γ
  | start status headers => start status headers
  | body content more => body (f content) more
  | other type => other type

@[simp] theorem kind_mapHeaders (f : Fields String → Fields String) (message : Message β) :
    (message.mapHeaders f).kind = message.kind := by
  cases message <;> rfl

end Message

/-! The protocol. -/

inductive Phase where
  | waiting
  | started
  | complete
  deriving DecidableEq, Repr

/-- Where a response is after one more message, if the protocol has it. -/
def Phase.next : Phase → Kind → Option Phase
  | waiting, .start => some started
  | waiting, .other => some waiting
  | started, .more => some started
  | started, .final => some complete
  | started, .other => some started
  | _, _ => none

/-- The messages are ones an application may send, as far as they go. -/
def Legal (kinds : List Kind) : Prop := (kinds.foldlM Phase.next Phase.waiting).isSome = true

/-- One response at most: no second start, nothing after the last body. -/
def WellFormed (kinds : List Kind) : Prop := kinds.count .start ≤ 1 ∧ .final ∉ kinds.dropLast

instance (kinds : List Kind) : Decidable (Legal kinds) := inferInstanceAs (Decidable (_ = true))

instance (kinds : List Kind) : Decidable (WellFormed kinds) := inferInstanceAs (Decidable (_ ∧ _))

theorem wellFormed_append_iff {kinds : List Kind} :
    WellFormed (kinds ++ [.start, .final]) ↔ .start ∉ kinds ∧ .final ∉ kinds := by
  have hdrop : (kinds ++ [Kind.start, Kind.final]).dropLast = kinds ++ [.start] := by simp
  have hcount : (kinds ++ [Kind.start, Kind.final]).count .start = kinds.count .start + 1 := by simp
  have hstart : Kind.start ∉ kinds ↔ kinds.count .start = 0 := List.count_eq_zero.symm
  unfold WellFormed
  rw [hdrop, hcount, hstart, List.mem_append, not_or]
  simp

/-- What was sent when a response has come that far. -/
def Phase.Sent : Phase → List Kind → Prop
  | .waiting, kinds => .start ∉ kinds ∧ .final ∉ kinds
  | .started, kinds => kinds.count .start = 1 ∧ .final ∉ kinds
  | .complete, kinds => kinds.count .start = 1 ∧ .final ∉ kinds.dropLast

theorem sent_of_legal {kinds : List Kind} {phase : Phase} (h : kinds.foldlM Phase.next Phase.waiting = some phase) :
    phase.Sent kinds := by
  induction kinds using List.reverseRecOn generalizing phase with
  | nil =>
    rw [← Option.some.inj h]
    simp [Phase.Sent]
  | append_singleton kinds kind ih =>
    rw [List.foldlM_append, Option.bind_eq_bind, Option.bind_eq_some_iff] at h
    obtain ⟨mid, hmid, hlast⟩ := h
    have hstep : mid.next kind = some phase := by simpa using hlast
    have hbefore := ih hmid
    cases mid with
    | waiting =>
      obtain ⟨hstart, hfinal⟩ := hbefore
      have hcount : kinds.count .start = 0 := List.count_eq_zero.mpr hstart
      cases kind with
      | start =>
        rw [← Option.some.inj hstep]
        simp [Phase.Sent, hcount, hfinal]
      | other =>
        rw [← Option.some.inj hstep]
        simp [Phase.Sent, hstart, hfinal]
      | more => cases hstep
      | final => cases hstep
    | started =>
      obtain ⟨hstart, hfinal⟩ := hbefore
      cases kind with
      | start => cases hstep
      | more =>
        rw [← Option.some.inj hstep]
        simp [Phase.Sent, hstart, hfinal]
      | final =>
        rw [← Option.some.inj hstep]
        simp [Phase.Sent, hstart, hfinal]
      | other =>
        rw [← Option.some.inj hstep]
        simp [Phase.Sent, hstart, hfinal]
    | complete => cases kind <;> cases hstep

/-- What an application may send is well formed, and has no last body before a start. -/
theorem Legal.wellFormed {kinds : List Kind} (h : Legal kinds) :
    WellFormed kinds ∧ (.start ∉ kinds → .final ∉ kinds) := by
  obtain ⟨phase, hphase⟩ := Option.isSome_iff_exists.mp h
  have hspec := sent_of_legal hphase
  cases phase with
  | waiting =>
    obtain ⟨hstart, hfinal⟩ := hspec
    refine ⟨⟨?_, ?_⟩, fun _ => hfinal⟩
    · rw [List.count_eq_zero.mpr hstart]
      omega
    · exact fun hin => hfinal (List.dropLast_subset kinds hin)
  | started =>
    obtain ⟨hstart, hfinal⟩ := hspec
    refine ⟨⟨by omega, ?_⟩, fun _ => hfinal⟩
    exact fun hin => hfinal (List.dropLast_subset kinds hin)
  | complete =>
    obtain ⟨hstart, hfinal⟩ := hspec
    refine ⟨⟨by omega, hfinal⟩, ?_⟩
    intro hnone
    rw [List.count_eq_zero.mpr hnone] at hstart
    omega

/-! Runs and middlewares. -/

/-- A message is sent, or the application does something else. -/
inductive Event (ν β : Type) where
  | sent (message : Message β)
  | did (a : ν)
  deriving DecidableEq, Repr

/-- One call of an application: what it does in order, and the exception it ends with. -/
structure Run (ν β ε : Type) where
  events : List (Event ν β)
  raised : Option ε
  deriving DecidableEq, Repr

namespace Run
variable {ν β ε : Type}

def messages (run : Run ν β ε) : List (Message β) :=
  run.events.filterMap fun
    | .sent message => some message
    | .did _ => none

/-- The messages as the protocol sees them. -/
def kinds (run : Run ν β ε) : List Kind := run.messages.map Message.kind

/-- A wrapped `send`: each message goes through `f`, which knows what was done before it. -/
def rewrapFrom (f : List ν → Message β → Message β) : List ν → List (Event ν β) → List (Event ν β)
  | _, [] => []
  | done, .sent message :: events => .sent (f done message) :: rewrapFrom f done events
  | done, .did a :: events => .did a :: rewrapFrom f (done ++ [a]) events

def rewrap (f : List ν → Message β → Message β) (run : Run ν β ε) : Run ν β ε :=
  { run with events := rewrapFrom f [] run.events }

/-- `try: run`, `except: handler`, for the exceptions it catches. -/
def rescue (handler : ε → Option (Run ν β ε)) (run : Run ν β ε) : Run ν β ε :=
  match run.raised.bind handler with
  | none => run
  | some response => ⟨run.events ++ response.events, response.raised⟩

theorem rescue_eq_self {handler : ε → Option (Run ν β ε)} {run : Run ν β ε}
    (h : run.raised.bind handler = none) : run.rescue handler = run := by
  rw [rescue, h]

theorem messages_rescue {handler : ε → Option (Run ν β ε)} {run response : Run ν β ε}
    (h : run.raised.bind handler = some response) :
    (run.rescue handler).messages = run.messages ++ response.messages := by
  simp only [rescue, h, messages, List.filterMap_append]

theorem raised_rescue {handler : ε → Option (Run ν β ε)} {run response : Run ν β ε}
    (h : run.raised.bind handler = some response) : (run.rescue handler).raised = response.raised := by
  rw [rescue, h]

theorem messages_rewrapFrom (f : List ν → Message β → Message β) (done : List ν) (events : List (Event ν β))
    (raised raised' : Option ε) :
    List.Forall₂ (fun message message' => ∃ done, message' = f done message)
      (Run.mk events raised).messages (Run.mk (rewrapFrom f done events) raised').messages := by
  induction events generalizing done with
  | nil => exact .nil
  | cons event events ih =>
    cases event with
    | sent message => exact .cons ⟨done, rfl⟩ (ih done)
    | did a => exact ih (done ++ [a])

/-- The messages of a wrapped run, each from the one in its place. -/
theorem messages_rewrap (f : List ν → Message β → Message β) (run : Run ν β ε) :
    List.Forall₂ (fun message message' => ∃ done, message' = f done message) run.messages (run.rewrap f).messages :=
  messages_rewrapFrom f [] run.events run.raised run.raised

theorem mem_rewrap {f : List ν → Message β → Message β} {run : Run ν β ε} {message' : Message β}
    (h : message' ∈ (run.rewrap f).messages) : ∃ message ∈ run.messages, ∃ done, message' = f done message := by
  have hall := messages_rewrap f run
  generalize run.messages = messages at hall
  generalize (run.rewrap f).messages = messages' at hall h
  induction hall with
  | nil => cases h
  | cons hhead _ ih =>
    cases List.mem_cons.mp h with
    | inl heq =>
      subst heq
      exact ⟨_, List.mem_cons_self, hhead⟩
    | inr hmem =>
      obtain ⟨message, hin, hdone⟩ := ih hmem
      exact ⟨message, List.mem_cons_of_mem _ hin, hdone⟩

theorem rewrap_mem {f : List ν → Message β → Message β} {run : Run ν β ε} {message : Message β}
    (h : message ∈ run.messages) : ∃ done, f done message ∈ (run.rewrap f).messages := by
  have hall := messages_rewrap f run
  generalize run.messages = messages at hall h
  generalize (run.rewrap f).messages = messages' at hall
  induction hall with
  | nil => cases h
  | cons hhead _ ih =>
    cases List.mem_cons.mp h with
    | inl heq =>
      subst heq
      obtain ⟨done, hdone⟩ := hhead
      exact ⟨done, hdone ▸ List.mem_cons_self⟩
    | inr hmem =>
      obtain ⟨done, hdone⟩ := ih hmem
      exact ⟨done, List.mem_cons_of_mem _ hdone⟩

/-- A `send` that changes headers only sends the same kinds of messages. -/
theorem kinds_rewrap {f : List ν → Message β → Message β} (hf : ∀ done message, (f done message).kind = message.kind)
    (run : Run ν β ε) : (run.rewrap f).kinds = run.kinds := by
  have hall := messages_rewrap f run
  unfold kinds
  generalize run.messages = messages at hall
  generalize (run.rewrap f).messages = messages' at hall
  induction hall with
  | nil => rfl
  | cons hhead _ ih =>
    obtain ⟨done, heq⟩ := hhead
    rw [List.map_cons, List.map_cons, ih, heq, hf]

theorem kinds_rescue {handler : ε → Option (Run ν β ε)} {run response : Run ν β ε}
    (h : run.raised.bind handler = some response) : (run.rescue handler).kinds = run.kinds ++ response.kinds := by
  rw [kinds, messages_rescue h, List.map_append, kinds, kinds]

end Run

end Asgi
