import FastiKit.Language.Dict
import FastiKit.Language.Json
import FastiKit.Relational.Table

/- The JSON lines of the log. `JsonFormatter.format` writes its own members first and lets
   the extras of a record come over them, all but those with names of its exclusion list;
   that list has the attributes of a `LogRecord`, which are not the members' names, so that
   an extra `level` takes the place of the level (`extras_corrupt`). What the encoder
   cannot write (`Writable`) raises: `default=str` is for values, and not for keys.

   Correspondence (Python ↔ Lean):
     `Logger.makeRecord`                     ↔ `makeRecord`
     `RequestIdFilter.filter`                ↔ `RequestIdFilter.filter`
     `_NON_EXTRA_FIELDS`                     ↔ `nonExtraFields`
     `JsonFormatter.format`                  ↔ `JsonFormatter.format`
     `datetime.fromtimestamp`, `isoformat`   ↔ `isoformat`
     `json.dumps(entry, default=str)`        ↔ `jsonDumps`
   Objects refer to each other in a heap, so that they can be circular; how deep calls may
   nest is a parameter. -/
namespace FastiKit.Logging

/-- What the formatting of a record raises. -/
inductive Raised where
  | valueError (message : String)
  | typeError (message : String)
  | recursionError
  | other (name : String)
  deriving DecidableEq, Repr

/-! Python's values. -/

/-- A finite float is here what `repr` shows of it, which is a number of JSON. -/
inductive PyFloat where
  | finite (repr : Json.Number)
  | nan
  | infinity (negative : Bool)
  deriving DecidableEq

inductive Key where
  | none
  | bool (b : Bool)
  | int (i : Int)
  | float (f : PyFloat)
  | str (s : String)
  | other (id : Nat) (typeName : String)
  deriving DecidableEq

inductive Value where
  | none
  | bool (b : Bool)
  | int (i : Int)
  | float (f : PyFloat)
  | str (s : String)
  | object (id : Nat)
  deriving DecidableEq

/-- A list or tuple, a dict, or anything else, with what `str` makes of it. -/
inductive Object where
  | list (items : List Value)
  | dict (entries : List (Key × Value))
  | other (str : Except Raised String)

abbrev Heap := Nat → Object

/-! `json.dumps`. -/

def PyFloat.chars : PyFloat → List Char
  | .finite repr => repr.chars
  | .nan => "NaN".toList
  | .infinity negative => if negative then "-Infinity".toList else "Infinity".toList

/-- `sys.get_int_max_str_digits()` -/
def maxStrDigits : Nat := 4300

/-- `int.__repr__` -/
def intRepr (i : Int) : Except Raised (List Char) :=
  if 10 ^ maxStrDigits ≤ i.natAbs then
    .error (.valueError ("Exceeds the limit (4300 digits) for integer string conversion; " ++
      "use sys.set_int_max_str_digits() to increase the limit"))
  else .ok (Json.intChars i)

/-- The name of a member. -/
def Key.chars : Key → Except Raised (List Char)
  | .none => .ok "null".toList
  | .bool b => .ok (if b then "true".toList else "false".toList)
  | .int i => intRepr i
  | .float f => .ok f.chars
  | .str s => .ok s.toList
  | .other _ typeName => .error (.typeError ("keys must be str, int, float, bool or None, not " ++ typeName))

def joined (texts : List (List Char)) : List Char := Json.comma.intercalate texts

def dumpsMember (dumps : Value → Except Raised (List Char)) (entry : Key × Value) : Except Raised (List Char) := do
  let name ← entry.1.chars
  let text ← dumps entry.2
  return Json.quoted (String.ofList name) ++ [':', ' '] ++ text

def dumpsDict (dumps : Value → Except Raised (List Char)) (entries : List (Key × Value)) : Except Raised (List Char) := do
  let texts ← entries.mapM (dumpsMember dumps)
  return '{' :: (joined texts ++ ['}'])

def circular : Raised := .valueError "Circular reference detected"

/-- The text of a value, with so many levels left; `markers` are the containers it is in. -/
def dumps (heap : Heap) : Nat → List Nat → Value → Except Raised (List Char)
  | _, _, .none => .ok "null".toList
  | _, _, .bool b => .ok (if b then "true".toList else "false".toList)
  | _, _, .int i => intRepr i
  | _, _, .float f => .ok f.chars
  | _, _, .str s => .ok (Json.quoted s)
  | 0, markers, .object id =>
    match heap id with
    | .list _ => .error .recursionError
    | .dict _ => .error .recursionError
    | .other str => if id ∈ markers then .error circular else str.bind (fun _ => .error .recursionError)
  | limit + 1, markers, .object id =>
    match heap id with
    | .list items =>
      if items = [] then .ok ['[', ']']
      else if id ∈ markers then .error circular
      else do
        let texts ← items.mapM (dumps heap limit (id :: markers))
        return '[' :: (joined texts ++ [']'])
    | .dict entries =>
      if entries = [] then .ok ['{', '}']
      else if id ∈ markers then .error circular
      else dumpsDict (dumps heap limit (id :: markers)) entries
    | .other str => if id ∈ markers then .error circular else str.map Json.quoted

/-- `json.dumps(entry, default=str)` of a dict that nothing refers to. -/
def jsonDumps (heap : Heap) (limit : Nat) (entry : Dict Key Value) : Except Raised String :=
  match limit with
  | 0 => .error .recursionError
  | limit + 1 =>
    if entry.entries = [] then .ok "\x7b\x7d" else (dumpsDict (dumps heap limit []) entry.entries).map String.ofList

/-! The time of a record. -/

def padded (width n : Nat) : List Char :=
  let digits := Nat.toDigits 10 n
  List.replicate (width - digits.length) '0' ++ digits

/-- The year, month and day so many days after 1970-01-01. -/
def civil (days : Int) : Int × Nat × Nat :=
  -- years are counted from March, in cycles of 400
  let shifted := days + 719468
  let cycle := shifted / 146097
  let ofCycle := (shifted % 146097).toNat
  let yearOfCycle := (ofCycle - ofCycle / 1460 + ofCycle / 36524 - ofCycle / 146096) / 365
  let dayOfYear := ofCycle - (365 * yearOfCycle + yearOfCycle / 4 - yearOfCycle / 100)
  let fromMarch := (5 * dayOfYear + 2) / 153
  let month := if fromMarch < 10 then fromMarch + 3 else fromMarch - 9
  (yearOfCycle + cycle * 400 + (if month ≤ 2 then 1 else 0), month, dayOfYear - (153 * fromMarch + 2) / 5 + 1)

/-- `datetime.fromtimestamp(created, UTC).isoformat()`, for a moment in microseconds. -/
def isoformat (created : Int) : Except Raised String :=
  let (year, month, day) := civil (created / 86400000000)
  let microsecond := (created % 86400000000).toNat
  let seconds := microsecond / 1000000
  if 1 ≤ year ∧ year ≤ 9999 then
    .ok (String.ofList (padded 4 year.toNat ++ '-' :: padded 2 month ++ '-' :: padded 2 day ++ 'T' :: padded 2 (seconds / 3600) ++
      ':' :: padded 2 (seconds / 60 % 60) ++ ':' :: padded 2 (seconds % 60) ++
      (if microsecond % 1000000 = 0 then [] else '.' :: padded 6 (microsecond % 1000000)) ++ "+00:00".toList))
  else .error (.valueError ("year " ++ toString year ++ " is out of range"))

example : isoformat 951827696000001 = .ok "2000-02-29T12:34:56.000001+00:00" := by decide +kernel

/-! Records. -/

/-- `vars(logging.makeLogRecord({}))` -/
def logRecordFields : List String :=
  ["name", "msg", "args", "levelname", "levelno", "pathname", "filename", "module", "exc_info", "exc_text", "stack_info",
    "lineno", "funcName", "created", "msecs", "relativeCreated", "thread", "threadName", "processName", "process", "taskName"]

/-- `_NON_EXTRA_FIELDS` -/
def nonExtraFields : List String := logRecordFields ++ ["message", "asctime", "request_id", "color_message"]

/-- What is read of a record, with what its methods give: `message` is the answer of
`getMessage`, `exception` that of `formatException` if there is an exception. -/
structure LogRecord where
  created : Int
  levelname : String
  name : String
  message : Except Raised String
  exception : Option String
  stackInfo : Option String
  vars : Dict Key Value

/-- A record as `LogRecord` makes it. -/
def LogRecord.Fresh (record : LogRecord) : Prop := record.vars.entries.map Prod.fst = logRecordFields.map Key.str

/-- The extras of a call come over a fresh record, if none of them clashes with what is
there; that would be a `KeyError`. -/
def makeRecord (record : LogRecord) (extra : Dict Key Value) : Option LogRecord :=
  if extra.entries.any (fun entry => entry.1 = .str "message" || entry.1 = .str "asctime" ||
      entry.1 ∈ record.vars.entries.map Prod.fst) then
    none
  else some { record with vars := record.vars.update extra.entries }

def RequestIdFilter.filter (requestId : String) (record : LogRecord) : LogRecord :=
  { record with vars := record.vars.set (.str "request_id") (.str requestId) }

/-- The member is of the extras. -/
def isExtra (entry : Key × Value) : Bool := entry.1 ∉ nonExtraFields.map Key.str

/-- The members of the formatter's own. -/
def ownMembers (record : LogRecord) (timestamp message : String) : List (Key × Value) :=
  [(.str "timestamp", .str timestamp), (.str "level", .str record.levelname), (.str "logger", .str record.name),
    (.str "message", .str message), (.str "correlation_id", record.vars.get (.str "request_id") (.str "-"))]

/-- The traceback and the stack, if there are any. -/
def tracebacks (record : LogRecord) : List (Key × Value) :=
  (match record.exception with
    | some text => [(Key.str "exception", Value.str text)]
    | none => []) ++
  (match record.stackInfo with
    | some text => if text = "" then [] else [(Key.str "stack", Value.str text)]
    | none => [])

/-- What is written: the extras come over the formatter's own members. -/
def entryOf (record : LogRecord) (timestamp message : String) : Dict Key Value :=
  ((Dict.empty.update (ownMembers record timestamp message)).update (tracebacks record)).update (record.vars.entries.filter isExtra)

def JsonFormatter.format (heap : Heap) (limit : Nat) (record : LogRecord) : Except Raised String := do
  let timestamp ← isoformat record.created
  let message ← record.message
  jsonDumps heap limit (entryOf record timestamp message)

/-! What can be written. -/

/-- The values in an object. -/
def Object.parts : Object → List Value
  | .list items => items
  | .dict entries => entries.map Prod.snd
  | .other _ => []

/-- `w` is `v`, or in it. -/
inductive Inside (heap : Heap) (v : Value) : Value → Prop
  | self : Inside heap v v
  | part {id : Nat} {w : Value} : Inside heap v (.object id) → w ∈ (heap id).parts → Inside heap v w

/-- The objects in it are nested so many levels at most; none is in itself. -/
def Fits (heap : Heap) : Nat → Value → Prop
  | 0, .object _ => False
  | levels + 1, .object id => ∀ w ∈ (heap id).parts, Fits heap levels w
  | _, _ => True

/-- A key that can be the name of a member. -/
def Key.Writable : Key → Prop
  | .int i => i.natAbs < 10 ^ maxStrDigits
  | .other _ _ => False
  | _ => True

/-- JSON can say it: the numbers in it are finite and not too long, the keys in it are
names, and `str` has an answer for every other object. -/
structure Writable (heap : Heap) (limit : Nat) (v : Value) : Prop where
  fits : Fits heap limit v
  ints : ∀ {i}, Inside heap v (.int i) → i.natAbs < 10 ^ maxStrDigits
  floats : ∀ {f}, Inside heap v (.float f) → ∃ repr, f = .finite repr
  keys : ∀ {id entries}, Inside heap v (.object id) → heap id = .dict entries → ∀ entry ∈ entries, entry.1.Writable
  others : ∀ {id str}, Inside heap v (.object id) → heap id = .other str → ∃ text, str = .ok text

section Writable
variable {heap : Heap} {limit levels : Nat} {v w : Value} {id : Nat} {markers : List Nat}

theorem Inside.trans {u : Value} (h : Inside heap v w) (h' : Inside heap w u) : Inside heap v u := by
  induction h' with
  | self => exact h
  | part _ hpart ih => exact .part ih hpart

theorem Fits.mono (h : Fits heap levels v) : Fits heap (levels + 1) v := by
  induction levels generalizing v with
  | zero =>
    cases v with
    | object id => exact h.elim
    | _ => trivial
  | succ levels ih =>
    cases v with
    | object id => exact fun w hw => ih (h w hw)
    | _ => trivial

/-- What is in it can be written too, but for the levels it is under. -/
theorem Writable.inside (h : Writable heap limit v) (hinside : Inside heap v w) (hfits : Fits heap levels w) :
    Writable heap levels w where
  fits := hfits
  ints hi := h.ints (hinside.trans hi)
  floats hf := h.floats (hinside.trans hf)
  keys hid := h.keys (hinside.trans hid)
  others hid := h.others (hinside.trans hid)

theorem intRepr_ok {i : Int} (h : i.natAbs < 10 ^ maxStrDigits) : intRepr i = .ok (Json.intChars i) := if_neg (Nat.not_le.mpr h)

theorem Key.Writable.chars_ok {key : Key} (h : key.Writable) : ∃ name, key.chars = .ok name := by
  cases key with
  | int i => exact ⟨_, intRepr_ok h⟩
  | other _ _ => exact h.elim
  | _ => exact ⟨_, rfl⟩

/-! Its text is JSON. -/

theorem renderItems_eq (items : List Json) : Json.renderItems [] items = joined (items.map Json.render) := by
  induction items with
  | nil => rfl
  | cons item rest ih =>
    cases rest with
    | nil => simp [Json.renderItems, joined]
    | cons next more =>
      rw [Json.renderItems, Json.renderItems_head, ih]
      simp [joined, List.intercalate_cons_cons]

theorem renderMembers_eq (members : List (String × Json)) : Json.renderMembers [] members =
    joined (members.map (fun member => Json.quoted member.1 ++ [':', ' '] ++ member.2.render)) := by
  induction members with
  | nil => rfl
  | cons member rest ih =>
    obtain ⟨name, value⟩ := member
    cases rest with
    | nil => simp [Json.renderMembers, joined]
    | cons next more =>
      rw [Json.renderMembers, Json.renderMembers_head, ih]
      simp [joined, List.intercalate_cons_cons]

/-- What succeeds for each of them does so for all. -/
theorem mapM_ok {α β γ : Type} {f : α → Except Raised β} {g : γ → β} {xs : List α} (h : ∀ x ∈ xs, ∃ y, f x = .ok (g y)) :
    ∃ ys : List γ, xs.mapM f = .ok (ys.map g) := by
  induction xs with
  | nil => exact ⟨[], rfl⟩
  | cons x rest ih =>
    obtain ⟨y, hy⟩ := h x List.mem_cons_self
    obtain ⟨ys, hys⟩ := ih (fun x hx => h x (List.mem_cons_of_mem _ hx))
    exact ⟨y :: ys, by rw [List.mapM_cons, hy, hys]; rfl⟩

/-- The members that are written for some entries. -/
inductive Members (f : Value → Except Raised (List Char)) : List (Key × Value) → List (String × Json) → Prop
  | nil : Members f [] []
  | cons {key value name json entries members} : Key.chars key = .ok name → f value = .ok (Json.render json) →
      Members f entries members → Members f ((key, value) :: entries) ((String.ofList name, json) :: members)

theorem exists_members {f : Value → Except Raised (List Char)} {entries : List (Key × Value)}
    (h : ∀ entry ∈ entries, entry.1.Writable ∧ ∃ j, f entry.2 = .ok (Json.render j)) : ∃ members, Members f entries members := by
  induction entries with
  | nil => exact ⟨[], .nil⟩
  | cons entry rest ih =>
    obtain ⟨hkey, j, hj⟩ := h entry List.mem_cons_self
    obtain ⟨name, hname⟩ := hkey.chars_ok
    obtain ⟨members, hmembers⟩ := ih (fun entry hin => h entry (List.mem_cons_of_mem _ hin))
    exact ⟨_, .cons hname hj hmembers⟩

theorem dumpsDict_members {f : Value → Except Raised (List Char)} {entries : List (Key × Value)} {members : List (String × Json)}
    (h : Members f entries members) : dumpsDict f entries = .ok (Json.render (.object members)) := by
  have htexts : entries.mapM (dumpsMember f) =
      .ok (members.map (fun member => Json.quoted member.1 ++ [':', ' '] ++ member.2.render)) := by
    induction h with
    | nil => rfl
    | cons hname hj _ ih =>
      rw [List.mapM_cons, dumpsMember, hname, hj, ih]
      rfl
  rw [dumpsDict, htexts, Json.render, renderMembers_eq]
  rfl

theorem fits_scalar (hv : ∀ id, v ≠ .object id) : Fits heap levels v := by
  cases levels with
  | zero =>
    cases v with
    | object id => exact absurd rfl (hv id)
    | _ => trivial
  | succ levels =>
    cases v with
    | object id => exact absurd rfl (hv id)
    | _ => trivial

theorem dumps_scalar (h : Writable heap levels v) (hv : ∀ id, v ≠ .object id) :
    ∃ j, dumps heap limit markers v = .ok (Json.render j) := by
  cases v with
  | none => exact ⟨.null, by unfold dumps; rfl⟩
  | bool b => exact ⟨.bool b, by unfold dumps; rfl⟩
  | int i =>
    have hint : intRepr i = .ok (Json.intChars i) := intRepr_ok (h.ints .self)
    exact ⟨.number (.ofInt i), by unfold dumps; exact hint⟩
  | float f =>
    obtain ⟨repr, rfl⟩ := h.floats .self
    exact ⟨.number repr, by unfold dumps; rfl⟩
  | str s => exact ⟨.string s, by unfold dumps; rfl⟩
  | object id => exact absurd rfl (hv id)

/-- What can be written is. The induction is on the levels it fits in; a container is not
in itself, since what is in it fits in fewer. -/
theorem dumps_writable {n : Nat} (h : Writable heap n v) (hlimit : n ≤ limit)
    (hmarkers : ∀ marker ∈ markers, ¬ Fits heap n (.object marker)) : ∃ j, dumps heap limit markers v = .ok (Json.render j) := by
  induction n generalizing v limit markers with
  | zero =>
    apply dumps_scalar h
    intro id heq
    rw [heq] at h
    exact h.fits
  | succ n ih =>
    by_cases hless : Fits heap n v
    · exact ih (h.inside .self hless) (Nat.le_of_succ_le hlimit) (fun marker hin hfits => hmarkers marker hin hfits.mono)
    obtain ⟨id, rfl⟩ : ∃ id, v = .object id := by
      by_contra hnot
      exact hless (fits_scalar (fun id heq => hnot ⟨id, heq⟩))
    obtain ⟨limit, rfl⟩ : ∃ limit', limit = limit' + 1 := ⟨limit - 1, by omega⟩
    have hid : id ∉ markers := fun hin => hmarkers id hin h.fits
    have hinner : ∀ marker ∈ id :: markers, ¬ Fits heap n (.object marker) := by
      intro marker hin
      cases List.mem_cons.mp hin with
      | inl heq => exact heq ▸ hless
      | inr hin => exact fun hfits => hmarkers marker hin hfits.mono
    have hparts : ∀ w ∈ (heap id).parts, ∃ j, dumps heap limit (id :: markers) w = .ok (Json.render j) :=
      fun w hw => ih (h.inside (.part .self hw) (h.fits w hw)) (by omega) hinner
    unfold dumps
    cases hobject : heap id with
    | list items =>
      rw [hobject] at hparts
      simp only [if_neg hid]
      split
      · exact ⟨.array [], rfl⟩
      · obtain ⟨js, hjs⟩ := mapM_ok hparts
        refine ⟨.array js, ?_⟩
        rw [Object.parts] at hjs
        rw [hjs, Json.render, renderItems_eq]
        rfl
    | dict entries =>
      rw [hobject] at hparts
      simp only [if_neg hid]
      split
      · exact ⟨.object [], rfl⟩
      · obtain ⟨members, hmembers⟩ := exists_members (fun entry hin =>
          ⟨h.keys .self hobject entry hin, hparts entry.2 (List.mem_map_of_mem hin)⟩)
        exact ⟨.object members, dumpsDict_members hmembers⟩
    | other str =>
      obtain ⟨text, rfl⟩ := h.others .self hobject
      simp only [if_neg hid]
      exact ⟨.string text, rfl⟩

/-- Every entry has its member, and every member is that of an entry. -/
theorem Members.mem {f : Value → Except Raised (List Char)} {entries : List (Key × Value)} {members : List (String × Json)}
    (h : Members f entries members) {name : String} {json : Json} : (name, json) ∈ members ↔
      ∃ entry ∈ entries, entry.1.chars = .ok name.toList ∧ f entry.2 = .ok json.render := by
  induction h with
  | nil => simp
  | @cons key value name' json' entries members hname hj _ ih =>
    rw [List.mem_cons, ih, List.exists_mem_cons_iff, hname, hj]
    apply or_congr_left
    rw [Prod.mk.injEq, Except.ok.injEq, Except.ok.injEq]
    constructor
    · intro h
      obtain ⟨rfl, rfl⟩ := h
      exact ⟨String.toList_ofList.symm, rfl⟩
    · intro h
      obtain ⟨rfl, hrender⟩ := h
      exact ⟨String.ofList_toList.symm, Json.render_inj hrender.symm⟩

end Writable

/-! The line of a record. -/

/-- The names of the members that are the record's. -/
def memberNames : List String := ["timestamp", "level", "logger", "message", "correlation_id"]

/-- The text is one JSON object. Of each of these names there is one member, with what the
record says, and there is a member for every extra key but those and the dropped ones. -/
def LineOf (text : String) (record : LogRecord) (timestamp message requestId : String) (extra : Dict Key Value)
    (dropped : List String) : Prop :=
  ∃ members, Json.parse text.toList = some (.object members) ∧
    (∀ own ∈ memberNames.zip [timestamp, record.levelname, record.name, message, requestId],
      members.filter (fun member => member.1 = own.1) = [(own.1, .string own.2)]) ∧
    ∀ entry ∈ extra.entries, entry.1 ∉ (memberNames ++ dropped).map Key.str →
      ∃ name value, entry.1.chars = .ok name ∧ (String.ofList name, value) ∈ members

section Line
variable {heap : Heap} {limit : Nat} {record made : LogRecord} {extra : Dict Key Value} {requestId timestamp message : String}
  {entry : Key × Value}

/-- No other key is written like the name of a member. -/
theorem key_of_memberName {key : Key} {name : String} (hname : name ∈ memberNames) (h : key.chars = .ok name.toList) :
    key = .str name := by
  have hnames : ∀ name ∈ memberNames, name.toList.all Json.isNumeric = false ∧
      name.toList ∉ ["null".toList, "true".toList, "false".toList, "NaN".toList, "Infinity".toList, "-Infinity".toList] := by
    decide
  obtain ⟨hnumeric, hwords⟩ := hnames name hname
  cases key with
  | none => exact absurd (by rw [← Except.ok.inj h]; decide) hwords
  | bool b =>
    rw [Key.chars, Except.ok.injEq] at h
    rw [← h] at hwords
    cases b with
    | true => exact absurd (by decide) hwords
    | false => exact absurd (by decide) hwords
  | int i =>
    rw [Key.chars, intRepr] at h
    split at h
    · cases h
    · have hall := (Json.Number.ofInt i).cases.1
      rw [← Except.ok.inj h] at hnumeric
      exact absurd hall (by rw [Json.Number.ofInt, hnumeric]; decide)
  | float f =>
    rw [Key.chars, Except.ok.injEq] at h
    rw [← h] at hnumeric hwords
    cases f with
    | finite repr => exact absurd repr.cases.1 (by rw [PyFloat.chars] at hnumeric; rw [hnumeric]; decide)
    | nan => exact absurd (by decide) hwords
    | infinity negative =>
      cases negative with
      | true => exact absurd (by decide) hwords
      | false => exact absurd (by decide) hwords
  | str s => rw [Key.chars, Except.ok.injEq, String.toList_inj] at h; rw [h]
  | other id typeName => cases h

/-- The extras that are accepted come over the record, and clash with nothing. -/
theorem makeRecord_some (h : makeRecord record extra = some made) : made = { record with vars := record.vars.update extra.entries } ∧
    ∀ entry ∈ extra.entries, entry.1 ≠ .str "message" ∧ entry.1 ≠ .str "asctime" ∧ entry.1 ∉ record.vars.entries.map Prod.fst := by
  unfold makeRecord at h
  split at h
  · cases h
  · next hclash =>
    refine ⟨(Option.some.inj h).symm, fun entry hin => ?_⟩
    have hentry := mt (fun hany => List.any_eq_true.mpr ⟨entry, hin, hany⟩) hclash
    simpa only [Bool.or_eq_true, decide_eq_true_eq, not_or, and_assoc] using hentry

/-- What is added to the formatter's own members: the extras that are not on the list. -/
theorem mem_filter_vars (hfresh : record.Fresh) (hmade : makeRecord record extra = some made) :
    entry ∈ (RequestIdFilter.filter requestId made).vars.entries.filter isExtra ↔ entry ∈ extra.entries ∧ isExtra entry = true := by
  obtain ⟨rfl, -⟩ := makeRecord_some hmade
  rw [List.mem_filter, RequestIdFilter.filter]
  apply and_congr_left
  intro hextra
  have hkey : entry.1 ∉ nonExtraFields.map Key.str := of_decide_eq_true hextra
  have hrequest : entry.1 ≠ .str "request_id" := by
    intro heq
    exact hkey (heq ▸ by decide)
  have hfields : entry ∉ record.vars.entries := by
    intro hin
    have hfield := List.mem_map_of_mem (f := Prod.fst) hin
    rw [hfresh] at hfield
    rw [nonExtraFields, List.map_append] at hkey
    exact hkey (List.mem_append_left _ hfield)
  rw [Dict.mem_set, Dict.mem_update extra.nodup]
  constructor
  · intro h
    obtain rfl | ⟨h | h, -⟩ := h
    · exact absurd rfl hrequest
    · exact h
    · exact absurd h.1 hfields
  · intro h
    exact .inr ⟨.inl h, hrequest⟩

/-- The list has what clashes, and two names more. -/
theorem isExtra_of_accepted (hfresh : record.Fresh) (hmade : makeRecord record extra = some made) (hin : entry ∈ extra.entries)
    (hkey : entry.1 ∉ (["request_id", "color_message"].map Key.str)) : isExtra entry = true := by
  obtain ⟨hmessage, hasctime, hfields⟩ := (makeRecord_some hmade).2 entry hin
  rw [hfresh] at hfields
  apply decide_eq_true
  rw [nonExtraFields, List.map_append, List.mem_append]
  simp only [List.map_cons, List.map_nil, List.mem_cons, List.not_mem_nil, or_false, not_or] at hkey ⊢
  exact ⟨hfields, hmessage, hasctime, hkey.1, hkey.2⟩

/-- The formatter's own members, by their names. -/
theorem ownMembers_eq (hmade : makeRecord record extra = some made) :
    ownMembers (RequestIdFilter.filter requestId made) timestamp message =
      (memberNames.zip [timestamp, record.levelname, record.name, message, requestId]).map (fun own => (.str own.1, .str own.2)) := by
  obtain ⟨rfl, -⟩ := makeRecord_some hmade
  have hid : ((record.vars.update extra.entries).set (.str "request_id") (.str requestId)).get (.str "request_id") (.str "-") =
      Value.str requestId := Dict.get_set_self _
  simp only [ownMembers, RequestIdFilter.filter, hid]
  rfl

/-- The texts of tracebacks, under two names at most. -/
theorem tracebacks_cases (record : LogRecord) : ((tracebacks record).map Prod.fst).Nodup ∧
    ∀ entry ∈ tracebacks record, entry.1 ∈ ["exception", "stack"].map Key.str ∧ ∃ text, entry.2 = .str text := by
  have hexception : ∀ text, (Key.str "exception", Value.str text).1 ∈ ["exception", "stack"].map Key.str ∧
      ∃ text', (Key.str "exception", Value.str text).2 = .str text' := fun text => ⟨List.mem_cons_self, text, rfl⟩
  have hstack : ∀ text, (Key.str "stack", Value.str text).1 ∈ ["exception", "stack"].map Key.str ∧
      ∃ text', (Key.str "stack", Value.str text).2 = .str text' :=
    fun text => ⟨List.mem_cons_of_mem _ List.mem_cons_self, text, rfl⟩
  unfold tracebacks
  split
  · next text _ =>
    split
    · next stack _ =>
      split
      · exact ⟨List.nodup_singleton _, List.forall_mem_singleton.mpr (hexception text)⟩
      · refine ⟨(by decide : (["exception", "stack"].map Key.str).Nodup), ?_⟩
        exact List.forall_mem_cons.mpr ⟨hexception text, List.forall_mem_singleton.mpr (hstack stack)⟩
    · exact ⟨List.nodup_singleton _, List.forall_mem_singleton.mpr (hexception text)⟩
  · split
    · next stack _ =>
      split
      · exact ⟨List.nodup_nil, nofun⟩
      · exact ⟨List.nodup_singleton _, List.forall_mem_singleton.mpr (hstack stack)⟩
    · exact ⟨List.nodup_nil, nofun⟩

/-- The entries: the extras, and under other keys the formatter's own. -/
theorem mem_entryOf (hfresh : record.Fresh) (hmade : makeRecord record extra = some made) :
    entry ∈ (entryOf (RequestIdFilter.filter requestId made) timestamp message).entries ↔
      entry ∈ extra.entries ∧ isExtra entry = true ∨
        (entry ∈ tracebacks (RequestIdFilter.filter requestId made) ∨
          entry ∈ ownMembers (RequestIdFilter.filter requestId made) timestamp message ∧
            entry.1 ∉ (tracebacks (RequestIdFilter.filter requestId made)).map Prod.fst) ∧
          entry.1 ∉ ((RequestIdFilter.filter requestId made).vars.entries.filter isExtra).map Prod.fst := by
  have hown : ((ownMembers (RequestIdFilter.filter requestId made) timestamp message).map Prod.fst).Nodup :=
    (by decide : (memberNames.map Key.str).Nodup)
  have hextras : (((RequestIdFilter.filter requestId made).vars.entries.filter isExtra).map Prod.fst).Nodup :=
    (RequestIdFilter.filter requestId made).vars.nodup.sublist (List.filter_sublist.map _)
  have hempty : entry ∉ (Dict.empty : Dict Key Value).entries := List.not_mem_nil
  rw [entryOf, Dict.mem_update hextras, Dict.mem_update (tracebacks_cases _).1, Dict.mem_update hown, mem_filter_vars hfresh hmade]
  simp only [hempty, false_and, or_false]

/-- The rest are texts. -/
theorem entryOf_cases (hfresh : record.Fresh) (hmade : makeRecord record extra = some made)
    (h : entry ∈ (entryOf (RequestIdFilter.filter requestId made) timestamp message).entries) :
    entry ∈ extra.entries ∧ isExtra entry = true ∨ ∃ name text, entry = (.str name, .str text) := by
  rw [mem_entryOf hfresh hmade, ownMembers_eq hmade] at h
  obtain h | ⟨h | ⟨h, -⟩, -⟩ := h
  · exact .inl h
  · obtain ⟨hkey, text, htext⟩ := (tracebacks_cases _).2 entry h
    obtain ⟨name, -, hname⟩ := List.mem_map.mp hkey
    exact .inr ⟨name, text, Prod.ext hname.symm htext⟩
  · obtain ⟨own, -, heq⟩ := List.mem_map.mp h
    exact .inr ⟨own.1, own.2, heq.symm⟩

/-- No extra with such a name comes over a member of the record. -/
theorem own_mem_entryOf (hfresh : record.Fresh) (hmade : makeRecord record extra = some made)
    (hextra : ∀ entry ∈ extra.entries, isExtra entry = true → entry.1 ∉ memberNames.map Key.str) {own : String × String}
    (hown : own ∈ memberNames.zip [timestamp, record.levelname, record.name, message, requestId]) :
    (.str own.1, .str own.2) ∈ (entryOf (RequestIdFilter.filter requestId made) timestamp message).entries := by
  have hname : own.1 ∈ memberNames := (List.of_mem_zip hown).1
  rw [mem_entryOf hfresh hmade, ownMembers_eq hmade]
  refine .inr ⟨.inr ⟨List.mem_map_of_mem hown, ?_⟩, ?_⟩
  · intro hin
    obtain ⟨entry, hentry, hkey⟩ := List.mem_map.mp hin
    have hother := ((tracebacks_cases _).2 entry hentry).1
    have hapart : ∀ name ∈ memberNames, Key.str name ∉ ["exception", "stack"].map Key.str := by decide
    rw [hkey] at hother
    exact hapart own.1 hname hother
  · intro hin
    obtain ⟨entry, hentry, hkey⟩ := List.mem_map.mp hin
    obtain ⟨hin, hisExtra⟩ := (mem_filter_vars hfresh hmade).mp hentry
    apply hextra entry hin hisExtra
    rw [hkey]
    exact List.mem_map_of_mem hname

/-- A dict whose entries can be written. -/
theorem jsonDumps_ok {entry : Dict Key Value} (hne : entry.entries ≠ [])
    (h : ∀ pair ∈ entry.entries, pair.1.Writable ∧ ∃ j, dumps heap limit [] pair.2 = .ok (Json.render j)) :
    ∃ members, jsonDumps heap (limit + 1) entry = .ok (String.ofList (Json.render (.object members))) ∧
      Members (dumps heap limit []) entry.entries members := by
  obtain ⟨members, hmembers⟩ := exists_members h
  refine ⟨members, ?_, hmembers⟩
  rw [jsonDumps, if_neg hne, dumpsDict_members hmembers]
  rfl

/-- The members of a name are those of its entries. -/
theorem Members.filter_name {f : Value → Except Raised (List Char)} {entries : List (Key × Value)} {members : List (String × Json)}
    (h : Members f entries members) {name : String} (hname : name ∈ memberNames) :
    Members f (entries.filter (fun entry => entry.1 = .str name)) (members.filter (fun member => member.1 = name)) := by
  induction h with
  | nil => exact .nil
  | @cons key value chars json entries members hkey hj hrest ih =>
    by_cases hmember : String.ofList chars = name
    · have hentry : key = .str name := by
        apply key_of_memberName hname
        rw [hkey, ← hmember, String.toList_ofList]
      simp only [List.filter_cons, hmember, hentry, decide_true, if_true]
      rw [← hmember]
      exact .cons (by rw [Key.chars, String.toList_ofList]) hj (hmember ▸ ih)
    · have hentry : key ≠ .str name := by
        rintro rfl
        rw [Key.chars, Except.ok.injEq] at hkey
        exact hmember (by rw [← hkey, String.ofList_toList])
      simp only [List.filter_cons, hmember, hentry, decide_false]
      exact ih

/-- A member of the record is there once. -/
theorem member_once {entry : Dict Key Value} {members : List (String × Json)} (h : Members (dumps heap limit []) entry.entries members)
    {name text : String} (hname : name ∈ memberNames) (hin : (.str name, .str text) ∈ entry.entries) :
    members.filter (fun member => member.1 = name) = [(name, .string text)] := by
  have htext : dumps heap limit [] (.str text) = .ok (Json.render (.string text)) := by unfold dumps; rfl
  have hone : entry.entries.filter (fun pair => pair.1 = .str name) = [(.str name, .str text)] :=
    Relational.filter_eq_singleton_of_key entry.nodup hin
  have hmembers := h.filter_name hname
  rw [hone] at hmembers
  generalize members.filter (fun member => member.1 = name) = found at hmembers ⊢
  cases hmembers with
  | cons hkey hj hnone =>
    cases hnone
    rw [htext, Except.ok.injEq] at hj
    rw [Key.chars, Except.ok.injEq] at hkey
    rw [← hkey, String.ofList_toList, Json.render_inj hj]

theorem format_eq (hmade : makeRecord record extra = some made) (htimestamp : isoformat record.created = .ok timestamp)
    (hmessage : record.message = .ok message) : JsonFormatter.format heap limit (RequestIdFilter.filter requestId made) =
      jsonDumps heap limit (entryOf (RequestIdFilter.filter requestId made) timestamp message) := by
  have hrecord := (makeRecord_some hmade).1
  have hcreated : isoformat (RequestIdFilter.filter requestId made).created = .ok timestamp := by
    rw [hrecord]
    exact htimestamp
  have hanswer : (RequestIdFilter.filter requestId made).message = .ok message := by
    rw [hrecord]
    exact hmessage
  rw [JsonFormatter.format, hcreated, hanswer]
  rfl

/-- The extras that JSON has a name and a text for, and that are not named like a member of
the record, come to the line as they are. -/
theorem line_of_extras (heap : Heap) (limit : Nat) (record made : LogRecord) (extra : Dict Key Value)
    (requestId timestamp message : String) (hfresh : record.Fresh) (hmade : makeRecord record extra = some made)
    (htimestamp : isoformat record.created = .ok timestamp) (hmessage : record.message = .ok message)
    (hextra : ∀ entry ∈ extra.entries, isExtra entry = true →
      entry.1 ∉ memberNames.map Key.str ∧ entry.1.Writable ∧ Writable heap limit entry.2) :
    ∃ text, JsonFormatter.format heap (limit + 1) (RequestIdFilter.filter requestId made) = .ok text ∧
      LineOf text record timestamp message requestId extra ["request_id", "color_message"] := by
  have hnames : ∀ entry ∈ extra.entries, isExtra entry = true → entry.1 ∉ memberNames.map Key.str :=
    fun entry hin hisExtra => (hextra entry hin hisExtra).1
  have hwritable : ∀ pair ∈ (entryOf (RequestIdFilter.filter requestId made) timestamp message).entries,
      pair.1.Writable ∧ ∃ j, dumps heap limit [] pair.2 = .ok (Json.render j) := by
    intro pair hpair
    obtain ⟨hin, hisExtra⟩ | ⟨name, text, rfl⟩ := entryOf_cases hfresh hmade hpair
    · obtain ⟨-, hkey, hvalue⟩ := hextra pair hin hisExtra
      exact ⟨hkey, dumps_writable hvalue (Nat.le_refl _) nofun⟩
    · exact ⟨trivial, .string text, by unfold dumps; rfl⟩
  have hown : ∀ own ∈ memberNames.zip [timestamp, record.levelname, record.name, message, requestId],
      (.str own.1, .str own.2) ∈ (entryOf (RequestIdFilter.filter requestId made) timestamp message).entries :=
    fun own hin => own_mem_entryOf hfresh hmade hnames hin
  have hne : (entryOf (RequestIdFilter.filter requestId made) timestamp message).entries ≠ [] :=
    List.ne_nil_of_mem (hown ("timestamp", timestamp) List.mem_cons_self)
  obtain ⟨members, htext, hmembers⟩ := jsonDumps_ok hne hwritable
  have hformat : JsonFormatter.format heap (limit + 1) (RequestIdFilter.filter requestId made) = _ :=
    format_eq hmade htimestamp hmessage
  refine ⟨_, hformat.trans htext, members, by rw [String.toList_ofList, Json.parse_render], ?_, ?_⟩
  · exact fun own hin => member_once hmembers (List.of_mem_zip hin).1 (hown own hin)
  · intro entry hin hkey
    rw [List.map_append, List.mem_append, not_or] at hkey
    have hentry : entry ∈ (entryOf (RequestIdFilter.filter requestId made) timestamp message).entries :=
      (mem_entryOf hfresh hmade).mpr (.inl ⟨hin, isExtra_of_accepted hfresh hmade hin hkey.2⟩)
    obtain ⟨hname, j, hj⟩ := hwritable entry hentry
    obtain ⟨name, hname⟩ := hname.chars_ok
    exact ⟨name, j, hname, hmembers.mem.mpr ⟨entry, hentry, by rw [hname, String.toList_ofList], hj⟩⟩

end Line

/-! Samples. -/

def sampleRecord : LogRecord where
  created := 0
  levelname := "INFO"
  name := "app"
  message := .ok "hello"
  exception := none
  stackInfo := none
  vars := ⟨logRecordFields.map (fun field => (.str field, .none)), by decide⟩

def sampleHeap : Heap
  | 0 => .list [.int 1, .object 1]
  | 1 => .dict [(.int 7, .str "\n")]
  | 2 => .dict [(.other 0 "tuple", .int 3)]
  | _ => .other (.ok "\x7b1, 2\x7d")

/-- What is in the payload. -/
theorem inside_payload {w : Value} (h : Inside sampleHeap (.object 0) w) :
    w ∈ [.object 0, .int 1, .object 1, Value.str "\n"] := by
  induction h with
  | self => decide
  | @part id w _ hpart ih =>
    simp only [List.mem_cons, Value.object.injEq, reduceCtorEq, List.not_mem_nil, false_or, or_false] at ih
    obtain rfl | rfl := ih
    · have hall : ∀ w ∈ (sampleHeap 0).parts, w ∈ [.object 0, .int 1, .object 1, Value.str "\n"] := by decide
      exact hall w hpart
    · have hall : ∀ w ∈ (sampleHeap 1).parts, w ∈ [.object 0, .int 1, .object 1, Value.str "\n"] := by decide
      exact hall w hpart

theorem writable_payload : Writable sampleHeap 2 (.object 0) where
  fits := by
    have hinner : ∀ w ∈ [Value.str "\n"], Fits sampleHeap 0 w := List.forall_mem_singleton.mpr trivial
    exact List.forall_mem_cons.mpr ⟨trivial, List.forall_mem_singleton.mpr hinner⟩
  ints h := by
    have hin := inside_payload h
    simp only [List.mem_cons, Value.int.injEq, reduceCtorEq, List.not_mem_nil, false_or, or_false] at hin
    rw [hin]
    decide +kernel
  floats h := by simpa using inside_payload h
  keys h hobject := by
    have hin := inside_payload h
    simp only [List.mem_cons, Value.object.injEq, reduceCtorEq, List.not_mem_nil, false_or, or_false] at hin
    obtain rfl | rfl := hin
    · cases hobject
    · obtain rfl := Object.dict.inj hobject
      exact List.forall_mem_singleton.mpr (by decide +kernel : (7 : Int).natAbs < 10 ^ maxStrDigits)
  others h hobject := by
    have hin := inside_payload h
    simp only [List.mem_cons, Value.object.injEq, reduceCtorEq, List.not_mem_nil, false_or, or_false] at hin
    obtain rfl | rfl := hin
    · cases hobject
    · cases hobject

/-- A list with a dict in it, under a name of its own; and a message with colors, which need
not be written. -/
theorem line_of_extras_payload : ∃ made text,
    JsonFormatter.format sampleHeap 3 (RequestIdFilter.filter "req-1" made) = .ok text ∧
      LineOf text sampleRecord "1970-01-01T00:00:00+00:00" "hello" "req-1"
        ⟨[(.str "payload", .object 0), (.str "color_message", .object 2)], by decide⟩ ["request_id", "color_message"] := by
  refine ⟨_, line_of_extras sampleHeap 2 sampleRecord _ ⟨[(.str "payload", .object 0), (.str "color_message", .object 2)], by decide⟩
    "req-1" "1970-01-01T00:00:00+00:00" "hello" rfl rfl (by decide +kernel) rfl ?_⟩
  intro entry hin hisExtra
  simp only [List.mem_cons, List.not_mem_nil, or_false] at hin
  obtain rfl | rfl := hin
  · exact ⟨by decide, trivial, writable_payload⟩
  · exact absurd hisExtra (by decide)

/-- Whatever the record and the objects, a line with these extras is written, when calls may
nest so deep, and is the record's with a member for each of the extras. -/
def Uncorrupted (limit : Nat) (extra : Dict Key Value) : Prop :=
  ∀ (heap : Heap) (record made : LogRecord) (requestId timestamp message : String), record.Fresh →
    makeRecord record extra = some made → isoformat record.created = .ok timestamp → record.message = .ok message →
      ∃ text, JsonFormatter.format heap limit (RequestIdFilter.filter requestId made) = .ok text ∧
        LineOf text record timestamp message requestId extra []

def levelExtra : Dict Key Value := ⟨[(.str "level", .str "x")], by decide⟩

def colorExtra : Dict Key Value := ⟨[(.str "color_message", .str "x")], by decide⟩

/-- The sample record with these extras. -/
def sampleWith (extra : Dict Key Value) : LogRecord :=
  RequestIdFilter.filter "req-1" { sampleRecord with vars := sampleRecord.vars.update extra.entries }

/-- What is written of the sample record and texts. -/
theorem members_of_uncorrupted {limit : Nat} {extra : Dict Key Value}
    (hmade : makeRecord sampleRecord extra = some { sampleRecord with vars := sampleRecord.vars.update extra.entries })
    (htexts : ∀ entry ∈ extra.entries, ∃ name text, entry = (.str name, .str text))
    (hne : (entryOf (sampleWith extra) "1970-01-01T00:00:00+00:00" "hello").entries ≠ []) (h : Uncorrupted limit extra) :
    ∃ text members levels, LineOf text sampleRecord "1970-01-01T00:00:00+00:00" "hello" "req-1" extra [] ∧
      Json.parse text.toList = some (.object members) ∧ Members (dumps sampleHeap levels [])
        (entryOf (sampleWith extra) "1970-01-01T00:00:00+00:00" "hello").entries members := by
  have hfresh : sampleRecord.Fresh := rfl
  have htimestamp : isoformat sampleRecord.created = .ok "1970-01-01T00:00:00+00:00" := by decide +kernel
  obtain ⟨text, hformat, hline⟩ := h sampleHeap sampleRecord _ "req-1" _ "hello" hfresh hmade htimestamp rfl
  rw [format_eq hmade htimestamp rfl] at hformat
  cases limit with
  | zero => cases hformat
  | succ limit =>
    have hwritable : ∀ pair ∈ (entryOf (sampleWith extra) "1970-01-01T00:00:00+00:00" "hello").entries,
        pair.1.Writable ∧ ∃ j, dumps sampleHeap limit [] pair.2 = .ok (Json.render j) := by
      intro pair hpair
      obtain ⟨name, text, rfl⟩ : ∃ name text, pair = (.str name, .str text) := by
        cases entryOf_cases hfresh hmade hpair with
        | inl hextra => exact htexts pair hextra.1
        | inr hown => exact hown
      exact ⟨trivial, .string text, by unfold dumps; rfl⟩
    obtain ⟨members, htext, hmembers⟩ := jsonDumps_ok hne hwritable
    rw [sampleWith, hformat, Except.ok.injEq] at htext
    exact ⟨text, members, limit, hline, by rw [htext, String.toList_ofList, Json.parse_render], hmembers⟩

/-- An extra named `level` is written where the level should be, and a message with colors
is left out. -/
theorem extras_corrupt : (¬ ∃ limit, Uncorrupted limit levelExtra) ∧ ¬ ∃ limit, Uncorrupted limit colorExtra := by
  have hlevel : (entryOf (sampleWith levelExtra) "1970-01-01T00:00:00+00:00" "hello").entries =
      [(.str "timestamp", .str "1970-01-01T00:00:00+00:00"), (.str "level", .str "x"), (.str "logger", .str "app"),
        (.str "message", .str "hello"), (.str "correlation_id", .str "req-1")] := by
    decide +kernel
  have hcolor : (entryOf (sampleWith colorExtra) "1970-01-01T00:00:00+00:00" "hello").entries =
      [(.str "timestamp", .str "1970-01-01T00:00:00+00:00"), (.str "level", .str "INFO"), (.str "logger", .str "app"),
        (.str "message", .str "hello"), (.str "correlation_id", .str "req-1")] := by
    decide +kernel
  constructor
  · intro ⟨limit, h⟩
    obtain ⟨text, members, levels, ⟨found, hfound, hown, -⟩, hparse, hmembers⟩ :=
      members_of_uncorrupted rfl (List.forall_mem_singleton.mpr ⟨_, _, rfl⟩) (hlevel ▸ List.cons_ne_nil _ _) h
    rw [hparse, Option.some.injEq, Json.object.injEq] at hfound
    have hmember : ("level", Json.string "x") ∈ members := by
      rw [hlevel] at hmembers
      exact hmembers.mem.mpr ⟨_, List.mem_cons_of_mem _ List.mem_cons_self, rfl, by unfold dumps; rfl⟩
    have honce := hown ("level", "INFO") (List.mem_cons_of_mem _ List.mem_cons_self)
    have hreplaced : ("level", Json.string "x") ∈ found.filter (fun member => member.1 = "level") :=
      List.mem_filter.mpr ⟨hfound ▸ hmember, by simp⟩
    rw [honce, List.mem_singleton, Prod.mk.injEq] at hreplaced
    exact absurd (Json.string.inj hreplaced.2) (by decide)
  · intro ⟨limit, h⟩
    obtain ⟨text, members, levels, ⟨found, hfound, -, hextras⟩, hparse, hmembers⟩ :=
      members_of_uncorrupted rfl (List.forall_mem_singleton.mpr ⟨_, _, rfl⟩) (hcolor ▸ List.cons_ne_nil _ _) h
    rw [hparse, Option.some.injEq, Json.object.injEq] at hfound
    obtain ⟨name, value, hname, hmember⟩ := hextras _ List.mem_cons_self (by decide)
    rw [← hfound, hmembers.mem, hcolor] at hmember
    obtain ⟨entry, hentry, hchars, -⟩ := hmember
    rw [String.toList_ofList, ← hname] at hchars
    have hall : ∀ entry ∈ [(Key.str "timestamp", Value.str "1970-01-01T00:00:00+00:00"), (.str "level", .str "INFO"),
        (.str "logger", .str "app"), (.str "message", .str "hello"), (.str "correlation_id", .str "req-1")],
        entry.1.chars ≠ Key.chars (.str "color_message") := by
      decide +kernel
    exact hall entry hentry hchars

/-- `default=str` does not reach the keys. -/
example : (makeRecord sampleRecord ⟨[(.str "payload", .object 2)], by decide⟩).map (fun record =>
    JsonFormatter.format sampleHeap 5 (RequestIdFilter.filter "req-1" record)) =
      some (.error (.typeError "keys must be str, int, float, bool or None, not tuple")) := by
  decide +kernel

end FastiKit.Logging
