import FastiKit.Language.Repr
import Mathlib.Data.Char
import Mathlib.Data.List.Forall2
import Mathlib.Data.List.Lex

/- The key under which `@cache` stores the result of a call.

   Correspondence (Python ↔ Lean):
     `inspect.signature(func)`                             ↔ `Functions.params`
     `sig.bind(*args, **kwargs)`, `apply_defaults`         ↔ `bound`
     `_generate_cache_key(prefix, func, *args, **kwargs)`  ↔ `cacheKey`, its last line `keyText`
   The values are of any type. What Python makes of them is a parameter: `str`, the
   tuple of the rest of the positional arguments, the dictionary of the rest of the
   keywords, `==`; and so is the digest. -/
namespace FastiKit.Cache

/-- What Python does with values. -/
structure Values (V : Type) where
  str : V → String
  tuple : List V → V
  dict : List (String × V) → V
  equal : V → V → Prop

inductive Kind where
  | positionalOnly
  | positionalOrKeyword
  | varPositional
  | keywordOnly
  | varKeyword
  deriving DecidableEq, Repr

structure Param (V : Type) where
  name : String
  kind : Kind
  default : Option V

/-- The functions that are wrapped. `def` gives a name without a colon, and parameters
of different names. -/
structure Functions (F V : Type) where
  module : F → String
  name : F → String
  params : F → List (Param V)
  name_plain : ∀ f, ':' ∉ (name f).toList
  params_distinct : ∀ f, ((params f).map Param.name).Nodup

structure Invocation (F V : Type) where
  func : F
  args : List V
  kwargs : List (String × V)

/-- `hexdigest` of the sha256 of a text. It has no colon; that it has no collisions is
assumed where it is used. -/
structure Digest where
  sha256 : String → String
  plain : ∀ text, ':' ∉ (sha256 text).toList

variable {F V : Type}

def lookup (name : String) (kwargs : List (String × V)) : Option V :=
  (kwargs.find? (fun entry => entry.1 = name)).map Prod.snd

def without (name : String) (kwargs : List (String × V)) : List (String × V) :=
  kwargs.filter (fun entry => entry.1 ≠ name)

/-- The arguments of a call by parameter, defaults applied; `none` is a `TypeError`. -/
def bound (values : Values V) : List (Param V) → List V → List (String × V) → Option (List (String × V))
  | [], [], [] => some []
  | [], _, _ => none
  | p :: params, args, kwargs =>
    match p.kind, args with
    | .positionalOnly, value :: args => (bound values params args kwargs).map ((p.name, value) :: ·)
    | .positionalOnly, [] => p.default.bind (fun value => (bound values params [] kwargs).map ((p.name, value) :: ·))
    | .positionalOrKeyword, value :: args =>
      if (lookup p.name kwargs).isSome then none else (bound values params args kwargs).map ((p.name, value) :: ·)
    | .varPositional, args => (bound values params [] kwargs).map ((p.name, values.tuple args) :: ·)
    | .varKeyword, args => (bound values params args []).map ((p.name, values.dict kwargs) :: ·)
    | _, args =>
      -- by keyword, or the default
      match lookup p.name kwargs with
      | some value => (bound values params args (without p.name kwargs)).map ((p.name, value) :: ·)
      | none => p.default.bind (fun value => (bound values params args kwargs).map ((p.name, value) :: ·))

def Functions.arguments (functions : Functions F V) (values : Values V) (call : Invocation F V) : Option (List (String × V)) :=
  bound values (functions.params call.func) call.args call.kwargs

/-- The arguments the key is made of: the instance and the session are left out. -/
def visible (arguments : List (String × V)) : List (String × V) :=
  arguments.filter (fun argument => argument.1 ∉ ["self", "cls", "repo", "db"])

def cacheKwargs (values : Values V) (arguments : List (String × V)) : List (String × String) :=
  (visible arguments).map (fun argument => (argument.1, values.str argument.2))

/-- Tuples of strings in order. -/
def pairLe (a b : String × String) : Bool :=
  a.1.toList < b.1.toList || (a.1 = b.1 && !(b.2.toList < a.2.toList))

/-- The key of a call whose arguments are these. -/
def keyText (functions : Functions F V) (values : Values V) (digest : Digest) (printable : Char → Bool) (prefix_ : String)
    (f : F) (arguments : List (String × V)) : String :=
  prefix_ ++ ":" ++ functions.module f ++ ":" ++ functions.name f ++ ":" ++
    digest.sha256 (String.ofList (Repr.strPairs printable ((cacheKwargs values arguments).mergeSort pairLe)))

/-- A keyword of the call is one of the names under which `_generate_cache_key` takes the
two arguments of its own. -/
def Invocation.clashes (call : Invocation F V) : Bool := call.kwargs.any (fun entry => entry.1 ∈ ["prefix", "func"])

/-- The key of a call; `none` is a `TypeError`. The caller's keywords stand beside `prefix`
and `func`, which have their values by position. -/
def cacheKey (functions : Functions F V) (values : Values V) (digest : Digest) (printable : Char → Bool) (prefix_ : String)
    (call : Invocation F V) : Option String :=
  if call.clashes then none
  else (functions.arguments values call).map (keyText functions values digest printable prefix_ call.func)

section Bound
variable {values : Values V}

theorem names_cons {name : String} {value : V} {names : List String} {bound : Option (List (String × V))}
    {arguments : List (String × V)} (h : bound.map ((name, value) :: ·) = some arguments)
    (hrest : ∀ rest, bound = some rest → rest.map Prod.fst = names) : arguments.map Prod.fst = name :: names := by
  obtain ⟨rest, hbound, rfl⟩ := Option.map_eq_some_iff.mp h
  rw [List.map_cons, hrest rest hbound]

/-- Every parameter has its argument, in order. -/
theorem bound_names {params : List (Param V)} {args : List V} {kwargs arguments : List (String × V)}
    (h : bound values params args kwargs = some arguments) : arguments.map Prod.fst = params.map Param.name := by
  fun_induction bound values params args kwargs generalizing arguments with
  | case1 =>
    obtain rfl := Option.some.inj h
    rfl
  | case2 => cases h
  | case3 p params kwargs value args hkind ih => exact names_cons h (fun _ hrest => ih hrest)
  | case4 p params kwargs hkind ih =>
    obtain ⟨value, -, hvalue⟩ := Option.bind_eq_some_iff.mp h
    exact names_cons hvalue (fun _ hrest => ih hrest)
  | case5 => cases h
  | case6 p params kwargs value args hnone hkind ih => exact names_cons h (fun _ hrest => ih hrest)
  | case7 p params args kwargs hkind ih => exact names_cons h (fun _ hrest => ih hrest)
  | case8 p params args kwargs hkind ih => exact names_cons h (fun _ hrest => ih hrest)
  | case9 p params kwargs args value hlookup _ _ _ _ _ ih => exact names_cons h (fun _ hrest => ih hrest)
  | case10 p params kwargs args hlookup _ _ _ _ _ ih =>
    obtain ⟨value, -, hvalue⟩ := Option.bind_eq_some_iff.mp h
    exact names_cons hvalue (fun _ hrest => ih hrest)

end Bound

/-! What the key tells apart. -/

/-- What stands after the last colon, and what before. -/
theorem colon_cancel {a a' b b' : List Char} (hb : ':' ∉ b) (hb' : ':' ∉ b') (h : a ++ ':' :: b = a' ++ ':' :: b') :
    a = a' ∧ b = b' := by
  obtain ⟨mid, rfl, hmid⟩ | ⟨mid, rfl, hmid⟩ := List.append_eq_append_iff.mp h
  · cases mid with
    | nil => exact ⟨(List.append_nil _).symm, (List.cons.inj hmid).2⟩
    | cons c mid =>
      refine absurd ?_ hb
      rw [(List.cons.inj hmid).2]
      simp
  · cases mid with
    | nil => exact ⟨List.append_nil _, (List.cons.inj hmid).2.symm⟩
    | cons c mid =>
      refine absurd ?_ hb'
      rw [(List.cons.inj hmid).2]
      simp

section Key
variable {functions : Functions F V} {values : Values V} {digest : Digest} {printable : Char → Bool} {prefix_ : String}
  {f f' : F} {arguments arguments' : List (String × V)}

/-- Equal keys are of functions with one module and one name, and of the same texts. -/
theorem keyText_eq_iff (hsha : Function.Injective digest.sha256) :
    keyText functions values digest printable prefix_ f arguments =
        keyText functions values digest printable prefix_ f' arguments' ↔
      functions.module f = functions.module f' ∧ functions.name f = functions.name f' ∧
        (cacheKwargs values arguments).mergeSort pairLe = (cacheKwargs values arguments').mergeSort pairLe := by
  constructor
  · intro h
    rw [keyText, keyText, ← String.toList_inj] at h
    simp only [String.toList_append] at h
    have hcolon : ":".toList = [':'] := by simp
    simp only [hcolon, List.append_assoc, List.cons_append, List.nil_append] at h
    have h := List.cons.inj (List.append_cancel_left h)
    have hassoc : ∀ m n : List Char, ∀ d, m ++ ':' :: (n ++ ':' :: d) = (m ++ ':' :: n) ++ ':' :: d := by simp
    have hkey := h.2
    rw [hassoc, hassoc] at hkey
    obtain ⟨hfunc, hdigest⟩ := colon_cancel (digest.plain _) (digest.plain _) hkey
    obtain ⟨hmodule, hname⟩ := colon_cancel (functions.name_plain f) (functions.name_plain f') hfunc
    refine ⟨String.toList_inj.mp hmodule, String.toList_inj.mp hname, ?_⟩
    exact Repr.strPairs_injective (String.ofList_inj.mp (hsha (String.toList_inj.mp hdigest)))
  · intro h
    rw [keyText, keyText, h.1, h.2.1, h.2.2]

/-! Sorting. -/

theorem pairLe_iff {a b : String × String} : pairLe a b = true ↔
    a.1.toList < b.1.toList ∨ a.1 = b.1 ∧ a.2.toList ≤ b.2.toList := by
  simp [pairLe]

theorem pairLe_total (a b : String × String) : (pairLe a b || pairLe b a) = true := by
  rw [Bool.or_eq_true, pairLe_iff, pairLe_iff]
  obtain hlt | heq | hgt := lt_trichotomy a.1.toList b.1.toList
  · exact .inl (.inl hlt)
  · have heq := String.toList_inj.mp heq
    cases le_total a.2.toList b.2.toList with
    | inl hle => exact .inl (.inr ⟨heq, hle⟩)
    | inr hle => exact .inr (.inr ⟨heq.symm, hle⟩)
  · exact .inr (.inl hgt)

theorem pairLe_trans (a b c : String × String) (hab : pairLe a b = true) (hbc : pairLe b c = true) : pairLe a c = true := by
  rw [pairLe_iff] at hab hbc ⊢
  obtain hab | ⟨hab, hle⟩ := hab
  · obtain hbc | ⟨hbc, -⟩ := hbc
    · exact .inl (hab.trans hbc)
    · exact .inl (hbc ▸ hab)
  · rw [hab]
    obtain hbc | ⟨hbc, hle'⟩ := hbc
    · exact .inl hbc
    · exact .inr ⟨hbc, hle.trans hle'⟩

theorem pairLe_antisymm {a b : String × String} (hab : pairLe a b = true) (hba : pairLe b a = true) : a = b := by
  rw [pairLe_iff] at hab hba
  obtain hab | ⟨hab, hle⟩ := hab
  · obtain hba | ⟨hba, -⟩ := hba
    · exact absurd (hab.trans hba) (lt_irrefl _)
    · exact absurd (hba ▸ hab) (lt_irrefl _)
  · obtain hba | ⟨-, hle'⟩ := hba
    · exact absurd (hab ▸ hba) (lt_irrefl _)
    · exact Prod.ext hab (String.toList_inj.mp (le_antisymm hle hle'))

/-- What is equal in order is what is equal in any order. -/
theorem sorted_eq_iff_perm {xs ys : List (String × String)} :
    xs.mergeSort pairLe = ys.mergeSort pairLe ↔ xs.Perm ys := by
  have hxs := List.mergeSort_perm xs pairLe
  have hys := List.mergeSort_perm ys pairLe
  constructor
  · intro h
    exact hxs.symm.trans (h ▸ hys)
  · intro hperm
    apply List.Perm.eq_of_pairwise (fun a b _ _ => pairLe_antisymm)
    · exact List.pairwise_mergeSort pairLe_trans pairLe_total xs
    · exact List.pairwise_mergeSort pairLe_trans pairLe_total ys
    · exact hxs.trans (hperm.trans hys.symm)

/-- With the same names in the same order, each once, there is one order. -/
theorem eq_of_perm {xs ys : List (String × String)} (hperm : xs.Perm ys) (hnames : xs.map Prod.fst = ys.map Prod.fst)
    (hnodup : (xs.map Prod.fst).Nodup) : xs = ys := by
  induction xs generalizing ys with
  | nil =>
    cases ys with
    | nil => rfl
    | cons y ys => cases hnames
  | cons x xs ih =>
    cases ys with
    | nil => cases hnames
    | cons y ys =>
      rw [List.map_cons, List.map_cons, List.cons.injEq] at hnames
      rw [List.map_cons, List.nodup_cons] at hnodup
      have hxy : x = y := by
        cases List.mem_cons.mp (hperm.mem_iff.mp List.mem_cons_self) with
        | inl heq => exact heq
        | inr hin =>
          refine absurd ?_ hnodup.1
          rw [hnames.2]
          exact List.mem_map_of_mem hin
      rw [hxy] at hperm ⊢
      rw [ih (List.Perm.cons_inv hperm) hnames.2 hnodup.2]

/-- The arguments that are part of the key have the same names and equal values. -/
def Same (values : Values V) (arguments arguments' : List (String × V)) : Prop :=
  List.Forall₂ (fun a a' => a.1 = a'.1 ∧ values.equal a.2 a'.2) (visible arguments) (visible arguments')

/-- They have the same names and are shown as the same texts. -/
def ShownSame (values : Values V) (arguments arguments' : List (String × V)) : Prop :=
  List.Forall₂ (fun a a' => a.1 = a'.1 ∧ values.str a.2 = values.str a'.2) (visible arguments) (visible arguments')

/-- What the key needs of two calls: of one function, that they have keys and `str` shows
alike their arguments exactly when these are equal; of two functions, that they differ in
module, in name or in the texts of their arguments, or one has no key. -/
def Told (functions : Functions F V) (values : Values V) (call call' : Invocation F V)
    (arguments arguments' : List (String × V)) : Prop :=
  (call.func = call'.func → (call.clashes = false ∧ call'.clashes = false ∧ ShownSame values arguments arguments' ↔
    Same values arguments arguments')) ∧
  (call.func ≠ call'.func → call.clashes = false → call'.clashes = false →
    functions.module call.func = functions.module call'.func → functions.name call.func = functions.name call'.func →
    ¬ (cacheKwargs values arguments).Perm (cacheKwargs values arguments'))

theorem cacheKwargs_eq_iff : cacheKwargs values arguments = cacheKwargs values arguments' ↔ ShownSame values arguments arguments' := by
  unfold cacheKwargs ShownSame
  have heq : ∀ xs ys : List (String × String), xs = ys ↔ List.Forall₂ (· = ·) xs ys := fun xs ys => by
    rw [List.forall₂_eq_eq_eq]
  rw [heq, List.forall₂_map_left_iff, List.forall₂_map_right_iff]
  simp only [Prod.mk.injEq]

theorem cacheKwargs_names : (cacheKwargs values arguments).map Prod.fst = (visible arguments).map Prod.fst := by
  unfold cacheKwargs
  rw [List.map_map]
  rfl

theorem visible_names : (visible arguments).map Prod.fst =
    (arguments.map Prod.fst).filter (fun name => name ∉ ["self", "cls", "repo", "db"]) := by
  unfold visible
  rw [List.filter_map]
  rfl

/-- Two calls of one function have the same texts in order when they have them at all. -/
theorem perm_iff_shown {args args' : List V} {kwargs kwargs' : List (String × V)}
    (hcall : bound values (functions.params f) args kwargs = some arguments)
    (hcall' : bound values (functions.params f) args' kwargs' = some arguments') :
    (cacheKwargs values arguments).Perm (cacheKwargs values arguments') ↔ ShownSame values arguments arguments' := by
  rw [← cacheKwargs_eq_iff]
  constructor
  · intro hperm
    have hnames : (cacheKwargs values arguments).map Prod.fst = (cacheKwargs values arguments').map Prod.fst := by
      rw [cacheKwargs_names, cacheKwargs_names, visible_names, visible_names, bound_names hcall, bound_names hcall']
    have hnodup : ((cacheKwargs values arguments).map Prod.fst).Nodup := by
      rw [cacheKwargs_names, visible_names, bound_names hcall]
      exact (functions.params_distinct f).filter _
    exact eq_of_perm hperm hnames hnodup
  · intro heq
    rw [heq]

/-- Two calls get one key when neither clashes and their texts are one. -/
theorem cacheKey_shared_iff (hsha : Function.Injective digest.sha256) {call call' : Invocation F V}
    (hcall : functions.arguments values call = some arguments)
    (hcall' : functions.arguments values call' = some arguments') :
    (∃ key, cacheKey functions values digest printable prefix_ call = some key ∧
        cacheKey functions values digest printable prefix_ call' = some key) ↔
      call.clashes = false ∧ call'.clashes = false ∧ functions.module call.func = functions.module call'.func ∧
        functions.name call.func = functions.name call'.func ∧
        (cacheKwargs values arguments).Perm (cacheKwargs values arguments') := by
  rw [cacheKey, cacheKey, hcall, hcall']
  cases call.clashes with
  | true => simp
  | false =>
    cases call'.clashes with
    | true => simp
    | false =>
      simp only [Bool.false_eq_true, if_false, Option.map_some, true_and, Option.some.injEq]
      have htext := @keyText_eq_iff _ _ functions values digest printable prefix_ call.func call'.func arguments arguments'
        hsha
      rw [← sorted_eq_iff_perm, ← htext]
      constructor
      · rintro ⟨key, hkey, hkey'⟩
        exact hkey.trans hkey'.symm
      · intro h
        exact ⟨_, h, rfl⟩

end Key

/-- The key tells two calls apart exactly when they differ in what the key is about, if
and only if what it is made of does. -/
theorem cacheKey_identifies_iff (functions : Functions F V) (values : Values V) (digest : Digest)
    (hsha : Function.Injective digest.sha256) (printable : Char → Bool) (prefix_ : String) (call call' : Invocation F V)
    (arguments arguments' : List (String × V)) (hcall : functions.arguments values call = some arguments)
    (hcall' : functions.arguments values call' = some arguments') :
    ((∃ key, cacheKey functions values digest printable prefix_ call = some key ∧
        cacheKey functions values digest printable prefix_ call' = some key) ↔
      call.func = call'.func ∧ Same values arguments arguments') ↔
    Told functions values call call' arguments arguments' := by
  rw [cacheKey_shared_iff hsha hcall hcall']
  obtain ⟨f, args, kwargs⟩ := call
  obtain ⟨f', args', kwargs'⟩ := call'
  by_cases hf : f = f'
  · subst hf
    simp only [Told, perm_iff_shown hcall hcall', true_and, true_imp_iff, ne_eq, not_true_eq_false, false_imp_iff, and_true]
  · simp only [Told, hf, false_and, iff_false, not_and, false_imp_iff, ne_eq, not_false_eq_true, true_imp_iff, true_and]

/-! A method and a function under one module, called with numbers and texts. -/

/-- Every character as eight hexadecimal digits: a digest without collisions. -/
def hexText (text : String) : String := String.ofList (text.toList.flatMap (fun c => Repr.hex 8 c.toNat))

theorem hex_plain (k n : Nat) : ':' ∉ Repr.hex k n := by
  have hdigit : ∀ d < 16, ':' ≠ Nat.digitChar d := by decide
  induction k generalizing n with
  | zero => exact List.not_mem_nil
  | succ k ih =>
    rw [Repr.hex, List.mem_append, List.mem_singleton]
    intro h
    cases h with
    | inl h => exact ih _ h
    | inr h => exact hdigit _ (Nat.mod_lt n (by decide)) h

theorem hexText_injective : Function.Injective hexText := by
  intro s t h
  have h := String.ofList_inj.mp h
  rw [← String.toList_inj]
  generalize s.toList = cs at h ⊢
  generalize t.toList = ds at h ⊢
  -- eight digits at a time
  induction cs generalizing ds with
  | nil =>
    cases ds with
    | nil => rfl
    | cons d ds => simp [Repr.hex] at h
  | cons c cs ih =>
    cases ds with
    | nil => simp [Repr.hex] at h
    | cons d ds =>
      rw [List.flatMap_cons, List.flatMap_cons] at h
      obtain ⟨hhead, hrest⟩ := List.append_inj h (by rw [Repr.length_hex, Repr.length_hex])
      have hc := congrArg Repr.readHex hhead
      rw [Repr.readHex_hex 8 _ (Repr.toNat_lt c), Repr.readHex_hex 8 _ (Repr.toNat_lt d)] at hc
      rw [Char.toNat_inj.mp hc, ih _ hrest]

def hexDigest : Digest where
  sha256 := hexText
  plain text := by
    unfold hexText
    rw [String.toList_ofList]
    intro h
    obtain ⟨c, -, hc⟩ := List.mem_flatMap.mp h
    exact hex_plain _ _ hc

inductive Sample where
  | int (n : Int)
  | text (s : String)
  deriving DecidableEq

-- no function below takes the rest of its arguments
def sampleValues : Values Sample where
  str
    | .int n => toString n
    | .text s => s
  tuple _ := .text "()"
  dict _ := .text "{}"
  equal := (· = ·)

inductive Wrapped where
  | load
  | count

def sampleFunctions : Functions Wrapped Sample where
  module _ := "items"
  name
    | .load => "load"
    | .count => "count"
  params
    | .load => [⟨"self", .positionalOrKeyword, none⟩, ⟨"key", .positionalOrKeyword, none⟩]
    | .count => [⟨"key", .positionalOrKeyword, some (.int 1)⟩]
  name_plain f := by
    cases f with
    | load => decide
    | count => decide
  params_distinct f := by
    cases f with
    | load => decide
    | count => decide

/-- By position and by keyword, on two instances, one call is stored once. -/
theorem cacheKey_identifies_iff_positional :
    (∃ key, cacheKey sampleFunctions sampleValues hexDigest (fun _ => true) "cache" ⟨.load, [.int 1, .text "a"], []⟩ =
          some key ∧
        cacheKey sampleFunctions sampleValues hexDigest (fun _ => true) "cache" ⟨.load, [.int 2], [("key", .text "a")]⟩ =
          some key) ↔
      Wrapped.load = Wrapped.load ∧
        Same sampleValues [("self", .int 1), ("key", .text "a")] [("self", .int 2), ("key", .text "a")] := by
  refine (cacheKey_identifies_iff sampleFunctions sampleValues hexDigest hexText_injective (fun _ => true) "cache"
    ⟨.load, [.int 1, .text "a"], []⟩ ⟨.load, [.int 2], [("key", .text "a")]⟩ _ _ (by decide +kernel) (by decide +kernel)).mpr ?_
  refine ⟨fun _ => ⟨fun _ => ?_, fun _ => ⟨by decide +kernel, by decide +kernel, ?_⟩⟩, fun h => absurd rfl h⟩
  · exact .cons ⟨rfl, rfl⟩ .nil
  · exact .cons ⟨rfl, rfl⟩ .nil

/-- `count(1)` and `count("1")` have one key. -/
theorem number_and_text_collide :
    sampleFunctions.arguments sampleValues ⟨.count, [.int 1], []⟩ = some [("key", .int 1)] ∧
    sampleFunctions.arguments sampleValues ⟨.count, [.text "1"], []⟩ = some [("key", .text "1")] ∧
    Function.Injective hexDigest.sha256 ∧
    ¬ ((∃ key, cacheKey sampleFunctions sampleValues hexDigest (fun _ => true) "cache" ⟨.count, [.int 1], []⟩ = some key ∧
          cacheKey sampleFunctions sampleValues hexDigest (fun _ => true) "cache" ⟨.count, [.text "1"], []⟩ = some key) ↔
        Wrapped.count = Wrapped.count ∧ Same sampleValues [("key", .int 1)] [("key", .text "1")]) := by
  have hone : sampleFunctions.arguments sampleValues ⟨.count, [.int 1], []⟩ = some [("key", .int 1)] := by
    decide +kernel
  have htext : sampleFunctions.arguments sampleValues ⟨.count, [.text "1"], []⟩ = some [("key", .text "1")] := by
    decide +kernel
  refine ⟨hone, htext, hexText_injective, fun h => ?_⟩
  have hshown : cacheKwargs sampleValues [("key", .int 1)] = cacheKwargs sampleValues [("key", .text "1")] := by
    decide +kernel
  obtain ⟨-, hsame⟩ := h.mp ((cacheKey_shared_iff hexText_injective hone htext).mpr ⟨rfl, rfl, rfl, rfl, hshown ▸ .refl _⟩)
  exact Sample.noConfusion (List.forall₂_cons.mp hsame).1.2

end FastiKit.Cache
