import FastiKit.Relational.Table

/- The keyword arguments of a Python call. A dict expanded with `**` goes into the
   one list of keywords of the call, next to the keywords the call names itself and
   against the parameters of the callee; a name that is given twice is a TypeError.
   What a callee collects in its own `**kwargs` is what is left. -/
namespace Keyword

/-- Keyword arguments, each name once. -/
abbrev Args (ν : Type) := Relational.Table String (String × ν) Prod.fst

namespace Args
variable {ν : Type}

def value (args : Args ν) (name : String) : Option ν := (args.get name).map Prod.snd

/-- `f(a=1, b=2, **args)`, `none` when a name comes twice. -/
def spread (named : List (String × ν)) (args : Args ν) : Option (Args ν) := args.insertAll named

/-- The keywords of a call that fills `params` by position, `none` when one of them is a keyword too. -/
def beside (params : List String) (args : Args ν) : Option (Args ν) :=
  if params.any (fun name => (args.value name).isSome) then none else some args

/-- What is left for `**kwargs` when the parameters of these names have theirs. -/
def without (names : List String) (args : Args ν) : Args ν := args.deleteWhere (fun arg => names.contains arg.1)

theorem value_without (names : List String) (args : Args ν) (name : String) :
    (args.without names).value name = if name ∈ names then none else args.value name := by
  unfold without value
  rw [Relational.Table.get_deleteWhere]
  cases hget : args.get name with
  | none => simp
  | some arg =>
    have hname : arg.1 = name := Relational.Table.get_key hget
    by_cases hin : name ∈ names <;> simp [Option.filter, hname, hin]

/-- A call that goes through had no name twice. -/
theorem fresh_of_spread {named : List (String × ν)} {args args' : Args ν} (h : args.spread named = some args')
    {name : String} (hname : name ∈ named.map Prod.fst) : args.value name = none := by
  obtain ⟨arg, harg, rfl⟩ := List.mem_map.mp hname
  rw [value, Relational.Table.insertAll_fresh h harg, Option.map_none]

theorem spread_of_fresh {named : List (String × ν)} {args : Args ν} (hnodup : (named.map Prod.fst).Nodup)
    (hfresh : ∀ name ∈ named.map Prod.fst, args.value name = none) : ∃ args', args.spread named = some args' := by
  refine Relational.Table.insertAll_of_fresh hnodup ?_
  intro arg harg
  exact Option.map_eq_none_iff.mp (hfresh arg.1 (List.mem_map_of_mem harg))

/-- The dict's own names keep their values. -/
theorem value_spread {named : List (String × ν)} {args args' : Args ν} (h : args.spread named = some args')
    {name : String} (hname : name ∉ named.map Prod.fst) : args'.value name = args.value name := by
  rw [value, Relational.Table.get_insertAll_of_not_mem h hname, value]

theorem value_spread_named {named : List (String × ν)} {args args' : Args ν} (h : args.spread named = some args')
    {arg : String × ν} (harg : arg ∈ named) : args'.value arg.1 = some arg.2 := by
  have hmem : arg ∈ args'.rows := by
    rw [Relational.Table.rows_insertAll h]
    exact List.mem_append_left _ (List.mem_reverse.mpr harg)
  rw [value, Relational.Table.get_of_mem hmem, Option.map_some]

theorem beside_eq_some {params : List String} {args args' : Args ν} :
    args.beside params = some args' ↔ args' = args ∧ ∀ name ∈ params, args.value name = none := by
  unfold beside
  split
  · next htwice =>
    obtain ⟨name, hname, hsome⟩ := List.any_eq_true.mp htwice
    simp only [reduceCtorEq, false_iff, not_and]
    intro _ hnone
    rw [hnone name hname] at hsome
    cases hsome
  · next honce =>
    simp only [Option.some.injEq]
    constructor
    · intro heq
      refine ⟨heq.symm, ?_⟩
      intro name hname
      by_contra hne
      exact honce (List.any_eq_true.mpr ⟨name, hname, Option.isSome_iff_ne_none.mpr hne⟩)
    · intro h
      exact h.1.symm

end Args

end Keyword
