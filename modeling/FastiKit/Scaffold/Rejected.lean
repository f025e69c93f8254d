import FastiKit.Scaffold.CreateAll

/- What a rejected call leaves behind. The names are checked before anything is done, the
   fields only by the generators of the layers, after the packages of the domain are made
   and the domain is in `pyproject.toml`: such a call changes nothing exactly if all that
   was there (`rejected_changes_nothing_iff`). -/
namespace FastiKit.Scaffold.CreateAll
open Files (Path Node Tree Run)
open Files.Run (Idle Avoids)

variable (parse : Ast.Parser) (printable : Char → Bool) (loads : String → Option Toml)

/-- Nothing of the domain is missing: its packages, its `dependencies.py`, and what there
is to write of it to `pyproject.toml`. -/
structure Ready (domain : String) (t : Tree) : Prop where
  inits : ∀ layer ∈ domainLayers, t.node [domain, layer, "__init__.py"] ≠ none
  dependencies : t.node [domain, "dependencies.py"] ≠ none
  pyproject : ∀ text, t.node pyprojectFile = some (.file text) → ∀ written,
    Pyproject.registerPyproject loads domain (some text) ≠ some (some written)

variable {parse printable loads} {domain name fields message : String} {t t' : Tree}

/-! Only the names and the fields are found wrong. -/

section ValueErrors

theorem mapError_avoids {α β : Type} {r : Except Raised α} {f : α → β} (h : ∀ message, r ≠ .error (.valueError message)) :
    ∀ message, r.map f ≠ .error (.valueError message) := by
  intro message
  cases r with
  | ok a => exact nofun
  | error raised =>
    intro heq
    exact h message (congrArg Except.error (Except.error.inj heq))

theorem updateInit_avoids {path : Path} {module : String} {symbols : List String} :
    Avoids (updateInit parse printable path module symbols) (.raised (.valueError message)) := by
  apply Avoids.bind' mkdir_avoids
  intro _
  apply Avoids.bind' readIfExists_avoids
  intro existing
  apply Avoids.bind'
  · apply orRaise_avoids
    unfold Scaffold.updateInit
    split
    · exact nofun
    · exact nofun
  · exact fun _ => Avoids.bind' writeText_avoids (fun _ => Avoids.pure')

theorem writeNewFile_avoids {path : Path} {content : String} :
    Avoids (writeNewFile path content) (.raised (.valueError message)) := by
  apply Avoids.bind' mkdir_avoids
  intro _
  apply Avoids.bind' exists_avoids
  intro found
  apply Avoids.ite'
  · exact Avoids.pure'
  · exact Avoids.bind' writeText_avoids (fun _ => Avoids.pure')

theorem generateLayer_avoids {layer : Layer} (hnames : ∀ message, resolveNames domain name ≠ .error (.valueError message))
    (htemplate : ∀ snake pascal message, layer.template domain snake pascal fields ≠ .error (.valueError message)) :
    Avoids (generateLayer parse printable layer domain name fields) (.raised (.valueError message)) := by
  apply Avoids.bind' (orRaise_avoids (hnames message))
  intro (snake, pascal)
  apply Avoids.bind' (orRaise_avoids (htemplate snake pascal message))
  intro template
  apply Avoids.bind' writeNewFile_avoids
  intro _
  exact Avoids.bind' updateInit_avoids (fun _ => Avoids.pure')

theorem generateAllLayers_avoids (hnames : ∀ message, resolveNames domain name ≠ .error (.valueError message))
    (hfields : ∀ message, parseFields fields ≠ .error (.valueError message)) :
    Avoids (generateAllLayers domain name fields (layerGenerators parse printable)) (.raised (.valueError message)) := by
  have hrest : ∀ generators, (∀ generate ∈ generators, Avoids (generate domain name fields) (.raised (.valueError message))) →
      Avoids (generateAllLayers domain name fields generators) (.raised (.valueError message)) := by
    intro generators
    induction generators with
    | nil => exact fun _ => Avoids.pure'
    | cons generate rest ih =>
      intro h
      apply Avoids.bind' (h generate List.mem_cons_self)
      intro paths
      exact Avoids.bind' (ih (fun generate hin => h generate (List.mem_cons_of_mem _ hin))) (fun _ => Avoids.pure')
  apply hrest
  simp only [layerGenerators, List.mem_cons, List.not_mem_nil, or_false]
  intro generate hgenerate
  obtain rfl | rfl | rfl | rfl | rfl | rfl := hgenerate
  · exact generateLayer_avoids hnames (fun _ _ => mapError_avoids hfields)
  · exact generateLayer_avoids hnames (fun _ _ => mapError_avoids hfields)
  · exact generateLayer_avoids hnames (fun _ _ => mapError_avoids hfields)
  · exact generateLayer_avoids hnames (fun _ _ => mapError_avoids hfields)
  · exact generateLayer_avoids hnames (fun _ _ => nofun)
  · exact generateLayer_avoids hnames (fun _ _ => nofun)

theorem generateDependencies_avoids (hnames : ∀ message, resolveNames domain name ≠ .error (.valueError message)) :
    Avoids (generateDependencies parse domain name) (.raised (.valueError message)) := by
  apply Avoids.bind' (orRaise_avoids (hnames message))
  intro (snake, pascal)
  apply Avoids.bind' readIfExists_avoids
  intro existing
  apply Avoids.ite'
  · exact Avoids.pure'
  · apply Avoids.bind'
    · apply orRaise_avoids
      unfold MergeImports.mergeImports
      split
      · exact nofun
      · split
        · exact nofun
        · exact nofun
        · exact nofun
    · intro merged
      apply Avoids.bind' mkdir_avoids
      exact fun _ => Avoids.bind' writeText_avoids (fun _ => Avoids.pure')

theorem registerModel_avoids {modelClass : String} :
    Avoids (registerModel parse domain modelClass) (.raised (.valueError message)) := by
  apply Avoids.bind' exists_avoids
  intro found
  apply Avoids.ite'
  · apply Avoids.bind' readText_avoids
    intro content
    split
    · exact Avoids.ofExcept' nofun
    · apply Avoids.ite'
      · exact Avoids.pure'
      · exact Avoids.bind' writeText_avoids (fun _ => Avoids.pure')
  · exact Avoids.pure'

theorem registerRouter_avoids {routerVar : String} :
    Avoids (registerRouter domain routerVar) (.raised (.valueError message)) := by
  apply Avoids.bind' exists_avoids
  intro found
  apply Avoids.ite'
  · apply Avoids.bind' readText_avoids
    intro text
    split
    · exact Avoids.pure'
    · exact Avoids.bind' writeText_avoids (fun _ => Avoids.pure')
  · exact Avoids.pure'

theorem registerPyproject_avoids : Avoids (registerPyproject loads domain) (.raised (.valueError message)) := by
  apply Avoids.bind' readIfExists_avoids
  intro existing
  split
  · exact Avoids.ofExcept' nofun
  · exact Avoids.pure'
  · exact Avoids.bind' writeText_avoids (fun _ => Avoids.pure')

theorem touchInit_avoids {path : Path} : Avoids (touchInit path) (.raised (.valueError message)) := by
  apply Avoids.bind' exists_avoids
  intro found
  apply Avoids.ite'
  · exact Avoids.pure'
  · exact Avoids.bind' mkdir_avoids (fun _ => writeText_avoids)

theorem touchInits_avoids {layers : List String} : Avoids (touchInits domain layers) (.raised (.valueError message)) := by
  induction layers with
  | nil => exact Avoids.pure'
  | cons layer rest ih => exact Avoids.bind' touchInit_avoids (fun _ => ih)

theorem touchDependencies_avoids {path : Path} : Avoids (touchDependencies path) (.raised (.valueError message)) := by
  apply Avoids.bind' exists_avoids
  intro found
  exact Avoids.ite' Avoids.pure' writeText_avoids

theorem generateDomain_avoids (hdomain : ∀ message, validateDomain domain ≠ .error (.valueError message)) :
    Avoids (generateDomain loads domain) (.raised (.valueError message)) := by
  apply Avoids.bind' (orRaise_avoids (hdomain message))
  intro _
  apply Avoids.bind' touchInits_avoids
  intro _
  apply Avoids.bind' touchDependencies_avoids
  intro _
  exact Avoids.bind' registerPyproject_avoids (fun _ => Avoids.pure')

end ValueErrors

/-! What a domain that is made adds. -/

section Domain

/-- A file that was not there is added to what was. -/
theorem writeText_kept {path : Path} {text : String} (hnone : t.node path = none) (h : writeText path text t = (.ok (), t')) :
    Tree.Kept t t' ∧ t'.node path ≠ none := by
  have hwritten := writeText_ok h
  refine ⟨fun q hq => ?_, by simp [hwritten]⟩
  have hne : q ≠ path := by
    intro heq
    rw [heq] at hq
    exact hq hnone
  rw [hwritten, if_neg hne]

theorem not_prefix_dropLast {path : Path} (hne : path ≠ []) : ¬ path <+: path.dropLast := by
  intro hprefix
  have hlength := hprefix.length_le
  have hpos := List.length_pos_iff.mpr hne
  rw [List.length_dropLast] at hlength
  omega

theorem touchInit_ok {path : Path} (hne : path ≠ []) (h : touchInit path t = (.ok (), t')) :
    Tree.Kept t t' ∧ t'.node path ≠ none := by
  unfold touchInit at h
  rw [Run.bind_ok exists_apply] at h
  split at h
  · next hexists =>
    obtain rfl := (Prod.mk.inj h).2
    exact ⟨fun _ _ => rfl, Option.isSome_iff_ne_none.mp hexists⟩
  · next hnot =>
    obtain ⟨_, t₁, hmkdir, hwrite⟩ := Run.of_bind_ok h
    obtain ⟨hkept, hother, -⟩ := mkdir_ok hmkdir
    have hnone : t₁.node path = none := by
      rw [hother path (not_prefix_dropLast hne)]
      simpa using hnot
    obtain ⟨hkept', hmade⟩ := writeText_kept hnone hwrite
    refine ⟨fun q hq => ?_, hmade⟩
    rw [hkept' q (by rwa [hkept q hq]), hkept q hq]

theorem touchInits_ok {layers : List String} (h : touchInits domain layers t = (.ok (), t')) :
    Tree.Kept t t' ∧ ∀ layer ∈ layers, t'.node [domain, layer, "__init__.py"] ≠ none := by
  induction layers generalizing t with
  | nil =>
    obtain rfl := (Prod.mk.inj h).2
    exact ⟨fun _ _ => rfl, nofun⟩
  | cons layer rest ih =>
    obtain ⟨_, t₁, hfirst, hrest⟩ := Run.of_bind_ok h
    obtain ⟨hkept, hmade⟩ := touchInit_ok (List.cons_ne_nil _ _) hfirst
    obtain ⟨hkept', hmade'⟩ := ih hrest
    refine ⟨fun q hq => ?_, fun other hin => ?_⟩
    · rw [hkept' q (by rwa [hkept q hq]), hkept q hq]
    · cases List.mem_cons.mp hin with
      | inl heq =>
        rw [heq, hkept' _ hmade]
        exact hmade
      | inr hin => exact hmade' other hin

theorem touchDependencies_ok {path : Path} (h : touchDependencies path t = (.ok (), t')) :
    Tree.Kept t t' ∧ t'.node path ≠ none := by
  unfold touchDependencies at h
  rw [Run.bind_ok exists_apply] at h
  split at h
  · next hexists =>
    obtain rfl := (Prod.mk.inj h).2
    exact ⟨fun _ _ => rfl, Option.isSome_iff_ne_none.mp hexists⟩
  · next hnot => exact writeText_kept (by simpa using hnot) h

/-- What is written for the file is another text, with the edits. -/
theorem registerPyproject_some {text written : String}
    (h : Pyproject.registerPyproject loads domain (some text) = some (some written)) :
    written = Pyproject.edit domain text ∧ written ≠ text := by
  unfold Pyproject.registerPyproject at h
  simp only at h
  split at h
  · cases h
  · split at h
    · cases h
    · split at h
      · cases h
      · cases h
      · split at h
        · cases h
        · next hne =>
          obtain rfl := Option.some.inj (Option.some.inj h)
          exact ⟨rfl, hne⟩

theorem registerPyproject_ok {paths : List Path} (h : registerPyproject loads domain t = (.ok paths, t')) :
    (t' = t ∧ ∀ text, t.node pyprojectFile = some (.file text) → Pyproject.registerPyproject loads domain (some text) = some none) ∨
    ∃ text written, t.node pyprojectFile = some (.file text) ∧
      Pyproject.registerPyproject loads domain (some text) = some (some written) ∧
        ∀ q, t'.node q = if q = pyprojectFile then some (.file written) else t.node q := by
  unfold registerPyproject at h
  cases hnode : t.node pyprojectFile with
  | none =>
    rw [Run.bind_ok (readIfExists_none hnode)] at h
    obtain rfl := (Prod.mk.inj h).2
    exact .inl ⟨rfl, nofun⟩
  | some node =>
    cases node with
    | dir =>
      rw [Run.bind_error (readIfExists_dir hnode)] at h
      cases h
    | file text =>
      rw [Run.bind_ok (readIfExists_file hnode)] at h
      cases hregister : Pyproject.registerPyproject loads domain (some text) with
      | none =>
        simp only [hregister] at h
        cases h
      | some result =>
        cases result with
        | none =>
          simp only [hregister] at h
          obtain rfl := (Prod.mk.inj h).2
          refine .inl ⟨rfl, fun text' htext => ?_⟩
          rw [← Node.file.inj (Option.some.inj htext), hregister]
        | some written =>
          simp only [hregister] at h
          obtain ⟨_, t₁, hwrite, hend⟩ := Run.of_bind_ok h
          obtain rfl := (Prod.mk.inj hend).2
          exact .inr ⟨text, written, rfl, hregister, writeText_ok hwrite⟩

/-- The tree is as it was only if nothing was missing. -/
theorem ready_of_generateDomain {paths : List Path} (h : generateDomain loads domain t = (.ok paths, t')) (hsame : t' = t) :
    Ready loads domain t := by
  obtain ⟨_, t₁, hvalidate, h⟩ := Run.of_bind_ok h
  obtain rfl := (Prod.mk.inj hvalidate).2
  obtain ⟨_, t₂, hinits, h⟩ := Run.of_bind_ok h
  obtain ⟨hkept, hmade⟩ := touchInits_ok hinits
  obtain ⟨_, t₃, hdependencies, h⟩ := Run.of_bind_ok h
  obtain ⟨hkept', hmade'⟩ := touchDependencies_ok hdependencies
  obtain ⟨_, t₄, hregister, h⟩ := Run.of_bind_ok h
  obtain rfl := (Prod.mk.inj h).2
  -- nothing is taken away by the edit of `pyproject.toml`
  have hback : ∀ q, t₃.node q ≠ none → t.node q ≠ none := by
    intro q hq
    rw [← hsame]
    obtain ⟨rfl, -⟩ | ⟨text, written, -, -, hother⟩ := registerPyproject_ok hregister
    · exact hq
    · rw [hother]
      split
      · exact Option.some_ne_none _
      · exact hq
  refine ⟨fun layer hin => hback _ ?_, hback _ hmade', ?_⟩
  · rw [hkept' _ (hmade layer hin)]
    exact hmade layer hin
  · intro text htext
    have hne : t.node pyprojectFile ≠ none := by simp [htext]
    have htext₃ : t₃.node pyprojectFile = some (.file text) := by
      rw [hkept' _ (by rwa [hkept _ hne]), hkept _ hne, htext]
    obtain ⟨-, hnothing⟩ | ⟨text', written, htext', hwritten, hother⟩ := registerPyproject_ok hregister
    · rw [hnothing text htext₃]
      exact fun _ => nofun
    · exfalso
      have hchanged := (registerPyproject_some hwritten).2
      have hafter := hother pyprojectFile
      rw [if_pos rfl, hsame, htext, Option.some.injEq, Node.file.injEq] at hafter
      rw [htext₃, Option.some.injEq, Node.file.injEq] at htext'
      exact hchanged (hafter.symm.trans htext')

theorem readIfExists_idle {path : Path} : Idle (readIfExists path) t := by
  cases h : t.node path with
  | none => rw [Idle, readIfExists_none h]
  | some node =>
    cases node with
    | dir => rw [Idle, readIfExists_dir h]
    | file text => rw [Idle, readIfExists_file h]

/-- Where nothing is missing nothing is done. -/
theorem generateDomain_idle (h : Ready loads domain t) : Idle (generateDomain loads domain) t := by
  have hinit : ∀ path, t.node path ≠ none → Idle (touchInit path) t := by
    intro path hpath
    apply Idle.bind_ok exists_apply
    rw [if_pos (Option.isSome_iff_ne_none.mpr hpath)]
    exact Idle.pure'
  have hinits : ∀ layers, (∀ layer ∈ layers, t.node [domain, layer, "__init__.py"] ≠ none) → Idle (touchInits domain layers) t := by
    intro layers
    induction layers with
    | nil => exact fun _ => Idle.pure'
    | cons layer rest ih =>
      intro hlayers
      apply Idle.bind' (hinit _ (hlayers layer List.mem_cons_self))
      exact fun _ _ => ih (fun layer hin => hlayers layer (List.mem_cons_of_mem _ hin))
  apply Idle.bind' Idle.ofExcept'
  intro _ _
  apply Idle.bind' (hinits domainLayers h.inits)
  intro _ _
  apply Idle.bind'
  · apply Idle.bind_ok exists_apply
    rw [if_pos (Option.isSome_iff_ne_none.mpr h.dependencies)]
    exact Idle.pure'
  · intro _ _
    refine Idle.bind' ?_ (fun _ _ => Idle.pure')
    apply Idle.bind' readIfExists_idle
    intro existing hexisting
    split
    · exact Idle.ofExcept'
    · exact Idle.pure'
    · next written hwritten =>
      cases hnode : t.node pyprojectFile with
      | none =>
        rw [readIfExists_none hnode] at hexisting
        obtain rfl := Except.ok.inj (Prod.mk.inj hexisting).1
        cases hwritten
      | some node =>
        cases node with
        | dir =>
          rw [readIfExists_dir hnode] at hexisting
          cases hexisting
        | file text =>
          rw [readIfExists_file hnode] at hexisting
          obtain rfl := Except.ok.inj (Prod.mk.inj hexisting).1
          exact absurd hwritten (h.pyproject text hnode written)

end Domain

/-! A rejected call. -/

theorem validateDomain_of_resolveNames {names : String × String} (h : resolveNames domain name = .ok names) :
    validateDomain domain = .ok () := by
  unfold resolveNames at h
  split at h
  · cases h
  · next hdomain => exact hdomain

/-- A call that is rejected changes nothing if and only if it is rejected for its names, or
nothing of the domain was missing. -/
theorem rejected_changes_nothing_iff (parse : Ast.Parser) (printable : Char → Bool) (loads : String → Option Toml)
    (domain name fields : String) (before : Tree) (message : String)
    (h : (generateAll parse printable loads domain name fields before).1 = .error (.raised (.valueError message))) :
    (generateAll parse printable loads domain name fields before).2 = before ↔
      (∀ names, resolveNames domain name ≠ .ok names) ∨ Ready loads domain before := by
  cases hnames : resolveNames domain name with
  | error raised =>
    have hall : generateAll parse printable loads domain name fields before = (.error (.raised raised), before) :=
      Run.bind_error (orRaise_error hnames)
    rw [hall]
    exact ⟨fun _ => .inl nofun, fun _ => rfl⟩
  | ok names =>
    obtain ⟨snake, pascal⟩ := names
    have hvalidate := validateDomain_of_resolveNames hnames
    have hnot : ¬ ∀ names, Except.ok (snake, pascal) ≠ (Except.ok names : Except Raised (String × String)) := fun h => h _ rfl
    rw [or_iff_right hnot]
    unfold generateAll at h ⊢
    rw [Run.bind_ok (orRaise_ok hnames)] at h ⊢
    simp only at h ⊢
    cases hdomain : generateDomain loads domain before with
    | mk result after =>
      cases result with
      | error e =>
        rw [Run.bind_error hdomain] at h
        have hfine : ∀ message, validateDomain domain ≠ .error (.valueError message) := by simp [hvalidate]
        have havoids : (generateDomain loads domain before).1 ≠ .error (.raised (.valueError message)) :=
          generateDomain_avoids hfine before
        rw [hdomain] at havoids
        exact absurd (congrArg Except.error (Except.error.inj h)) havoids
      | ok paths =>
        have hafter : after = before ↔ Ready loads domain before := by
          constructor
          · exact ready_of_generateDomain hdomain
          · intro hready
            have hidle := generateDomain_idle hready
            rwa [Idle, hdomain] at hidle
        rw [Run.bind_ok hdomain] at h ⊢
        cases hfields : parseFields fields with
        | error raised =>
          -- the first of the generators finds it
          have hentity : generateEntity parse printable domain name fields after = (.error (.raised raised), after) := by
            have htemplate : entityLayer.template domain snake pascal fields = .error raised := by
              simp only [entityLayer, hfields]
              rfl
            unfold generateEntity generateLayer
            rw [Run.bind_ok (orRaise_ok hnames)]
            exact Run.bind_error (orRaise_error htemplate)
          have hlayers : generateAllLayers domain name fields (layerGenerators parse printable) after =
              (.error (.raised raised), after) := Run.bind_error hentity
          rw [Run.bind_error hlayers]
          exact hafter
        | ok parsed =>
          exfalso
          have hnames' : ∀ message, resolveNames domain name ≠ .error (.valueError message) := by simp [hnames]
          refine Avoids.bind' (generateAllLayers_avoids hnames' (by simp [hfields])) ?_ after h
          intro layers
          apply Avoids.bind' (generateDependencies_avoids hnames')
          intro dependencies
          apply Avoids.bind' registerModel_avoids
          intro model
          exact Avoids.bind' registerRouter_avoids (fun _ => Avoids.pure')

/-- A working directory with nothing in it. -/
def emptyTree : Tree where
  node q := if q = [] then some .dir else none
  root := rfl
  parent := by
    intro q hq
    by_cases h : q = []
    · rw [h]
      rfl
    · rw [if_neg h] at hq
      exact absurd rfl hq

/-- A name that is refused, in an empty directory. -/
theorem rejected_changes_nothing_iff_name :
    (generateAll (Ast.lineParser Ast.readLine) (fun _ => false) (fun _ => none) "shop" "1st" "title:str" emptyTree).2 = emptyTree ↔
      (∀ names, resolveNames "shop" "1st" ≠ .ok names) ∨ Ready (fun _ => none) "shop" emptyTree :=
  rejected_changes_nothing_iff _ _ _ "shop" "1st" "title:str" emptyTree
    "Name '1st' can't become a Python identifier, e.g. use 'order_item'." (by decide +kernel)

/-- A field without a type is found when the domain is there. -/
theorem bad_field_leaves_domain : ¬ ∀ (domain name fields message : String) (before : Tree),
    (generateAll (Ast.lineParser Ast.readLine) (fun _ => false) (fun _ => none) domain name fields before).1 =
        .error (.raised (.valueError message)) →
      (generateAll (Ast.lineParser Ast.readLine) (fun _ => false) (fun _ => none) domain name fields before).2 = before := by
  intro h
  have hsame := h "shop" "item" "title" "not enough values to unpack (expected 2, got 1)" emptyTree (by decide +kernel)
  have hnode : (generateAll (Ast.lineParser Ast.readLine) (fun _ => false) (fun _ => none) "shop" "item" "title"
      emptyTree).2.node ["shop", "dependencies.py"] = some (.file "") := by decide +kernel
  rw [hsame] at hnode
  exact absurd hnode (by decide)

end FastiKit.Scaffold.CreateAll
