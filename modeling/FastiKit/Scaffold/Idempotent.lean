import FastiKit.Scaffold.Changes

/- Scaffolding is done once. A call that succeeds leaves all that it works on settled
   (`generateAll_ok`), what is settled stays settled through the calls that follow
   (`Settled.keep`), and a call that is settled changes nothing (`Settled.idle`).

   Of Python's parser it is used what `Packages` says, of TOML's that it reads the lists of
   the project's own `pyproject.toml`, with any domains added to them (`ListsRead`). -/
namespace FastiKit.Scaffold.CreateAll
open Files (Path Node Tree Run)
open Files.Run (Idle)

/-- What Python's grammar says of the domains and names that are accepted. `Package` is what
a domain is that can be imported from. -/
structure Packages {parse : Ast.Parser} {printable : Char → Bool} (grammar : Grammar parse printable) where
  lawful : Ast.Lawful parse
  rejects : Rejects grammar
  ends : Ends parse
  Package : String → Prop
  line : ∀ {domain}, Package domain → '\n' ∉ domain.toList
  imported : ∀ {domain snake rest}, matchesIdentifier domain = true → matchesIdentifier snake = true →
    Ast.body parse ("from " ++ domain ++ ".repositories." ++ snake ++ rest) ≠ none → Package domain ∧ '\n' ∉ snake.toList
  modelLine : ∀ {domain pascal}, matchesIdentifier domain = true → Package domain → isPascal pascal = true →
    Ast.body parse (modelLine domain (pascal ++ "Model")) =
      some [.importFrom 0 (some (domain ++ ".models")) [⟨pascal ++ "Model", none⟩]]

variable {parse : Ast.Parser} {printable : Char → Bool} {grammar : Grammar parse printable} {loads : String → Option Toml}
  {packages : Packages grammar} {names names' : Names} {domain name fields : String} {t t' : Tree}

/-! Names that can be imported. -/

section Importable

/-- The names can be written in an import. -/
structure Importable (packages : Packages grammar) (names : Names) : Prop where
  package : packages.Package names.domain
  line : '\n' ∉ names.snake.toList

theorem Importable.domain_identifier (h : Importable packages names) : names.domain.toList.all isIdentifierChar = true :=
  identifier_of_matches names.domain_ (packages.line h.package)

theorem Importable.snake_identifier (h : Importable packages names) : names.snake.toList.all isIdentifierChar = true :=
  identifier_of_matches names.snake_ h.line

theorem Importable.pascal_word (h : Importable packages names) : isPascal names.pascal = true := by
  rw [names.pascal_]
  exact isPascal_of_matches names.snake_ h.line

theorem plain_identifier {s : String} (h : s.toList.all isIdentifierChar = true) : Lines.Plain s.toList :=
  Ast.plain_of_all (by decide) h

theorem Importable.plain_pascal (h : Importable packages names) : Lines.Plain names.pascal.toList := by
  have hchars := (isPascal_cases h.pascal_word).2
  exact Ast.plain_of_all (by decide) hchars

theorem Importable.plain_router (h : Importable packages names) : Lines.Plain (names.snake ++ "_router").toList := by
  rw [String.toList_append]
  exact (plain_identifier h.snake_identifier).append (Ast.plain_of_ascii (by decide))

theorem Importable.modelLine (h : Importable packages names) : Ast.body parse (modelLine names.domain (names.pascal ++ "Model")) =
    some [.importFrom 0 (some (names.domain ++ ".models")) [⟨names.pascal ++ "Model", none⟩]] :=
  packages.modelLine names.domain_ h.package h.pascal_word

/-- The line of a model has no backslash, and so the manifest gets none. -/
theorem Importable.backslash (h : Importable packages names) {text : String} (htext : '\\' ∉ text.toList) :
    '\\' ∉ (Lines.rstrip text ++ "\n" ++ CreateAll.modelLine names.domain (names.pascal ++ "Model") ++ "\n").toList := by
  have hdomain : '\\' ∉ names.domain.toList := fun hin => absurd (List.all_eq_true.mp h.domain_identifier _ hin) (by decide)
  have hpascal : '\\' ∉ names.pascal.toList := fun hin => absurd (List.all_eq_true.mp (isPascal_cases h.pascal_word).2 _ hin) (by decide)
  have hrstrip : '\\' ∉ (Lines.rstrip text).toList := fun hin => htext (mem_rstrip hin)
  simp [CreateAll.modelLine, String.toList_append, hdomain, hpascal, hrstrip]

end Importable

/-! What the calls rely on. -/

section OwnFiles

/-- What is used of the files of the repository, before and after any calls. -/
structure OwnFiles (packages : Packages grammar) (loads : String → Option Toml) (t : Tree) : Prop where
  manifest : t.Has modelsManifest (fun text => '\\' ∉ text.toList)
  versions : t.Has apiVersionsFile (fun _ => True)
  pyproject : t.Has pyprojectFile (Pyproject.ListsRead loads)
  /-- No line of a `dependencies.py` starts as the name of a factory ends. -/
  dependencies : ∀ {domain n}, t.node [domain, "dependencies.py"] = some n →
    packages.Package domain ∧ ∀ text, n = .file text → ¬ Lines.Starts "_service(".toList text

/-- Only names that can be imported have a factory. -/
theorem importable_of_dependencies (own : OwnFiles packages loads t) (hmade : Tree.Along (Made parse printable loads names) t t')
    (h : t'.Has [names.domain, "dependencies.py"] (fun text => hasFactory names.snake text = true) ∨
      ∀ line ∈ requiredImports names.domain names.snake names.pascal, Ast.body parse line ≠ none) :
    Importable packages names := by
  cases h with
  | inl h =>
    obtain ⟨text, hnode, hfactory⟩ := h
    have hkept : t'.node [names.domain, "dependencies.py"] = t.node [names.domain, "dependencies.py"] ∨
        t'.node [names.domain, "dependencies.py"] = some (.file "") := by
      have hstep : ∀ {old new : Option Node}, Made parse printable loads names [names.domain, "dependencies.py"] old new →
          (old = t.node [names.domain, "dependencies.py"] ∨ old = some (.file "")) →
            new = t.node [names.domain, "dependencies.py"] ∨ new = some (.file "") :=
        fun hmade _ => .inr hmade.of_dependencies.2.2
      exact hmade.invariant hstep (.inl rfl)
    rw [hnode] at hkept
    cases hkept with
    | inl hown =>
      obtain ⟨hpackage, hstarts⟩ := own.dependencies hown.symm
      refine ⟨hpackage, fun hline => hstarts text rfl ?_⟩
      -- the newline is the last character of the name
      obtain ⟨front, hsnake, -⟩ := newline_last names.snake_ hline
      obtain ⟨before, after, htext⟩ := of_decide_eq_true hfactory
      have hchars : ("def get_" ++ names.snake ++ "_service(").toList = "def get_".toList ++ front ++ '\n' :: "_service(".toList := by
        rw [String.toList_append, String.toList_append, hsnake]
        simp
      apply Lines.starts_of_infix (Ast.plain_of_ascii (by decide)) (by decide)
      exact ⟨before ++ ("def get_".toList ++ front), after, by rw [← htext, hchars]; simp⟩
    | inr hempty =>
      obtain rfl := Node.file.inj (Option.some.inj hempty)
      rw [hasFactory_empty] at hfactory
      cases hfactory
  | inr h =>
    have hline := h ("from " ++ names.domain ++ ".repositories." ++ names.snake ++ "_repository import " ++ names.pascal ++ "Repository")
      (by simp [requiredImports])
    rw [String.append_assoc, String.append_assoc] at hline
    exact ⟨(packages.imported names.domain_ names.snake_ hline).1, (packages.imported names.domain_ names.snake_ hline).2⟩

/-- Calls keep it. -/
theorem OwnFiles.keep (own : OwnFiles packages loads t) (hnames : Importable packages names)
    (h : Tree.Along (Change parse printable loads names) t t') : OwnFiles packages loads t' where
  manifest := by
    refine h.has ?_ own.manifest
    intro text new hchange hplain
    exact ⟨_, hchange.of_manifest.2, hnames.backslash hplain⟩
  versions := by
    refine h.has ?_ own.versions
    intro text new hchange _
    obtain ⟨text', hnew, -⟩ := hchange.of_router
    exact ⟨text', hnew, trivial⟩
  pyproject := by
    refine h.has ?_ own.pyproject
    intro text new hchange hread
    obtain ⟨text', hnew, hregister⟩ := hchange.of_pyproject
    have hedit := (registerPyproject_some hregister).1
    refine ⟨text', hnew, ?_⟩
    rw [hedit]
    exact hread.edit hnames.domain_identifier
  dependencies := by
    intro domain n hnode
    have hstep : ∀ {old new : Option Node}, Change parse printable loads names [domain, "dependencies.py"] old new →
        (∀ n, old = some n → packages.Package domain ∧ ∀ text, n = .file text → ¬ Lines.Starts "_service(".toList text) →
          ∀ n, new = some n → packages.Package domain ∧ ∀ text, n = .file text → ¬ Lines.Starts "_service(".toList text := by
      intro old new hchange hold n hnew
      have hempty : ¬ Lines.Starts "_service(".toList "" := by
        intro ⟨line, hline, _⟩
        cases hline
      obtain ⟨rfl, ⟨-, rfl⟩ | ⟨existing, merged, rfl, rfl, hmerge⟩⟩ := hchange.of_dependencies
      · refine ⟨hnames.package, fun text htext => ?_⟩
        rw [htext] at hnew
        rw [← Node.file.inj (Option.some.inj hnew)]
        exact hempty
      · refine ⟨hnames.package, fun text htext hstarts => ?_⟩
        rw [htext] at hnew
        rw [← Node.file.inj (Option.some.inj hnew)] at hstarts
        have hcontent := starts_dependencies rfl (plain_identifier hnames.domain_identifier) (plain_identifier hnames.snake_identifier)
          hnames.plain_pascal hmerge hstarts
        cases existing with
        | none => exact hempty hcontent
        | some content => exact (hold _ rfl).2 content rfl hcontent
    exact h.invariant hstep (fun n hn => own.dependencies hn) n hnode

end OwnFiles

/-! What a call leaves settled. -/

section Settled

/-- There is nothing left to do for the names. -/
structure Settled (parse : Ast.Parser) (printable : Char → Bool) (names : Names) (t : Tree) : Prop where
  pyproject : t.Has pyprojectFile (fun text => ∀ target, Pyproject.editOf names.domain (Pyproject.splitNewlines text) target = none)
  layers : ∀ layer ∈ CreateAll.layers, LayerSettled parse printable names layer t
  dependencies : t.Has [names.domain, "dependencies.py"] (fun text => hasFactory names.snake text = true)
  model : t.Has modelsManifest (Registered parse names.domain (names.pascal ++ "Model"))
  router : t.Has apiVersionsFile (fun text => FastiKit.registerRouter names.domain (names.snake ++ "_router") text = none)

theorem keep_pyproject (hnames' : Importable packages names') (h : Tree.Along (Change parse printable loads names') t t')
    (hsettled : t.Has pyprojectFile (fun text => ∀ target, Pyproject.editOf domain (Pyproject.splitNewlines text) target = none)) :
    t'.Has pyprojectFile (fun text => ∀ target, Pyproject.editOf domain (Pyproject.splitNewlines text) target = none) := by
  refine h.has ?_ hsettled
  intro text new hchange hnothing
  obtain ⟨text', hnew, hregister⟩ := hchange.of_pyproject
  have hedit := (registerPyproject_some hregister).1
  refine ⟨text', hnew, fun target => ?_⟩
  rw [hedit, Pyproject.splitNewlines_edit hnames'.domain_identifier]
  exact Pyproject.editOf_editLines_keep hnames'.domain_identifier (hnothing target)

theorem keep_dependencies (hnames : Importable packages names) (h : Tree.Along (Change parse printable loads names') t t')
    (hsettled : t.Has [domain, "dependencies.py"] (fun text => hasFactory names.snake text = true)) :
    t'.Has [domain, "dependencies.py"] (fun text => hasFactory names.snake text = true) := by
  refine h.has ?_ hsettled
  intro text new hchange hfactory
  obtain ⟨-, ⟨hold, -⟩ | ⟨existing, merged, hold, hnew, hmerge⟩⟩ := hchange.of_dependencies
  · cases hold
  · obtain ⟨content, rfl, hcontent⟩ := Option.map_eq_some_iff.mp hold.symm
    obtain rfl := Node.file.inj hcontent
    exact ⟨_, hnew, hasFactory_keep (plain_identifier hnames.snake_identifier) hfactory hmerge _⟩

/-- The line of another model is read after the others. -/
theorem keep_model (hnames' : Importable packages names') (h : Tree.Along (Change parse printable loads names') t t')
    (hmanifest : t.Has modelsManifest (fun text => '\\' ∉ text.toList)) {modelClass : String}
    (hsettled : t.Has modelsManifest (Registered parse domain modelClass)) :
    t'.Has modelsManifest (Registered parse domain modelClass) := by
  have hboth : t.Has modelsManifest (fun text => '\\' ∉ text.toList ∧ Registered parse domain modelClass text) := by
    obtain ⟨text, hnode, hregistered⟩ := hsettled
    obtain ⟨text', hnode', hplain⟩ := hmanifest
    rw [hnode] at hnode'
    obtain rfl := Node.file.inj (Option.some.inj hnode')
    exact ⟨text, hnode, hplain, hregistered⟩
  refine (h.has ?_ hboth).imp (fun text htext => htext.2)
  intro text new hchange htext
  obtain ⟨⟨stmts, hbody⟩, hnew⟩ := hchange.of_manifest
  have hbody' := body_added_line packages.lawful packages.ends htext.1 hbody hnames'.modelLine
  refine ⟨_, hnew, hnames'.backslash htext.1, .inr ⟨_, hbody', ?_⟩⟩
  cases htext.2 with
  | inl hnone =>
    rw [hnone] at hbody
    cases hbody
  | inr himports =>
    obtain ⟨stmts', hold, himports⟩ := himports
    rw [hbody] at hold
    rw [List.any_append, Option.some.inj hold, himports, Bool.true_or]

theorem keep_router (hnames' : Importable packages names') (h : Tree.Along (Change parse printable loads names') t t')
    {routerVar : String} (hsettled : t.Has apiVersionsFile (fun text => FastiKit.registerRouter domain routerVar text = none)) :
    t'.Has apiVersionsFile (fun text => FastiKit.registerRouter domain routerVar text = none) := by
  refine h.has ?_ hsettled
  intro text new hchange hnothing
  obtain ⟨text', hnew, hregister⟩ := hchange.of_router
  exact ⟨text', hnew, registerRouter_keep (plain_identifier hnames'.domain_identifier) hnames'.plain_router hnothing hregister⟩

/-- Other calls leave it settled. -/
theorem Settled.keep (own : OwnFiles packages loads t) (hnames : Importable packages names) (hnames' : Importable packages names')
    (h : Tree.Along (Change parse printable loads names') t t') (hsettled : Settled parse printable names t) :
    Settled parse printable names t' where
  pyproject := keep_pyproject hnames' h hsettled.pyproject
  layers layer hlayer := (hsettled.layers layer hlayer).keep packages.lawful packages.rejects h
  dependencies := keep_dependencies hnames h hsettled.dependencies
  model := keep_model hnames' h own.manifest hsettled.model
  router := keep_router hnames' h hsettled.router

/-- The lists of `pyproject.toml` have the domain. -/
theorem settled_pyproject {paths : List Path} (hread : t.Has pyprojectFile (Pyproject.ListsRead loads))
    (hdomain : domain.toList.all isIdentifierChar = true) (h : registerPyproject loads domain t = (.ok paths, t')) :
    t'.Has pyprojectFile (fun text => ∀ target, Pyproject.editOf domain (Pyproject.splitNewlines text) target = none) := by
  obtain ⟨text, hnode, hread⟩ := hread
  have hedited : ∀ target, Pyproject.editOf domain (Pyproject.splitNewlines (Pyproject.edit domain text)) target = none := by
    intro target
    rw [Pyproject.splitNewlines_edit hdomain]
    exact Pyproject.editOf_editLines hdomain _ target
  obtain ⟨rfl, hnothing⟩ | ⟨text', written, hnode', hregister, hwritten⟩ := registerPyproject_ok h
  · have hsame : Pyproject.edit domain text = text := by
      have hnone := hnothing text hnode
      rw [Pyproject.registerPyproject_of_read hread hdomain, Option.some.injEq] at hnone
      by_contra hne
      rw [if_neg hne] at hnone
      cases hnone
    rw [hsame] at hedited
    exact ⟨text, hnode, hedited⟩
  · rw [hnode, Option.some.injEq, Node.file.injEq] at hnode'
    have hedit := (registerPyproject_some hregister).1
    rw [hedit, ← hnode'] at hwritten
    exact ⟨_, by rw [hwritten, if_pos rfl], hedited⟩

theorem settled_generateDomain {paths : List Path} (own : OwnFiles packages loads t) (hnames : Importable packages names)
    (h : generateDomain loads names.domain t = (.ok paths, t')) :
    t'.Has pyprojectFile (fun text => ∀ target, Pyproject.editOf names.domain (Pyproject.splitNewlines text) target = none) := by
  obtain ⟨_, t₁, hvalidate, h⟩ := Run.of_bind_ok h
  obtain ⟨-, rfl⟩ := orRaise_inv hvalidate
  obtain ⟨_, t₂, hinits, h⟩ := Run.of_bind_ok h
  obtain ⟨_, t₃, hdependencies, h⟩ := Run.of_bind_ok h
  obtain ⟨_, t₄, hregister, h⟩ := Run.of_bind_ok h
  obtain rfl := (Prod.mk.inj h).2
  have htouched : Tree.Along (Made parse printable loads names) t t₃ :=
    (touchInits_along (fun _ hdir => hdir) hinits).trans (touchDependencies_along hdependencies)
  have own₃ := own.keep hnames (htouched.mono .made)
  exact settled_pyproject own₃.pyproject hnames.domain_identifier hregister

theorem settled_model {paths : List Path} (hnames : Importable packages names) (hmanifest : t.Has modelsManifest (fun text => '\\' ∉ text.toList))
    (h : registerModel parse names.domain (names.pascal ++ "Model") t = (.ok paths, t')) :
    Tree.Along (Change parse printable loads names) t t' ∧
      t'.Has modelsManifest (Registered parse names.domain (names.pascal ++ "Model")) := by
  obtain ⟨text, hnode, hplain⟩ := hmanifest
  obtain ⟨halong, stmts, hbody, hafter⟩ := registerModel_ok hnode h
  refine ⟨halong, ?_⟩
  cases hafter with
  | inl hthere => exact ⟨text, hthere.1, .inr ⟨stmts, hbody, hthere.2⟩⟩
  | inr hadded =>
    refine ⟨_, hadded, .inr ⟨_, body_added_line packages.lawful packages.ends hplain hbody hnames.modelLine, ?_⟩⟩
    simp [importsModel]

theorem settled_router {paths : List Path} (hnames : Importable packages names) (hversions : t.Has apiVersionsFile (fun _ => True))
    (h : registerRouter names.domain (names.snake ++ "_router") t = (.ok paths, t')) :
    Tree.Along (Change parse printable loads names) t t' ∧
      t'.Has apiVersionsFile (fun text => FastiKit.registerRouter names.domain (names.snake ++ "_router") text = none) := by
  obtain ⟨text, hnode, -⟩ := hversions
  obtain ⟨halong, hafter⟩ := registerRouter_ok hnode h
  refine ⟨halong, ?_⟩
  cases hafter with
  | inl hnothing => exact ⟨text, hnothing⟩
  | inr hwired =>
    obtain ⟨text', hnode', hwired⟩ := hwired
    exact ⟨text', hnode', registerRouter_settled (plain_identifier hnames.domain_identifier) hnames.plain_router hwired⟩

/-- A call that succeeds is one with names that can be imported, and leaves them settled. -/
theorem generateAll_ok {paths : List Path} (own : OwnFiles packages loads t)
    (h : generateAll parse printable loads domain name fields t = (.ok paths, t')) :
    ∃ names : Names, names.domain = domain ∧ resolveNames domain name = .ok (names.snake, names.pascal) ∧
      Importable packages names ∧ Tree.Along (Change parse printable loads names) t t' ∧ Settled parse printable names t' := by
  obtain ⟨⟨snake, pascal⟩, t₁, hraise, h⟩ := Run.of_bind_ok h
  obtain ⟨hresolve, rfl⟩ := orRaise_inv hraise
  obtain ⟨names, rfl, rfl, rfl⟩ := exists_names hresolve
  obtain ⟨_, t₁, hdomain, h⟩ := Run.of_bind_ok h
  obtain ⟨_, t₂, hlayers, h⟩ := Run.of_bind_ok h
  obtain ⟨_, t₃, hdependencies, h⟩ := Run.of_bind_ok h
  obtain ⟨_, t₄, hmodel, h⟩ := Run.of_bind_ok h
  obtain ⟨_, t₅, hrouter, h⟩ := Run.of_bind_ok h
  obtain rfl := (Prod.mk.inj h).2
  obtain ⟨hmade, hsettled⟩ := generateAllLayers_ok packages.lawful packages.rejects hresolve hlayers
  have hboth : Tree.Along (Made parse printable loads names) t t₂ := (generateDomain_along hdomain).trans hmade
  obtain ⟨hchanges, hfactory, himports⟩ := generateDependencies_ok hresolve hdependencies
  have hnames := importable_of_dependencies own hboth himports
  have hthree : Tree.Along (Change parse printable loads names) t t₃ := (hboth.mono .made).trans hchanges
  have own₃ := own.keep hnames hthree
  obtain ⟨hfour, hregistered⟩ := settled_model hnames own₃.manifest hmodel
  have own₄ := own₃.keep hnames hfour
  obtain ⟨hfive, hwired⟩ := settled_router hnames own₄.versions hrouter
  refine ⟨names, rfl, hresolve, hnames, (hthree.trans hfour).trans hfive, ?_, fun layer hlayer => ?_, ?_, ?_, hwired⟩
  · have hpyproject := settled_generateDomain own hnames hdomain
    exact keep_pyproject hnames (((hmade.mono .made).trans hchanges).trans (hfour.trans hfive)) hpyproject
  · exact (hsettled layer hlayer).keep packages.lawful packages.rejects (hchanges.trans (hfour.trans hfive))
  · exact keep_dependencies hnames (hfour.trans hfive) hfactory
  · exact keep_model hnames hfive own₄.manifest hregistered

end Settled

/-! A settled call. -/

section Idle

theorem mkdir_idle {path : Path} (h : t.node path = some .dir) : Idle (mkdir path) t := by
  apply Idle.attempt'
  intro t' hmkdir
  rw [Tree.mkdir_of_dir h] at hmkdir
  exact (Option.some.inj hmkdir).symm

theorem writeText_idle {path : Path} {text : String} (h : t.node path = some (.file text)) : Idle (writeText path text) t := by
  apply Idle.attempt'
  intro t' hwrite
  rw [Tree.write_same h] at hwrite
  exact (Option.some.inj hwrite).symm

theorem writeNewFile_idle {path : Path} {content : String} (h : t.node path ≠ none) : Idle (writeNewFile path content) t := by
  apply Idle.bind' (mkdir_idle (t.parent h))
  intro _ _
  apply Idle.bind_ok exists_apply
  rw [if_pos (Option.isSome_iff_ne_none.mpr h)]
  exact Idle.pure'

theorem updateInit_idle {path : Path} {module : String} {symbols : List String}
    (h : t.Has path (InitSettled parse printable module symbols)) : Idle (updateInit parse printable path module symbols) t := by
  obtain ⟨text, hnode, hsettled⟩ := h
  have hdir : t.node path.dropLast = some .dir := t.parent (by simp [hnode])
  apply Idle.bind' (mkdir_idle hdir)
  intro _ _
  apply Idle.bind_ok (readIfExists_file hnode)
  cases hsettled.again with
  | inl herror => rw [Idle, Run.bind_error (orRaise_error herror)]
  | inr hagain =>
    apply Idle.bind_ok (orRaise_ok hagain)
    exact Idle.bind' (writeText_idle hnode) (fun _ _ => Idle.pure')

theorem LayerSettled.idle {layer : Layer} (hnames : resolveNames names.domain name = .ok (names.snake, names.pascal))
    (h : LayerSettled parse printable names layer t) : Idle (generateLayer parse printable layer names.domain name fields) t := by
  apply Idle.bind_ok (orRaise_ok hnames)
  apply Idle.bind' Idle.ofExcept'
  intro template _
  apply Idle.bind' (writeNewFile_idle h.module)
  intro _ _
  exact Idle.bind' (updateInit_idle h.exports) (fun _ _ => Idle.pure')

theorem generateAllLayers_idle (hnames : resolveNames names.domain name = .ok (names.snake, names.pascal))
    (h : ∀ layer ∈ layers, LayerSettled parse printable names layer t) :
    Idle (generateAllLayers names.domain name fields (layerGenerators parse printable)) t := by
  have hall : ∀ ls : List Layer, (∀ layer ∈ ls, LayerSettled parse printable names layer t) →
      Idle (generateAllLayers names.domain name fields (ls.map (generateLayer parse printable))) t := by
    intro ls
    induction ls with
    | nil => exact fun _ => Idle.pure'
    | cons layer rest ih =>
      intro hls
      apply Idle.bind' ((hls layer List.mem_cons_self).idle hnames)
      intro _ _
      exact Idle.bind' (ih (fun layer hin => hls layer (List.mem_cons_of_mem _ hin))) (fun _ _ => Idle.pure')
  rw [layerGenerators_eq]
  exact hall layers h

theorem generateDependencies_idle (hnames : resolveNames names.domain name = .ok (names.snake, names.pascal))
    (h : t.Has [names.domain, "dependencies.py"] (fun text => hasFactory names.snake text = true)) :
    Idle (generateDependencies parse names.domain name) t := by
  obtain ⟨text, hnode, hfactory⟩ := h
  apply Idle.bind_ok (orRaise_ok hnames)
  apply Idle.bind_ok (readIfExists_file hnode)
  exact Idle.ite' (fun _ => Idle.pure') (fun hnot => absurd hfactory hnot)

theorem registerModel_idle {modelClass : String} (h : t.Has modelsManifest (Registered parse domain modelClass)) :
    Idle (registerModel parse domain modelClass) t := by
  obtain ⟨text, hnode, hregistered⟩ := h
  apply Idle.bind_ok exists_apply
  rw [hnode, Option.isSome_some, if_pos rfl]
  apply Idle.bind_ok (readText_file hnode)
  cases hregistered with
  | inl hnone =>
    rw [hnone]
    exact Idle.ofExcept'
  | inr himports =>
    obtain ⟨stmts, hbody, himports⟩ := himports
    rw [hbody]
    exact Idle.ite' (fun _ => Idle.pure') (fun hnot => absurd himports hnot)

theorem registerRouter_idle {routerVar : String}
    (h : t.Has apiVersionsFile (fun text => FastiKit.registerRouter domain routerVar text = none)) :
    Idle (registerRouter domain routerVar) t := by
  obtain ⟨text, hnode, hnothing⟩ := h
  apply Idle.bind_ok exists_apply
  rw [hnode, Option.isSome_some, if_pos rfl]
  apply Idle.bind_ok (readText_file hnode)
  rw [hnothing]
  exact Idle.pure'

theorem Settled.ready (hnames : Importable packages names) (h : Settled parse printable names t) : Ready loads names.domain t where
  inits dir hdir := by
    have hdirs : domainLayers = CreateAll.layers.map Layer.dir := rfl
    rw [hdirs] at hdir
    obtain ⟨layer, hlayer, rfl⟩ := List.mem_map.mp hdir
    obtain ⟨text, hnode, -⟩ := (h.layers layer hlayer).exports
    simp [hnode]
  dependencies := by
    obtain ⟨text, hnode, -⟩ := h.dependencies
    simp [hnode]
  pyproject text htext written hwritten := by
    obtain ⟨text', hnode, hnothing⟩ := h.pyproject
    rw [hnode, Option.some.injEq, Node.file.injEq] at htext
    rw [htext] at hnothing
    obtain ⟨hedit, hne⟩ := registerPyproject_some hwritten
    rw [Pyproject.edit_of_editOf hnames.domain_identifier hnothing] at hedit
    exact hne hedit

/-- What is settled is left as it is. -/
theorem Settled.idle (hresolve : resolveNames names.domain name = .ok (names.snake, names.pascal)) (hnames : Importable packages names)
    (h : Settled parse printable names t) : Idle (generateAll parse printable loads names.domain name fields) t := by
  apply Idle.bind_ok (orRaise_ok hresolve)
  apply Idle.bind' (generateDomain_idle (h.ready hnames))
  intro _ _
  apply Idle.bind' (generateAllLayers_idle hresolve h.layers)
  intro _ _
  apply Idle.bind' (generateDependencies_idle hresolve h.dependencies)
  intro _ _
  apply Idle.bind' (registerModel_idle h.model)
  intro _ _
  exact Idle.bind' (registerRouter_idle h.router) (fun _ _ => Idle.pure')

end Idle

/-! Any calls, one after the other. -/

section Runs

structure Call where
  domain : String
  name : String
  fields : String

def Call.run (parse : Ast.Parser) (printable : Char → Bool) (loads : String → Option Toml) (call : Call) : Scaffolding (List Path) :=
  generateAll parse printable loads call.domain call.name call.fields

/-- Calls that all succeed. -/
def runAll (parse : Ast.Parser) (printable : Char → Bool) (loads : String → Option Toml) : List Call → Scaffolding Unit
  | [] => return ()
  | call :: rest => do
    let _ ← call.run parse printable loads
    runAll parse printable loads rest

/-- What a call has settled. -/
def Call.Settled (packages : Packages grammar) (call : Call) (t : Tree) : Prop :=
  ∃ names : Names, names.domain = call.domain ∧ resolveNames call.domain call.name = .ok (names.snake, names.pascal) ∧
    Importable packages names ∧ CreateAll.Settled parse printable names t

/-- All calls are settled at the end, and what was settled at the start. -/
theorem runAll_settled (packages : Packages grammar) {history : List Call} (own : OwnFiles packages loads t)
    (h : runAll parse printable loads history t = (.ok (), t')) {call : Call} (hcall : call ∈ history ∨ call.Settled packages t) :
    call.Settled packages t' := by
  induction history generalizing t with
  | nil =>
    obtain rfl := (Prod.mk.inj h).2
    exact hcall.resolve_left List.not_mem_nil
  | cons first rest ih =>
    obtain ⟨paths, t₁, hfirst, hrest⟩ := Run.of_bind_ok h
    obtain ⟨names, hdomain, hresolve, hnames, halong, hsettled⟩ := generateAll_ok own hfirst
    have own₁ := own.keep hnames halong
    apply ih own₁ hrest
    cases hcall with
    | inl hin =>
      cases List.mem_cons.mp hin with
      | inl heq => exact .inr ⟨names, by rw [heq, hdomain], by rw [heq, hresolve], hnames, hsettled⟩
      | inr hin => exact .inl hin
    | inr hbefore =>
      obtain ⟨names', hdomain', hresolve', hnames', hsettled'⟩ := hbefore
      exact .inr ⟨names', hdomain', hresolve', hnames', hsettled'.keep own hnames' hnames halong⟩

/-- After any calls that succeeded, each of them changes nothing. -/
theorem scaffolding_idempotent (packages : Packages grammar) (loads : String → Option Toml) (start final : Tree)
    (own : OwnFiles packages loads start) (history : List Call) (h : runAll parse printable loads history start = (.ok (), final))
    (call : Call) (hcall : call ∈ history) : (call.run parse printable loads final).2 = final := by
  obtain ⟨names, hdomain, hresolve, hnames, hsettled⟩ := runAll_settled packages own h (.inl hcall)
  rw [Call.run, ← hdomain]
  rw [← hdomain] at hresolve
  exact hsettled.idle hresolve hnames

end Runs

/-! The parser by lines is such a parser. -/

section Sample
open Ast (lineParser readLine IsPiece)

theorem wordChars_of_word {s : List Char} (h : ∀ c ∈ s, (c.isAlphanum || c = '_') = true) : s.all Ast.isWordChar = true := by
  refine List.all_eq_true.mpr (fun c hc => ?_)
  rw [Ast.isWordChar, h c hc, Bool.true_or]

theorem wordChars_of_identifier {s : List Char} (h : s.all isIdentifierChar = true) : s.all Ast.isWordChar = true :=
  wordChars_of_word (fun c hc => word_of_identifierChar (List.all_eq_true.mp h c hc))

theorem plain_from {m : String} (hm : IsPiece m) : Lines.Plain ("from " ++ m).toList := by
  rw [String.toList_append]
  exact Lines.Plain.append (Ast.plain_of_ascii (by decide)) (Ast.plain_of_piece hm)

/-- A newline where an import is not finished. -/
theorem body_unfinished {m : String} (hm : IsPiece m) (more : String) :
    Ast.body (lineParser readLine) ("from " ++ m ++ "\n" ++ more) = none := by
  have hline := Lines.mem_splitlines_unlines (plain_from hm) [] []
  rw [List.nil_append, Lines.unlines, String.intercalate_singleton] at hline
  refine Ast.body_of_mem ?_ (Ast.readLine_unfinished hm)
  rw [Lines.splitlines_append]
  exact List.mem_append_left _ hline

theorem rejects_lines : Rejects lineGrammar where
  module := by
    intro lines stmts module names rest hlines hwritten hbad
    simp only [isWritten, Bool.and_eq_true, decide_eq_true_eq] at hwritten
    have hchars : ∀ c ∈ module.toList, c ≠ '\n' → (c.isAlphanum || c = '_') = true := by
      intro c hc hne
      have hwritten := List.all_eq_true.mp hwritten.2 c hc
      simpa [hne] using hwritten
    have hline : '\n' ∈ module.toList := by
      by_contra hnot
      have hword : module.toList.all Ast.isWordChar = true :=
        wordChars_of_word (fun c hc => hchars c hc (fun heq => hnot (heq ▸ hc)))
      have hhead : module.toList.head? ≠ some '.' := by
        intro hdot
        have hdot := hchars '.' (List.mem_of_head? hdot) (by decide)
        exact absurd hdot (by decide)
      have hdotted : Ast.isModule module = true := by
        simp only [Ast.isModule, Bool.and_eq_true, decide_eq_true_eq]
        exact ⟨⟨hwritten.1, hword⟩, hhead⟩
      exact hbad.elim (fun hnotDotted => hnotDotted hdotted) hnot
    obtain ⟨a, b, hmodule, ha⟩ := List.eq_append_cons_of_mem hline
    have hpiece : IsPiece ("." ++ String.ofList a) := by
      refine .inl ⟨by simp, ?_⟩
      have hword : a.all Ast.isWordChar = true :=
        wordChars_of_word (fun c hc => hchars c (by rw [hmodule]; exact List.mem_append_left _ hc) (fun heq => ha (heq ▸ hc)))
      have hfront : (String.ofList a).toList = a := String.toList_ofList
      rw [String.toList_append, hfront, List.all_append, hword]
      rfl
    have hsplit : Lines.unlines (lines ++ Scaffold.fromLine module names :: rest) = Lines.unlines (lines ++ ("from " ++ ("." ++ String.ofList a)) ::
        (String.ofList b ++ " import " ++ ", ".intercalate names) :: rest) := by
      rw [← String.toList_inj, Lines.toList_unlines (by simp), Lines.toList_unlines (by simp)]
      simp [Scaffold.fromLine, hmodule]
    rw [hsplit]
    exact Ast.body_unread (plain_from hpiece) (Ast.readLine_unfinished hpiece) _ _
  names := by
    intro lines stmts module names rest hlines hm hne hnames hnot
    rw [not_and_or, not_or] at hnot
    replace hnot := hnot.resolve_left (not_not_intro hm)
    have hpieces : ∀ name ∈ names, IsPiece name := by
      intro name hin
      obtain hname | rfl | hword := hnames name hin
      · exact Ast.isPiece_of_isName hname
      · exact .inr rfl
      · simp only [isWord, Bool.and_eq_true, decide_eq_true_eq] at hword
        refine .inl ⟨hword.1, List.all_eq_true.mpr (fun c hc => ?_)⟩
        rw [Ast.isWordChar, List.all_eq_true.mp hword.2 c hc, Bool.true_or]
    obtain ⟨other, hother, hnone⟩ : ∃ other ∈ names, Ast.isName other = false := by
      by_contra hall
      simp only [not_exists, not_and, Bool.not_eq_false] at hall
      exact hnot.2 hall
    apply Ast.body_unread (plain_fromLine hm hpieces)
    cases names with
    | nil => exact absurd rfl hne
    | cons name more =>
      rw [Scaffold.fromLine, Ast.readLine_from hm hpieces, Ast.starOrNames_none hpieces hother hnone hnot.1, Option.map_none]

theorem ends_lines : Ends (lineParser readLine) := by
  intro text A _ h
  rw [Ast.body_lineParser] at h ⊢
  cases Lines.splitlines_newline text with
  | inl hsame => rwa [hsame] at h
  | inr hmore =>
    have hblank : Ast.stmtsOf readLine [""] = some [] := by
      rw [Ast.stmtsOf, String.toList_empty]
      rfl
    rw [hmore, Ast.stmtsOf_append, hblank] at h
    simpa using h

theorem imported_lines {domain snake rest : String} (hdomain : matchesIdentifier domain = true) (hsnake : matchesIdentifier snake = true)
    (h : Ast.body (lineParser readLine) ("from " ++ domain ++ ".repositories." ++ snake ++ rest) ≠ none) :
    '\n' ∉ domain.toList ∧ '\n' ∉ snake.toList := by
  have hdomainLine : '\n' ∉ domain.toList := by
    intro hline
    obtain ⟨front, hfront, hne, hchars⟩ := newline_last hdomain hline
    have hpiece : IsPiece (String.ofList front) :=
      .inl ⟨by simpa using hne, by rw [String.toList_ofList]; exact wordChars_of_identifier hchars⟩
    have hsplit : "from " ++ domain ++ ".repositories." ++ snake ++ rest =
        "from " ++ String.ofList front ++ "\n" ++ (".repositories." ++ snake ++ rest) := by
      rw [← String.toList_inj]
      simp [String.toList_append, hfront]
    rw [hsplit] at h
    exact h (body_unfinished hpiece _)
  refine ⟨hdomainLine, fun hline => ?_⟩
  obtain ⟨front, hfront, -, hchars⟩ := newline_last hsnake hline
  have hpiece : IsPiece (domain ++ ".repositories." ++ String.ofList front) := by
    have hlast : (String.ofList front).toList = front := String.toList_ofList
    refine .inl ⟨by simp, ?_⟩
    rw [String.toList_append, String.toList_append, hlast, List.all_append, List.all_append, wordChars_of_identifier hchars,
      wordChars_of_identifier (identifier_of_matches hdomain hdomainLine)]
    decide
  have hsplit : "from " ++ domain ++ ".repositories." ++ snake ++ rest =
      "from " ++ (domain ++ ".repositories." ++ String.ofList front) ++ "\n" ++ rest := by
    rw [← String.toList_inj]
    simp [String.toList_append, hfront]
  rw [hsplit] at h
  exact h (body_unfinished hpiece _)

theorem modelLine_lines {domain pascal : String} (hdomain : matchesIdentifier domain = true) (hline : '\n' ∉ domain.toList)
    (hpascal : isPascal pascal = true) : Ast.body (lineParser readLine) (modelLine domain (pascal ++ "Model")) =
      some [.importFrom 0 (some (domain ++ ".models")) [⟨pascal ++ "Model", none⟩]] := by
  have hidentifier := identifier_of_matches hdomain hline
  have hword := (isPascal_cases hpascal).2
  have hmodule : Ast.isModule (domain ++ ".models") = true := by
    obtain ⟨c, rest, hchars, hc, -⟩ := matches_cases hdomain
    have hall : (domain ++ ".models").toList.all Ast.isWordChar = true := by
      rw [String.toList_append, List.all_append, wordChars_of_identifier hidentifier]
      rfl
    have hhead : (domain ++ ".models").toList.head? ≠ some '.' := by
      rw [String.toList_append, hchars, List.cons_append, List.head?_cons]
      intro hdot
      rw [Option.some.inj hdot] at hc
      exact absurd hc (by decide)
    simp only [Ast.isModule, Bool.and_eq_true, decide_eq_true_eq]
    exact ⟨⟨by simp, hall⟩, hhead⟩
  have hname : Ast.isName (pascal ++ "Model") = true := by
    have hdot : '.' ∉ (pascal ++ "Model").toList := by
      have hnot : '.' ∉ pascal.toList := fun hin => absurd (List.all_eq_true.mp hword _ hin) (by decide)
      simp [String.toList_append, hnot]
    have hall : (pascal ++ "Model").toList.all Ast.isWordChar = true := by
      rw [String.toList_append, List.all_append, wordChars_of_word (fun c hc => List.all_eq_true.mp hword c hc)]
      rfl
    have hlast : (pascal ++ "Model").toList.getLast? = some 'l' := by
      rw [String.toList_append]
      simp
    have hkeyword : pascal ++ "Model" ∉ ["", "from", "import", "class", "as"] := by
      intro hin
      have hends : ["", "from", "import", "class", "as"].all (fun s => s.toList.getLast? ≠ some 'l') = true := by decide
      exact absurd hlast (of_decide_eq_true (List.all_eq_true.mp hends _ hin))
    simp only [Ast.isName, Bool.and_eq_true, Bool.not_eq_true', List.contains_eq_mem, decide_eq_false_iff_not]
    exact ⟨⟨hdot, hall⟩, hkeyword⟩
  have hfrom : IsPiece "from" ∧ IsPiece "import" := ⟨.inl (by decide), .inl (by decide)⟩
  have hchars : (modelLine domain (pascal ++ "Model")).toList = "from ".toList ++ ((domain ++ ".models").toList ++
      (' ' :: ("import".toList ++ (' ' :: ((pascal ++ "Model").toList ++ "  # noqa: F401".toList))))) := by
    simp [modelLine, String.toList_append]
  have htokens : Ast.tokens [] (modelLine domain (pascal ++ "Model")).toList =
      ["from", domain ++ ".models", "import", pascal ++ "Model"] := by
    have hspace : "from ".toList = "from".toList ++ [' '] := rfl
    rw [hchars, hspace, List.append_assoc, List.singleton_append, Ast.tokens_piece hfrom.1 _ rfl, Ast.tokens_space,
      Ast.tokens_piece (Ast.isPiece_of_isModule hmodule) _ rfl, Ast.tokens_space, Ast.tokens_piece hfrom.2 _ rfl, Ast.tokens_space,
      Ast.tokens_piece (Ast.isPiece_of_isName hname) _ rfl]
    rfl
  have hplain : Lines.Plain (modelLine domain (pascal ++ "Model")).toList := by
    have htext : ∀ s : String, s.toList.all Repr.isAscii = true → Lines.Plain s.toList := fun s h => Ast.plain_of_ascii h
    rw [hchars]
    refine (htext "from " (by decide)).append ((Ast.plain_of_piece (Ast.isPiece_of_isModule hmodule)).append ?_)
    have hrest := (Ast.plain_of_piece (Ast.isPiece_of_isName hname)).append (htext "  # noqa: F401" (by decide))
    exact (htext " import " (by decide)).append hrest
  have hnames := Ast.starOrNames_of_names (List.forall_mem_singleton.mpr hname)
  rw [Ast.body_line hplain (by simp [modelLine]), readLine, htokens, hchars, Ast.readAll_from]
  simp only [Ast.readTokens, Ast.readModule_plain hmodule, Option.bind_some]
  rw [Ast.commaTokens] at hnames
  rw [hnames]
  rfl

/-! A project with the lists of the repository, and a parser that reads them. -/

open Pyproject (Target strings getOr dig elements anyEntities pyprojectLists targets)

/-- The document with these lists. -/
def documentOf (values : Target → List String) : Toml :=
  .table [("tool", .table
    [("setuptools", .table [("packages", .table [("find", .table [("include", strings (values .include_))])])]),
      ("ruff", .table [("lint", .table [("isort", .table [("known-first-party", strings (values .isortKnownFirstParty))])])]),
      ("coverage", .table [("run", .table [("source", strings (values .source))])]),
      ("deptry", .table [("known_first_party", strings (values .deptryKnownFirstParty))]),
      ("importlinter", .table
        [("root_packages", strings (values .rootPackages)),
          ("contracts", .arr
            [.table [("type", .str "layers"), ("containers", strings (values .containers))],
              .table [("type", .str "forbidden"), ("source_modules", strings (values .sourceModules))]])])])]

theorem anyEntities_strings {values : List String} {value : String} (hin : value ∈ values) (h : ".entities".toList <:+ value.toList) :
    anyEntities (values.map .str) = some true := by
  induction values with
  | nil => cases hin
  | cons first rest ih =>
    rw [List.map_cons, anyEntities]
    split
    · rfl
    · next hnot =>
      cases List.mem_cons.mp hin with
      | inl heq => exact absurd (heq ▸ h) hnot
      | inr hin => exact ih hin

theorem dig_strings (values : List String) : dig (strings values) [] = some (strings values) := by
  cases values with
  | nil => rfl
  | cons first rest => rfl

theorem lists_documentOf {values : Target → List String} {value : String} (hin : value ∈ values .sourceModules)
    (h : ".entities".toList <:+ value.toList) : pyprojectLists (documentOf values) = some (targets.map (fun t => strings (values t))) := by
  have hany : Pyproject.hasEntities (.table [("type", .str "forbidden"), ("source_modules", strings (values .sourceModules))]) = some true := by
    have hget : getOr (.table [("type", .str "forbidden"), ("source_modules", strings (values .sourceModules))]) "source_modules" (.arr []) =
      some (strings (values .sourceModules)) := rfl
    rw [Pyproject.hasEntities, hget]
    exact anyEntities_strings hin h
  have hvalues : ∀ t, dig (strings (values t)) [] = some (strings (values t)) := fun t => dig_strings (values t)
  obtain ⟨tool, htool, hcontracts, hinclude, hisort, hsource, hdeptry, hroot⟩ : ∃ tool, getOr (documentOf values) "tool" (.table []) = some tool ∧
      dig tool ["importlinter", "contracts"] = some (.arr
        [.table [("type", .str "layers"), ("containers", strings (values .containers))],
          .table [("type", .str "forbidden"), ("source_modules", strings (values .sourceModules))]]) ∧
      dig tool ["setuptools", "packages", "find", "include"] = dig (strings (values .include_)) [] ∧
      dig tool ["ruff", "lint", "isort", "known-first-party"] = dig (strings (values .isortKnownFirstParty)) [] ∧
      dig tool ["coverage", "run", "source"] = dig (strings (values .source)) [] ∧
      dig tool ["deptry", "known_first_party"] = dig (strings (values .deptryKnownFirstParty)) [] ∧
      dig tool ["importlinter", "root_packages"] = dig (strings (values .rootPackages)) [] :=
    ⟨_, rfl, rfl, rfl, rfl, rfl, rfl, rfl⟩
  rw [hvalues] at hinclude hisort hsource hdeptry hroot
  have helements : ∀ items : List Toml, elements (.arr items) = some items := fun _ => rfl
  have hlayers : ∀ c, Pyproject.nextWhere Pyproject.isLayers [.table [("type", .str "layers"), ("containers", strings (values .containers))], c] =
      some (.table [("type", .str "layers"), ("containers", strings (values .containers))]) := fun _ => rfl
  have hentities : Pyproject.nextWhere Pyproject.hasEntities [.table [("type", .str "layers"), ("containers", strings (values .containers))],
      .table [("type", .str "forbidden"), ("source_modules", strings (values .sourceModules))]] =
        some (.table [("type", .str "forbidden"), ("source_modules", strings (values .sourceModules))]) := by
    have hnot : Pyproject.hasEntities (.table [("type", .str "layers"), ("containers", strings (values .containers))]) = some false := rfl
    rw [Pyproject.nextWhere, hnot, Option.bind_some, if_neg Bool.false_ne_true, Pyproject.nextWhere, hany, Option.bind_some, if_pos rfl]
  unfold pyprojectLists
  rw [htool, Option.bind_eq_bind, Option.bind_eq_bind, Option.bind_some, hcontracts, Option.bind_some, helements, Option.bind_some, hlayers, Option.bind_some, hentities,
    Option.bind_some, hinclude, Option.bind_some, hisort, Option.bind_some, hsource, Option.bind_some, hdeptry, Option.bind_some,
    hroot, Option.bind_some]
  rfl

/-- What is in the lines of a text. -/
def loadsLists (text : String) : Option Toml := some (documentOf (Pyproject.valuesOf (Pyproject.splitNewlines text)))

theorem isIn_strings {values : List String} {value : String} (hin : value ∈ values) : Pyproject.isIn value (strings values) = some true := by
  rw [strings, Pyproject.isIn, Option.some.injEq, List.any_eq_true]
  exact ⟨.str value, List.mem_map_of_mem hin, by simp [Pyproject.isStr]⟩

theorem mem_zip_map {α β : Type} {f : α → β} {xs : List α} {entry : α × β} (h : entry ∈ xs.zip (xs.map f)) : entry.2 = f entry.1 := by
  induction xs with
  | nil => cases h
  | cons x rest ih =>
    rw [List.map_cons, List.zip_cons_cons] at h
    cases List.mem_cons.mp h with
    | inl heq => rw [heq]
    | inr hin => exact ih hin

/-- Where every list has its line, and the modules of a domain theirs. -/
theorem listsRead_loadsLists {content : String} (hfound : ∀ t, Pyproject.Found (Pyproject.splitNewlines content) t)
    (huser : Pyproject.editOf "user" (Pyproject.splitNewlines content) .sourceModules = none) :
    Pyproject.ListsRead loadsLists content where
  found := hfound
  read := by
    intro domains hdomains
    induction domains generalizing content with
    | nil =>
      have huser := Pyproject.mem_valuesOf (hfound .sourceModules) huser
      refine ⟨_, _, rfl, lists_documentOf huser (by decide), ?_⟩
      intro entry hentry value hvalue
      rw [mem_zip_map hentry]
      exact isIn_strings hvalue
    | cons domain rest ih =>
      have hdomain := hdomains domain List.mem_cons_self
      rw [List.foldl_cons]
      apply ih
      · intro t
        rw [Pyproject.splitNewlines_edit hdomain]
        exact Pyproject.found_editLines hdomain (hfound t)
      · rw [Pyproject.splitNewlines_edit hdomain]
        exact Pyproject.editOf_editLines_keep hdomain huser
      · exact fun d hin => hdomains d (List.mem_cons_of_mem _ hin)

def linePackages : Packages lineGrammar where
  lawful := Ast.lineParser_lawful rfl
  rejects := rejects_lines
  ends := ends_lines
  Package domain := '\n' ∉ domain.toList
  line h := h
  imported := imported_lines
  modelLine := modelLine_lines

/-- The lists of the repository's own file, with one of its domains. -/
def ownLines : List String :=
  ["[tool.setuptools.packages.find]", "include = [\"user*\"]", "[tool.ruff.lint.isort]", "known-first-party = [\"user\"]",
    "[tool.coverage.run]", "source = [\"user\"]", "[tool.deptry]", "known_first_party = [\"user\"]", "[tool.importlinter]",
    "root_packages = [\"user\"]", "[[tool.importlinter.contracts]]", "type = \"layers\"", "containers = [\"user\"]",
    "[[tool.importlinter.contracts]]", "type = \"forbidden\"", "source_modules = [\"user.entities\"]", ""]

def ownPyproject : String := Pyproject.joinNewlines ownLines

def ownManifest : String := "from user.models import UserModel  # noqa: F401\n"

def ownVersions : String := "from user.routes import user_router\nv1_router = APIRouter()\n"

def ownTree : Tree where
  node q :=
    if q = [] ∨ q = ["core"] then some .dir
    else if q = modelsManifest then some (.file ownManifest)
    else if q = apiVersionsFile then some (.file ownVersions)
    else if q = pyprojectFile then some (.file ownPyproject)
    else none
  root := rfl
  parent := by
    intro q hq
    by_cases hdir : q = [] ∨ q = ["core"]
    · obtain rfl | rfl := hdir
      · rfl
      · rfl
    · rw [if_neg hdir] at hq
      by_cases hmanifest : q = modelsManifest
      · rw [hmanifest]
        rfl
      · rw [if_neg hmanifest] at hq
        by_cases hversions : q = apiVersionsFile
        · rw [hversions]
          rfl
        · rw [if_neg hversions] at hq
          by_cases hpyproject : q = pyprojectFile
          · rw [hpyproject]
            rfl
          · rw [if_neg hpyproject] at hq
            exact absurd rfl hq

theorem splitNewlines_ownPyproject : Pyproject.splitNewlines ownPyproject = ownLines := by
  have hall : ownLines.all (fun l => decide ('\n' ∉ l.toList)) = true := by decide +kernel
  exact Pyproject.splitNewlines_joinNewlines (List.cons_ne_nil _ _) (fun l hl => of_decide_eq_true (List.all_eq_true.mp hall l hl))

theorem listsRead_own : Pyproject.ListsRead loadsLists ownPyproject := by
  refine listsRead_loadsLists ?_ (by rw [splitNewlines_ownPyproject]; decide +kernel)
  have hall : targets.all (fun t => (ownLines.findIdx? (Pyproject.eligible t.key t.mustContain)).isSome) = true := by decide +kernel
  intro t hnone
  have hfound := List.all_eq_true.mp hall t (by cases t <;> decide)
  rw [splitNewlines_ownPyproject] at hnone
  rw [hnone] at hfound
  cases hfound

theorem ownFiles_ownTree : OwnFiles linePackages loadsLists ownTree where
  manifest := ⟨ownManifest, rfl, by decide +kernel⟩
  versions := ⟨ownVersions, rfl, trivial⟩
  pyproject := ⟨ownPyproject, rfl, listsRead_own⟩
  dependencies := by
    intro domain n hnode
    have hnone : ownTree.node [domain, "dependencies.py"] = none := by
      simp [ownTree, modelsManifest, apiVersionsFile, pyprojectFile]
    rw [hnone] at hnode
    cases hnode

theorem eq_of_ok {α : Type} {t : Tree} {x : Scaffolding α} {a : α} (h : (x t).1 = .ok a) : x t = (.ok a, (x t).2) := Prod.ext h rfl

theorem exists_of_isOk {α : Type} {t : Tree} {x : Scaffolding α} (h : (x t).1.isOk = true) : ∃ a, x t = (.ok a, (x t).2) := by
  cases hx : (x t).1 with
  | error e =>
    rw [hx] at h
    cases h
  | ok a => exact ⟨a, eq_of_ok hx⟩

/-- With the packages of a new domain. -/
def touchedTree : Tree := (touchDependencies ["shop", "dependencies.py"] (touchInits "shop" domainLayers ownTree).2).2

/-- With the domain in the lists, too. -/
def editedTree : Tree := (writeText pyprojectFile (Pyproject.edit "shop" ownPyproject) touchedTree).2

theorem registerPyproject_written {loads : String → Option Toml} {t t' : Tree} {domain text written : String}
    (hnode : t.node pyprojectFile = some (.file text))
    (hregister : Pyproject.registerPyproject loads domain (some text) = some (some written))
    (hwrite : writeText pyprojectFile written t = (.ok (), t')) : registerPyproject loads domain t = (.ok [pyprojectFile], t') := by
  unfold registerPyproject
  rw [Run.bind_ok (readIfExists_file hnode)]
  simp only [hregister]
  rw [Run.bind_ok hwrite, Run.pure_apply]

theorem generateDomain_made {loads : String → Option Toml} {t t₁ t₂ t₃ : Tree} {domain : String} {paths : List Path}
    (hvalidate : validateDomain domain = .ok ()) (hinits : touchInits domain domainLayers t = (.ok (), t₁))
    (hdependencies : touchDependencies [domain, "dependencies.py"] t₁ = (.ok (), t₂))
    (hpyproject : registerPyproject loads domain t₂ = (.ok paths, t₃)) :
    generateDomain loads domain t = (.ok ([domain, "dependencies.py"] :: paths), t₃) := by
  unfold generateDomain
  rw [Run.bind_ok (orRaise_ok hvalidate), Run.bind_ok hinits, Run.bind_ok hdependencies, Run.bind_ok hpyproject, Run.pure_apply]

theorem generateAll_made {parse : Ast.Parser} {printable : Char → Bool} {loads : String → Option Toml} {t t' : Tree}
    {domain name fields snake pascal : String} {paths : List Path} (hresolve : resolveNames domain name = .ok (snake, pascal))
    (hdomain : generateDomain loads domain t = (.ok paths, t'))
    (hrest : (((do
      let layers ← generateAllLayers domain name fields (layerGenerators parse printable)
      let dependencies ← generateDependencies parse domain name
      let model ← registerModel parse domain (pascal ++ "Model")
      let router ← registerRouter domain (snake ++ "_router")
      return paths ++ layers ++ dependencies ++ model ++ router) : Scaffolding (List Path)) t').1.isOk = true) :
    ∃ paths final, generateAll parse printable loads domain name fields t = (.ok paths, final) := by
  unfold generateAll
  rw [Run.bind_ok (orRaise_ok hresolve)]
  simp only
  rw [Run.bind_ok hdomain]
  obtain ⟨all, hall⟩ := exists_of_isOk hrest
  exact ⟨_, _, hall⟩

theorem runAll_one {parse : Ast.Parser} {printable : Char → Bool} {loads : String → Option Toml} {t t' : Tree} (call : Call)
    {paths : List Path} (h : generateAll parse printable loads call.domain call.name call.fields t = (.ok paths, t')) :
    runAll parse printable loads [call] t = (.ok (), t') := by
  have hcall : call.run parse printable loads t = (.ok paths, t') := h
  rw [runAll, Run.bind_ok hcall, runAll, Run.pure_apply]

theorem generateDomain_own : generateDomain loadsLists "shop" ownTree = (.ok [["shop", "dependencies.py"], pyprojectFile], editedTree) := by
  have hvalidate : validateDomain "shop" = .ok () := by decide +kernel
  have hinits : touchInits "shop" domainLayers ownTree = (.ok (), (touchInits "shop" domainLayers ownTree).2) :=
    eq_of_ok (by decide +kernel)
  have hdependencies : touchDependencies ["shop", "dependencies.py"] (touchInits "shop" domainLayers ownTree).2 = (.ok (), touchedTree) := by
    rw [touchedTree]
    exact eq_of_ok (by decide +kernel)
  have hnode : touchedTree.node pyprojectFile = some (.file ownPyproject) := by
    have hown : ownTree.node pyprojectFile = some (.file ownPyproject) := rfl
    have hinit := (touchInits_ok hinits).1 pyprojectFile (by simp [hown])
    rw [(touchDependencies_ok hdependencies).1 pyprojectFile (by simp [hinit, hown]), hinit, hown]
  have hshop : ("shop" : String).toList.all isIdentifierChar = true := by decide +kernel
  have hedited : Pyproject.edit "shop" ownPyproject ≠ ownPyproject := by
    intro hsame
    have hnothing := Pyproject.editOf_editLines hshop (Pyproject.splitNewlines ownPyproject) .include_
    rw [← Pyproject.splitNewlines_edit hshop, hsame, splitNewlines_ownPyproject] at hnothing
    exact absurd hnothing (by decide +kernel)
  have hregister : Pyproject.registerPyproject loadsLists "shop" (some ownPyproject) = some (some (Pyproject.edit "shop" ownPyproject)) := by
    rw [Pyproject.registerPyproject_of_read listsRead_own hshop, if_neg hedited]
  have hwrite : writeText pyprojectFile (Pyproject.edit "shop" ownPyproject) touchedTree = (.ok (), editedTree) := by
    rw [editedTree]
    exact eq_of_ok (by decide +kernel)
  exact generateDomain_made hvalidate hinits hdependencies (registerPyproject_written hnode hregister hwrite)

theorem generateAll_own : ∃ paths final,
    generateAll (lineParser readLine) (fun _ => false) loadsLists "shop" "item" "title:str" ownTree = (.ok paths, final) := by
  have hresolve : resolveNames "shop" "item" = .ok ("item", "Item") := by decide +kernel
  exact generateAll_made hresolve generateDomain_own (by decide +kernel)

/-- An entity in a new domain, and then once more. -/
theorem scaffolding_idempotent_item : ∃ final,
    runAll (lineParser readLine) (fun _ => false) loadsLists [⟨"shop", "item", "title:str"⟩] ownTree = (.ok (), final) ∧
      (Call.run (lineParser readLine) (fun _ => false) loadsLists ⟨"shop", "item", "title:str"⟩ final).2 = final := by
  obtain ⟨paths, final, hcall⟩ := generateAll_own
  have hrun := runAll_one ⟨"shop", "item", "title:str"⟩ hcall
  exact ⟨final, hrun, scaffolding_idempotent linePackages loadsLists ownTree final ownFiles_ownTree _ hrun _ List.mem_cons_self⟩

end Sample

end FastiKit.Scaffold.CreateAll
