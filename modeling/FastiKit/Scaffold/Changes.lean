import FastiKit.Scaffold.LegalNames
import FastiKit.Scaffold.Rejected
import FastiKit.Scaffold.Settled

/- What a call that succeeds does to the files, path by path (`Change`, and for all of
   `generate_all` `generateAll_along`), and what each of its generators and editors leaves
   where it works. -/
namespace FastiKit.Scaffold.CreateAll
open Files (Path Node Tree Run)

/-- A capital and what can follow it in a word. -/
def isPascal (s : String) : Bool :=
  match s.toList with
  | [] => false
  | c :: rest => c.isUpper && rest.all (fun c => c.isAlphanum || c = '_')

/-! The forms of a name. -/

section Names
variable {s snake domain name : String}

theorem chars_of_matches (h : matchesIdentifier s = true) : ∀ c ∈ s.toList, isIdentifierChar c = true ∨ c = '\n' := by
  obtain ⟨c, rest, hs, hc, hrest⟩ := matches_cases h
  have hfirst : isIdentifierChar c = true := by simp [isIdentifierChar, hc]
  intro d hd
  rw [hs] at hd
  cases List.mem_cons.mp hd with
  | inl heq => exact .inl (heq ▸ hfirst)
  | inr hin =>
    obtain hall | ⟨init, rfl, hall⟩ := hrest
    · exact .inl (List.all_eq_true.mp hall d hin)
    · cases List.mem_append.mp hin with
      | inl hin => exact .inl (List.all_eq_true.mp hall d hin)
      | inr hin => exact .inr (List.mem_singleton.mp hin)

/-- A newline is the last character, after an identifier. -/
theorem newline_last (h : matchesIdentifier s = true) (hline : '\n' ∈ s.toList) :
    ∃ front, s.toList = front ++ ['\n'] ∧ front ≠ [] ∧ front.all isIdentifierChar = true := by
  obtain ⟨c, rest, hs, hc, hrest⟩ := matches_cases h
  have hfirst : isIdentifierChar c = true := by simp [isIdentifierChar, hc]
  obtain hall | ⟨init, rfl, hinit⟩ := hrest
  · exfalso
    rw [hs] at hline
    cases List.mem_cons.mp hline with
    | inl heq =>
      rw [← heq] at hc
      exact absurd hc (by decide)
    | inr hin => exact absurd (List.all_eq_true.mp hall _ hin) (by decide)
  · refine ⟨c :: init, hs, List.cons_ne_nil _ _, ?_⟩
    rw [List.all_cons, hfirst, hinit]
    rfl

theorem identifier_of_matches (h : matchesIdentifier s = true) (hline : '\n' ∉ s.toList) : s.toList.all isIdentifierChar = true := by
  refine List.all_eq_true.mpr (fun c hc => ?_)
  refine (chars_of_matches h c hc).resolve_right ?_
  intro heq
  exact hline (heq ▸ hc)

theorem word_of_identifierChar {c : Char} (h : isIdentifierChar c = true) : (c.isAlphanum || c = '_') = true := by
  simp only [isIdentifierChar, Bool.or_eq_true] at h
  simp only [Char.isAlphanum, Char.isAlpha, Bool.or_eq_true]
  tauto

theorem isWritten_append (h : matchesIdentifier s = true) {suffix : String}
    (hsuffix : suffix.toList.all (fun c => c.isAlphanum || c = '_' || c = '\n') = true) : isWritten (s ++ suffix) = true := by
  obtain ⟨c, rest, hs, -, -⟩ := matches_cases h
  have hne : s ++ suffix ≠ "" := by
    rw [← String.toList_inj.ne, String.toList_append, hs]
    exact List.cons_ne_nil _ _
  simp only [isWritten, Bool.and_eq_true, decide_eq_true_eq]
  refine ⟨hne, ?_⟩
  rw [String.toList_append, List.all_append, hsuffix, Bool.and_true]
  refine List.all_eq_true.mpr (fun c hc => ?_)
  obtain hword | rfl := chars_of_matches h c hc
  · rw [Bool.or_eq_true]
    exact .inl (word_of_identifierChar hword)
  · rfl

theorem isUpper_toUpper {c : Char} (h : c.isLower = true) : c.toUpper.isUpper = true := by
  have hall : letters.all (fun c => c.toUpper.isUpper) = true := by decide +kernel
  exact List.all_eq_true.mp hall c (mem_letters h)

theorem isPascal_of_matches (h : matchesIdentifier snake = true) (hline : '\n' ∉ snake.toList) :
    isPascal (String.ofList (pascal true snake.toList)) = true := by
  have hend : snake.toList.getLast? ≠ some '\n' := fun hlast => hline (List.mem_of_getLast? hlast)
  obtain ⟨c, rest, hs, hc, hrest⟩ := matches_plain h hend
  have hcont : (pascal false rest).all (continuesIdentifier asciiOnly) = true := continues_pascal false hrest
  simp only [isPascal, String.toList_ofList, hs, pascal_of_matches hc, Bool.and_eq_true]
  refine ⟨isUpper_toUpper hc, List.all_eq_true.mpr (fun d hd => ?_)⟩
  have hd := List.all_eq_true.mp hcont d hd
  unfold continuesIdentifier at hd
  split at hd
  · exact hd
  · cases hd

theorem isPascal_cases {p : String} (h : isPascal p = true) : p ≠ "" ∧ p.toList.all (fun c => c.isAlphanum || c = '_') = true := by
  unfold isPascal at h
  split at h
  · cases h
  · next c rest hp =>
    rw [Bool.and_eq_true] at h
    refine ⟨?_, ?_⟩
    · intro hempty
      rw [hempty] at hp
      cases hp
    · rw [hp, List.all_cons, h.2, Bool.and_true]
      simp [Char.isAlphanum, Char.isAlpha, h.1]

theorem isWord_around {s : String} (before after : String) (hne : s ≠ "") (hs : s.toList.all (fun c => c.isAlphanum || c = '_') = true)
    (hbefore : before.toList.all (fun c => c.isAlphanum || c = '_') = true)
    (hafter : after.toList.all (fun c => c.isAlphanum || c = '_') = true) : isWord (before ++ s ++ after) = true := by
  have hchars : before ++ s ++ after ≠ "" := by
    intro hempty
    apply hne
    rw [String.append_eq_empty_iff, String.append_eq_empty_iff] at hempty
    exact hempty.1.2
  simp only [isWord, Bool.and_eq_true, decide_eq_true_eq]
  refine ⟨hchars, ?_⟩
  rw [String.toList_append, String.toList_append, List.all_append, List.all_append, hbefore, hs, hafter]
  rfl

end Names

/-- What a call makes of its arguments, if it accepts them. -/
structure Names where
  domain : String
  snake : String
  pascal : String
  domain_ : matchesIdentifier domain = true
  snake_ : matchesIdentifier snake = true
  pascal_ : pascal = String.ofList (Scaffold.pascal true snake.toList)

theorem exists_names {domain name snake pascal : String} (h : resolveNames domain name = .ok (snake, pascal)) :
    ∃ names : Names, names.domain = domain ∧ names.snake = snake ∧ names.pascal = pascal := by
  obtain ⟨hdomain, -, hsnake, rfl, rfl⟩ := resolveNames_ok h
  exact ⟨⟨domain, toSnakeCase name, toPascalCase name, hdomain, hsnake, toPascalCase_eq name⟩, rfl, rfl, rfl⟩

/-! The layers. -/

section Layers
variable {parse : Ast.Parser} {printable : Char → Bool} {layer : Layer}

def layers : List Layer := [entityLayer, modelLayer, repositoryLayer, schemaLayer, serviceLayer, routeLayer]

theorem layerGenerators_eq : layerGenerators parse printable = layers.map (generateLayer parse printable) := rfl

theorem forall_layers {P : Layer → Prop} (hentity : P entityLayer) (hmodel : P modelLayer) (hrepository : P repositoryLayer)
    (hschema : P schemaLayer) (hservice : P serviceLayer) (hroute : P routeLayer) : ∀ layer ∈ layers, P layer := by
  intro layer hin
  simp only [layers, List.mem_cons, List.not_mem_nil, or_false] at hin
  obtain rfl | rfl | rfl | rfl | rfl | rfl := hin
  · exact hentity
  · exact hmodel
  · exact hrepository
  · exact hschema
  · exact hservice
  · exact hroute

theorem dir_of_layers : ∀ layer ∈ layers, layer.dir ∈ domainLayers :=
  forall_layers (by decide) (by decide) (by decide) (by decide) (by decide) (by decide)

/-- Every layer exports words. -/
theorem given_of_layers (names : Names) :
    ∀ layer ∈ layers, Given (layer.module names.snake) (layer.symbols names.snake names.pascal) := by
  have hpascal : '\n' ∉ names.snake.toList → isPascal names.pascal = true := by
    intro hline
    rw [names.pascal_]
    exact isPascal_of_matches names.snake_ hline
  have hword : ∀ before after : String, before.toList.all (fun c => c.isAlphanum || c = '_') = true →
      after.toList.all (fun c => c.isAlphanum || c = '_') = true → '\n' ∉ names.snake.toList →
        isWord (before ++ names.pascal ++ after) = true := by
    intro before after hbefore hafter hline
    obtain ⟨hne, hchars⟩ := isPascal_cases (hpascal hline)
    exact isWord_around before after hne hchars hbefore hafter
  have hsuffix : ∀ suffix : String, '\n' ∉ (names.snake ++ suffix).toList → '\n' ∉ names.snake.toList := by
    intro suffix hline hin
    rw [String.toList_append] at hline
    exact hline (List.mem_append_left _ hin)
  have hwritten : ∀ suffix : String, suffix.toList.all (fun c => c.isAlphanum || c = '_' || c = '\n') = true →
      isWritten (names.snake ++ suffix) = true := fun suffix h => isWritten_append names.snake_ h
  apply forall_layers
  · have hentity := hwritten "" rfl
    rw [String.append_empty] at hentity
    refine ⟨hentity, List.cons_ne_nil _ _, fun hline => List.forall_mem_singleton.mpr ?_⟩
    simpa using hword "" "" rfl rfl hline
  · refine ⟨hwritten "_model" (by decide), List.cons_ne_nil _ _, fun hline => List.forall_mem_singleton.mpr ?_⟩
    simpa using hword "" "Model" rfl (by decide) (hsuffix _ hline)
  · refine ⟨hwritten "_repository" (by decide), List.cons_ne_nil _ _, fun hline => List.forall_mem_singleton.mpr ?_⟩
    simpa using hword "" "Repository" rfl (by decide) (hsuffix _ hline)
  · refine ⟨hwritten "_schema" (by decide), List.cons_ne_nil _ _, fun hline symbol hin => ?_⟩
    simp only [schemaLayer, List.mem_cons, List.not_mem_nil, or_false] at hin
    obtain rfl | rfl | rfl := hin
    · exact hword "Create" "Request" (by decide) (by decide) (hsuffix _ hline)
    · exact hword "Update" "Request" (by decide) (by decide) (hsuffix _ hline)
    · simpa using hword "" "Response" rfl (by decide) (hsuffix _ hline)
  · refine ⟨hwritten "_service" (by decide), List.cons_ne_nil _ _, fun hline => List.forall_mem_singleton.mpr ?_⟩
    simpa using hword "" "Service" rfl (by decide) (hsuffix _ hline)
  · refine ⟨hwritten "_router" (by decide), List.cons_ne_nil _ _, fun hline => List.forall_mem_singleton.mpr ?_⟩
    have hsnake := identifier_of_matches names.snake_ (hsuffix _ hline)
    have hne : names.snake ≠ "" := by
      intro hempty
      have hmatches := names.snake_
      rw [hempty] at hmatches
      exact absurd hmatches (by decide)
    have hchars : names.snake.toList.all (fun c => c.isAlphanum || c = '_') = true :=
      List.all_eq_true.mpr (fun c hc => word_of_identifierChar (List.all_eq_true.mp hsnake c hc))
    simpa using isWord_around "" "_router" hne hchars rfl (by decide)

end Layers

/-! What a call does to a file. -/

section Changes

/-- What the generators of a domain and of its layers do at the path `q`: what is there
before and after. -/
inductive Made (parse : Ast.Parser) (printable : Char → Bool) (loads : String → Option Toml) (names : Names) (q : Path)
    (old new : Option Node) : Prop where
  | created {n : Node} (hdomain : q.head? = some names.domain) (hold : old = none) (hnew : new = some n)
      (hempty : q = [names.domain, "dependencies.py"] → n = .file "")
  | init {layer : Layer} {existing : Option String} {text : String} (hlayer : layer ∈ layers)
      (hq : q = [names.domain, layer.dir, "__init__.py"]) (hold : old = existing.map Node.file) (hnew : new = some (.file text))
      (h : Scaffold.updateInit parse printable existing (layer.module names.snake) (layer.symbols names.snake names.pascal) = .ok text)
  | pyproject {text text' : String} (hq : q = pyprojectFile) (hold : old = some (.file text)) (hnew : new = some (.file text'))
      (h : Pyproject.registerPyproject loads names.domain (some text) = some (some text'))

/-- What a call does there. -/
inductive Change (parse : Ast.Parser) (printable : Char → Bool) (loads : String → Option Toml) (names : Names) (q : Path)
    (old new : Option Node) : Prop where
  | made (h : Made parse printable loads names q old new)
  | dependencies {existing : Option String} {merged : String} (hq : q = [names.domain, "dependencies.py"])
      (hold : old = existing.map Node.file)
      (hnew : new = some (.file (Lines.rstrip merged ++ "\n\n\n" ++ renderBlock names.snake names.pascal)))
      (h : MergeImports.mergeImports parse (existing.getD "") (requiredImports names.domain names.snake names.pascal) = .ok merged)
  | manifest {text : String} {stmts : List Ast.Stmt} (hq : q = modelsManifest) (hold : old = some (.file text))
      (hnew : new = some (.file (Lines.rstrip text ++ "\n" ++ modelLine names.domain (names.pascal ++ "Model") ++ "\n")))
      (h : Ast.body parse text = some stmts)
  | router {text text' : String} (hq : q = apiVersionsFile) (hold : old = some (.file text)) (hnew : new = some (.file text'))
      (h : FastiKit.registerRouter names.domain (names.snake ++ "_router") text = some text')

variable {parse : Ast.Parser} {printable : Char → Bool} {loads : String → Option Toml} {names : Names} {t t' : Tree} {path : Path}

/-- The directories of a domain are made. -/
theorem mkdir_along (hpath : path = [names.domain] ∨ ∃ dir ∈ domainLayers, path = [names.domain, dir])
    (h : mkdir path t = (.ok (), t')) : Tree.Along (Made parse printable loads names) t t' := by
  obtain ⟨hkept, hother, -⟩ := mkdir_ok h
  intro q
  by_cases hq : t.node q = none
  · cases hnew : t'.node q with
    | none => rw [hq]
    | some n =>
      rw [hq]
      have hprefix : q <+: path := by
        by_contra hnot
        rw [hother q hnot, hq] at hnew
        cases hnew
      obtain ⟨first, rest, rfl⟩ : ∃ first rest, q = first :: rest := by
        apply List.exists_cons_of_ne_nil
        intro hnil
        rw [hnil, t.root] at hq
        cases hq
      obtain ⟨after, hafter⟩ := hprefix
      refine .single (.created ?_ rfl rfl ?_)
      · obtain rfl | ⟨dir, -, rfl⟩ := hpath
        · exact congrArg some (List.cons.inj hafter).1
        · exact congrArg some (List.cons.inj hafter).1
      · intro hdependencies
        rw [hdependencies] at hafter
        obtain rfl | ⟨dir, hdir, rfl⟩ := hpath
        · exact absurd (List.cons.inj hafter).2 (List.cons_ne_nil _ _)
        · obtain rfl := (List.cons.inj (List.cons.inj hafter).2).1
          exact absurd hdir (by decide)
  · rw [hkept q hq]

theorem orRaise_inv {α : Type} {r : Except Raised α} {a : α} (h : orRaise r t = (.ok a, t')) : r = .ok a ∧ t = t' := by
  cases r with
  | error raised =>
    rw [orRaise_error rfl] at h
    cases h
  | ok b =>
    rw [orRaise_ok rfl] at h
    obtain ⟨hb, rfl⟩ := Prod.mk.inj h
    exact ⟨congrArg Except.ok (Except.ok.inj hb), rfl⟩

/-- What is read is what is there. -/
theorem readIfExists_ok {existing : Option String} (h : readIfExists path t = (.ok existing, t')) :
    t = t' ∧ t.node path = existing.map Node.file := by
  cases hnode : t.node path with
  | none =>
    rw [readIfExists_none hnode] at h
    obtain ⟨hexisting, rfl⟩ := Prod.mk.inj h
    rw [← Except.ok.inj hexisting]
    exact ⟨rfl, rfl⟩
  | some node =>
    cases node with
    | dir =>
      rw [readIfExists_dir hnode] at h
      cases h
    | file text =>
      rw [readIfExists_file hnode] at h
      obtain ⟨hexisting, rfl⟩ := Prod.mk.inj h
      rw [← Except.ok.inj hexisting]
      exact ⟨rfl, rfl⟩

/-- A file that was not there is made. -/
theorem writeText_along {text : String} (hdomain : path.head? = some names.domain) (hnone : t.node path = none)
    (hempty : path = [names.domain, "dependencies.py"] → text = "") (h : writeText path text t = (.ok (), t')) :
    Tree.Along (Made parse printable loads names) t t' :=
  Tree.Along.write (writeText_ok h) (.created hdomain hnone rfl (fun hq => by rw [hempty hq]))

theorem touchInit_along {dir : String} (hdir : dir ∈ domainLayers) (h : touchInit [names.domain, dir, "__init__.py"] t = (.ok (), t')) :
    Tree.Along (Made parse printable loads names) t t' := by
  unfold touchInit at h
  rw [Run.bind_ok exists_apply] at h
  split at h
  · obtain rfl := (Prod.mk.inj h).2
    exact .refl
  · next hnot =>
    obtain ⟨_, t₁, hmkdir, hwrite⟩ := Run.of_bind_ok h
    have hnone : t₁.node [names.domain, dir, "__init__.py"] = none := by
      rw [(mkdir_ok hmkdir).2.1 _ (not_prefix_dropLast (List.cons_ne_nil _ _))]
      simpa using hnot
    exact (mkdir_along (.inr ⟨dir, hdir, rfl⟩) hmkdir).trans (writeText_along rfl hnone (fun hq => nomatch hq) hwrite)

theorem touchInits_along {dirs : List String} (hdirs : ∀ dir ∈ dirs, dir ∈ domainLayers)
    (h : touchInits names.domain dirs t = (.ok (), t')) : Tree.Along (Made parse printable loads names) t t' := by
  induction dirs generalizing t with
  | nil =>
    obtain rfl := (Prod.mk.inj h).2
    exact .refl
  | cons dir rest ih =>
    obtain ⟨_, t₁, hfirst, hrest⟩ := Run.of_bind_ok h
    have hmore := ih (fun dir hin => hdirs dir (List.mem_cons_of_mem _ hin)) hrest
    exact (touchInit_along (hdirs dir List.mem_cons_self) hfirst).trans hmore

theorem touchDependencies_along (h : touchDependencies [names.domain, "dependencies.py"] t = (.ok (), t')) :
    Tree.Along (Made parse printable loads names) t t' := by
  unfold touchDependencies at h
  rw [Run.bind_ok exists_apply] at h
  split at h
  · obtain rfl := (Prod.mk.inj h).2
    exact .refl
  · next hnot => exact writeText_along rfl (by simpa using hnot) (fun _ => rfl) h

theorem registerPyproject_along {paths : List Path} (h : registerPyproject loads names.domain t = (.ok paths, t')) :
    Tree.Along (Made parse printable loads names) t t' := by
  obtain ⟨rfl, -⟩ | ⟨text, written, hnode, hregister, hwritten⟩ := registerPyproject_ok h
  · exact .refl
  · exact Tree.Along.write hwritten (.pyproject rfl hnode rfl hregister)

theorem generateDomain_along {paths : List Path} (h : generateDomain loads names.domain t = (.ok paths, t')) :
    Tree.Along (Made parse printable loads names) t t' := by
  obtain ⟨_, t₁, hvalidate, h⟩ := Run.of_bind_ok h
  obtain ⟨-, rfl⟩ := orRaise_inv hvalidate
  obtain ⟨_, t₂, hinits, h⟩ := Run.of_bind_ok h
  obtain ⟨_, t₃, hdependencies, h⟩ := Run.of_bind_ok h
  obtain ⟨_, t₄, hregister, h⟩ := Run.of_bind_ok h
  obtain rfl := (Prod.mk.inj h).2
  have htouched : Tree.Along (Made parse printable loads names) t t₂ := touchInits_along (fun _ hdir => hdir) hinits
  exact (htouched.trans (touchDependencies_along hdependencies)).trans (registerPyproject_along hregister)

/-! The layers. -/

theorem writeNewFile_ok {dir file content : String} {new : Bool} (hdir : dir ∈ domainLayers)
    (h : writeNewFile [names.domain, dir, file] content t = (.ok new, t')) :
    Tree.Along (Made parse printable loads names) t t' ∧ t'.node [names.domain, dir, file] ≠ none := by
  obtain ⟨_, t₁, hmkdir, h⟩ := Run.of_bind_ok h
  have hmade : Tree.Along (Made parse printable loads names) t t₁ := mkdir_along (.inr ⟨dir, hdir, rfl⟩) hmkdir
  rw [Run.bind_ok exists_apply] at h
  split at h
  · next hexists =>
    obtain rfl := (Prod.mk.inj h).2
    exact ⟨hmade, Option.isSome_iff_ne_none.mp hexists⟩
  · next hnot =>
    obtain ⟨_, t₂, hwrite, h⟩ := Run.of_bind_ok h
    obtain rfl := (Prod.mk.inj h).2
    have hthree : [names.domain, dir, file] ≠ [names.domain, "dependencies.py"] := by simp
    refine ⟨hmade.trans (writeText_along rfl (by simpa using hnot) (fun hq => absurd hq hthree) hwrite), ?_⟩
    rw [writeText_ok hwrite, if_pos rfl]
    exact Option.some_ne_none _

theorem updateInit_ok {layer : Layer} (hlayer : layer ∈ layers) {init : Path}
    (h : updateInit parse printable [names.domain, layer.dir, "__init__.py"] (layer.module names.snake)
      (layer.symbols names.snake names.pascal) t = (.ok init, t')) :
    Tree.Along (Made parse printable loads names) t t' ∧ t'.Has [names.domain, layer.dir, "__init__.py"] (fun text =>
      ∃ existing, Scaffold.updateInit parse printable existing (layer.module names.snake) (layer.symbols names.snake names.pascal) =
        .ok text) := by
  obtain ⟨_, t₁, hmkdir, h⟩ := Run.of_bind_ok h
  have hmade : Tree.Along (Made parse printable loads names) t t₁ :=
    mkdir_along (.inr ⟨layer.dir, dir_of_layers layer hlayer, rfl⟩) hmkdir
  obtain ⟨existing, t₂, hread, h⟩ := Run.of_bind_ok h
  obtain ⟨rfl, hexisting⟩ := readIfExists_ok hread
  obtain ⟨text, t₃, hupdate, h⟩ := Run.of_bind_ok h
  obtain ⟨htext, rfl⟩ := orRaise_inv hupdate
  obtain ⟨_, t₄, hwrite, h⟩ := Run.of_bind_ok h
  obtain rfl := (Prod.mk.inj h).2
  have hwritten := writeText_ok hwrite
  refine ⟨hmade.trans (Tree.Along.write hwritten (.init hlayer rfl hexisting rfl htext)), text, ?_, existing, htext⟩
  rw [hwritten, if_pos rfl]

/-! What wires an entity. -/

variable {domain name : String} {paths : List Path}

theorem hasFactory_empty (snake : String) : hasFactory snake "" = false := by
  apply decide_eq_false
  intro hin
  have hnil := List.infix_nil.mp hin
  simp [String.toList_append] at hnil

/-- The factory was there, or the imports it needs are parsed. -/
theorem generateDependencies_ok (hnames : resolveNames names.domain name = .ok (names.snake, names.pascal))
    (h : generateDependencies parse names.domain name t = (.ok paths, t')) :
    Tree.Along (Change parse printable loads names) t t' ∧
      t'.Has [names.domain, "dependencies.py"] (fun text => hasFactory names.snake text = true) ∧
        (t.Has [names.domain, "dependencies.py"] (fun text => hasFactory names.snake text = true) ∨
          ∀ line ∈ requiredImports names.domain names.snake names.pascal, Ast.body parse line ≠ none) := by
  unfold generateDependencies at h
  rw [Run.bind_ok (orRaise_ok hnames)] at h
  obtain ⟨existing, t₁, hread, h⟩ := Run.of_bind_ok h
  obtain ⟨rfl, hexisting⟩ := readIfExists_ok hread
  by_cases hfactory : hasFactory names.snake (existing.getD "") = true
  · simp only [if_pos hfactory] at h
    obtain rfl := (Prod.mk.inj h).2
    have hhas : t.Has [names.domain, "dependencies.py"] (fun text => hasFactory names.snake text = true) := by
      cases existing with
      | none =>
        have hnot := hasFactory_empty names.snake
        rw [Option.getD_none, hnot] at hfactory
        cases hfactory
      | some text => exact ⟨text, hexisting, hfactory⟩
    exact ⟨.refl, hhas, .inl hhas⟩
  · simp only [if_neg hfactory] at h
    obtain ⟨merged, t₂, hmerge, h⟩ := Run.of_bind_ok h
    obtain ⟨hmerged, rfl⟩ := orRaise_inv hmerge
    obtain ⟨_, t₃, hmkdir, h⟩ := Run.of_bind_ok h
    obtain ⟨_, t₄, hwrite, h⟩ := Run.of_bind_ok h
    obtain rfl := (Prod.mk.inj h).2
    have hwritten := writeText_ok hwrite
    have hmade : Tree.Along (Change parse printable loads names) t t₃ := (mkdir_along (.inl rfl) hmkdir).mono .made
    have hexisting₃ : t₃.node [names.domain, "dependencies.py"] = existing.map Node.file := by
      rw [(mkdir_ok hmkdir).2.1 _ (not_prefix_dropLast (List.cons_ne_nil _ _)), hexisting]
    refine ⟨hmade.trans (Tree.Along.write hwritten (.dependencies rfl hexisting₃ rfl hmerged)), ?_, .inr (parsed_of_merge hmerged)⟩
    exact ⟨_, by rw [hwritten, if_pos rfl], hasFactory_renderBlock _ _ _⟩

theorem registerModel_ok {text : String} (hnode : t.node modelsManifest = some (.file text))
    (h : registerModel parse names.domain (names.pascal ++ "Model") t = (.ok paths, t')) :
    Tree.Along (Change parse printable loads names) t t' ∧ ∃ stmts, Ast.body parse text = some stmts ∧
      (t'.node modelsManifest = some (.file text) ∧ stmts.any (importsModel names.domain (names.pascal ++ "Model")) = true ∨
        t'.node modelsManifest =
          some (.file (Lines.rstrip text ++ "\n" ++ modelLine names.domain (names.pascal ++ "Model") ++ "\n"))) := by
  unfold registerModel at h
  rw [Run.bind_ok exists_apply, hnode, Option.isSome_some, if_pos rfl, Run.bind_ok (readText_file hnode)] at h
  cases hbody : Ast.body parse text with
  | none =>
    simp only [hbody] at h
    cases h
  | some stmts =>
    by_cases himports : stmts.any (importsModel names.domain (names.pascal ++ "Model")) = true
    · simp only [hbody, if_pos himports] at h
      obtain rfl := (Prod.mk.inj h).2
      exact ⟨.refl, stmts, rfl, .inl ⟨hnode, himports⟩⟩
    · simp only [hbody, if_neg himports] at h
      obtain ⟨_, t₁, hwrite, h⟩ := Run.of_bind_ok h
      obtain rfl := (Prod.mk.inj h).2
      have hwritten := writeText_ok hwrite
      refine ⟨Tree.Along.write hwritten (.manifest rfl hnode rfl hbody), stmts, rfl, .inr ?_⟩
      rw [hwritten, if_pos rfl]

theorem registerRouter_ok {text : String} (hnode : t.node apiVersionsFile = some (.file text))
    (h : registerRouter names.domain (names.snake ++ "_router") t = (.ok paths, t')) :
    Tree.Along (Change parse printable loads names) t t' ∧
      (t'.node apiVersionsFile = some (.file text) ∧ FastiKit.registerRouter names.domain (names.snake ++ "_router") text = none ∨
        ∃ text', t'.node apiVersionsFile = some (.file text') ∧
          FastiKit.registerRouter names.domain (names.snake ++ "_router") text = some text') := by
  unfold registerRouter at h
  rw [Run.bind_ok exists_apply, hnode, Option.isSome_some, if_pos rfl, Run.bind_ok (readText_file hnode)] at h
  cases hregister : FastiKit.registerRouter names.domain (names.snake ++ "_router") text with
  | none =>
    simp only [hregister] at h
    obtain rfl := (Prod.mk.inj h).2
    exact ⟨.refl, .inl ⟨hnode, rfl⟩⟩
  | some text' =>
    simp only [hregister] at h
    obtain ⟨_, t₁, hwrite, h⟩ := Run.of_bind_ok h
    obtain rfl := (Prod.mk.inj h).2
    have hwritten := writeText_ok hwrite
    refine ⟨Tree.Along.write hwritten (.router rfl hnode rfl hregister), .inr ⟨text', ?_, rfl⟩⟩
    rw [hwritten, if_pos rfl]

/-! What a change is, at each path. -/

section Paths
variable {old new : Option Node} {dir text : String}

theorem Change.new_ne_none {q : Path} (h : Change parse printable loads names q old new) : new ≠ none := by
  cases h with
  | made h =>
    cases h with
    | created _ _ hnew => simp [hnew]
    | init _ _ _ hnew => simp [hnew]
    | pyproject _ _ hnew => simp [hnew]
  | dependencies _ _ hnew => simp [hnew]
  | manifest _ _ hnew => simp [hnew]
  | router _ _ hnew => simp [hnew]

theorem Change.of_init (h : Change parse printable loads names [domain, dir, "__init__.py"] (some (.file text)) new) :
    ∃ layer ∈ layers, ∃ text', new = some (.file text') ∧ Scaffold.updateInit parse printable (some text)
      (layer.module names.snake) (layer.symbols names.snake names.pascal) = .ok text' := by
  cases h with
  | made h =>
    cases h with
    | created _ hold => cases hold
    | init hlayer _ hold hnew h =>
      obtain ⟨text', rfl, htext⟩ := Option.map_eq_some_iff.mp hold.symm
      obtain rfl := Node.file.inj htext
      exact ⟨_, hlayer, _, hnew, h⟩
    | pyproject hq => cases hq
  | dependencies hq => simp at hq
  | manifest hq => simp [modelsManifest] at hq
  | router hq => simp [apiVersionsFile] at hq

theorem Made.of_dependencies (h : Made parse printable loads names [domain, "dependencies.py"] old new) :
    domain = names.domain ∧ old = none ∧ new = some (.file "") := by
  cases h with
  | created hdomain hold hnew hempty =>
    obtain rfl := Option.some.inj hdomain
    rw [hempty rfl] at hnew
    exact ⟨rfl, hold, hnew⟩
  | init _ hq => simp at hq
  | pyproject hq => simp [pyprojectFile] at hq

theorem Change.of_dependencies (h : Change parse printable loads names [domain, "dependencies.py"] old new) :
    domain = names.domain ∧ (old = none ∧ new = some (.file "") ∨ ∃ (existing : Option String) (merged : String), old = existing.map Node.file ∧
      new = some (.file (Lines.rstrip merged ++ "\n\n\n" ++ renderBlock names.snake names.pascal)) ∧
        MergeImports.mergeImports parse (existing.getD "") (requiredImports names.domain names.snake names.pascal) = .ok merged) := by
  cases h with
  | made h => exact ⟨h.of_dependencies.1, .inl h.of_dependencies.2⟩
  | dependencies hq hold hnew h => exact ⟨(List.cons.inj hq).1, .inr ⟨_, _, hold, hnew, h⟩⟩
  | manifest hq => simp [modelsManifest] at hq
  | router hq => simp [apiVersionsFile] at hq

theorem Change.of_manifest (h : Change parse printable loads names modelsManifest (some (.file text)) new) :
    (∃ stmts, Ast.body parse text = some stmts) ∧
      new = some (.file (Lines.rstrip text ++ "\n" ++ modelLine names.domain (names.pascal ++ "Model") ++ "\n")) := by
  cases h with
  | made h =>
    cases h with
    | created _ hold => cases hold
    | init _ hq => simp [modelsManifest] at hq
    | pyproject hq => simp [modelsManifest, pyprojectFile] at hq
  | dependencies hq => simp [modelsManifest] at hq
  | manifest _ hold hnew h =>
    obtain rfl := Node.file.inj (Option.some.inj hold)
    exact ⟨⟨_, h⟩, hnew⟩
  | router hq => simp [modelsManifest, apiVersionsFile] at hq

theorem Change.of_router (h : Change parse printable loads names apiVersionsFile (some (.file text)) new) :
    ∃ text', new = some (.file text') ∧ FastiKit.registerRouter names.domain (names.snake ++ "_router") text = some text' := by
  cases h with
  | made h =>
    cases h with
    | created _ hold => cases hold
    | init _ hq => simp [apiVersionsFile] at hq
    | pyproject hq => simp [apiVersionsFile, pyprojectFile] at hq
  | dependencies hq => simp [apiVersionsFile] at hq
  | manifest hq => simp [modelsManifest, apiVersionsFile] at hq
  | router _ hold hnew h =>
    obtain rfl := Node.file.inj (Option.some.inj hold)
    exact ⟨_, hnew, h⟩

theorem Change.of_pyproject (h : Change parse printable loads names pyprojectFile (some (.file text)) new) :
    ∃ text', new = some (.file text') ∧ Pyproject.registerPyproject loads names.domain (some text) = some (some text') := by
  cases h with
  | made h =>
    cases h with
    | created _ hold => cases hold
    | init _ hq => simp [pyprojectFile] at hq
    | pyproject _ hold hnew h =>
      obtain rfl := Node.file.inj (Option.some.inj hold)
      exact ⟨_, hnew, h⟩
  | dependencies hq => simp [pyprojectFile] at hq
  | manifest hq => simp [modelsManifest, pyprojectFile] at hq
  | router hq => simp [pyprojectFile, apiVersionsFile] at hq

end Paths

end Changes

/-! What a layer keeps of a call. -/

section LayerSettled

/-- The module is there, and exported. -/
structure LayerSettled (parse : Ast.Parser) (printable : Char → Bool) (names : Names) (layer : Layer) (t : Tree) : Prop where
  module : t.node [names.domain, layer.dir, layer.module names.snake ++ ".py"] ≠ none
  exports : t.Has [names.domain, layer.dir, "__init__.py"]
    (InitSettled parse printable (layer.module names.snake) (layer.symbols names.snake names.pascal))

variable {parse : Ast.Parser} {printable : Char → Bool} {grammar : Grammar parse printable} {loads : String → Option Toml}
  {names names' : Names} {layer : Layer} {name fields : String} {t t' : Tree}

theorem LayerSettled.keep (lawful : Ast.Lawful parse) (rejects : Rejects grammar)
    (h : Tree.Along (Change parse printable loads names') t t') (hsettled : LayerSettled parse printable names layer t) :
    LayerSettled parse printable names layer t' where
  module := h.invariant (fun hchange _ => hchange.new_ne_none) hsettled.module
  exports := by
    refine h.has ?_ hsettled.exports
    intro text new hchange htext
    obtain ⟨layer', hlayer', text', rfl, hupdate⟩ := hchange.of_init
    exact ⟨text', rfl, htext.keep lawful rejects (given_of_layers names' layer' hlayer') hupdate⟩

theorem generateLayer_ok (lawful : Ast.Lawful parse) (rejects : Rejects grammar) (hlayer : layer ∈ layers) {paths : List Path}
    (hnames : resolveNames names.domain name = .ok (names.snake, names.pascal))
    (h : generateLayer parse printable layer names.domain name fields t = (.ok paths, t')) :
    Tree.Along (Made parse printable loads names) t t' ∧ LayerSettled parse printable names layer t' := by
  unfold generateLayer at h
  rw [Run.bind_ok (orRaise_ok hnames)] at h
  obtain ⟨template, t₁, htemplate, h⟩ := Run.of_bind_ok h
  obtain ⟨-, rfl⟩ := orRaise_inv htemplate
  obtain ⟨new, t₂, hfile, h⟩ := Run.of_bind_ok h
  obtain ⟨init, t₃, hinit, h⟩ := Run.of_bind_ok h
  obtain rfl := (Prod.mk.inj h).2
  obtain ⟨hmade, hmodule⟩ := writeNewFile_ok (dir_of_layers layer hlayer) hfile
  obtain ⟨hmade', hexports⟩ := updateInit_ok hlayer hinit
  refine ⟨hmade.trans hmade', ?_, ?_⟩
  · have hchanges : Tree.Along (Change parse printable loads names) t₂ t₃ := hmade'.mono .made
    exact hchanges.invariant (fun hchange _ => hchange.new_ne_none) hmodule
  · refine hexports.imp (fun text htext => ?_)
    obtain ⟨existing, hupdate⟩ := htext
    exact initSettled_of_updateInit lawful rejects (given_of_layers names layer hlayer) hupdate

/-- The later layers leave the earlier ones settled. -/
theorem generateAllLayers_ok (lawful : Ast.Lawful parse) (rejects : Rejects grammar) {paths : List Path}
    (hnames : resolveNames names.domain name = .ok (names.snake, names.pascal))
    (h : generateAllLayers names.domain name fields (layerGenerators parse printable) t = (.ok paths, t')) :
    Tree.Along (Made parse printable loads names) t t' ∧ ∀ layer ∈ layers, LayerSettled parse printable names layer t' := by
  have hall : ∀ (ls : List Layer) {t t' : Tree} {paths : List Path}, (∀ layer ∈ ls, layer ∈ layers) →
      generateAllLayers names.domain name fields (ls.map (generateLayer parse printable)) t = (.ok paths, t') →
        Tree.Along (Made parse printable loads names) t t' ∧ ∀ layer ∈ ls, LayerSettled parse printable names layer t' := by
    intro ls
    induction ls with
    | nil =>
      intro t t' paths _ h
      obtain rfl := (Prod.mk.inj h).2
      exact ⟨.refl, nofun⟩
    | cons layer rest ih =>
      intro t t' paths hls h
      obtain ⟨first, t₁, hfirst, h⟩ := Run.of_bind_ok h
      obtain ⟨more, t₂, hrest, h⟩ := Run.of_bind_ok h
      obtain rfl := (Prod.mk.inj h).2
      obtain ⟨hmade, hsettled⟩ := generateLayer_ok lawful rejects (hls layer List.mem_cons_self) hnames hfirst
      obtain ⟨hmade', hsettled'⟩ := ih (fun layer hin => hls layer (List.mem_cons_of_mem _ hin)) hrest
      refine ⟨hmade.trans hmade', fun other hin => ?_⟩
      cases List.mem_cons.mp hin with
      | inl heq => exact heq ▸ hsettled.keep lawful rejects (hmade'.mono .made)
      | inr hin => exact hsettled' other hin
  rw [layerGenerators_eq] at h
  exact hall layers (fun _ hlayer => hlayer) h

end LayerSettled

end FastiKit.Scaffold.CreateAll
