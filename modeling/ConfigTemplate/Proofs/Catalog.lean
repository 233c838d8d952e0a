import ConfigTemplate.Catalog
import ConfigTemplate.Proofs.Document.Contents

/-!
# What catalogs hold

A catalog is filled in one visit, which adds each declaration as it comes by. The same catalog is read
off the declarations of the tree, listed in their order, part by part. The lemmas here say which
configurations, conditions and properties come out, in terms of the declarations alone.

Results:
1. `extract_eq`: the visit collects the catalog that is read off the declarations.
2. `fst_declarationsOf`: the declarations of a tree are those of the forest that it shows.
3. `ofDeclarations_eq_ok`: the configurations of a catalog, each found by its name in lower case.
4. `mem_rulesFrom_iff`: the rules, with the names that they are given.
-/

namespace ConfigTemplate.Catalog

open Document (Content Declaration Node Tree)

/-! ## Declarations -/

/-- The declarations among nodes, in order, with their lines. -/
def declarationsIn (nodes : List Node) : List (Declaration × Nat) :=
  nodes.filterMap fun node =>
    match node.content with
    | .declaration declared => some (declared, node.line)
    | .text _ | .block _ => none

theorem declarationsIn_append (first second : List Node) :
    declarationsIn (first ++ second) = declarationsIn first ++ declarationsIn second :=
  List.filterMap_append

/-- The declarations that can be reached in a tree, in pre-order, with their lines. -/
def declarationsOf (tree : Tree) : List (Declaration × Nat) :=
  declarationsIn (tree.levels.map Prod.snd)

theorem fst_declarationsOf {tree : Tree} {F : Forest Content} (shows_ : tree.Shows F) :
    (declarationsOf tree).map Prod.fst = F.declarations := by
  rw [Forest.declarations, ← shows_.levels, declarationsOf, declarationsIn, List.map_filterMap,
    List.filterMap_map, List.filterMap_map]
  refine List.filterMap_congr fun line _ => ?_
  obtain ⟨depth, node⟩ := line
  rcases node with ⟨_ | _ | _⟩ <;> rfl

/-! ## What declarations declare -/

def projectOf : Declaration × Nat → Option Project
  | (.project name description, _) => some ⟨name, description⟩
  | _ => none

def configurationOf : Declaration × Nat → Option Configuration
  | (.config name description selected, line) => some ⟨name, description, selected, line⟩
  | _ => none

def defineOf : Declaration × Nat → Option NamedFormula
  | (.define name description source, line) => some ⟨name.getD "", description, source, line⟩
  | _ => none

def propertyOf : Declaration × Nat → Option DeclaredProperty
  | (.property name description value scope overridable, line) =>
    some ⟨name, description, value, scope, overridable, line⟩
  | _ => none

/-- The configurations among declarations, in order. -/
def configurationsOf (declarations : List (Declaration × Nat)) : List Configuration :=
  declarations.filterMap configurationOf

/-- The rules among declarations. Those without a name are numbered from `number` on. -/
def rulesFrom (number : Nat) : List (Declaration × Nat) → List NamedFormula
  | [] => []
  | (.require (some name) description source, line) :: rest =>
    ⟨name, description, source, line⟩ :: rulesFrom number rest
  | (.require none description source, line) :: rest =>
    ⟨anonymousRule number, description, source, line⟩ :: rulesFrom (number + 1) rest
  | _ :: rest => rulesFrom number rest

/-- The catalog of a list of declarations, if no two configurations have one name. -/
def ofDeclarations (declarations : List (Declaration × Nat)) :
    Except DuplicateConfiguration Catalog := do
  let configurations ← (configurationsOf declarations).foldlM addConfiguration .empty
  return {
    project := (declarations.filterMap projectOf).getLast?
    configurations
    defines := declarations.filterMap defineOf
    rules := rulesFrom 1 declarations
    properties := declarations.filterMap propertyOf }

/-- Whether a declaration is a rule without a name. -/
def isAnonymousRule : Declaration → Bool
  | .require none _ _ => true
  | _ => false

variable {declarations : List (Declaration × Nat)}

/-- The rules without a name are numbered on from those before. -/
theorem rulesFrom_append (number : Nat) (before behind : List (Declaration × Nat)) :
    rulesFrom number (before ++ behind) = rulesFrom number before ++
      rulesFrom (number + (before.map Prod.fst).countP isAnonymousRule) behind := by
  induction before generalizing number with
  | nil => rfl
  | cons head rest ih =>
    obtain ⟨declared, line⟩ := head
    cases declared with
    | require name description source =>
      cases name with
      | none =>
        simp [rulesFrom, List.countP_cons, isAnonymousRule, ih, Nat.add_assoc, Nat.add_comm 1]
      | some name => simp [rulesFrom, isAnonymousRule, ih]
    | project | config | define | property => simp [rulesFrom, isAnonymousRule, ih]

/-! ## Collecting in one visit -/

/-- What one declaration adds to each part. -/
theorem Collected.add_eq (collected : Collected) (declared : Declaration × Nat) :
    collected.add declared =
      ((configurationOf declared).toList.foldlM addConfiguration
        collected.catalog.configurations).map fun configurations =>
          ⟨⟨(projectOf declared).or collected.catalog.project, configurations,
              collected.catalog.defines ++ (defineOf declared).toList,
              collected.catalog.rules ++ rulesFrom (1 + collected.anonymous) [declared],
              collected.catalog.properties ++ (propertyOf declared).toList⟩,
            collected.anonymous + if isAnonymousRule declared.1 then 1 else 0⟩ := by
  obtain ⟨declared, line⟩ := declared
  cases declared with
  | config name description selected =>
    rcases adds : addConfiguration collected.catalog.configurations
      ⟨name, description, selected, line⟩ with cause | added <;>
    simp [add, adds, configurationOf, Except.map, projectOf, defineOf, propertyOf, rulesFrom,
      isAnonymousRule, bind, Except.bind, pure, Except.pure]
  | require name description source =>
    cases name with
    | none =>
      simp [add, configurationOf, Except.map, projectOf, defineOf, propertyOf, rulesFrom,
        isAnonymousRule, Nat.add_comm, pure, Except.pure]
    | some name =>
      simp [add, configurationOf, Except.map, projectOf, defineOf, propertyOf, rulesFrom,
        isAnonymousRule, pure, Except.pure]
  | project | define | property =>
    simp [add, configurationOf, Except.map, projectOf, defineOf, propertyOf, rulesFrom,
      isAnonymousRule, pure, Except.pure]

/-- Adding the declarations of a list one after the other gives their catalog. -/
theorem foldlM_add (declarations : List (Declaration × Nat)) :
    declarations.foldlM Collected.add ⟨.empty, 0⟩ = (ofDeclarations declarations).map
      (⟨·, (declarations.map Prod.fst).countP isAnonymousRule⟩) := by
  induction declarations using List.reverseRecOn with
  | nil => rfl
  | append_singleton before last ih =>
    have onward {α : Type} (f : Declaration × Nat → Option α) :
        (before ++ [last]).filterMap f = before.filterMap f ++ (f last).toList := by
      rw [List.filterMap_append, List.filterMap_cons, List.filterMap_nil]
      cases f last <;> rfl
    have final : (projectOf last).toList.getLast? = projectOf last := by
      cases projectOf last <;> rfl
    rw [List.foldlM_append, ih, ofDeclarations, ofDeclarations, configurationsOf, configurationsOf,
      onward, List.foldlM_append]
    rcases (before.filterMap configurationOf).foldlM addConfiguration .empty with
      cause | configurations
    · rfl
    · show (Collected.add _ last >>= pure) =
        Except.map _ ((configurationOf last).toList.foldlM addConfiguration configurations >>= _)
      rw [bind_pure, Collected.add_eq, onward, onward, onward, List.getLast?_append, final,
        rulesFrom_append, List.map_append, List.countP_append]
      rcases (configurationOf last).toList.foldlM addConfiguration configurations with cause | added
      · rfl
      · simp [Except.map, bind, Except.bind, pure, Except.pure, List.countP_singleton]

theorem collectNode_eq (node : Node) :
    collectNode node = (declarationsIn [node]).forM collect >>= fun _ => pure true := by
  rcases node with ⟨_ | _ | declared, line, _⟩
  · rfl
  · rfl
  · show _ = (collect (declared, line) >>= fun _ => pure PUnit.unit) >>= fun _ => pure true
    rw [bind_assoc]
    rfl

/-- Collecting node by node comes by the declarations in their order. -/
theorem forM_declarationsIn (nodes : List Node) :
    nodes.forM (fun node => (declarationsIn [node]).forM collect) =
      (declarationsIn nodes).forM collect := by
  induction nodes with
  | nil => rfl
  | cons node rest ih =>
    have parts : declarationsIn (node :: rest) = declarationsIn [node] ++ declarationsIn rest :=
      declarationsIn_append [node] rest
    rw [parts, List.forM_eq_forM, List.forM_eq_forM, List.forM_cons, List.forM_append]
    exact bind_congr fun _ => ih

theorem forM_collect (declarations : List (Declaration × Nat)) (collected : Collected) :
    match declarations.foldlM Collected.add collected with
    | .ok final => declarations.forM collect collected = (.ok (), final)
    | .error cause => ∃ left, declarations.forM collect collected = (.error cause, left) := by
  induction declarations generalizing collected with
  | nil => rfl
  | cons first rest ih =>
    have step : (first :: rest).forM collect collected =
        (collect first >>= fun _ => rest.forM collect) collected := rfl
    rw [List.foldlM_cons, step, Attempt.run_bind, collect, Attempt.run_get_bind, Attempt.run_bind]
    cases collected.add first with
    | error cause => exact ⟨collected, rfl⟩
    | ok more => exact ih more

/-- One visit, which adds each declaration as it comes by and stops at the first repeated name,
collects the catalog that is read off all declarations of the tree. -/
theorem extract_eq (tree : Tree) : extract tree = ofDeclarations (declarationsOf tree) := by
  have visits : tree.visit (fun _ node => collectNode node) =
      (declarationsOf tree).forM collect :=
    (Tree.visit_eq_forM tree fun _ => collectNode_eq).trans (forM_declarationsIn _)
  have collects := forM_collect (declarationsOf tree) ⟨.empty, 0⟩
  rw [foldlM_add] at collects
  rw [extract, visits]
  cases collected : ofDeclarations (declarationsOf tree) with
  | ok catalog =>
    rw [collected] at collects
    have ends : (declarationsOf tree).forM collect ⟨.empty, 0⟩ = (.ok (), ⟨catalog, _⟩) := collects
    rw [ends]
  | error cause =>
    rw [collected] at collects
    obtain ⟨left, fails⟩ := collects
    rw [fails]

/-! ## Configurations -/

variable {found result : NameMap Configuration} {key : String} {configuration : Configuration}

/-- The configuration is declared. -/
def Declares (declarations : List (Declaration × Nat)) (configuration : Configuration) : Prop :=
  (.config configuration.name configuration.description configuration.selected,
    configuration.line) ∈ declarations

theorem declares_iff : Declares declarations configuration ↔
    configuration ∈ configurationsOf declarations := by
  rw [configurationsOf, List.mem_filterMap]
  constructor
  · exact fun declares => ⟨_, declares, rfl⟩
  · rintro ⟨declared, member, same⟩
    unfold configurationOf at same
    split at same
    · cases same
      exact member
    · cases same

theorem get?_addConfiguration {new : Configuration} (adds : addConfiguration found new = .ok result) :
    result.get? key = some configuration ↔
      found.get? key = some configuration ∨ configuration.key = key ∧ configuration = new := by
  unfold addConfiguration at adds
  split at adds
  · cases adds
  · rename_i free
    cases adds
    rw [NameMap.get?_insert]
    split
    · rename_i same
      subst same
      rw [free, Option.some.injEq]
      constructor
      · rintro rfl
        exact .inr ⟨rfl, rfl⟩
      · rintro (old | ⟨-, rfl⟩)
        · cases old
        · rfl
    · rename_i differs
      refine ⟨.inl, fun either => either.resolve_right ?_⟩
      rintro ⟨rfl, rfl⟩
      exact differs rfl

/-- What has been added is found by its names in lower case. -/
theorem get?_foldlM_addConfiguration {configurations : List Configuration}
    (adds : configurations.foldlM addConfiguration found = .ok result) :
    result.get? key = some configuration ↔
      found.get? key = some configuration ∨
        configuration.key = key ∧ configuration ∈ configurations := by
  induction configurations generalizing found with
  | nil =>
    cases adds
    simp
  | cons new rest ih =>
    rw [List.foldlM_cons] at adds
    obtain ⟨middle, added, further⟩ := except_bind_eq_ok adds
    rw [ih further, get?_addConfiguration added, List.mem_cons, or_assoc, ← and_or_left]

/-- The catalog of declarations finds each configuration by its name in lower case, and lists the
other declarations in order. -/
theorem ofDeclarations_eq_ok {catalog : Catalog}
    (collects : ofDeclarations declarations = .ok catalog) :
    (∀ key configuration, catalog.configurations.get? key = some configuration ↔
      Text.lowerCase configuration.name = key ∧ Declares declarations configuration) ∧
    catalog.defines = declarations.filterMap defineOf ∧
    catalog.rules = rulesFrom 1 declarations ∧
    catalog.properties = declarations.filterMap propertyOf := by
  obtain ⟨configurations, adds, same⟩ := except_bind_eq_ok collects
  cases same
  refine ⟨fun key configuration => ?_, rfl, rfl, rfl⟩
  rw [get?_foldlM_addConfiguration adds, declares_iff]
  simp [Configuration.key]

/-! ## Rules -/

/-- The name of a rule behind the given declarations. -/
def ruleName (before : List Declaration) (name : Option String) : String :=
  name.getD (anonymousRule (1 + before.countP isAnonymousRule))

/-- Among the declarations there is a rule that comes out like this. The rules without a name before
the declarations count up to the given number. -/
def HasRule (number : Nat) (declarations : List (Declaration × Nat)) (rule : NamedFormula) : Prop :=
  ∃ before name description source line after,
    declarations = before ++ (.require name description source, line) :: after ∧
    rule = ⟨name.getD (anonymousRule (number + (before.map Prod.fst).countP isAnonymousRule)),
      description, source, line⟩

theorem hasRule_cons {number : Nat} {head : Declaration × Nat} {rule : NamedFormula} :
    HasRule number (head :: declarations) rule ↔
      (∃ name description source line, head = (.require name description source, line) ∧
        rule = ⟨name.getD (anonymousRule number), description, source, line⟩) ∨
      HasRule (number + if isAnonymousRule head.1 then 1 else 0) declarations rule := by
  constructor
  · rintro ⟨before, name, description, source, line, after, split, rfl⟩
    rcases List.cons_eq_append_iff.1 split with ⟨rfl, same⟩ | ⟨before, rfl, rfl⟩
    · cases same
      exact .inl ⟨name, description, source, line, rfl, rfl⟩
    · refine .inr ⟨before, name, description, source, line, after, rfl, ?_⟩
      rw [List.map_cons, List.countP_cons, Nat.add_assoc, Nat.add_comm (ite _ _ _)]
  · rintro (⟨name, description, source, line, rfl, rfl⟩ |
      ⟨before, name, description, source, line, after, rfl, rfl⟩)
    · exact ⟨[], name, description, source, line, declarations, rfl, rfl⟩
    · refine ⟨head :: before, name, description, source, line, after, rfl, ?_⟩
      rw [List.map_cons, List.countP_cons, Nat.add_assoc, Nat.add_comm (ite _ _ _)]

theorem mem_rulesFrom_iff {number : Nat} {rule : NamedFormula} :
    rule ∈ rulesFrom number declarations ↔ HasRule number declarations rule := by
  induction declarations generalizing number with
  | nil => simp [rulesFrom, HasRule]
  | cons head rest ih =>
    rw [hasRule_cons]
    obtain ⟨declared, line⟩ := head
    cases declared with
    | require name description source =>
      cases name with
      | none => simp [rulesFrom, ih, isAnonymousRule]
      | some name => simp [rulesFrom, ih, isAnonymousRule]
    | project | config | define | property => simp [rulesFrom, ih, isAnonymousRule]

theorem exists_mem_rulesFrom {before behind : List Declaration} {name : Option String}
    {description source : String}
    (split : declarations.map Prod.fst = before ++ .require name description source :: behind) :
    ∃ line, ⟨ruleName before name, description, source, line⟩ ∈ rulesFrom 1 declarations := by
  obtain ⟨front, rest, rfl, rfl, same⟩ := List.map_eq_append_iff.1 split
  obtain ⟨⟨_, line⟩, back, rfl, rfl, rfl⟩ := List.map_eq_cons_iff.1 same
  exact ⟨line, mem_rulesFrom_iff.2 ⟨front, name, description, source, line, back, rfl, rfl⟩⟩

end ConfigTemplate.Catalog
