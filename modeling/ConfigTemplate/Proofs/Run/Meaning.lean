import ConfigTemplate.Proofs.Condition.Evaluation
import ConfigTemplate.Proofs.Document.Parsed
import ConfigTemplate.Proofs.Run.Commit
import ConfigTemplate.Proofs.Run.Filtering
import ConfigTemplate.Proofs.Run.Properties
import ConfigTemplate.Proofs.Run.Seeding

/-!
# What a run writes

The meaning of a template for a request, without a single step of a run: the conditions have the
values that the declarations and the request give them, all rules hold, and the output is made of
the texts in blocks that hold, each with its markers replaced.

Results:
1. `solves_iff_assigns`: the seeded table asks for the assignment that the declarations ask for.
2. `configure_writes_meaning`: a request that is carried out leaves the meaning of its template at
   its destination.
-/

namespace ConfigTemplate

open Document (Content Declaration Tree)

/-! ## The meaning of a template -/

/-- An assignment gives every configuration the value that is asked for or its own, and every
derived condition and every rule the value of its formula. -/
structure Assigns (declarations : List Declaration) (request : Request) (value : String → Bool) :
    Prop where
  configuration : ∀ name description selected,
    .config name description selected ∈ declarations → value name = request.choice name selected
  define : ∀ name description source, .define name description source ∈ declarations →
    ∃ formula, Formula.parse source = .ok formula ∧ value (name.getD "") = formula.truth value
  rule : ∀ before name description source behind,
    declarations = before ++ .require name description source :: behind →
    ∃ formula, Formula.parse source = .ok formula ∧
      value (Catalog.ruleName before name) = formula.truth value

/-- All rules are true. -/
def RulesHold (declarations : List Declaration) (value : String → Bool) : Prop :=
  ∀ before name description source behind,
    declarations = before ++ .require name description source :: behind →
    value (Catalog.ruleName before name) = true

/-- The texts of a template that count: those in blocks that hold, without the blank texts between
two declarations of the top-level list. -/
def textsOf (F : Forest Content) (value : String → Bool) : List String :=
  (((F.withoutConnectors none).texts []).filter (·.1.all value)).map Prod.snd

/-- The text that a template means for a request, if the conditions have the given values. -/
def Means (F : Forest Content) (request : Request) (value : String → Bool) (output : String) :
    Prop :=
  ∃ pieces, (textsOf F value).mapM (request.scope F.declarations value).substitute = .ok pieces ∧
    output = String.join pieces

namespace Run

open Condition (Table)

variable {store : Store} {request : Request} {directory output : String} {stages : Stages}
  {declarations : List (Declaration × Nat)} {F : Forest Content} {value : String → Bool}

/-! ## The seeded table -/

/-- The entries of the seeded table. -/
theorem get?_seeded (collects : Catalog.ofDeclarations declarations = .ok stages.catalog)
    (lead : stages.Lead store request directory output) {name : String}
    {entry : Condition.Entry} :
    stages.seeded.entries.get? name = some entry ↔
      (∃ configuration, Catalog.Declares declarations configuration ∧ configuration.name = name ∧
        entry = .pending (.constant (request.choice name configuration.selected))) ∨
      ∃ derived ∈ stages.catalog.defines ++ stages.catalog.rules, derived.name = name ∧
        ∃ formula, derived.formula = .ok formula ∧ entry = .pending formula := by
  obtain ⟨configurations, -⟩ := Catalog.ofDeclarations_eq_ok collects
  have keyed := keyed_of_collects collects
  have listed : ∀ configuration, configuration ∈ stages.catalog.configurations.values ↔
      Catalog.Declares declarations configuration := fun configuration => by
    simp only [NameMap.mem_values_iff, configurations, exists_eq_left']
  rw [get?_of_addsFormulas lead.seeds, get?_foldl_seedConfiguration keyed.eq_of_name]
  refine or_congr ?_ Iff.rfl
  constructor
  · rintro (⟨configuration, member, rfl, rfl⟩ | ⟨-, none_⟩)
    · refine ⟨configuration, (listed configuration).1 member, rfl, ?_⟩
      rw [constantEntry, getD_requestedValues keyed (keyed.knows member) lead.requests]
    · cases none_
  · rintro ⟨configuration, declares, rfl, rfl⟩
    have member := (listed configuration).2 declares
    refine .inl ⟨configuration, member, rfl, ?_⟩
    rw [constantEntry, getD_requestedValues keyed (keyed.knows member) lead.requests]

theorem contains_of_declares (collects : Catalog.ofDeclarations declarations = .ok stages.catalog)
    (lead : stages.Lead store request directory output) {configuration : Configuration}
    (declares : Catalog.Declares declarations configuration) :
    stages.seeded.contains configuration.name :=
  Table.contains_iff.2 ⟨_, (get?_seeded collects lead).2 (.inl ⟨_, declares, rfl, rfl⟩)⟩

theorem contains_of_mem (collects : Catalog.ofDeclarations declarations = .ok stages.catalog)
    (lead : stages.Lead store request directory output) {derived : NamedFormula}
    (member : derived ∈ stages.catalog.defines ++ stages.catalog.rules) :
    stages.seeded.contains derived.name := by
  obtain ⟨formula, parses⟩ := formula_of_addsFormulas lead.seeds derived member
  exact Table.contains_iff.2
    ⟨_, (get?_seeded collects lead).2 (.inr ⟨derived, member, rfl, formula, parses, rfl⟩)⟩

/-- The seeded table asks for the assignment that the declarations ask for. -/
theorem solves_iff_assigns (collects : Catalog.ofDeclarations declarations = .ok stages.catalog)
    (lead : stages.Lead store request directory output) :
    stages.seeded.Solves value ↔ Assigns (declarations.map Prod.fst) request value := by
  obtain ⟨-, defines, rules, -⟩ := Catalog.ofDeclarations_eq_ok collects
  have entries := fun name entry => @get?_seeded store request directory output stages declarations
    collects lead name entry
  have formulas := formula_of_addsFormulas lead.seeds
  constructor
  · intro solves
    have derives : ∀ derived ∈ stages.catalog.defines ++ stages.catalog.rules,
        ∃ formula, Formula.parse derived.source = .ok formula ∧
          value derived.name = formula.truth value := fun derived member => by
      obtain ⟨formula, parses⟩ := formulas derived member
      exact ⟨formula, parses, solves.pending _ _
        ((entries _ _).2 (.inr ⟨derived, member, rfl, formula, parses, rfl⟩))⟩
    refine ⟨fun name description selected member => ?_,
      fun name description source member => ?_,
      fun before name description source behind split => ?_⟩
    · obtain ⟨⟨_, line⟩, inside, rfl⟩ := List.mem_map.1 member
      exact solves.pending _ _ ((entries _ _).2
        (.inl ⟨⟨name, description, selected, line⟩, inside, rfl, rfl⟩))
    · obtain ⟨⟨_, line⟩, inside, rfl⟩ := List.mem_map.1 member
      refine derives ⟨name.getD "", description, source, line⟩ (List.mem_append_left _ ?_)
      rw [defines]
      exact List.mem_filterMap.2 ⟨_, inside, rfl⟩
    · obtain ⟨line, member⟩ := Catalog.exists_mem_rulesFrom split
      exact derives _ (List.mem_append_right _ (rules ▸ member))
  · intro assigns
    refine ⟨fun name truth found => ?_, fun name formula found => ?_⟩
    · rcases (entries _ _).1 found with ⟨_, -, -, same⟩ | ⟨_, -, -, _, -, same⟩ <;> cases same
    rcases (entries _ _).1 found with ⟨configuration, declares, rfl, same⟩ |
      ⟨derived, member, rfl, formula', parses, same⟩
    · cases same
      exact assigns.configuration _ _ _ (List.mem_map.2 ⟨_, declares, rfl⟩)
    · cases same
      have agree : ∀ {other : Formula}, Formula.parse derived.source = .ok other →
          other = formula := fun also => Except.ok.inj (also.symm.trans parses)
      rcases List.mem_append.1 member with isDefine | isRule
      · rw [defines] at isDefine
        obtain ⟨⟨declared, line⟩, inside, defined⟩ := List.mem_filterMap.1 isDefine
        cases declared <;> cases defined
        obtain ⟨other, also, holds⟩ :=
          assigns.define _ _ _ (List.mem_map.2 ⟨_, inside, rfl⟩)
        exact agree also ▸ holds
      · rw [rules] at isRule
        obtain ⟨before, name, description, source, line, behind, split, rfl⟩ :=
          Catalog.mem_rulesFrom_iff.1 isRule
        obtain ⟨other, also, holds⟩ := assigns.rule (before.map Prod.fst) name description source
          (behind.map Prod.fst) (by rw [split, List.map_append, List.map_cons])
        exact agree also ▸ holds

/-! ## The output -/

/-- The settled table agrees with every assignment that the declarations ask for. -/
theorem isTrue_settled (lead : stages.Lead store request directory output)
    (solves : stages.seeded.Solves value) {name : String} (known : stages.seeded.contains name) :
    stages.settled.isTrue name = value name := by
  obtain ⟨determined, same⟩ := Table.evaluateAll_eq_withMeaning lead.settles
  have found := ((Table.settled_withMeaning determined).solves_iff value).1 solves name known
  rw [← same] at found
  rw [Table.isTrue, found]
  cases value name <;> rfl

/-- The texts that are left and shown are those that the template means. -/
theorem shown_eq {lists : Option Document.NodeId → List Document.NodeId}
    (listed : stages.tree.Listed lists) (tidy : stages.tree.Tidy F)
    (lead : stages.Lead store request directory output) (solves : stages.seeded.Solves value) :
    (((withoutDeclarations stages.tree).forest.map
      (withoutDeclarations stages.tree).content?).shown stages.settled.isTrue) =
        textsOf F value := by
  have left := shows_withoutDeclarations listed tidy.shows_
  have blocks := tidy.blocksOnly.withoutConnectors none
  rw [left, Forest.shown_withoutDeclarations, Forest.shown_map_some blocks _ List.all_nil, textsOf]
  refine congrArg _ (List.filter_congr fun text member => ?_)
  rw [Bool.eq_iff_iff, List.all_eq_true, List.all_eq_true]
  refine forall₂_congr fun name around => ?_
  have inside : name ∈ (F.withoutConnectors none).blocks :=
    ((Forest.of_mem_texts member).2 name around).resolve_left (nomatch ·)
  rw [isTrue_settled lead solves
    (lead.blocks _ left name (Forest.mem_blocks_withoutDeclarations blocks inside))]

/-- What the steps lead to is the meaning of the template. -/
theorem Stages.Lead.means (lead : stages.Lead store request directory output) :
    ∃ F, stages.tree.Shows F ∧ (∃ value, Assigns F.declarations request value) ∧
      ∀ value, Assigns F.declarations request value →
        RulesHold F.declarations value ∧ Means F request value output := by
  obtain ⟨lists, F, listed, tidy⟩ := Tree.parse_builds lead.parses
  have declared := Catalog.fst_declarationsOf tidy.shows_
  have collects : Catalog.ofDeclarations (Catalog.declarationsOf stages.tree) =
      .ok stages.catalog := (Catalog.extract_eq stages.tree).symm.trans lead.extracts
  obtain ⟨configurations, -, rules, -⟩ := Catalog.ofDeclarations_eq_ok collects
  obtain ⟨determined, -⟩ := Table.evaluateAll_eq_withMeaning lead.settles
  refine ⟨F, tidy.shows_, ⟨_, declared ▸ (solves_iff_assigns collects lead).1 determined.solves⟩,
    fun value assigns => ?_⟩
  have solves : stages.seeded.Solves value :=
    (solves_iff_assigns collects lead).2 (declared.symm ▸ assigns)
  have agrees := fun name => @isTrue_settled _ _ _ _ _ _ lead solves name
  refine ⟨fun before name description source behind split => ?_, ?_⟩
  · obtain ⟨line, member⟩ := Catalog.exists_mem_rulesFrom (declared.trans split)
    rw [← rules] at member
    rw [← agrees _ (contains_of_mem collects lead (List.mem_append_right _ member))]
    exact lead.rules _ member
  · obtain ⟨pieces, substitutes, rfl⟩ := lead.emits
    refine ⟨pieces, ?_, rfl⟩
    have owners : ∀ name description text owner overridable,
        .property name description text (some owner) overridable ∈
          (Catalog.declarationsOf stages.tree).map Prod.fst →
        (stages.catalog.configuration? owner).isSome ∧
          stages.settled.isTrue owner = value owner := by
      intro name description text owner overridable member
      rw [declared] at member
      obtain ⟨description, selected, config⟩ := tidy.owned _ _ _ _ _ member
      rw [← declared] at config
      obtain ⟨⟨_, line⟩, inside, rfl⟩ := List.mem_map.1 config
      have declares : Catalog.Declares (Catalog.declarationsOf stages.tree)
          ⟨owner, description, selected, line⟩ := inside
      have found := (configurations _ _).2 ⟨rfl, declares⟩
      exact ⟨Option.isSome_iff_exists.2 ⟨_, found⟩,
        agrees owner (contains_of_declares collects lead declares)⟩
    rw [shown_eq listed tidy lead solves, scope_eq collects owners, declared] at substitutes
    exact substitutes

end Run

variable {store after : Store} {request : Request} {directory : String} {report : Report}

/-- A request that is carried out reads a template whose rules are all true under the one assignment
that the declarations and the request ask for, and leaves at its destination exactly the text that
the template means under it. -/
theorem configure_writes_meaning
    (configures : configure store request directory = (.ok report, after))
    (written : report.outcome ≠ .skipped) :
    ∃ text tree F, store.readText (Path.join directory request.template) = .ok text ∧
      Tree.parse store text
        ((Path.parent? (Path.join directory request.template)).getD "") = .ok tree ∧
      tree.Shows F ∧ (∃ value, Assigns F.declarations request value) ∧
      ∀ value, Assigns F.declarations request value →
        RulesHold F.declarations value ∧ ∃ output, Means F request value output ∧
          after.readBytes (Path.join directory request.output) = .ok (Bytes.ofText output) := by
  rcases configure_cases configures with ⟨_, same, -⟩ | ⟨_, same, skipped, -⟩ |
    ⟨_, run, same, prepares, commits⟩
  · cases same
  · cases same
    exact absurd skipped written
  cases same
  obtain ⟨-, -, -, stages, lead⟩ := Run.prepare_eq_ok prepares
  obtain ⟨F, shows_, assigned, means⟩ := lead.means
  refine ⟨stages.text, stages.tree, F, lead.reads, lead.parses, shows_, assigned,
    fun value assigns => ?_⟩
  obtain ⟨rules, output⟩ := means value assigns
  exact ⟨rules, run.output, output, commits.readBytes written⟩

/-- A store with one template, which declares a configuration, a property and a rule. -/
def exStore : Store :=
  ⟨[(["t"], .file (Bytes.ofText
    ("<config name=\"a\"></config>\n<property name=\"p\">v</property>\n" ++
      "<require>a</require>\n<a>##p##</a>.")))], []⟩

def exRequest : Request := ⟨"t", "o", ["A"], [], .empty, .yes⟩

theorem exStore_configured : configure exStore exRequest "" =
    (.ok ⟨"o", .created, []⟩, exStore.put ["o"] (.file (Bytes.ofText "\nv."))) := by
  decide +kernel

theorem exStore_writes_meaning :
    ∃ text tree F, exStore.readText (Path.join "" exRequest.template) = .ok text ∧
      Tree.parse exStore text
        ((Path.parent? (Path.join "" exRequest.template)).getD "") = .ok tree ∧
      tree.Shows F ∧ (∃ value, Assigns F.declarations exRequest value) ∧
      ∀ value, Assigns F.declarations exRequest value →
        RulesHold F.declarations value ∧ ∃ output, Means F exRequest value output ∧
          (exStore.put ["o"] (.file (Bytes.ofText "\nv."))).readBytes
            (Path.join "" exRequest.output) = .ok (Bytes.ofText output) :=
  configure_writes_meaning exStore_configured nofun

end ConfigTemplate
