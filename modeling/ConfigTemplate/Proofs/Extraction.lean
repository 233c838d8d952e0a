import ConfigTemplate.Proofs.Catalog
import ConfigTemplate.Proofs.Document.Walk

/-!
# What is extracted from a tree

The catalog of a tree is described by the declarations that a walk along its links comes by. It
holds all of them: two configurations whose names differ only in case are the one reason to fail.

Results:
1. `collects_or_repeats`: configurations are collected up to the first repeated name.
2. `ofDeclarations_records`: what a catalog holds, in the order of the declarations.
3. `extract_exact`: both, for the visit of every tree that edits have made.
-/

namespace ConfigTemplate

open Document (Declaration Edit Node NodeId Tree)

namespace Catalog

variable {declarations before behind : List (Declaration × Nat)} {cause : DuplicateConfiguration}
  {result : NameMap Configuration} {configuration : Configuration}

/-! ## Configurations -/

/-- The cause is the first configuration with a name that an earlier one has, but for case, and the
line of the earlier one. -/
def Repeats (declarations : List (Declaration × Nat)) (cause : DuplicateConfiguration) : Prop :=
  ∃ before description selected behind,
    declarations = before ++ (.config cause.name description selected, cause.line) :: behind ∧
    ((configurationsOf before).map Configuration.key).Nodup ∧
    ∃ first ∈ configurationsOf before,
      first.key = Text.lowerCase cause.name ∧ first.line = cause.firstLine

theorem configurationsOf_append (before behind : List (Declaration × Nat)) :
    configurationsOf (before ++ behind) = configurationsOf before ++ configurationsOf behind :=
  List.filterMap_append

/-- What has been collected is found by its names in lower case. -/
theorem get?_collected
    (collects : (configurationsOf declarations).foldlM addConfiguration .empty = .ok result)
    {key : String} : result.get? key = some configuration ↔
      configuration.key = key ∧ configuration ∈ configurationsOf declarations := by
  rw [get?_foldlM_addConfiguration collects]
  simp

/-- Collecting configurations ends well if their names are distinct, and at the first repeated one
otherwise. -/
theorem collects_or_repeats (declarations : List (Declaration × Nat)) :
    match (configurationsOf declarations).foldlM addConfiguration .empty with
    | .ok _ => ((configurationsOf declarations).map Configuration.key).Nodup
    | .error cause => Repeats declarations cause := by
  induction declarations using List.reverseRecOn with
  | nil => exact List.nodup_nil
  | append_singleton before last ih =>
    rw [configurationsOf_append, List.foldlM_append, List.map_append]
    rcases collects : (configurationsOf before).foldlM addConfiguration .empty with cause | collected
    · rw [collects] at ih
      obtain ⟨front, description, selected, behind, rfl, rest⟩ := ih
      exact ⟨front, description, selected, behind ++ [last], by simp, rest⟩
    · rw [collects] at ih
      obtain ⟨declared, line⟩ := last
      cases declared with
      | config name description selected =>
        let new : Configuration := ⟨name, description, selected, line⟩
        show match (addConfiguration collected new >>= fun more => [].foldlM addConfiguration more)
          with | .ok _ => _ | .error cause => _
        rw [addConfiguration]
        rcases taken : collected.get? new.key with _ | first
        · refine List.nodup_append.2 ⟨ih, List.pairwise_singleton _ _, ?_⟩
          intro key member other isNew same
          obtain ⟨earlier, declared, rfl⟩ := List.mem_map.1 member
          have found := (get?_collected collects).2 ⟨rfl, declared⟩
          rw [same, List.mem_singleton.1 isNew] at found
          cases taken.symm.trans found
        · obtain ⟨same, declared⟩ := (get?_collected collects).1 taken
          exact ⟨before, description, selected, [], rfl, ih, first, declared, same, rfl⟩
      | project | define | require | property =>
        show (_ ++ []).Nodup
        rwa [List.append_nil]

/-- A repeated name shows in the names of all configurations. -/
theorem Repeats.not_nodup (repeats : Repeats declarations cause) :
    ¬ ((configurationsOf declarations).map Configuration.key).Nodup := by
  obtain ⟨before, description, selected, behind, rfl, -, first, declared, same, -⟩ := repeats
  intro distinct
  rw [configurationsOf_append, List.map_append] at distinct
  refine (List.nodup_append.1 distinct).2.2 _ (List.mem_map_of_mem declared) _ ?_ same
  exact List.mem_cons_self

/-- Only one name is the first that is repeated, so this is the one that is reported. -/
theorem Repeats.reported (repeats : Repeats declarations cause) :
    (configurationsOf declarations).foldlM addConfiguration .empty = .error cause := by
  obtain ⟨before, description, selected, behind, rfl, distinct, first, declared, same, line⟩ :=
    repeats
  have collectsBefore := collects_or_repeats before
  rcases collects : (configurationsOf before).foldlM addConfiguration .empty with other | collected
  · rw [collects] at collectsBefore
    exact absurd distinct collectsBefore.not_nodup
  · have taken : collected.get? (Text.lowerCase cause.name) = some first :=
      (get?_collected collects).2 ⟨same, declared⟩
    have reported : ⟨cause.name, cause.line, first.line⟩ = cause := by rw [line]
    rw [configurationsOf_append, List.foldlM_append, collects]
    show List.foldlM addConfiguration collected (⟨cause.name, _, _, _⟩ :: _) = _
    rw [List.foldlM_cons, addConfiguration, Configuration.key, taken]
    exact congrArg Except.error reported

theorem collect_eq_error :
    (configurationsOf declarations).foldlM addConfiguration .empty = .error cause ↔
      Repeats declarations cause := by
  refine ⟨fun fails => ?_, Repeats.reported⟩
  have repeats := collects_or_repeats declarations
  rwa [fails] at repeats

theorem exists_repeats_iff : (∃ cause, Repeats declarations cause) ↔
    ¬ ((configurationsOf declarations).map Configuration.key).Nodup := by
  constructor
  · rintro ⟨cause, repeats⟩
    exact repeats.not_nodup
  · intro clash
    have repeats := collects_or_repeats declarations
    rcases collects : (configurationsOf declarations).foldlM addConfiguration .empty with
      cause | collected
    · rw [collects] at repeats
      exact ⟨cause, repeats⟩
    · rw [collects] at repeats
      exact absurd repeats clash

/-! ## Rules -/

def isRule : Declaration × Nat → Bool
  | (.require _ _ _, _) => true
  | _ => false

theorem length_rulesFrom (number : Nat) (declarations : List (Declaration × Nat)) :
    (rulesFrom number declarations).length = declarations.countP isRule := by
  induction declarations generalizing number with
  | nil => rfl
  | cons head rest ih =>
    obtain ⟨declared, line⟩ := head
    cases declared with
    | require name description source =>
      cases name <;> simp [rulesFrom, List.countP_cons, isRule, ih]
    | project | config | define | property => simp [rulesFrom, isRule, ih]

/-- The place and the name of a rule, by the declarations before it. -/
theorem getElem?_rulesFrom {name : Option String} {description source : String} {line : Nat}
    (split : declarations = before ++ (.require name description source, line) :: behind) :
    (rulesFrom 1 declarations)[before.countP isRule]? =
      some ⟨ruleName (before.map Prod.fst) name, description, source, line⟩ := by
  rw [split, rulesFrom_append, ← length_rulesFrom 1 before, List.getElem?_append_right (le_refl _),
    Nat.sub_self]
  cases name <;> rfl

/-! ## The catalog -/

/-- The catalog holds what the declarations say, with their lines and in their order. -/
structure Records (declarations : List (Declaration × Nat)) (catalog : Catalog) : Prop where
  /-- The last project counts. -/
  project : catalog.project = (declarations.filterMap projectOf).getLast?
  defines : catalog.defines = declarations.filterMap defineOf
  properties : catalog.properties = declarations.filterMap propertyOf
  rules : catalog.rules.length = declarations.countP isRule
  /-- A rule without a name is called by its number among such rules. -/
  rule : ∀ before name description source line behind,
    declarations = before ++ (.require name description source, line) :: behind →
    catalog.rules[before.countP isRule]? =
      some ⟨name.getD ("$rule" ++ toString (1 + (before.map Prod.fst).countP isAnonymousRule)),
        description, source, line⟩
  configurations : ∀ configuration, configuration ∈ catalog.configurations.values ↔
    configuration ∈ configurationsOf declarations
  configuration : ∀ name configuration, catalog.configuration? name = some configuration ↔
    configuration ∈ configurationsOf declarations ∧ configuration.key = Text.lowerCase name

theorem ofDeclarations_records {catalog : Catalog}
    (collects : ofDeclarations declarations = .ok catalog) : Records declarations catalog := by
  obtain ⟨configurations, adds, same⟩ := except_bind_eq_ok collects
  cases same
  refine ⟨rfl, rfl, rfl, length_rulesFrom 1 declarations, ?rule, ?configurations, ?configuration⟩
  case rule => exact fun before name description source line behind => getElem?_rulesFrom
  case configurations =>
    intro configuration
    rw [NameMap.mem_values_iff]
    simp only [get?_collected adds]
    exact ⟨fun ⟨_, _, declared⟩ => declared, fun declared => ⟨_, rfl, declared⟩⟩
  case configuration =>
    intro name configuration
    exact (get?_collected adds).trans and_comm

theorem ofDeclarations_eq_error :
    ofDeclarations declarations = .error cause ↔ Repeats declarations cause := by
  rw [← collect_eq_error, ofDeclarations]
  rcases (configurationsOf declarations).foldlM addConfiguration .empty with other | configurations
  · show Except.error other = _ ↔ _
    rw [Except.error.injEq, Except.error.injEq]
  · constructor
    · rintro ⟨⟩
    · rintro ⟨⟩

/-- The walk along the links of a tree comes to an end, and extraction loses none of the
declarations that it comes by: it fails if two configurations have the same name but for case, at
the first one that repeats a name, and the catalog holds all declarations otherwise. -/
theorem extract_exact (edits : List Edit) (known : Edit.Known 0 edits) :
    let tree := Tree.edited edits
    (∃ nodes, tree.Walk tree.first nodes) ∧ ∀ nodes, tree.Walk tree.first nodes →
      let declarations := declarationsIn nodes
      ((∃ cause, extract tree = .error cause) ↔
        ¬ ((configurationsOf declarations).map Configuration.key).Nodup) ∧
      (∀ cause, extract tree = .error cause ↔ Repeats declarations cause) ∧
      ∀ catalog, extract tree = .ok catalog → Records declarations catalog := by
  intro tree
  have walk : tree.Walk tree.first (tree.levels.map Prod.snd) :=
    (Tree.ordered_edited known).walk_levels
  refine ⟨⟨_, walk⟩, ?_⟩
  intro nodes other declarations
  have extracted : extract tree = ofDeclarations declarations := by
    rw [extract_eq, declarationsOf, walk.unique other]
  rw [extracted]
  refine ⟨?_, fun cause => ofDeclarations_eq_error, fun catalog => ofDeclarations_records⟩
  simp only [ofDeclarations_eq_error]
  exact exists_repeats_iff

/-- Rules without names before and inside a block with a configuration, and behind it a rule with a
name and a configuration that repeats the name of the first one. -/
def exDeclared : List Edit :=
  [.append none (.declaration (.require none "" "x")) 1, .append none (.block "x") 2,
    .append (some 1) (.declaration (.config "X" "" true)) 3,
    .append (some 1) (.declaration (.require none "" "x")) 4,
    .append none (.declaration (.require (some "r") "" "x")) 5,
    .append none (.declaration (.config "x" "" false)) 6]

/-- The repeated name is reported as long as the second configuration is part of the tree. -/
theorem exDeclared_extracted :
    Edit.Known 0 exDeclared ∧
    extract (Tree.edited exDeclared) = .error ⟨"x", 6, 3⟩ ∧
    Edit.Known 0 (exDeclared ++ [.remove 5]) ∧
    ∃ catalog, extract (Tree.edited (exDeclared ++ [.remove 5])) = .ok catalog ∧
      catalog.rules.length = 3 ∧ catalog.rules[1]? = some ⟨"$rule2", "", "x", 4⟩ ∧
      catalog.configuration? "x" = some ⟨"X", "", true, 3⟩ := by
  have known : Edit.Known 0 exDeclared := by simp [Edit.Known, exDeclared]
  have knownToo : Edit.Known 0 (exDeclared ++ [.remove 5]) := by simp [Edit.Known, exDeclared]
  let before : List (Declaration × Nat) := [(.require none "" "x", 1), (.config "X" "" true, 3)]
  let behind : List (Declaration × Nat) :=
    [(.require none "" "x", 4), (.require (some "r") "" "x", 5)]
  obtain ⟨-, fails, -⟩ := (extract_exact _ known).2 _ (Tree.ordered_edited known).walk_levels
  obtain ⟨clash, -, records⟩ :=
    (extract_exact _ knownToo).2 _ (Tree.ordered_edited knownToo).walk_levels
  have declared : declarationsIn ((Tree.edited exDeclared).levels.map Prod.snd) =
      before ++ behind ++ [(.config "x" "" false, 6)] := by decide +kernel
  have left : declarationsIn ((Tree.edited (exDeclared ++ [.remove 5])).levels.map Prod.snd) =
      before ++ behind := by decide +kernel
  have repeats : Repeats (before ++ behind ++ [(.config "x" "" false, 6)]) ⟨"x", 6, 3⟩ :=
    ⟨before ++ behind, "", false, [], rfl, by decide +kernel, ⟨"X", "", true, 3⟩,
      by decide +kernel, by decide +kernel, rfl⟩
  rw [left] at clash records
  refine ⟨known, (fails _).2 (declared ▸ repeats), knownToo, ?_⟩
  cases collects : extract (Tree.edited (exDeclared ++ [.remove 5])) with
  | error cause => exact absurd (by decide +kernel) (clash.1 ⟨cause, collects⟩)
  | ok catalog =>
    have holds := records catalog collects
    have second : catalog.rules[1]? = some ⟨"$rule" ++ toString 2, "", "x", 4⟩ :=
      holds.rule before none "" "x" 4 [(.require (some "r") "" "x", 5)] rfl
    have called : "$rule" ++ toString 2 = "$rule2" := by decide +kernel
    rw [called] at second
    have found := (holds.configuration "x" ⟨"X", "", true, 3⟩).2
      ⟨by decide +kernel, by decide +kernel⟩
    exact ⟨catalog, rfl, holds.rules, second, found⟩

end Catalog

end ConfigTemplate
