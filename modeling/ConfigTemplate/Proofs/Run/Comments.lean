import ConfigTemplate.Proofs.Document.Comments
import ConfigTemplate.Proofs.Property.Expansion
import ConfigTemplate.Proofs.Run.Meaning

/-!
# Comments and the output

A comment cuts the text around it into two nodes, and the steps of a run take text node by node. So
a marker that a comment cuts in two is none, and blank text that a comment cuts in two is not
removed between declarations. Where no comment does this, comments make no difference to the output.

Results:
1. `Forest.joins_withoutConnectors`: joining adjacent texts joins the texts that count.
2. `Joins.substitutes`: texts that are joined give the same output.
3. `Run.output_of_uncommented`: a run writes what it writes without the comments.
4. `Run.exCut_differs`: a comment that cuts a marker or blank text in two does change the output.
-/

namespace ConfigTemplate

open Document (Content Tree)

/-! ## Texts that can be joined -/

/-- Two texts that hold whole markers, as do all values that come in their places. -/
structure Property.Scope.Splits (scope : Property.Scope) (text more : String) : Prop where
  values : scope.WellFormed
  front : Property.WellFormed text.toList
  back : Property.WellFormed more.toList

/-- Texts that hold whole markers are substituted each on its own. -/
theorem Property.Scope.Splits.substitute {scope : Property.Scope} {text more first second : String}
    (splits : scope.Splits text more) (left : scope.substitute text = .ok first)
    (right : scope.substitute more = .ok second) :
    scope.substitute (text ++ more) = .ok (first ++ second) := by
  have settled : ∀ {text output : String}, scope.substitute text = .ok output →
      ∃ characters, scope.settle Property.maxPasses text.toList = .ok characters ∧
        String.ofList characters = output := by
    intro text output substitutes
    unfold Scope.substitute at substitutes
    cases settles : scope.settle Property.maxPasses text.toList with
    | error cause => rw [settles] at substitutes; cases substitutes
    | ok characters =>
      rw [settles] at substitutes
      cases substitutes
      exact ⟨characters, rfl, rfl⟩
  obtain ⟨front, settles, rfl⟩ := settled left
  obtain ⟨back, settles', rfl⟩ := settled right
  have whole := settle_append splits.values splits.front splits.back settles settles'
  rw [Scope.substitute, String.toList_append, whole]
  exact congrArg Except.ok (String.ofList_append ..)

/-- Texts with the names of the blocks around them, and the same after some that follow each other
have been joined. -/
inductive Joins (scope : Property.Scope) :
    List (List String × String) → List (List String × String) → Prop where
  | nil : Joins scope [] []
  | keep {text : List String × String} {left right : List (List String × String)}
      (further : Joins scope left right) : Joins scope (text :: left) (text :: right)
  | join {around : List String} {text more : String} {left right : List (List String × String)}
      (splits : scope.Splits text more) (further : Joins scope left ((around, more) :: right)) :
      Joins scope ((around, text) :: left) ((around, text ++ more) :: right)

theorem Joins.append {scope : Property.Scope}
    {left right first second : List (List String × String)}
    (front : Joins scope left right) (back : Joins scope first second) :
    Joins scope (left ++ first) (right ++ second) := by
  induction front with
  | nil => exact back
  | keep _ ih => exact .keep ih
  | join splits _ ih => exact .join splits ih

theorem exists_of_mapM_cons {ε α β : Type} {f : α → Except ε β} {head : α} {tail : List α}
    {results : List β} (maps : (head :: tail).mapM f = .ok results) :
    ∃ first rest, f head = .ok first ∧ tail.mapM f = .ok rest ∧ results = first :: rest := by
  rw [List.mapM_cons] at maps
  obtain ⟨first, begins, further⟩ := except_bind_eq_ok maps
  obtain ⟨rest, ends, last⟩ := except_bind_eq_ok further
  cases last
  exact ⟨first, rest, begins, ends, rfl⟩

/-- Texts that are joined give the same output. -/
theorem Joins.substitutes {scope : Property.Scope} {left right : List (List String × String)}
    (joins : Joins scope left right) (holds : String → Bool) {pieces : List String}
    (substitutes :
      ((left.filter (·.1.all holds)).map Prod.snd).mapM scope.substitute = .ok pieces) :
    ∃ whole, ((right.filter (·.1.all holds)).map Prod.snd).mapM scope.substitute = .ok whole ∧
      String.join whole = String.join pieces := by
  induction joins generalizing pieces with
  | nil => exact ⟨pieces, substitutes, rfl⟩
  | @keep text left right _ ih =>
    by_cases shown : text.1.all holds
    · rw [List.filter_cons, if_pos shown, List.map_cons] at substitutes ⊢
      obtain ⟨piece, pieces, first, rest, rfl⟩ := exists_of_mapM_cons substitutes
      obtain ⟨whole, others, same⟩ := ih rest
      exact ⟨piece :: whole, Run.mapM_cons_eq_ok first others,
        by rw [String.join_cons, String.join_cons, same]⟩
    · rw [List.filter_cons, if_neg shown] at substitutes ⊢
      exact ih substitutes
  | @join around text more left right splits _ ih =>
    by_cases shown : around.all holds
    · rw [List.filter_cons, if_pos shown, List.map_cons] at substitutes ⊢
      obtain ⟨piece, pieces, first, rest, rfl⟩ := exists_of_mapM_cons substitutes
      obtain ⟨_, both, same⟩ := ih rest
      rw [List.filter_cons, if_pos shown, List.map_cons] at both
      obtain ⟨next, whole, second, others, rfl⟩ := exists_of_mapM_cons both
      refine ⟨(piece ++ next) :: whole,
        Run.mapM_cons_eq_ok (splits.substitute first second) others, ?_⟩
      rw [String.join_cons, String.join_cons, ← same, String.join_cons, String.append_assoc]
    · rw [List.filter_cons, if_neg shown] at substitutes ⊢
      obtain ⟨whole, others, same⟩ := ih substitutes
      rw [List.filter_cons, if_neg shown] at others
      exact ⟨whole, others, same⟩

/-! ## What no comment may cut -/

namespace Forest

/-- The text that a forest starts with. -/
def headText? : Forest Content → Option String
  | .cons (.text text) _ _ => some text
  | _ => none

/-- Texts that are neighbours hold whole markers. -/
def MarkersWhole (scope : Property.Scope) : Forest Content → Prop
  | .nil => True
  | .cons content children rest =>
    (∀ text more, content = .text text → rest.headText? = some more → scope.Splits text more) ∧
      children.MarkersWhole scope ∧ rest.MarkersWhole scope

/-- Two declarations have at most one blank text between them. -/
def ConnectorsWhole (roots : List Content) : Prop :=
  ∀ before first blanks second behind,
    roots = before ++ first :: (blanks ++ second :: behind) →
    first.isDeclaration → second.isDeclaration → (∀ blank ∈ blanks, blank.isBlankText) →
    blanks.length ≤ 1

theorem ConnectorsWhole.tail {content : Content} {roots : List Content}
    (whole : ConnectorsWhole (content :: roots)) : ConnectorsWhole roots := by
  rintro before first blanks second behind rfl
  exact whole (content :: before) first blanks second behind rfl

theorem ConnectorsWhole.of_append {front roots : List Content}
    (whole : ConnectorsWhole (front ++ roots)) : ConnectorsWhole roots := by
  induction front with
  | nil => exact whole
  | cons content front ih => exact ih whole.tail

variable {scope : Property.Scope} {F : Forest Content}

/-! ## Joining the texts that count -/

theorem mergeTexts_of_headText?_eq_none (other : F.headText? = none) :
    F.mergeTexts.headText? = none ∧ F.mergeTexts.roots.head? = F.roots.head? := by
  cases F with
  | nil => exact ⟨rfl, rfl⟩
  | cons content children rest =>
    cases content with
    | text text => cases other
    | block condition => exact ⟨rfl, rfl⟩
    | declaration declared => cases children <;> exact ⟨rfl, rfl⟩

/-- A text without a text behind it is not joined. -/
theorem mergeTexts_cons_text {text : String} (other : F.headText? = none) :
    (cons (.text text) .nil F).mergeTexts = cons (.text text) .nil F.mergeTexts := by
  have ends := (mergeTexts_of_headText?_eq_none other).1
  rw [mergeTexts]
  generalize F.mergeTexts = behind at ends
  cases behind with
  | nil => rfl
  | cons content children rest => cases content <;> first | rfl | cases ends

/-- The texts that a forest starts with are joined to one. -/
theorem exists_run {first : String} (tidy : F.BlocksOnly) (whole : F.MarkersWhole scope)
    (starts : F.headText? = some first) (proper : Property.WellFormed first.toList) :
    ∃ texts more behind, F.mergeTexts = cons (.text (String.join texts)) .nil behind ∧
      F.roots = texts.map .text ++ more ∧ more.head? = behind.roots.head? ∧ texts ≠ [] ∧
      ∀ text ∈ texts, Property.WellFormed text.toList := by
  induction F generalizing first with
  | nil => cases starts
  | cons content children rest _ ih =>
    cases content with
    | block condition => cases starts
    | declaration declared => cases starts
    | text text =>
      cases starts
      obtain ⟨rfl, further⟩ := tidy
      rcases next : rest.headText? with _ | second
      · refine ⟨[first], rest.roots, rest.mergeTexts, ?_, rfl, ?_, nofun, ?_⟩
        · rw [mergeTexts_cons_text next, String.join_cons, String.join_nil, String.append_empty]
        · exact (mergeTexts_of_headText?_eq_none next).2.symm
        · simpa using proper
      · obtain ⟨texts, more, behind, merged, same, ends, -, all⟩ :=
          ih further whole.2.2 next (whole.1 _ _ rfl next).back
        refine ⟨first :: texts, more, behind, ?_, ?_, ends, nofun, ?_⟩
        · rw [mergeTexts, merged, joinText, String.join_cons]
        · rw [roots, same]
          rfl
        · simpa using ⟨proper, all⟩

theorem wellFormed_join {texts : List String}
    (proper : ∀ text ∈ texts, Property.WellFormed text.toList) :
    Property.WellFormed (String.join texts).toList := by
  induction texts with
  | nil => exact Property.wellFormed_nil
  | cons text texts ih =>
    rw [String.join_cons, String.toList_append]
    exact (proper _ List.mem_cons_self).append
      (ih fun later member => proper later (List.mem_cons_of_mem _ member))

/-- Joining adjacent texts joins the texts of a forest. -/
theorem joins_texts (tidy : F.BlocksOnly) (whole : F.MarkersWhole scope) (around : List String) :
    Joins scope (F.texts around) (F.mergeTexts.texts around) := by
  induction F generalizing around with
  | nil => exact .nil
  | cons content children rest ihChildren ihRest =>
    have later := ihRest tidy.rest whole.2.2 around
    cases content with
    | text text =>
      obtain ⟨rfl, further⟩ := tidy
      rcases next : rest.headText? with _ | second
      · rw [mergeTexts_cons_text next]
        exact .keep later
      · have splits := whole.1 _ _ rfl next
        obtain ⟨texts, -, behind, merged, -, -, -, all⟩ :=
          exists_run further whole.2.2 next splits.back
        rw [merged] at later
        rw [mergeTexts, merged, joinText]
        exact .join { splits with back := wellFormed_join all } later
    | block condition => exact (ihChildren tidy.1 whole.2.1 _).append later
    | declaration declared =>
      obtain ⟨rfl, -⟩ := tidy
      exact later

theorem isBlankText_of_join {texts : List String}
    (blank : (Content.text (String.join texts)).isBlankText) :
    ∀ text ∈ texts, (Content.text text).isBlankText := by
  intro text member
  simp only [Content.isBlankText, String.toList_join, List.all_flatMap, List.all_eq_true] at blank ⊢
  exact blank text member

theorem withoutConnectors_congr {prev other : Option Content}
    (same : prev.any Content.isDeclaration = other.any Content.isDeclaration) :
    F.withoutConnectors prev = F.withoutConnectors other := by
  cases F with
  | nil => rfl
  | cons content children rest =>
    rw [withoutConnectors, withoutConnectors, Run.isConnector_congr fun _ => same]

theorem withoutConnectors_cons {prev : Option Content} {content : Content}
    {children rest : Forest Content} (other : content.isBlankText = false) :
    (cons content children rest).withoutConnectors prev =
      cons content children (rest.withoutConnectors (some content)) := by
  rw [withoutConnectors, if_neg (by simp [isConnector, other])]

/-- Texts that are joined are no connector, if blank text between two declarations is not cut. -/
theorem not_isConnector_join {prev next : Option Content} {text : String} {texts : List String}
    {more : List Content} (some_ : texts ≠ []) (ends : more.head? = next)
    (connectors : ConnectorsWhole (prev.toList ++ .text text :: (texts.map .text ++ more))) :
    ¬ isConnector prev (.text (String.join (text :: texts))) next := by
  intro connects
  simp only [isConnector, Bool.and_eq_true] at connects
  obtain ⟨⟨blank, before⟩, behind⟩ := connects
  obtain ⟨first, rfl, opens⟩ := (Option.any_eq_true _ _).1 before
  obtain ⟨second, rfl, closes⟩ := (Option.any_eq_true _ _).1 behind
  obtain ⟨further, rfl⟩ := List.head?_eq_some_iff.1 ends
  have blanks : ∀ content ∈ (text :: texts).map Content.text, content.isBlankText := by
    simpa using isBlankText_of_join blank
  have short := connectors [] first _ second further rfl opens closes blanks
  simp only [List.length_map, List.length_cons] at short
  exact some_ (List.length_eq_zero_iff.1 (by omega))

/-- Joining adjacent texts joins the texts that count. -/
theorem joins_withoutConnectors {prev : Option Content} (tidy : F.BlocksOnly)
    (whole : F.MarkersWhole scope) (connectors : ConnectorsWhole (prev.toList ++ F.roots))
    (around : List String) :
    Joins scope ((F.withoutConnectors prev).texts around)
      ((F.mergeTexts.withoutConnectors prev).texts around) := by
  induction F generalizing prev with
  | nil => exact .nil
  | cons content children rest _ ih =>
    have later := @ih (some content) tidy.rest whole.2.2 connectors.of_append
    cases content with
    | text text =>
      obtain ⟨rfl, further⟩ := tidy
      rcases next : rest.headText? with _ | second
      · rw [mergeTexts_cons_text next, withoutConnectors, withoutConnectors,
          (mergeTexts_of_headText?_eq_none next).2]
        split
        · exact later
        · exact .keep later
      · have splits := whole.1 _ _ rfl next
        obtain ⟨texts, more, behind, merged, same, ends, some_, all⟩ :=
          exists_run further whole.2.2 next splits.back
        rw [roots, same] at connectors
        have apart := not_isConnector_join some_ ends connectors
        -- Next to a text no text is a connector.
        have stays : ¬ isConnector prev (.text text) rest.roots.head? := by
          cases rest with
          | nil => cases next
          | cons content children rest =>
            cases content <;> cases next
            simp [isConnector, roots, Content.isDeclaration]
        have kept : ¬ isConnector (some (.text text)) (.text (String.join texts))
            behind.roots.head? := by
          simp [isConnector, Content.isDeclaration]
        have onward : behind.withoutConnectors (some (.text (String.join (text :: texts)))) =
            behind.withoutConnectors (some (.text (String.join texts))) :=
          withoutConnectors_congr rfl
        rw [merged, withoutConnectors, if_neg kept] at later
        rw [mergeTexts, merged, joinText, ← String.join_cons, withoutConnectors, if_neg stays,
          withoutConnectors, if_neg apart, onward, String.join_cons]
        exact .join { splits with back := wellFormed_join all } later
    | block condition =>
      rw [mergeTexts, withoutConnectors_cons rfl, withoutConnectors_cons rfl]
      · exact (joins_texts tidy.1 whole.2.1 _).append later
      · intro text same
        cases same
    | declaration declared =>
      obtain ⟨rfl, -⟩ := tidy
      rw [mergeTexts, withoutConnectors_cons rfl, withoutConnectors_cons rfl]
      · exact later
      · intro text same
        cases same

theorem declarations_joinText (text : String) (F : Forest Content) :
    (F.joinText text).declarations = F.declarations := by
  cases F with
  | nil => rfl
  | cons content children rest => cases content <;> rfl

theorem declarations_cons (content : Content) (children rest : Forest Content) :
    (cons content children rest).declarations =
      (cons content .nil .nil).declarations ++ (children.declarations ++ rest.declarations) := by
  rw [declarations, declarations, declarations, declarations, ← List.filterMap_append,
    ← List.filterMap_append]
  rfl

/-- Joining texts leaves the declarations as they are. -/
theorem declarations_mergeTexts (F : Forest Content) :
    F.mergeTexts.declarations = F.declarations := by
  fun_induction mergeTexts F with
  | case1 => rfl
  | case2 text rest ih => rw [declarations_joinText, ih, declarations_cons]; rfl
  | case3 content children rest _ ihChildren ihRest =>
    rw [declarations_cons, ihChildren, ihRest, ← declarations_cons]

end Forest

/-! ## Runs without comments -/

/-- Joining adjacent texts does not change what a template means, if no comment cuts a marker or
blank text between declarations. -/
theorem Means.mergeTexts {F : Forest Content} {request : Request} {value : String → Bool}
    {output : String} (means : Means F request value output) (tidy : F.BlocksOnly)
    (markers : F.MarkersWhole (request.scope F.declarations value))
    (connectors : Forest.ConnectorsWhole F.roots) :
    Means F.mergeTexts request value output := by
  obtain ⟨pieces, substitutes, rfl⟩ := means
  have joins := @Forest.joins_withoutConnectors _ F none tidy markers connectors []
  obtain ⟨whole, others, same⟩ := joins.substitutes value substitutes
  refine ⟨whole, ?_, same.symm⟩
  rw [Forest.declarations_mergeTexts]
  exact others

theorem Means.unique {F : Forest Content} {request : Request} {value : String → Bool}
    {first second : String} (means : Means F request value first)
    (also : Means F request value second) : first = second := by
  obtain ⟨pieces, substitutes, rfl⟩ := means
  obtain ⟨others, substitutes', rfl⟩ := also
  rw [Except.ok.inj (substitutes.symm.trans substitutes')]

namespace Run

/-- A run writes what it writes without the comments of the template, if no comment cuts a marker or
blank text between declarations, and no value has a part of a marker that could become one. -/
theorem output_of_uncommented {store other : Store} {request : Request}
    {directory text plain : String} {tree : Tree} {F : Forest Content} {value : String → Bool}
    {run later : Run}
    (reads : store.readText (Path.join directory request.template) = .ok text)
    (readsPlain : other.readText (Path.join directory request.template) = .ok plain)
    (uncommented : Markup.Uncommented text.toList plain.toList)
    (parses : Tree.parse store text
      ((Path.parent? (Path.join directory request.template)).getD "") = .ok tree)
    (shown : tree.Shows F) (assigns : Assigns F.declarations request value)
    (markers : F.MarkersWhole (request.scope F.declarations value))
    (connectors : Forest.ConnectorsWhole F.roots)
    (prepares : prepare store request directory = (.ok (), run))
    (preparesPlain : prepare other request directory = (.ok (), later)) :
    run.output = later.output := by
  obtain ⟨-, -, -, stages, lead⟩ := prepare_eq_ok prepares
  obtain ⟨-, -, -, stagesPlain, leadPlain⟩ := prepare_eq_ok preparesPlain
  cases lead.reads.symm.trans reads
  cases leadPlain.reads.symm.trans readsPlain
  cases lead.parses.symm.trans parses
  obtain ⟨again, G, parsesPlain, shown', shownPlain⟩ :=
    Document.Tree.parse_uncommented parses uncommented other _
  cases leadPlain.parses.symm.trans parsesPlain
  cases shown.unique shown'
  obtain ⟨_, G, -, tidy⟩ := Tree.parse_builds parses
  cases shown.unique tidy.shows_
  obtain ⟨G, shows_, -, means⟩ := lead.means
  cases shown.unique shows_
  obtain ⟨G, shows_, -, meansPlain⟩ := leadPlain.means
  cases shownPlain.unique shows_
  have assignsPlain : Assigns F.mergeTexts.declarations request value := by
    rwa [Forest.declarations_mergeTexts]
  have merged := (means value assigns).2.mergeTexts tidy.blocksOnly markers connectors
  exact merged.unique (meansPlain value assignsPlain).2

def exPlainRequest : Request := ⟨"t", "o", [], [], .empty, .yes⟩

/-- The run of a template. -/
def exRun (text : String) : Run := (prepare (exTemplate text) exPlainRequest "").2

/-- The declaration of a property in a template. -/
def exProperty (name value : String) : List Char :=
  (Markup.Tag.opening "property" [("name", name)] false).render ++
    (value.toList ++ (Markup.Tag.closing "property").render)

theorem exProperty_uncommented {name value : String} (plain : '<' ∉ value.toList)
    {rest out : List Char} (further : Markup.Uncommented rest out) :
    Markup.Uncommented (exProperty name value ++ rest) (exProperty name value ++ out) := by
  have opens : (Markup.Tag.opening "property" [("name", name)] false).Named :=
    ⟨by decide, fun binding member => by
      obtain rfl := List.mem_singleton.1 member
      show Markup.isName "name"
      decide⟩
  have closes : (Markup.Tag.closing "property").Named := show Markup.isName "property" by decide
  simp only [exProperty, List.append_assoc]
  exact .tag (Markup.Tag.written_render opens) rfl
    (.prepend plain (.tag (Markup.Tag.written_render closes) rfl further))

/-- A text with a comment in it. -/
def exComment (front back : List Char) : List Char :=
  front ++ (Markup.commentStart ++ (" c ".toList ++ (Markup.commentEnd ++ back)))

theorem exComment_uncommented {front back out : List Char} (plain : '<' ∉ front)
    (further : Markup.Uncommented (Markup.behindComment back) out) :
    Markup.Uncommented (exComment front back) (front ++ out) :=
  have upToEnd : Markup.CommentBody " c ".toList := by unfold Markup.CommentBody; decide
  .prepend plain (.comment upToEnd further)

/-- A comment between a marker and plain text. -/
def exApart : String := "<property name=\"p\">v</property>##p##<!-- c -->!"

def exApartPlain : String := "<property name=\"p\">v</property>##p##!"

theorem exApart_uncommented : Markup.Uncommented exApart.toList exApartPlain.toList := by
  have whole : exApart.toList = exProperty "p" "v" ++ exComment "##p##".toList ['!'] := by decide
  have plain : exApartPlain.toList = exProperty "p" "v" ++ ("##p##".toList ++ ['!']) := by decide
  rw [whole, plain]
  exact exProperty_uncommented (by decide)
    (exComment_uncommented (by decide) (.char (by decide) .nil))

/-- What the template with this comment holds. -/
def exApartForest : Forest Content :=
  .cons (.declaration (.property "p" "" "v" none true)) .nil
    (.cons (.text "##p##") .nil (.cons (.text "!") .nil .nil))

theorem exApart_parses : ∃ tree : Tree,
    Tree.parse (exTemplate exApart) exApart ((Path.parent? (Path.join "" "t")).getD "") = .ok tree ∧
      tree.Shows exApartForest := by
  have parsed : (Tree.parse (exTemplate exApart) exApart
      ((Path.parent? (Path.join "" "t")).getD "")).map (fun tree => tree.forest.map tree.content?) =
        .ok (exApartForest.map some) := by
    decide +kernel
  generalize Tree.parse _ _ _ = result at parsed ⊢
  cases result with
  | error cause => cases parsed
  | ok tree => exact ⟨tree, rfl, Except.ok.inj parsed⟩

theorem exApart_assigns :
    Assigns exApartForest.declarations exPlainRequest fun _ => false := by
  have only : ∀ declared ∈ exApartForest.declarations,
      declared = .property "p" "" "v" none true := fun _ => List.mem_singleton.1
  refine ⟨fun _ _ _ member => (nomatch only _ member), fun _ _ _ member => (nomatch only _ member),
    fun before name description source behind split => ?_⟩
  have member : .require name description source ∈ exApartForest.declarations := by simp [split]
  exact nomatch only _ member

theorem exApart_splits :
    (exPlainRequest.scope exApartForest.declarations fun _ => false).Splits "##p##" "!" where
  values name := by
    have holds : (exPlainRequest.scope exApartForest.declarations fun _ => false) =
        ⟨⟨[("p", "v")], by decide⟩, []⟩ := by decide +kernel
    rw [holds]
    by_cases named : name = "p"
    · subst named
      exact ⟨[.plain ['v'] ⟨by decide, nofun, nofun⟩], by cbv⟩
    · have unknown : (⟨⟨[("p", "v")], by decide⟩, []⟩ : Property.Scope).get name = "" := by
        simp [Property.Scope.get, NameMap.get?, NameMap.findEntry, Ne.symm named]
      rw [unknown]
      exact Property.wellFormed_nil
  front := ⟨[.marker ⟨[], ['p'], [], rfl, by decide, rfl⟩], by cbv⟩
  back := ⟨[.plain ['!'] ⟨by decide, nofun, nofun⟩], by cbv⟩

theorem exApart_markersWhole :
    exApartForest.MarkersWhole
      (exPlainRequest.scope exApartForest.declarations fun _ => false) := by
  refine ⟨nofun, trivial, fun text more same next => ?_, trivial, nofun, trivial, trivial⟩
  cases same
  cases next
  exact exApart_splits

theorem exApart_connectorsWhole : Forest.ConnectorsWhole exApartForest.roots := by
  intro before first blanks second behind same opens closes _
  have counted := congrArg (List.countP Content.isDeclaration) same
  have one : exApartForest.roots.countP Content.isDeclaration = 1 := by decide
  rw [one] at counted
  simp [List.countP_append, opens, closes] at counted
  omega

/-- The comment makes no difference to the output. -/
theorem exApart_output : ∃ tree : Tree,
    Markup.Uncommented exApart.toList exApartPlain.toList ∧
      Tree.parse (exTemplate exApart) exApart ((Path.parent? (Path.join "" "t")).getD "") =
        .ok tree ∧ tree.Shows exApartForest ∧
      prepare (exTemplate exApart) exPlainRequest "" = (.ok (), exRun exApart) ∧
      prepare (exTemplate exApartPlain) exPlainRequest "" = (.ok (), exRun exApartPlain) ∧
      (exRun exApart).output = "v!" ∧ (exRun exApart).output = (exRun exApartPlain).output := by
  obtain ⟨tree, parses, shown⟩ := exApart_parses
  have runs : prepare (exTemplate exApart) exPlainRequest "" = (.ok (), exRun exApart) ∧
      prepare (exTemplate exApartPlain) exPlainRequest "" = (.ok (), exRun exApartPlain) ∧
      (exRun exApart).output = "v!" := by
    decide +kernel
  obtain ⟨prepares, preparesPlain, output⟩ := runs
  have reads : (exTemplate exApart).readText (Path.join "" exPlainRequest.template) =
      .ok exApart := by
    decide +kernel
  have readsPlain : (exTemplate exApartPlain).readText (Path.join "" exPlainRequest.template) =
      .ok exApartPlain := by
    decide +kernel
  refine ⟨tree, exApart_uncommented, parses, shown, prepares, preparesPlain, output, ?_⟩
  exact output_of_uncommented reads readsPlain exApart_uncommented parses shown
    exApart_assigns exApart_markersWhole exApart_connectorsWhole prepares preparesPlain

/-- A comment inside of a marker. -/
def exCut : String := "<property name=\"NAME\">v</property>##NA<!-- c -->ME##"

def exUncut : String := "<property name=\"NAME\">v</property>##NAME##"

/-- A comment in the blank text between two declarations. -/
def exGap : String :=
  "<property name=\"A\">v</property> <!-- c --> <property name=\"B\">w</property>"

def exNoGap : String :=
  "<property name=\"A\">v</property>  <property name=\"B\">w</property>"

/-- A comment that cuts a marker or blank text in two does change the output. -/
theorem exCut_differs :
    (Markup.Uncommented exCut.toList exUncut.toList ∧
      prepare (exTemplate exCut) exPlainRequest "" = (.ok (), exRun exCut) ∧
      prepare (exTemplate exUncut) exPlainRequest "" = (.ok (), exRun exUncut) ∧
      (exRun exCut).output = "##NAME##" ∧ (exRun exUncut).output = "v") ∧
    Markup.Uncommented exGap.toList exNoGap.toList ∧
      prepare (exTemplate exGap) exPlainRequest "" = (.ok (), exRun exGap) ∧
      prepare (exTemplate exNoGap) exPlainRequest "" = (.ok (), exRun exNoGap) ∧
      (exRun exGap).output = "  " ∧ (exRun exNoGap).output = "" := by
  refine ⟨⟨?_, ?_⟩, ?_, ?_⟩
  · have whole : exCut.toList = exProperty "NAME" "v" ++ exComment "##NA".toList "ME##".toList := by
      decide
    have plain : exUncut.toList = exProperty "NAME" "v" ++ ("##NA".toList ++ "ME##".toList) := by
      decide
    rw [whole, plain]
    exact exProperty_uncommented (by decide) (exComment_uncommented (by decide)
      (.of_plain (by decide)))
  · decide +kernel
  · have whole : exGap.toList =
        exProperty "A" "v" ++ exComment [' '] (' ' :: (exProperty "B" "w" ++ [])) := by
      decide
    have plain : exNoGap.toList =
        exProperty "A" "v" ++ ([' '] ++ ' ' :: (exProperty "B" "w" ++ [])) := by
      decide
    rw [whole, plain]
    exact exProperty_uncommented (by decide) (exComment_uncommented (by decide)
      (.char (by decide) (exProperty_uncommented (by decide) .nil)))
  · decide +kernel

end Run

end ConfigTemplate
