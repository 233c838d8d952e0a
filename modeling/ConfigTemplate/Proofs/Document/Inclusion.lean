import ConfigTemplate.Proofs.Document.Merging
import ConfigTemplate.Proofs.Document.Rendering
import ConfigTemplate.Proofs.Markup.Inclusion

/-!
# Templates that include files

Including files means putting them in their places. If a template can be parsed, then so can its
expansion, and their trees say the same: they are equal but for lines, and for texts that are cut
where a file starts or ends.

Results:
1. `Feeds.prepend`: two texts in a row are fed to a sketch like one, if only characters count.
2. `expandsFrom`: what is parsed is fed to the sketch as the expansion of what is left.
3. `Tree.parse_expansion`: a template and its expansion have the same tree.
-/

namespace ConfigTemplate

/-! ## Parses that succeed -/

namespace Markup.Reader

variable {σ : Type} {store : Store} {handler : Handler σ} {r middle last : Reader}
  {state later final : σ} {event : Event}

theorem nextEvent_of_parse (parses : r.parse store handler state = (.ok (), last, final)) :
    ∃ found after, nextEvent r = (.ok found, after) := by
  unfold Reader.parse at parses
  split at parses
  · cases parses
  · exact ⟨_, _, ‹_›⟩
  · exact ⟨_, _, ‹_›⟩

theorem answer_of_parse (found : nextEvent r = (.ok (some event), middle))
    (parses : r.parse store handler state = (.ok (), last, final)) :
    ∃ answer later, handler.receive event state = (.ok answer, later) := by
  rw [parse_event found] at parses
  split at parses
  · cases parses
  · exact ⟨_, _, ‹_›⟩
  · exact ⟨_, _, ‹_›⟩

theorem included_of_parse (found : nextEvent r = (.ok (some event), middle)) {path : String}
    (answer : handler.receive event state = (.ok (some path), later))
    (parses : r.parse store handler state = (.ok (), last, final)) :
    ∃ included, includeFile store middle path = .ok included ∧
      included.parse store handler later = (.ok (), last, final) := by
  rw [parse_event found, answer] at parses
  dsimp only at parses
  split at parses
  · cases parses
  · exact ⟨_, ‹_›, parses⟩

end Markup.Reader

namespace Document

open Markup

/-! ## When a sketch asks for a file -/

namespace Sketch

variable {α : Type} {put : Nat × Content → List α} {sketch later : Sketch α} {answer : Option String}
  {name text : String} {attributes : Attributes} {line : Nat}

theorem receive_text (received : sketch.receive put (.text text line) = some (answer, later)) :
    answer = none ∧ sketch.onText put text = some later ∧
      later.pendingInclude = sketch.pendingInclude := by
  obtain ⟨middle, writes, same⟩ := Option.map_eq_some_iff.1 received
  cases same
  refine ⟨rfl, writes, ?_⟩
  unfold onText at writes
  split at writes
  · obtain ⟨_, -, rfl⟩ := Option.map_eq_some_iff.1 writes
    rfl
  · cases writes
    rfl

theorem pendingInclude_of_onOpen (ordinary : name ≠ "include")
    (opens : sketch.onOpen put name attributes = some later) :
    later.pendingInclude = sketch.pendingInclude := by
  unfold onOpen at opens
  split at opens
  · obtain ⟨_, -, rfl⟩ := Option.map_eq_some_iff.1 opens
    rfl
  split at opens
  · obtain ⟨_, -, rfl⟩ := Option.map_eq_some_iff.1 opens
    rfl
  · rw [if_neg ordinary] at opens
    cases opens
    rfl

theorem answer_of_onClose (idle : sketch.pendingInclude = none)
    (closes : sketch.onClose put name = some (answer, later)) :
    answer = none ∧ later.pendingInclude = none := by
  unfold onClose at closes
  split at closes
  · obtain ⟨left, -, same⟩ := Option.map_eq_some_iff.1 closes
    cases left <;> cases same <;> exact ⟨rfl, idle⟩
  · rw [idle] at closes
    obtain ⟨closed, block, same⟩ := Option.map_eq_some_iff.1 closes
    cases same
    refine ⟨rfl, ?_⟩
    unfold closeBlock at block
    split at block
    · split at block
      · cases block
        exact idle
      · cases block
    · cases block

/-- A tag that opens no `include` element does not ask for a file, unless such an element is open. -/
theorem receive_ordinary {tag : Tag} (ordinary : tag.opensInclude = false)
    (idle : sketch.pendingInclude = none)
    (received : sketch.receive put (tag.event line) = some (answer, later)) :
    answer = none ∧ later.pendingInclude = none := by
  cases tag with
  | closing name => exact answer_of_onClose idle received
  | opening name attributes selfClosing =>
    obtain ⟨middle, opens, closes⟩ := Option.bind_eq_some_iff.1 received
    have differs : name ≠ "include" := by simpa [Tag.opensInclude] using ordinary
    have still := (pendingInclude_of_onOpen differs opens).trans idle
    cases selfClosing with
    | true => exact answer_of_onClose still closes
    | false =>
      cases closes
      exact ⟨rfl, still⟩

/-- An `include` element can only be opened outside of declarations, and it must have a path. -/
theorem onOpen_include (idle : sketch.pendingInclude = none)
    (opens : sketch.onOpen put "include" attributes = some later) :
    sketch.declarations = [] ∧ ∃ path, attributes.get? "path" = some path ∧
      later = { sketch with pendingInclude := some path } := by
  unfold onOpen at opens
  split at opens
  · rename_i current outer isOpen
    obtain ⟨opened, inside, -⟩ := Option.map_eq_some_iff.1 opens
    have refused : (current.openInside "include" attributes 0).toOption = none := by
      cases described : current.inDescription <;>
        simp [OpenDeclaration.openInside, described, Keyword.element, Except.toOption]
    cases refused.symm.trans inside
  · rename_i isOpen
    refine ⟨isOpen, ?_⟩
    have none_ : Keyword.ofElement? "include" = none := by decide
    rw [none_] at opens
    simp only [if_true, openInclude, idle] at opens
    obtain ⟨path, found, rfl⟩ := Option.map_eq_some_iff.1 opens
    exact ⟨path, found, rfl⟩

/-- An `include` element that is closed asks for its file, and leaves the sketch as it was. -/
theorem onClose_include (outside : sketch.declarations = []) (idle : sketch.pendingInclude = none)
    (path : String) :
    ({ sketch with pendingInclude := some path }).onClose put "include" =
      some (some path, sketch) := by
  obtain ⟨outline, blocks, declarations, pendingInclude⟩ := sketch
  obtain rfl := outside
  obtain rfl := idle
  rfl

end Sketch

/-! ## Texts in a row -/

/-- If only characters count, a text can be put before what is fed to a sketch, even if that starts
with a text itself. -/
theorem Feeds.prepend {text rest : List Char} {sketch middle last : Sketch (Nat × Content)}
    (feeds : Feeds spread rest middle last) (some_ : text ≠ []) (plain : '<' ∉ text)
    (writes : sketch.onText spread (String.ofList text) = some middle) :
    Feeds spread (text ++ rest) sketch last := by
  cases feeds with
  | nil => exact .text some_ plain nofun writes (.nil _)
  | @text more rest _ middle _ also plain' ends further behind =>
    rw [← List.append_assoc]
    refine .text (by simp [some_]) (by simp [plain, plain']) ends ?_ behind
    rw [String.ofList_append, Sketch.onText_append (by simpa using some_) (by simpa using also),
      writes]
    exact further
  | tag spelled receives further =>
    obtain ⟨body, rfl⟩ := spelled.starts
    refine .text some_ plain ?_ writes (.tag spelled receives further)
    rintro _ ⟨⟩
    rfl

/-! ## Parsing files in their places -/

/-- A reader between elements, with what is left of texts that are involved, and an assembly in which
no `include` element is open. -/
structure Stands (store : Store) (root template : String) (rest : List Char)
    (outer : List (Location × List Char)) (r : Reader) (assembly : Assembly) : Prop where
  between : r.Between root (Symbol.stack rest outer)
  sources : Sources store root template rest outer
  ordered : assembly.Ordered
  idle : assembly.pendingInclude = none

/-- What is left is fed to the sketch of the assembly as its expansion. -/
def Expands (store : Store) (root : String) (rest : List Char) (outer : List (Location × List Char))
    (assembly after : Assembly) : Prop :=
  ∃ out, Unread store root rest outer out ∧
    Feeds spread out (assembly.sketch spread) (after.sketch spread)

/-- If parsing succeeds from the reader, it comes to feeding the expansion. -/
def ExpandsFrom (store : Store) (root template : String) (last : Reader) (after : Assembly)
    (r : Reader) : Prop :=
  ∀ rest outer assembly, Stands store root template rest outer r assembly →
    r.parse store Assembly.handler assembly = (.ok (), last, after) →
    Expands store root rest outer assembly after

section Steps

variable {store : Store} {root template : String} {rest left behind written : List Char}
  {outer further : List (Location × List Char)} {r last : Reader} {assembly after : Assembly}

/-- An event of a parse that succeeds is accepted by the sketch too. -/
theorem exists_answer {event : Event} {middle : Reader} (ordered : assembly.Ordered)
    (reads : Reader.nextEvent r = (.ok (some event), middle))
    (parses : r.parse store Assembly.handler assembly = (.ok (), last, after)) :
    ∃ answer later, Assembly.handler.receive event assembly = (.ok answer, later) ∧
      later.Ordered ∧
      (assembly.sketch spread).receive spread event = some (answer, later.sketch spread) := by
  obtain ⟨answer, later, received⟩ := Reader.answer_of_parse reads parses
  exact ⟨answer, later, received, Assembly.sketch_of_receive spread ordered received⟩

theorem expands_text (stands : Stands store root template rest outer r assembly) {text : List Char}
    (cut : Cut store root template rest outer text left further) (some_ : text ≠ [])
    (parses : r.parse store Assembly.handler assembly = (.ok (), last, after))
    (smaller : ∀ later : Reader, later.potential store < r.potential store →
      ExpandsFrom store root template last after later) :
    Expands store root rest outer assembly after := by
  obtain ⟨line, middle, reads, between⟩ :=
    Reader.nextEvent_text stands.between some_ cut.splits cut.commentBody?
  obtain ⟨answer, later, received, ordered, sketched⟩ := exists_answer stands.ordered reads parses
  obtain ⟨rfl, writes, kept⟩ := Sketch.receive_text sketched
  rw [Reader.parse_of_event reads received] at parses
  obtain ⟨out, unread, feeds⟩ := smaller middle (Reader.potential_lt_of_event reads) left further
    later ⟨between, cut.sources, ordered, kept.trans stands.idle⟩ parses
  exact ⟨text ++ out, cut.unread out unread, feeds.prepend some_ cut.plain writes⟩

/-- A reader before a tag reads it. -/
theorem nextEvent_stack {input : List Symbol} (between : r.Between root input) {tag : Tag}
    (spelled : tag.Written written)
    (splits : Symbol.upToElement input = ([], Symbol.stack (written ++ behind) further)) :
    ∃ line later, Reader.nextEvent r =
      (.ok (some (tag.event line)), Reader.outside root later (Symbol.stack behind further)) := by
  obtain ⟨body, rfl, lexed⟩ := spelled
  rw [Symbol.stack_append] at splits
  exact Reader.nextEvent_tag between lexed splits

theorem expands_tag (stands : Stands store root template rest outer r assembly)
    (cut : Cut store root template rest outer [] (written ++ behind) further) {tag : Tag}
    (spelled : tag.Written written) (ordinary : tag.opensInclude = false)
    (parses : r.parse store Assembly.handler assembly = (.ok (), last, after))
    (smaller : ∀ later : Reader, later.potential store < r.potential store →
      ExpandsFrom store root template last after later) :
    Expands store root rest outer assembly after := by
  obtain ⟨line, line', reads⟩ := nextEvent_stack stands.between spelled cut.splits
  obtain ⟨answer, later, received, ordered, sketched⟩ := exists_answer stands.ordered reads parses
  obtain ⟨rfl, idle⟩ := Sketch.receive_ordinary ordinary stands.idle sketched
  rw [Reader.parse_of_event reads received] at parses
  have sources := cut.sources.replace (cut.sources.top.tag spelled)
  obtain ⟨out, unread, feeds⟩ := smaller _ (Reader.potential_lt_of_event reads) behind further later
    ⟨.outside line' _, sources, ordered, idle⟩ parses
  refine ⟨written ++ out, ?_, .tag spelled ?_ feeds⟩
  · exact cut.unread _ (unread.prepend fun inner expands => .tag spelled ordinary expands)
  · cases tag <;> exact sketched

/-- When an `include` element is parsed, the file that it names is put in its place, and the sketch of
the assembly is the one before the element. -/
theorem exists_included (stands : Stands store root template rest outer r assembly)
    (cut : Cut store root template rest outer [] (written ++ behind) further)
    {attributes : List (String × String)} {selfClosing : Bool}
    (spelled : (Tag.opening "include" attributes selfClosing).Written written)
    (contained : ∀ directory text, Involved store root template directory text → SelfContained text)
    (parses : r.parse store Assembly.handler assembly = (.ok (), last, after)) :
    ∃ element others path line included later, written ++ behind = element ++ others ∧
      Includes element path ∧ Remains store root template (innerDirectory root further) others ∧
      Reader.includeFile store (.outside root line (Symbol.stack others further)) path =
        .ok included ∧
      included.potential store < r.potential store ∧
      later.Ordered ∧ later.sketch spread = assembly.sketch spread ∧
      included.parse store Assembly.handler later = (.ok (), last, after) := by
  obtain ⟨line, line', reads⟩ := nextEvent_stack stands.between spelled cut.splits
  obtain ⟨answer, middle, received, ordered, sketched⟩ := exists_answer stands.ordered reads parses
  obtain ⟨started, opens, closes⟩ := Option.bind_eq_some_iff.1 sketched
  obtain ⟨outside, path, named, rfl⟩ := Sketch.onOpen_include stands.idle opens
  have asks := @Sketch.onClose_include _ spread _ outside stands.idle path
  have remains := cut.sources.top
  cases selfClosing with
  | true =>
    obtain ⟨rfl, same⟩ := Prod.mk.inj (Option.some.inj (asks.symm.trans closes))
    obtain ⟨included, found, continues⟩ := Reader.included_of_parse reads received parses
    exact ⟨written, behind, path, line', included, middle, rfl, .selfClosing spelled named,
      remains.tag spelled, found, Reader.potential_lt_of_include reads rfl found, ordered,
      same.symm, continues⟩
  | false =>
    obtain ⟨rfl, same⟩ := Prod.mk.inj (Option.some.inj closes)
    rw [Reader.parse_of_event reads received] at parses
    -- The element is empty, so the next tag closes it.
    obtain ⟨closing, others, rfl, closes⟩ := remains.empty contained spelled
    obtain ⟨body, rfl⟩ := closes.starts
    obtain ⟨_, line'', reads'⟩ := nextEvent_stack (.outside line' _) closes
      (Symbol.upToElement_stack (body ++ others) further)
    obtain ⟨answer, later, received', ordered, sketched'⟩ := exists_answer ordered reads' parses
    rw [← same] at sketched'
    obtain ⟨rfl, same⟩ := Prod.mk.inj (Option.some.inj (asks.symm.trans sketched'))
    obtain ⟨included, found, continues⟩ := Reader.included_of_parse reads' received' parses
    have less := Reader.potential_lt_of_include reads' rfl found
    exact ⟨written ++ '<' :: body, others, path, line'', included, later, by simp,
      .pair spelled closes named, (remains.tag spelled).tag closes, found,
      Nat.lt_trans less (Reader.potential_lt_of_event reads), ordered, same.symm,
      continues⟩

theorem expands_include (stands : Stands store root template rest outer r assembly)
    (cut : Cut store root template rest outer [] (written ++ behind) further)
    {attributes : List (String × String)} {selfClosing : Bool}
    (spelled : (Tag.opening "include" attributes selfClosing).Written written)
    (contained : ∀ directory text, Involved store root template directory text → SelfContained text)
    (parses : r.parse store Assembly.handler assembly = (.ok (), last, after))
    (smaller : ∀ later : Reader, later.potential store < r.potential store →
      ExpandsFrom store root template last after later) :
    Expands store root rest outer assembly after := by
  obtain ⟨element, others, path, line, included, later, split, includes, remains, found, less,
    ordered, same, continues⟩ := exists_included stands cut spelled contained parses
  rw [split] at cut
  obtain ⟨file, content, opens, -, rfl⟩ := Reader.includeFile_eq_ok.1 found
  have directory : (Reader.outside root line (Symbol.stack others further)).directory =
      innerDirectory root further := Reader.directory_stack _ rfl
  rw [directory] at opens
  have involved := cut.sources.top.file includes opens
  have sources : Sources store root template content.toList ((file, others) :: further) :=
    ⟨.whole involved (contained _ _ involved).lexable, cut.sources.replace remains⟩
  have idle : later.pendingInclude = none :=
    (congrArg Sketch.pendingInclude same).trans stands.idle
  obtain ⟨_, ⟨inner, out, rfl, expands, unread⟩, feeds⟩ := smaller _ less _ _ later
    ⟨.outside line _, sources, ordered, idle⟩ continues
  refine ⟨inner ++ out, ?_, same ▸ feeds⟩
  exact cut.unread _ (unread.prepend fun _ further => .included includes opens expands further)

/-- Parsing with files comes to feeding the expansion of what is left. -/
theorem expandsFrom
    (contained : ∀ directory text, Involved store root template directory text → SelfContained text)
    (last : Reader) (after : Assembly) (r : Reader) :
    ExpandsFrom store root template last after r := by
  induction size : r.potential store using Nat.strong_induction_on generalizing r with
  | _ size ih =>
    subst size
    have smaller : ∀ later : Reader, later.potential store < r.potential store →
        ExpandsFrom store root template last after later := fun later less => ih _ less later rfl
    intro rest outer assembly stands parses
    obtain ⟨text, left, further, cut⟩ := stands.sources.exists_cut
    by_cases some_ : text ≠ []
    · exact expands_text stands cut some_ parses smaller
    obtain rfl := not_ne_iff.1 some_
    rcases cut.ends with ⟨rfl, rfl⟩ | ⟨body, rfl⟩
    · obtain ⟨ended, reads⟩ := Reader.nextEvent_end stands.between cut.splits
      rw [Reader.parse_of_end reads] at parses
      cases parses
      exact ⟨[], cut.unread [] .nil, .nil _⟩
    · obtain ⟨front, behind, tokens, rfl, lexed, -⟩ := cut.sources.top.element
      obtain ⟨found, middle, reads⟩ := Reader.nextEvent_of_parse parses
      have cut : Cut store root template rest outer [] ('<' :: front ++ behind) further := cut
      have splits := cut.splits
      rw [Symbol.stack_append] at splits
      obtain ⟨tag, rfl⟩ := Reader.tag_of_nextEvent stands.between lexed splits reads
      have spelled : tag.Written ('<' :: front) := ⟨front, rfl, lexed⟩
      by_cases opensInclude : tag.opensInclude
      · cases tag with
        | opening name attributes selfClosing =>
          obtain rfl : name = "include" := by simpa [Tag.opensInclude] using opensInclude
          exact expands_include stands cut spelled contained parses smaller
        | closing name => cases opensInclude
      · exact expands_tag stands cut spelled (by simpa using opensInclude) parses smaller

end Steps

/-! ## A template that includes files -/

/-- A text that includes `b`. -/
def exOuter : String := "1<include path=\"b\"/>2"

/-- A text that includes nothing. -/
def exInner : String := "<v>3</v>"

def exFiles : Store :=
  ⟨[(["d"], .directory), (["d", "a"], .file (Bytes.ofText exOuter)),
    (["d", "b"], .file (Bytes.ofText exInner))], []⟩

/-- A template that includes a file twice. -/
def exTwice : String := "x<include path=\"d/a\"/>y<include path=\"d/a\"></include>"

/-- The tags of an `include` element, as one tag or as two. -/
def exInclude (path : String) (selfClosing : Bool) : List Char :=
  (Tag.opening "include" [("path", path)] selfClosing).render ++
    if selfClosing then [] else (Tag.closing "include").render

theorem exInclude_includes (path : String) (selfClosing : Bool) :
    Includes (exInclude path selfClosing) path := by
  have opens : (Tag.opening "include" [("path", path)] selfClosing).Written
      (Tag.opening "include" [("path", path)] selfClosing).render := by
    refine Tag.written_render ⟨by decide, fun binding member => ?_⟩
    obtain rfl := List.mem_singleton.1 member
    show isName "path"
    decide
  cases selfClosing with
  | true =>
    rw [exInclude, if_pos rfl, List.append_nil]
    exact .selfClosing opens rfl
  | false => exact .pair opens (Tag.written_render (show isName "include" by decide)) rfl

theorem exTwice_toList :
    exTwice.toList = 'x' :: (exInclude "d/a" true ++ 'y' :: (exInclude "d/a" false ++ [])) := by
  decide

theorem exOuter_toList : exOuter.toList = '1' :: (exInclude "b" true ++ ['2']) := by decide

theorem exInner_toList :
    exInner.toList = (Tag.opening "v" [] false).render ++ '3' :: ((Tag.closing "v").render ++ []) := by
  decide

theorem exInner_written : (Tag.opening "v" [] false).Written (Tag.opening "v" [] false).render ∧
    (Tag.closing "v").Written (Tag.closing "v").render :=
  ⟨Tag.written_render ⟨by decide, nofun⟩, Tag.written_render (show isName "v" by decide)⟩

theorem exFiles_outer : Reader.openFile exFiles (Path.join "" "d/a") = .ok (["d", "a"], exOuter) := by
  decide +kernel

theorem exFiles_inner : Reader.openFile exFiles (Path.join (Location.path ["d"]) "b") =
    .ok (["d", "b"], exInner) := by
  decide +kernel

theorem exText_selfContained {text : String} (includable : Includable text.toList)
    (free : '!' ∉ text.toList) : SelfContained text := by
  have member : '!' ∈ commentStart := by decide
  exact includable.selfContained fun starts => free (starts.subset member)

theorem exTwice_selfContained {place involved : String}
    (comes : Involved exFiles "" exTwice place involved) : SelfContained involved := by
  cases comes with
  | template =>
    refine exText_selfContained ?_ (by decide)
    rw [exTwice_toList]
    exact .char (by decide) (.included (exInclude_includes _ _) (.char (by decide)
      (.included (exInclude_includes _ _) .nil)))
  | @file _ _ _ _ _ _ _ file _ _ _ _ opens =>
    have held := (Reader.openFile_eq_ok opens).2
    obtain ⟨bytes, member⟩ := Symbol.mem_files_of_textAt held
    have files : exFiles.files.map Prod.fst = [["d", "a"], ["d", "b"]] := by rfl
    have known : file ∈ [["d", "a"], ["d", "b"]] := files ▸ List.mem_map_of_mem member
    simp only [List.mem_cons, List.not_mem_nil, or_false] at known
    rcases known with rfl | rfl
    · cases held.symm.trans (Reader.openFile_eq_ok exFiles_outer).2
      refine exText_selfContained ?_ (by decide)
      rw [exOuter_toList]
      exact .char (by decide) (.included (exInclude_includes _ _) (.char (by decide) .nil))
    · cases held.symm.trans (Reader.openFile_eq_ok exFiles_inner).2
      refine exText_selfContained ?_ (by decide)
      rw [exInner_toList]
      exact .tag exInner_written.1 rfl (.char (by decide) (.tag exInner_written.2 rfl .nil))

theorem exTwice_expansion :
    Expansion exFiles "" exTwice.toList "x1<v>3</v>2y1<v>3</v>2".toList := by
  have inner : Expansion exFiles (Location.path ["d"]) exInner.toList exInner.toList := by
    rw [exInner_toList]
    exact .tag exInner_written.1 rfl (.char (by decide) (.tag exInner_written.2 rfl .nil))
  have outer : Expansion exFiles (Location.path ["d"]) exOuter.toList ('1' :: (exInner.toList ++ ['2'])) := by
    rw [exOuter_toList]
    exact .char (by decide) (.included (exInclude_includes _ _) exFiles_inner inner
      (.char (by decide) .nil))
  have whole : "x1<v>3</v>2y1<v>3</v>2".toList =
      'x' :: ('1' :: (exInner.toList ++ ['2']) ++ 'y' :: ('1' :: (exInner.toList ++ ['2']) ++ [])) := by
    decide
  rw [exTwice_toList, whole]
  exact .char (by decide) (.included (exInclude_includes _ _) exFiles_outer outer
    (.char (by decide) (.included (exInclude_includes _ _) exFiles_outer outer .nil)))

theorem exTwice_parses : (Tree.parse exFiles exTwice "").isOk := by decide +kernel

/-! ## Expansions of templates -/

/-- A template that can be parsed has one expansion, which can be parsed too. The trees are equal once
adjacent texts are joined. -/
theorem Tree.parse_expansion {store : Store} {text directory : String} {tree : Tree}
    (parses : Tree.parse store text directory = .ok tree)
    (contained : ∀ place involved, Involved store directory text place involved →
      SelfContained involved) :
    ∃ expanded, (∀ out, Expansion store directory text.toList out ↔ out = expanded) ∧
      ∀ base, ∃ other, Tree.parse store (String.ofList expanded) base = .ok other ∧
        ∃ F G, tree.Shows F ∧ other.Shows G ∧ F.mergeTexts = G.mergeTexts := by
  have lexable := (contained _ _ .template).lexable
  obtain ⟨_, F, -, shown⟩ := Tree.parse_builds parses
  unfold Tree.parse at parses
  split at parses
  · cases parses
  rename_i reader after read
  obtain ⟨closed, rfl⟩ := (Assembly.finish_eq_ok_iff spread).1 parses
  have stands : Stands store directory text text.toList [] (.ofText text directory) .empty :=
    ⟨.outside 1 _, .whole .template lexable, Assembly.ordered_empty, rfl⟩
  obtain ⟨expanded, expands, feeds⟩ := expandsFrom contained _ _ _ _ _ _ stands read
  have expands : Expansion store directory text.toList expanded := expands
  refine ⟨expanded, fun out => ⟨fun also => also.unique expands rfl, fun same => same ▸ expands⟩,
    fun base => ?_⟩
  rw [← String.toList_ofList (l := expanded)] at feeds
  obtain ⟨other, parses', outline⟩ := feeds.tree closed store base
  obtain ⟨_, G, -, shown'⟩ := Tree.parse_builds parses'
  refine ⟨other, parses', F, G, shown.shows_, shown'.shows_, ?_⟩
  refine Forest.mergeTexts_eq_of_levels shown.blocksOnly shown'.blocksOnly ?_
  rw [← shown.shows_.contentLevels, ← shown'.shows_.contentLevels, outline]
  rfl

theorem exTwice_parses_expansion :
    ∃ tree after, Tree.parse exFiles exTwice "" = .ok tree ∧
      Tree.parse exFiles "x1<v>3</v>2y1<v>3</v>2" "" = .ok after ∧
      ∃ F G, tree.Shows F ∧ after.Shows G ∧ F.mergeTexts = G.mergeTexts := by
  obtain ⟨tree, parses⟩ : ∃ tree, Tree.parse exFiles exTwice "" = .ok tree := by
    have parsed := exTwice_parses
    cases outcome : Tree.parse exFiles exTwice "" with
    | error cause => simp [outcome, Except.isOk, Except.toBool] at parsed
    | ok tree => exact ⟨tree, rfl⟩
  obtain ⟨expanded, only, alike⟩ :=
    Tree.parse_expansion parses fun _ _ comes => exTwice_selfContained comes
  obtain rfl := (only _).1 exTwice_expansion
  obtain ⟨after, parses', shown⟩ := alike ""
  exact ⟨tree, after, parses, by rwa [String.ofList_toList] at parses', shown⟩

end Document

end ConfigTemplate
