import ConfigTemplate.Proofs.Document.Inclusion
import ConfigTemplate.Proofs.Markup.Comments

/-!
# Templates with comments

A comment cuts the text around it into two nodes. Otherwise the tree of a template is that of the
template without its comments, where no two texts are neighbours.

Results:
1. `feeds_of_parse`: what is parsed is fed to the sketch without its comments.
2. `Sketch.Parted.of_feeds`: without comments and files, no two texts are neighbours.
3. `Tree.parse_uncommented`: joining adjacent texts makes up for all comments.
4. `Tree.exists_uncommented_iff`: a template that includes no files has a text without its comments.
-/

namespace ConfigTemplate

namespace Document

open Markup

/-! ## Parsing past comments -/

section Parsing

variable {store : Store} {root : String} {cs text out rest : List Char} {r middle last : Reader}
  {assembly after : Assembly}

/-- The characters before a tag or a comment, or before the end, are fed to the sketch as one text,
and parsing goes on behind them. -/
theorem parse_behind_text (meets : r.Meets root (text ++ cs)) (plain : '<' ∉ text)
    (ends : ∀ c ∈ cs.head?, c = '<') (ordered : assembly.Ordered)
    (idle : assembly.pendingInclude = none)
    (parses : r.parse store Assembly.handler assembly = (.ok (), last, after)) :
    ∃ (middle : Reader) (later : Assembly), middle.Meets root cs ∧ later.Ordered ∧
      later.pendingInclude = none ∧
      middle.parse store Assembly.handler later = (.ok (), last, after) ∧
      ∀ out, Feeds spread out (later.sketch spread) (after.sketch spread) →
        Feeds spread (text ++ out) (assembly.sketch spread) (after.sketch spread) := by
  by_cases some_ : text = []
  · subst some_
    exact ⟨r, assembly, meets, ordered, idle, parses, fun _ feeds => feeds⟩
  · obtain ⟨middle, _, found, behind, -⟩ := meets.next_text some_ plain ends
    have reads := Reader.nextEvent_of_next_text found
    obtain ⟨answer, later, received, ordered, sketched⟩ := exists_answer ordered reads parses
    obtain ⟨rfl, writes, kept⟩ := Sketch.receive_text sketched
    rw [Reader.parse_of_event reads received] at parses
    exact ⟨middle, later, behind, ordered, kept.trans idle, parses,
      fun _ feeds => feeds.prepend some_ plain writes⟩

/-- An ordinary tag is fed to the sketch, and parsing goes on behind it. -/
theorem parse_behind_tag {tag : Tag} {written : List Char} (spelled : tag.Written written)
    (ordinary : tag.opensInclude = false) (meets : r.Meets root (written ++ cs))
    (ordered : assembly.Ordered) (idle : assembly.pendingInclude = none)
    (parses : r.parse store Assembly.handler assembly = (.ok (), last, after)) :
    ∃ (middle : Reader) (later : Assembly), middle.Meets root cs ∧ later.Ordered ∧
      later.pendingInclude = none ∧
      middle.parse store Assembly.handler later = (.ok (), last, after) ∧
      (assembly.sketch spread).receive spread (tag.event 0) = some (none, later.sketch spread) := by
  obtain ⟨line, final, reads⟩ := meets.nextEvent_tag spelled
  obtain ⟨answer, later, received, ordered, sketched⟩ := exists_answer ordered reads parses
  obtain ⟨rfl, kept⟩ := Sketch.receive_ordinary ordinary idle sketched
  rw [Reader.parse_of_event reads received] at parses
  refine ⟨_, later, Reader.meets_outside root final cs, ordered, kept, parses, ?_⟩
  cases tag <;> exact sketched

/-- What is parsed is fed to the sketch without its comments. The text in front has been read as
characters, but not yet as a token. -/
theorem feeds_of_parse (uncommented : Uncommented cs out) (plain : '<' ∉ text)
    (meets : r.Meets root (text ++ cs)) (ordered : assembly.Ordered)
    (idle : assembly.pendingInclude = none)
    (parses : r.parse store Assembly.handler assembly = (.ok (), last, after)) :
    Feeds spread (text ++ out) (assembly.sketch spread) (after.sketch spread) := by
  induction uncommented generalizing text r assembly with
  | nil =>
    obtain ⟨middle, later, meets, ordered, idle, parses, feeds⟩ :=
      parse_behind_text meets plain (by simp) ordered idle parses
    obtain ⟨ended, reads⟩ := meets.nextEvent_end
    rw [Reader.parse_of_end reads] at parses
    cases parses
    exact feeds _ (.nil _)
  | @char c rest out differs _ ih =>
    have longer : '<' ∉ text ++ [c] := by simp [plain, Ne.symm differs]
    have feeds := ih longer (by rwa [List.append_assoc]) ordered idle parses
    rwa [List.append_assoc] at feeds
  | @tag tag written rest out spelled ordinary _ ih =>
    have ends : ∀ c ∈ (written ++ rest).head?, c = '<' := by
      obtain ⟨body, rfl⟩ := spelled.starts
      simp
    obtain ⟨middle, later, meets, ordered, idle, parses, feeds⟩ :=
      parse_behind_text meets plain ends ordered idle parses
    obtain ⟨_, _, meets, ordered, idle, parses, receives⟩ :=
      parse_behind_tag spelled ordinary meets ordered idle parses
    exact feeds _ (.tag spelled receives (ih List.not_mem_nil meets ordered idle parses))
  | @comment body rest out upToEnd _ ih =>
    obtain ⟨middle, later, meets, ordered, idle, parses, feeds⟩ :=
      parse_behind_text meets plain (by simp [commentStart]) ordered idle parses
    exact feeds _ (ih List.not_mem_nil (meets.skip upToEnd) ordered idle parses)

/-- A text that is parsed opens an `include` element, or there is a text that it is without its
comments. -/
theorem exists_uncommented (meets : r.Meets root cs) (ordered : assembly.Ordered)
    (idle : assembly.pendingInclude = none)
    (parses : r.parse store Assembly.handler assembly = (.ok (), last, after)) :
    (∃ out, Uncommented cs out) ∨ OpensInclude cs := by
  induction size : cs.length using Nat.strong_induction_on generalizing cs r assembly with
  | _ size ih =>
    subst size
    by_cases element : '<' ∈ cs
    swap
    · exact .inl ⟨cs, .of_plain element⟩
    obtain ⟨text, rest, rfl, plain⟩ := List.eq_append_cons_of_mem element
    obtain ⟨middle, later, meets, ordered, idle, parses, -⟩ :=
      parse_behind_text meets plain (by simp) ordered idle parses
    suffices (∃ out, Uncommented ('<' :: rest) out) ∨ OpensInclude ('<' :: rest) from
      this.imp (fun ⟨out, further⟩ => ⟨text ++ out, further.prepend plain⟩) (.prepend plain)
    obtain ⟨found, _, reads⟩ := Reader.nextEvent_of_parse parses
    rcases starts : Symbol.commentBody? (('<' :: rest).map .char) with _ | symbols
    · obtain ⟨tag, written, behind, same, spelled⟩ := meets.exists_written starts reads
      rw [same] at meets ⊢
      cases includes : tag.opensInclude with
      | true => exact .inr (.here spelled includes)
      | false =>
        have shorter : behind.length < (text ++ '<' :: rest).length := by
          obtain ⟨body, rfl⟩ := spelled.starts
          rw [same]
          simp only [List.length_append, List.length_cons]
          omega
        obtain ⟨_, _, meets, ordered, idle, parses, -⟩ :=
          parse_behind_tag spelled includes meets ordered idle parses
        exact (ih _ shorter meets ordered idle parses rfl).imp
          (fun ⟨out, further⟩ => ⟨written ++ out, .tag spelled includes further⟩) (.tag spelled)
    · obtain ⟨tail, same⟩ := exists_of_commentBody? starts
      rw [same] at meets ⊢
      rcases Symbol.exists_commentBody tail with ⟨body, behind, rfl, upToEnd⟩ | endless
      · have shorter : (behindComment behind).length < (text ++ '<' :: rest).length := by
          have left := (behindComment_suffix behind).length_le
          rw [same]
          simp only [List.length_append, commentStart, List.length_cons]
          omega
        exact (ih _ shorter (meets.skip upToEnd) ordered idle parses rfl).imp
          (.imp fun _ => .comment upToEnd) (.comment upToEnd)
      · obtain ⟨_, _, fails⟩ := meets.endless endless
        cases fails.symm.trans reads

end Parsing

/-! ## Texts that are not neighbours -/

/-- Two lines of an outline are texts that follow each other among the same siblings. -/
def Adjoin (first second : Nat × Content) : Prop :=
  ∃ depth text more, first = (depth, .text text) ∧ second = (depth, .text more)

namespace Sketch

variable {sketch middle later : Sketch (Nat × Content)} {name : String} {attributes : Attributes}

/-- No two texts are neighbours, and no open block is deeper than a text that was put down last. -/
structure Parted (sketch : Sketch (Nat × Content)) : Prop where
  apart : sketch.outline.IsChain fun first second => ¬ Adjoin first second
  deep : ∀ depth text, sketch.outline.getLast? = some (depth, .text text) →
    sketch.blocks.length ≤ depth

/-- A text that comes next has no text before it. -/
def Ready (sketch : Sketch (Nat × Content)) : Prop :=
  sketch.declarations = [] → ∀ depth text, sketch.outline.getLast? = some (depth, .text text) →
    sketch.blocks.length < depth

theorem parted_empty : (empty : Sketch (Nat × Content)).Parted := ⟨.nil, nofun⟩

theorem ready_empty : (empty : Sketch (Nat × Content)).Ready := fun _ => nofun

theorem Parted.onText (parted : sketch.Parted) (ready : sketch.Ready) {text : String}
    (writes : sketch.onText List.singleton text = some later) : later.Parted := by
  unfold Sketch.onText at writes
  split at writes
  · obtain ⟨_, -, rfl⟩ := Option.map_eq_some_iff.1 writes
    exact ⟨parted.apart, parted.deep⟩
  · rename_i outside
    cases writes
    refine ⟨List.isChain_append.2 ⟨parted.apart, .singleton _, ?_⟩, ?_⟩
    · rintro _ before _ ⟨⟩ ⟨depth, old, new, rfl, same⟩
      cases same
      exact absurd (ready outside _ _ before) (Nat.lt_irrefl _)
    · intro depth last ends
      have same : (sketch.blocks.length, Content.text text) = (depth, .text last) := by
        simpa [write, List.singleton] using ends
      cases same
      exact Nat.le_refl _

/-- Behind a node that is no text, a text has no text before it. -/
theorem Parted.write {content : Content} (parted : sketch.Parted)
    (other : ∀ text, content ≠ .text text) :
    (sketch.write List.singleton content).outline.IsChain (fun first second => ¬ Adjoin first second) ∧
      ∀ depth text, (sketch.write List.singleton content).outline.getLast? ≠
        some (depth, .text text) := by
  refine ⟨List.isChain_append.2 ⟨parted.apart, .singleton _, ?_⟩, fun depth text ends => ?_⟩
  · rintro _ - _ ⟨⟩ ⟨depth, old, new, -, same⟩
    exact other new (congrArg Prod.snd same)
  · have same : (sketch.blocks.length, content) = (depth, .text text) := by
      simpa [Sketch.write, List.singleton] using ends
    exact other text (congrArg Prod.snd same)

theorem Parted.onOpen (parted : sketch.Parted) (idle : later.pendingInclude = none)
    (opens : sketch.onOpen List.singleton name attributes = some later) :
    later.Parted ∧ later.Ready := by
  unfold Sketch.onOpen at opens
  split at opens
  · obtain ⟨⟨current, inner⟩, -, rfl⟩ := Option.map_eq_some_iff.1 opens
    exact ⟨⟨parted.apart, parted.deep⟩, fun outside => absurd outside (by simp)⟩
  split at opens
  · obtain ⟨started, -, rfl⟩ := Option.map_eq_some_iff.1 opens
    exact ⟨⟨parted.apart, parted.deep⟩, nofun⟩
  split at opens
  · unfold openInclude at opens
    split at opens
    · cases opens
    · obtain ⟨path, -, rfl⟩ := Option.map_eq_some_iff.1 opens
      cases idle
  · cases opens
    have other : ∀ text, Content.block name ≠ .text text := nofun
    obtain ⟨apart, last⟩ := parted.write other
    exact ⟨⟨apart, fun depth text ends => absurd ends (last depth text)⟩,
      fun _ depth text ends => absurd ends (last depth text)⟩

theorem Parted.onClose (parted : sketch.Parted) (idle : sketch.pendingInclude = none)
    {answer : Option String} (closes : sketch.onClose List.singleton name = some (answer, later)) :
    later.Parted ∧ later.Ready := by
  unfold Sketch.onClose at closes
  split at closes
  · obtain ⟨left, -, same⟩ := Option.map_eq_some_iff.1 closes
    cases left with
    | some current =>
      cases same
      exact ⟨⟨parted.apart, parted.deep⟩, nofun⟩
    | none =>
      cases same
      have other : ∀ declared text, Content.declaration declared ≠ .text text := nofun
      obtain ⟨apart, last⟩ := parted.write (other _)
      exact ⟨⟨apart, fun depth text ends => absurd ends (last depth text)⟩,
        fun _ depth text ends => absurd ends (last depth text)⟩
  · rw [idle] at closes
    obtain ⟨closed, block, same⟩ := Option.map_eq_some_iff.1 closes
    cases same
    unfold closeBlock at block
    split at block
    · rename_i outermost outer opened
      split at block
      · cases block
        -- The block that is closed was open when the last text was put down in it.
        have less : outer.length < sketch.blocks.length := by rw [opened]; exact Nat.lt_succ_self _
        exact ⟨⟨parted.apart, fun depth text ends => (less.trans_le (parted.deep _ _ ends)).le⟩,
          fun _ depth text ends => less.trans_le (parted.deep _ _ ends)⟩
      · cases block
    · cases block

/-! ### Files that are asked for -/

section Idle

variable {α : Type} {put : Nat × Content → List α} {sketch later : Sketch α} {event : Event}

theorem idle_of_onOpen (opens : sketch.onOpen put name attributes = some later)
    (idle : later.pendingInclude = none) : sketch.pendingInclude = none := by
  unfold Sketch.onOpen at opens
  split at opens
  · obtain ⟨_, -, rfl⟩ := Option.map_eq_some_iff.1 opens
    exact idle
  split at opens
  · obtain ⟨_, -, rfl⟩ := Option.map_eq_some_iff.1 opens
    exact idle
  split at opens
  · unfold openInclude at opens
    split at opens
    · cases opens
    · obtain ⟨path, -, rfl⟩ := Option.map_eq_some_iff.1 opens
      cases idle
  · cases opens
    exact idle

/-- An element that is closed without asking for a file leaves an `include` element open. -/
theorem pendingInclude_of_onClose (closes : sketch.onClose put name = some (none, later)) :
    later.pendingInclude = sketch.pendingInclude := by
  have kept : ∀ {closed : Sketch α}, sketch.closeBlock name = some closed →
      closed.pendingInclude = sketch.pendingInclude := by
    intro closed block
    unfold closeBlock at block
    split at block
    · split at block <;> cases block
      rfl
    · cases block
  unfold Sketch.onClose at closes
  split at closes
  · obtain ⟨left, -, same⟩ := Option.map_eq_some_iff.1 closes
    cases left <;> cases same <;> rfl
  split at closes
  · split at closes
    · cases closes
    · obtain ⟨closed, block, same⟩ := Option.map_eq_some_iff.1 closes
      cases same
      exact kept block
  · obtain ⟨closed, block, same⟩ := Option.map_eq_some_iff.1 closes
    cases same
    exact kept block

/-- If no `include` element is open at the end, then none was open before, as no file was asked
for. -/
theorem idle_of_receive (received : sketch.receive put event = some (none, later))
    (idle : later.pendingInclude = none) : sketch.pendingInclude = none := by
  cases event with
  | text content line =>
    obtain ⟨-, -, kept⟩ := receive_text received
    exact kept ▸ idle
  | opened name attributes line selfClosing =>
    obtain ⟨middle, opens, closes⟩ := Option.bind_eq_some_iff.1 received
    cases selfClosing with
    | true => exact idle_of_onOpen opens ((pendingInclude_of_onClose closes).symm.trans idle)
    | false =>
      cases closes
      exact idle_of_onOpen opens idle
  | closed name line => exact (pendingInclude_of_onClose received).symm.trans idle

theorem idle_of_feeds {text : List Char} (feeds : Feeds put text sketch later)
    (idle : later.pendingInclude = none) : sketch.pendingInclude = none := by
  induction feeds with
  | nil => exact idle
  | @text text _ sketch middle _ _ _ _ writes _ ih =>
    have received : sketch.receive put (.text (String.ofList text) 0) = some (none, middle) := by
      rw [receive, writes]
      rfl
    exact idle_of_receive received (ih idle)
  | tag _ receives _ ih => exact idle_of_receive receives (ih idle)

end Idle

/-- Behind a tag no text is the last node among its siblings, unless a declaration is open. -/
theorem Parted.receive {tag : Tag} {line : Nat} (parted : sketch.Parted)
    (received : sketch.receive List.singleton (tag.event line) = some (none, later))
    (idle : later.pendingInclude = none) : later.Parted ∧ later.Ready := by
  cases tag with
  | closing name =>
    exact parted.onClose ((pendingInclude_of_onClose received).symm.trans idle) received
  | opening name attributes selfClosing =>
    obtain ⟨middle, opens, closes⟩ := Option.bind_eq_some_iff.1 received
    cases selfClosing with
    | true =>
      have still := (pendingInclude_of_onClose closes).symm.trans idle
      exact (parted.onOpen still opens).1.onClose still closes
    | false =>
      cases closes
      exact parted.onOpen idle opens

/-- Without comments and files, no two texts are neighbours. -/
theorem Parted.of_feeds {text : List Char} (feeds : Feeds List.singleton text sketch later)
    (parted : sketch.Parted) (ready : (∀ c ∈ text.head?, c = '<') ∨ sketch.Ready)
    (idle : later.pendingInclude = none) : later.Parted := by
  induction feeds with
  | nil => exact parted
  | @text text rest sketch middle last some_ plain ends writes _ ih =>
    have starts : sketch.Ready := by
      refine ready.resolve_left fun element => plain ?_
      obtain ⟨c, cs, rfl⟩ := List.exists_cons_of_ne_nil some_
      rw [← element c rfl]
      exact List.mem_cons_self
    exact ih (parted.onText starts writes) (.inl ends) idle
  | tag spelled receives further ih =>
    obtain ⟨later, next⟩ := parted.receive receives (idle_of_feeds further idle)
    exact ih later (.inr next) idle

end Sketch

/-- How the lines of an outline are put down does not matter to what a text can be fed to. -/
theorem Feeds.change {α β : Type} {put : Nat × Content → List α} {other : Nat × Content → List β}
    {text : List Char} {sketch last : Sketch α} (feeds : Feeds put text sketch last)
    {assembly : Assembly} (ordered : assembly.Ordered) (same : assembly.sketch put = sketch) :
    ∃ after : Assembly, after.Ordered ∧ after.sketch put = last ∧
      Feeds other text (assembly.sketch other) (after.sketch other) := by
  induction feeds generalizing assembly with
  | nil => exact ⟨assembly, ordered, same, .nil _⟩
  | @text text rest sketch middle last some_ plain ends writes _ ih =>
    subst same
    obtain ⟨later, received, ordered', reached⟩ := Assembly.receive_of_sketch put ordered
      (.text (String.ofList text) 0) (Option.map_eq_some_iff.2 ⟨middle, writes, rfl⟩)
    obtain ⟨-, sketched⟩ := Assembly.sketch_of_receive other ordered received
    obtain ⟨after, final, reached, further⟩ := ih ordered' reached
    exact ⟨after, final, reached, .text some_ plain ends (Sketch.receive_text sketched).2.1 further⟩
  | @tag tag written rest sketch middle last spelled receives _ ih =>
    subst same
    obtain ⟨later, received, ordered', reached⟩ :=
      Assembly.receive_of_sketch put ordered (tag.event 0) receives
    obtain ⟨-, sketched⟩ := Assembly.sketch_of_receive other ordered received
    obtain ⟨after, final, reached, further⟩ := ih ordered' reached
    exact ⟨after, final, reached, .tag spelled sketched further⟩

end Document

/-- Where no two texts are neighbours, none can be joined. -/
theorem Forest.mergeTexts_eq_self {F : Forest Document.Content} (tidy : F.BlocksOnly) {depth : Nat}
    (apart : (F.levels depth).IsChain fun first second => ¬ Document.Adjoin first second) :
    F.mergeTexts = F := by
  induction F generalizing depth with
  | nil => rfl
  | cons content children rest ihChildren ihRest =>
    rw [levels, ← List.cons_append] at apart
    have behind := ihRest tidy.rest apart.right_of_append
    have below : (children.levels (depth + 1)).IsChain _ := apart.left_of_append.tail
    cases content with
    | text text =>
      obtain ⟨rfl, -⟩ := tidy
      rw [mergeTexts, behind]
      cases rest with
      | nil => rfl
      | cons next others further =>
        cases next with
        | text more =>
          rw [levels, levels, List.singleton_append] at apart
          exact absurd ⟨depth, text, more, rfl, rfl⟩ (List.isChain_cons_cons.1 apart).1
        | block condition => rfl
        | declaration declared => rfl
    | block condition =>
      rw [mergeTexts, ihChildren tidy.1 below, behind]
      intro text same
      cases same
    | declaration declared =>
      obtain ⟨rfl, -⟩ := tidy
      rw [mergeTexts, behind]
      · rfl
      · intro text same
        cases same

namespace Document

/-- Without its comments a template has the same tree once adjacent texts are joined. -/
theorem Tree.parse_uncommented {store : Store} {text plain directory : String} {tree : Tree}
    (parses : Tree.parse store text directory = .ok tree)
    (uncommented : Markup.Uncommented text.toList plain.toList) (other : Store) (base : String) :
    ∃ later F, Tree.parse other plain base = .ok later ∧ tree.Shows F ∧ later.Shows F.mergeTexts := by
  obtain ⟨_, F, -, shown⟩ := Tree.parse_builds parses
  unfold Tree.parse at parses
  split at parses
  · cases parses
  rename_i reader after read
  obtain ⟨closed, rfl⟩ := (Assembly.finish_eq_ok_iff spread).1 parses
  have meets : Markup.Reader.Meets directory ([] ++ text.toList) (.ofText text directory) :=
    Markup.Reader.meets_outside directory 1 text.toList
  have feeds := feeds_of_parse uncommented List.not_mem_nil meets Assembly.ordered_empty rfl read
  obtain ⟨later, parses', outline⟩ := feeds.tree closed other base
  obtain ⟨_, G, -, shown'⟩ := Tree.parse_builds parses'
  have joined : F.mergeTexts = G.mergeTexts := by
    refine Forest.mergeTexts_eq_of_levels shown.blocksOnly shown'.blocksOnly ?_
    rw [← shown.shows_.contentLevels, ← shown'.shows_.contentLevels, outline]
    rfl
  -- The same text, fed line by line, shows that none of its texts are neighbours.
  obtain ⟨final, -, same, whole⟩ := feeds.change Assembly.ordered_empty rfl
  have closed' : (final.sketch List.singleton).Closed := by
    rw [← same] at closed
    exact closed
  obtain ⟨again, parses'', outline'⟩ := Feeds.tree whole closed' other base
  cases parses'.symm.trans parses''
  have apart := (Sketch.Parted.of_feeds whole Sketch.parted_empty (.inr Sketch.ready_empty)
    closed'.2.2).apart
  have single : later.contentLevels.flatMap List.singleton = later.contentLevels :=
    List.flatMap_singleton' _
  rw [← outline', single, shown'.shows_.contentLevels] at apart
  refine ⟨later, F, parses', shown.shows_, ?_⟩
  rw [joined, Forest.mergeTexts_eq_self shown'.blocksOnly apart]
  exact shown'.shows_

/-- A template with a tree has a text without the comments just if it includes no files. -/
theorem Tree.exists_uncommented_iff {store : Store} {text directory : String} {tree : Tree}
    (parses : Tree.parse store text directory = .ok tree) :
    (∃ plain : String, Markup.Uncommented text.toList plain.toList) ↔
      ¬ Markup.OpensInclude text.toList := by
  constructor
  · rintro ⟨plain, uncommented⟩ opens
    exact uncommented.not_opensInclude opens rfl
  · intro includesNothing
    unfold Tree.parse at parses
    split at parses
    · cases parses
    rename_i reader after read
    have meets : Markup.Reader.Meets directory text.toList (.ofText text directory) :=
      Markup.Reader.meets_outside directory 1 text.toList
    obtain ⟨out, uncommented⟩ :=
      (exists_uncommented meets Assembly.ordered_empty rfl read).resolve_right includesNothing
    exact ⟨String.ofList out, by rwa [String.toList_ofList]⟩

end Document

end ConfigTemplate
