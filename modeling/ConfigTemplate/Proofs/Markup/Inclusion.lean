import ConfigTemplate.Proofs.Markup.Lexable

/-!
# Including files

An `include` element without content stands for the file that it names, whose own `include` elements
stand for files in turn. `Expansion` puts the files in their places. A reader does not do so at once:
its input is a stack of texts that are included but not yet read to their end. `Unread` says what the
input comes to, and `Sources` that the texts on the stack are what is left of texts that are involved.

Results:
1. `Expansion.unique`: a text has at most one expansion.
2. `Includable.selfContained`: a text of characters, tags and whole `include` elements is
   self-contained.
3. `Sources.exists_cut`: how a stack goes on up to the next element, and what this adds to its
   expansion.
-/

namespace ConfigTemplate.Markup

/-! ## Expansions -/

namespace Tag

def opensInclude : Tag → Bool
  | .opening name _ _ => name == "include"
  | .closing _ => false

end Tag

/-- The element names a file to be included, and holds nothing. -/
inductive Includes : List Char → String → Prop where
  | selfClosing {element : List Char} {attributes : List (String × String)} {path : String}
      (spelled : (Tag.opening "include" attributes true).Written element)
      (named : (NameMap.ofList attributes).get? "path" = some path) : Includes element path
  | pair {opening closing : List Char} {attributes : List (String × String)} {path : String}
      (opens : (Tag.opening "include" attributes false).Written opening)
      (closes : (Tag.closing "include").Written closing)
      (named : (NameMap.ofList attributes).get? "path" = some path) :
      Includes (opening ++ closing) path

/-- The text with all files in the places of the elements that include them. The paths in it are read
in the given directory, and those in a file in the directory of that file. -/
inductive Expansion (store : Store) : String → List Char → List Char → Prop where
  | nil {directory : String} : Expansion store directory [] []
  | char {directory : String} {c : Char} {rest out : List Char} (plain : c ≠ '<')
      (further : Expansion store directory rest out) :
      Expansion store directory (c :: rest) (c :: out)
  | tag {directory : String} {tag : Tag} {written rest out : List Char}
      (spelled : tag.Written written) (ordinary : tag.opensInclude = false)
      (further : Expansion store directory rest out) :
      Expansion store directory (written ++ rest) (written ++ out)
  | included {directory path content : String} {file : Location}
      {element rest inner out : List Char} (includes : Includes element path)
      (opens : Reader.openFile store (Path.join directory path) = .ok (file, content))
      (expands : Expansion store (Location.path file.dropLast) content.toList inner)
      (further : Expansion store directory rest out) :
      Expansion store directory (element ++ rest) (inner ++ out)

/-- A text that comes up when a template is expanded, with the directory in which its paths are
read. -/
inductive Involved (store : Store) (root template : String) : String → String → Prop where
  | template : Involved store root template root template
  | file {directory text path content : String} {before element behind : List Char}
      {file : Location} (involved : Involved store root template directory text)
      (split : text.toList = before ++ (element ++ behind)) (place : Lexable before)
      (includes : Includes element path)
      (opens : Reader.openFile store (Path.join directory path) = .ok (file, content)) :
      Involved store root template (Location.path file.dropLast) content

/-- A text has no comments, can be read to its end by itself, and its `include` elements hold
nothing. -/
structure SelfContained (text : String) : Prop where
  comments : ¬ commentStart <:+: text.toList
  reads : (Reader.ofText text "").ReadsToEnd
  empty : ∀ before opening behind attributes, text.toList = before ++ (opening ++ behind) →
    Lexable before → (Tag.opening "include" attributes false).Written opening →
    ∃ closing rest, behind = closing ++ rest ∧ (Tag.closing "include").Written closing

theorem SelfContained.lexable {text : String} (contained : SelfContained text) :
    Lexable text.toList :=
  (readsToEnd_iff_lexable contained.comments "").1 contained.reads

/-! ### An expansion is unique -/

theorem Tag.Written.starts {tag : Tag} {text : List Char} (spelled : tag.Written text) :
    ∃ body, text = '<' :: body := by
  obtain ⟨body, same, -⟩ := spelled
  exact ⟨body, same⟩

theorem Includes.starts {element : List Char} {path : String} (includes : Includes element path) :
    ∃ body, element = '<' :: body := by
  cases includes with
  | selfClosing spelled named => exact spelled.starts
  | pair opens closes named =>
    obtain ⟨body, rfl⟩ := opens.starts
    exact ⟨_, rfl⟩

/-- The first tag of an element that includes a file. -/
theorem Includes.opening {element : List Char} {path : String} (includes : Includes element path) :
    ∃ (tag : Tag) (written rest : List Char), element = written ++ rest ∧ tag.Written written ∧
      tag.opensInclude = true := by
  cases includes with
  | selfClosing spelled named => exact ⟨_, element, [], by simp, spelled, rfl⟩
  | pair opens closes named => exact ⟨_, _, _, rfl, opens, rfl⟩

theorem Tag.opensInclude_of_event {left right : Tag} (same : left.event 0 = right.event 0) :
    left.opensInclude = right.opensInclude := by
  cases left <;> cases right <;> simp_all [event, opensInclude]

theorem Includes.unique {first second behind after : List Char} {path other : String}
    (includes : Includes first path) (also : Includes second other)
    (same : first ++ behind = second ++ after) :
    first = second ∧ path = other ∧ behind = after := by
  cases includes with
  | selfClosing spelled named =>
    cases also with
    | selfClosing spelled' named' =>
      obtain ⟨events, rfl, rfl⟩ := spelled.unique spelled' same
      obtain ⟨-, attributes, -, -⟩ := Event.opened.inj events
      rw [attributes] at named
      exact ⟨rfl, Option.some.inj (named.symm.trans named'), rfl⟩
    | pair opens closes named' =>
      rw [List.append_assoc] at same
      obtain ⟨events, -⟩ := spelled.unique opens same
      cases (Event.opened.inj events).2.2.2
  | pair opens closes named =>
    rw [List.append_assoc] at same
    cases also with
    | selfClosing spelled' named' =>
      obtain ⟨events, -⟩ := opens.unique spelled' same
      cases (Event.opened.inj events).2.2.2
    | pair opens' closes' named' =>
      rw [List.append_assoc] at same
      obtain ⟨events, rfl, further⟩ := opens.unique opens' same
      obtain ⟨-, rfl, rfl⟩ := closes.unique closes' further
      obtain ⟨-, attributes, -, -⟩ := Event.opened.inj events
      rw [attributes] at named
      exact ⟨rfl, Option.some.inj (named.symm.trans named'), rfl⟩

/-- A text has at most one expansion. -/
theorem Expansion.unique {store : Store} {directory : String} {text other out out' : List Char}
    (expands : Expansion store directory text out) (also : Expansion store directory other out')
    (same : text = other) : out = out' := by
  induction expands generalizing other out' with
  | nil =>
    cases also with
    | nil => rfl
    | char => cases same
    | tag spelled ordinary further =>
      obtain ⟨body, rfl⟩ := spelled.starts
      cases same
    | included includes opens expands further =>
      obtain ⟨body, rfl⟩ := includes.starts
      cases same
  | char plain further ih =>
    cases also with
    | nil => cases same
    | char plain' further' =>
      cases same
      rw [ih further' rfl]
    | tag spelled ordinary further' =>
      obtain ⟨body, rfl⟩ := spelled.starts
      cases same
      exact absurd rfl plain
    | included includes opens expands further' =>
      obtain ⟨body, rfl⟩ := includes.starts
      cases same
      exact absurd rfl plain
  | tag spelled ordinary further ih =>
    cases also with
    | nil =>
      obtain ⟨body, rfl⟩ := spelled.starts
      cases same
    | char plain further' =>
      obtain ⟨body, rfl⟩ := spelled.starts
      cases same
      exact absurd rfl plain
    | tag spelled' ordinary' further' =>
      obtain ⟨-, rfl, rfl⟩ := spelled.unique spelled' same
      rw [ih further' rfl]
    | included includes opens expands further' =>
      obtain ⟨tag, written, rest, rfl, spelled', opensInclude⟩ := includes.opening
      rw [List.append_assoc] at same
      have differs := Tag.opensInclude_of_event (spelled.unique spelled' same).1
      cases ordinary.symm.trans (differs.trans opensInclude)
  | included includes opens expands further ihInner ih =>
    cases also with
    | nil =>
      obtain ⟨body, rfl⟩ := includes.starts
      cases same
    | char plain further' =>
      obtain ⟨body, rfl⟩ := includes.starts
      cases same
      exact absurd rfl plain
    | tag spelled' ordinary' further' =>
      obtain ⟨tag, written, rest, rfl, spelled, opensInclude⟩ := includes.opening
      rw [List.append_assoc] at same
      have differs := Tag.opensInclude_of_event (spelled.unique spelled' same).1
      cases ordinary'.symm.trans (differs.symm.trans opensInclude)
    | included includes' opens' expands' further' =>
      obtain ⟨rfl, rfl, rfl⟩ := includes.unique includes' same
      cases opens.symm.trans opens'
      rw [ihInner expands' rfl, ih further' rfl]

/-! ### Texts that are self-contained -/

/-- A text is made of characters, tags and whole `include` elements. -/
inductive Includable : List Char → Prop where
  | nil : Includable []
  | char {c : Char} {rest : List Char} (plain : c ≠ '<') (further : Includable rest) :
      Includable (c :: rest)
  | tag {tag : Tag} {written rest : List Char} (spelled : tag.Written written)
      (ordinary : tag.opensInclude = false) (further : Includable rest) :
      Includable (written ++ rest)
  | included {element rest : List Char} {path : String} (includes : Includes element path)
      (further : Includable rest) : Includable (element ++ rest)

theorem Tag.Written.lexable {tag : Tag} {written : List Char} (spelled : tag.Written written) :
    Lexable written := by
  obtain ⟨body, rfl, lexed⟩ := spelled
  exact .of_lexed lexed

theorem Includes.lexable {element : List Char} {path : String} (includes : Includes element path) :
    Lexable element := by
  cases includes with
  | selfClosing spelled named => exact spelled.lexable
  | pair opens closes named => exact opens.lexable.append closes.lexable

theorem Includable.lexable {text : List Char} (includable : Includable text) : Lexable text := by
  induction includable with
  | nil => exact .nil
  | char plain _ ih => exact .char plain ih
  | tag spelled _ _ ih => exact spelled.lexable.append ih
  | included includes _ ih => exact includes.lexable.append ih

/-- If a text starts with a tag, then so do the characters and elements at its front. -/
theorem Lexable.split {tag : Tag} {written rest before behind : List Char}
    (spelled : tag.Written written) (lexable : Lexable before)
    (same : written ++ rest = before ++ behind) :
    before = [] ∨ ∃ more, before = written ++ more ∧ Lexable more ∧ rest = more ++ behind := by
  obtain ⟨body, rfl, lexed⟩ := spelled
  cases lexable with
  | nil => exact .inl rfl
  | char plain => exact absurd (List.cons.inj same).1.symm plain
  | @element other more tokens lexed' further =>
    simp only [List.cons_append, List.append_assoc, List.cons.injEq, true_and] at same
    obtain ⟨-, rfl, rfl⟩ := lexed.unique lexed' same
    exact .inr ⟨more, rfl, further, rfl⟩

/-- The `include` elements of such a text hold nothing. -/
theorem Includable.empty {text before opening behind : List Char}
    {attributes : List (String × String)} (includable : Includable text) (place : Lexable before)
    (split : text = before ++ (opening ++ behind))
    (opens : (Tag.opening "include" attributes false).Written opening) :
    ∃ closing rest, behind = closing ++ rest ∧ (Tag.closing "include").Written closing := by
  induction includable generalizing before with
  | nil =>
    obtain ⟨body, rfl⟩ := opens.starts
    simp at split
  | char plain _ ih =>
    cases before with
    | nil =>
      obtain ⟨body, rfl⟩ := opens.starts
      exact absurd (List.cons.inj split).1 plain
    | cons c before =>
      obtain ⟨rfl, behind⟩ := List.cons.inj split
      exact ih (place.of_cons plain) behind
  | tag spelled ordinary _ ih =>
    rcases Lexable.split spelled place split with rfl | ⟨more, rfl, place, behind⟩
    · have differs := Tag.opensInclude_of_event (spelled.unique opens split).1
      cases ordinary.symm.trans differs
    · exact ih place behind
  | included includes _ ih =>
    cases includes with
    | selfClosing spelled named =>
      rcases Lexable.split spelled place split with rfl | ⟨more, rfl, place, behind⟩
      · cases (Event.opened.inj (spelled.unique opens split).1).2.2.2
      · exact ih place behind
    | pair opens' closes named =>
      rw [List.append_assoc] at split
      rcases Lexable.split opens' place split with rfl | ⟨more, rfl, place, split⟩
      · obtain ⟨-, rfl, rfl⟩ := opens'.unique opens split
        exact ⟨_, _, rfl, closes⟩
      rcases Lexable.split closes place split with rfl | ⟨more, rfl, place, behind⟩
      · cases (closes.unique opens split).1
      · exact ih place behind

theorem Includable.selfContained {text : String} (includable : Includable text.toList)
    (comments : ¬ commentStart <:+: text.toList) : SelfContained text where
  comments := comments
  reads := (readsToEnd_iff_lexable comments "").2 includable.lexable
  empty _ _ _ _ split place opens := includable.empty place split opens

/-! ## Stacks of texts -/

/-- The symbols of what is left of a text, and of the texts that include it, the innermost first. Each
of these is given with the file that it includes. -/
def Symbol.stack (rest : List Char) : List (Location × List Char) → List Symbol
  | [] => rest.map .char
  | (file, behind) :: outer => rest.map .char ++ .endOf file :: stack behind outer

/-- The directory in which the paths of the innermost text are read. -/
def innerDirectory (root : String) : List (Location × List Char) → String
  | [] => root
  | (file, _) :: _ => Location.path file.dropLast

variable {store : Store} {root template : String} {rest behind : List Char}
  {outer : List (Location × List Char)}

theorem Symbol.stack_append (front rest : List Char) (outer : List (Location × List Char)) :
    stack (front ++ rest) outer = front.map .char ++ stack rest outer := by
  cases outer <;> simp [stack]

theorem Symbol.upToElement_stack (body : List Char) (outer : List (Location × List Char)) :
    upToElement (stack ('<' :: body) outer) = ([], stack ('<' :: body) outer) := by
  cases outer <;> simp [stack, upToElement]

theorem Symbol.innermost?_append (cs : List Char) (symbols : List Symbol) :
    innermost? (cs.map .char ++ symbols) = innermost? symbols := by
  induction cs with
  | nil => rfl
  | cons c cs ih => exact ih

/-- Paths are read in the directory of the innermost text. -/
theorem Reader.directory_stack (r : Reader) (input : r.input = Symbol.stack rest outer) :
    r.directory = innerDirectory r.root outer := by
  rw [directory, input]
  cases outer with
  | nil =>
    have none_ := Symbol.innermost?_append rest []
    rw [List.append_nil] at none_
    simp [Symbol.stack, none_, Symbol.innermost?, innerDirectory]
  | cons file outer =>
    simp [Symbol.stack, Symbol.innermost?_append, Symbol.innermost?, innerDirectory]

/-- The expansions of the texts of a stack, one after the other. -/
def Unread (store : Store) (root : String) (rest : List Char) :
    List (Location × List Char) → List Char → Prop
  | [], out => Expansion store root rest out
  | (file, behind) :: outer, out =>
    ∃ inner further, out = inner ++ further ∧
      Expansion store (Location.path file.dropLast) rest inner ∧
      Unread store root behind outer further

/-- What stands in front of the innermost text comes in front of the expansions. -/
theorem Unread.prepend {front expanded out : List Char} (unread : Unread store root rest outer out)
    (expands : ∀ inner, Expansion store (innerDirectory root outer) rest inner →
      Expansion store (innerDirectory root outer) (front ++ rest) (expanded ++ inner)) :
    Unread store root (front ++ rest) outer (expanded ++ out) := by
  cases outer with
  | nil => exact expands out unread
  | cons file outer =>
    obtain ⟨inner, further, rfl, innermost, others⟩ := unread
    exact ⟨expanded ++ inner, further, by simp, expands inner innermost, others⟩

theorem Expansion.prepend {directory : String} {text out : List Char} (plain : '<' ∉ text)
    (expands : Expansion store directory rest out) :
    Expansion store directory (text ++ rest) (text ++ out) := by
  induction text with
  | nil => exact expands
  | cons c text ih =>
    rw [List.mem_cons, not_or] at plain
    exact .char (Ne.symm plain.1) (ih plain.2)

theorem Expansion.of_plain {directory : String} {text : List Char} (plain : '<' ∉ text) :
    Expansion store directory text text := by
  have empty : Expansion store directory [] [] := .nil
  have whole := empty.prepend plain
  rwa [List.append_nil] at whole

/-! ### What is left of texts that are involved -/

/-- The rest of a text that is involved, behind whole elements. -/
def Remains (store : Store) (root template directory : String) (rest : List Char) : Prop :=
  Lexable rest ∧ ∃ before text, Involved store root template directory text ∧
    text.toList = before ++ rest ∧ Lexable before

namespace Remains

variable {directory : String}

theorem whole {text : String} (involved : Involved store root template directory text)
    (lexable : Lexable text.toList) : Remains store root template directory text.toList :=
  ⟨lexable, [], text, involved, rfl, .nil⟩

theorem drop {front : List Char} (remains : Remains store root template directory (front ++ rest))
    (lexable : Lexable front) (further : Lexable rest) :
    Remains store root template directory rest := by
  obtain ⟨-, before, text, involved, split, place⟩ := remains
  exact ⟨further, before ++ front, text, involved, by rw [split, List.append_assoc],
    place.append lexable⟩

theorem plain {text : List Char} (remains : Remains store root template directory (text ++ rest))
    (plain : '<' ∉ text) : Remains store root template directory rest :=
  remains.drop (.of_plain plain) (remains.1.of_append plain)

/-- What is left starts with an element if it starts with a `<`. -/
theorem element {body : List Char} (remains : Remains store root template directory ('<' :: body)) :
    ∃ front rest tokens, body = front ++ rest ∧ Lexed front tokens ∧
      Remains store root template directory rest := by
  cases remains.1 with
  | char plain => exact absurd rfl plain
  | @element front rest tokens lexed further =>
    have first : Lexable ('<' :: front) := Lexable.of_lexed lexed
    exact ⟨front, rest, tokens, rfl, lexed, remains.drop first further⟩

/-- Behind a tag what is left can be taken apart again. -/
theorem tag {tag : Tag} {written : List Char} (spelled : tag.Written written)
    (remains : Remains store root template directory (written ++ rest)) :
    Remains store root template directory rest := by
  obtain ⟨body, rfl, lexed⟩ := spelled
  obtain ⟨front, behind, tokens, split, lexed', further⟩ := remains.element
  obtain ⟨-, -, rfl⟩ := lexed.unique lexed' split
  exact further

/-- A file that is included next is involved. -/
theorem file {element : List Char} {path content : String} {file : Location}
    (remains : Remains store root template directory (element ++ behind))
    (includes : Includes element path)
    (opens : Reader.openFile store (Path.join directory path) = .ok (file, content)) :
    Involved store root template (Location.path file.dropLast) content := by
  obtain ⟨-, before, text, involved, split, place⟩ := remains
  exact .file involved split place includes opens

/-- An `include` element that is opened next is closed at once. -/
theorem empty {opening : List Char} {attributes : List (String × String)}
    (remains : Remains store root template directory (opening ++ behind))
    (contained : ∀ directory text, Involved store root template directory text → SelfContained text)
    (opens : (Tag.opening "include" attributes false).Written opening) :
    ∃ closing rest, behind = closing ++ rest ∧ (Tag.closing "include").Written closing := by
  obtain ⟨-, before, text, involved, split, place⟩ := remains
  exact (contained _ _ involved).empty before opening behind attributes split place opens

end Remains

/-- The texts of a stack are what is left of texts that are involved. -/
def Sources (store : Store) (root template : String) (rest : List Char) :
    List (Location × List Char) → Prop
  | [] => Remains store root template root rest
  | (file, behind) :: outer =>
    Remains store root template (Location.path file.dropLast) rest ∧
      Sources store root template behind outer

namespace Sources

theorem top (sources : Sources store root template rest outer) :
    Remains store root template (innerDirectory root outer) rest := by
  cases outer with
  | nil => exact sources
  | cons file outer => exact sources.1

theorem replace {later : List Char} (sources : Sources store root template rest outer)
    (remains : Remains store root template (innerDirectory root outer) later) :
    Sources store root template later outer := by
  cases outer with
  | nil => exact remains
  | cons file outer => exact ⟨remains, sources.2⟩

end Sources

/-- The first stack has this text up to the next element, and then it is the second one. -/
structure Cut (store : Store) (root template : String) (rest : List Char)
    (outer : List (Location × List Char)) (text left : List Char)
    (further : List (Location × List Char)) : Prop where
  splits : Symbol.upToElement (Symbol.stack rest outer) = (text, Symbol.stack left further)
  plain : '<' ∉ text
  ends : (left = [] ∧ further = []) ∨ ∃ body, left = '<' :: body
  sources : Sources store root template left further
  unread : ∀ out, Unread store root left further out → Unread store root rest outer (text ++ out)

theorem Sources.cut_element {text body : List Char} (plain : '<' ∉ text)
    (sources : Sources store root template (text ++ '<' :: body) outer) :
    Cut store root template (text ++ '<' :: body) outer text ('<' :: body) outer where
  splits := by
    rw [Symbol.stack_append, Symbol.upToElement_plain plain, Symbol.upToElement_stack,
      List.append_nil]
  plain := plain
  ends := .inr ⟨body, rfl⟩
  sources := sources.replace (sources.top.plain plain)
  unread _ unread := unread.prepend fun _ expands => expands.prepend plain

/-- There is no comment behind the text. -/
theorem Cut.commentBody? {text left : List Char} {further : List (Location × List Char)}
    (cut : Cut store root template rest outer text left further) :
    Symbol.commentBody? (Symbol.stack left further) = none := by
  rcases cut.ends with ⟨rfl, rfl⟩ | ⟨body, rfl⟩
  · rfl
  · obtain ⟨front, behind, tokens, rfl, lexed, -⟩ := cut.sources.top.element
    have split : Symbol.stack ('<' :: (front ++ behind)) further =
        .char '<' :: (front.map .char ++ Symbol.stack behind further) :=
      Symbol.stack_append ('<' :: front) behind further
    rw [split]
    exact lexed.commentBody? _

/-- Up to the next element a stack loses the texts that have none. -/
theorem Sources.exists_cut (sources : Sources store root template rest outer) :
    ∃ text left further, Cut store root template rest outer text left further := by
  induction outer generalizing rest with
  | nil =>
    by_cases element : '<' ∈ rest
    · obtain ⟨text, body, rfl, plain⟩ := List.eq_append_cons_of_mem element
      exact ⟨text, _, _, sources.cut_element plain⟩
    rw [← List.append_nil rest] at sources
    refine ⟨rest, [], [], ?_, element, .inl ⟨rfl, rfl⟩, sources.top.plain element, fun out unread => ?_⟩
    · have splits := Symbol.upToElement_plain element []
      rwa [List.append_nil, Symbol.upToElement, List.append_nil] at splits
    · rw [← List.append_nil rest, List.append_assoc]
      exact unread.prepend fun _ expands => expands.prepend element
  | cons including outer ih =>
    obtain ⟨file, behind⟩ := including
    by_cases element : '<' ∈ rest
    · obtain ⟨text, body, rfl, plain⟩ := List.eq_append_cons_of_mem element
      exact ⟨text, _, _, sources.cut_element plain⟩
    obtain ⟨text, left, further, splits, plain, ends, others, unread⟩ := ih sources.2
    refine ⟨rest ++ text, left, further, ?_, by simp [element, plain], ends, others,
      fun out remains => ?_⟩
    · rw [Symbol.stack, Symbol.upToElement_plain element, Symbol.upToElement, splits]
    · exact ⟨rest, text ++ out, List.append_assoc .., .of_plain element, unread out remains⟩

end ConfigTemplate.Markup
