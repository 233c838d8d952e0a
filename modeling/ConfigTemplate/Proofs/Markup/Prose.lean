import ConfigTemplate.Proofs.Markup.Comments

/-!
# Texts without elements

A template may hold literal text and comments only. What it is without its comments then has no `<`,
and that is what a reader finds, cut into tokens at the comments.

Results:
1. `Reader.finds_text`: a text without a `<` is one token.
2. `Reader.finds_uncommented`: the tokens of a text without elements.
-/

namespace ConfigTemplate.Markup

/-- A text without elements, and what it is without its comments. Each `<` in such a text stands in a
comment or starts one, and every comment has an end. -/
structure Prose (text out : List Char) : Prop where
  uncommented : Uncommented text out
  noElement : '<' ∉ out

/-- What such a text is without its comments depends on nothing else. -/
theorem Prose.unique {text out plain : List Char} (prose : Prose text out) (also : Prose text plain) :
    out = plain := prose.uncommented.unique also.uncommented rfl

namespace Reader

variable {root : String} {r middle : Reader}

/-- The reader finds these tokens one after the other, and then the end. -/
def Finds (r : Reader) (tokens : List Token) : Prop :=
  ∃ last after, Trail r tokens last ∧ last.next = (.ok none, after)

theorem Finds.token {first : Token} {others : List Token}
    (found : r.next = (.ok (some first), middle)) (further : middle.Finds others) :
    r.Finds (first :: others) := by
  obtain ⟨last, after, trail, ended⟩ := further
  exact ⟨last, after, .token found trail, ended⟩

theorem Meets.finds_nil (meets : Meets root [] r) : r.Finds [] := by
  obtain ⟨after, ended⟩ := meets.next_end
  exact ⟨r, after, .stop r, ended⟩

/-- Literal text up to the end is one token. -/
theorem Meets.finds_plain {text : List Char} (meets : Meets root text r) (some_ : text ≠ [])
    (plain : '<' ∉ text) : r.Finds [.text (String.ofList text)] := by
  have whole : Meets root (text ++ []) r := by rwa [List.append_nil]
  obtain ⟨middle, _, found, behind, -⟩ := whole.next_text some_ plain nofun
  exact .token found behind.finds_nil

/-- Before such a text a reader finds texts, which make up the text without its comments. With them goes
literal text in front. -/
theorem exists_finds {text out : List Char} (uncommented : Uncommented text out)
    (noElement : '<' ∉ out) (front : List Char) (plain : '<' ∉ front)
    (meets : Meets root (front ++ text) r) :
    ∃ contents : List (List Char), r.Finds (contents.map fun cs => .text (String.ofList cs)) ∧
      (∀ content ∈ contents, content ≠ []) ∧ contents.flatten = front ++ out := by
  induction uncommented generalizing front r with
  | nil =>
    by_cases none_ : front = []
    · subst none_
      exact ⟨[], meets.finds_nil, nofun, rfl⟩
    · rw [List.append_nil] at meets
      exact ⟨[front], meets.finds_plain none_ plain, by simpa using none_, by simp⟩
  | @char c rest out differs further ih =>
    have longer : '<' ∉ front ++ [c] := by simp [plain, differs.symm]
    obtain ⟨contents, finds, some_, joined⟩ :=
      ih (fun inside => noElement (List.mem_cons_of_mem c inside)) _ longer (by simpa using meets)
    exact ⟨contents, finds, some_, by simpa using joined⟩
  | tag spelled =>
    obtain ⟨body, rfl⟩ := spelled.starts
    exact absurd (by simp) noElement
  | comment upToEnd further ih =>
    by_cases none_ : front = []
    · subst none_
      exact ih noElement [] plain (meets.skip upToEnd)
    · obtain ⟨middle, _, found, behind, -⟩ :=
        meets.next_text none_ plain (by simp [commentStart])
      obtain ⟨contents, finds, some_, joined⟩ :=
        ih noElement [] List.not_mem_nil (behind.skip upToEnd)
      exact ⟨front :: contents, .token found finds, List.forall_mem_cons.2 ⟨none_, some_⟩,
        by simp [joined]⟩

/-- In a text without elements, a reader finds the text without its comments, cut into tokens that are
not empty, and then the end. Without a comment it is not cut. -/
theorem finds_prose {text : String} {out : List Char} (prose : Prose text.toList out)
    (directory : String) :
    ∃ contents : List String,
      (ofText text directory).Finds (contents.map .text) ∧ (∀ content ∈ contents, content ≠ "") ∧
      String.join contents = String.ofList out ∧
      (text ≠ "" → '<' ∉ text.toList → contents = [text]) := by
  have meets : Meets directory text.toList (ofText text directory) := meets_outside directory 1 _
  by_cases plain : text ≠ "" ∧ '<' ∉ text.toList
  · obtain ⟨some_, plain⟩ := plain
    have finds := meets.finds_plain (by simpa using some_) plain
    have same : out = text.toList := prose.unique ⟨.of_plain plain, plain⟩
    rw [String.ofList_toList] at finds
    exact ⟨[text], finds, by simpa using some_, by simp [same], fun _ _ => rfl⟩
  · obtain ⟨contents, finds, some_, joined⟩ :=
      exists_finds prose.uncommented prose.noElement [] List.not_mem_nil meets
    refine ⟨contents.map String.ofList, by simpa [Function.comp_def] using finds, ?_, ?_,
      fun other none_ => absurd ⟨other, none_⟩ plain⟩
    · simpa using some_
    · rw [List.nil_append] at joined
      apply String.toList_injective
      simp [String.toList_join, List.flatMap_map, ← joined]

/-- Text with a comment, which takes its line break along. -/
theorem exComment_prose :
    Prose "a<!-- b --> \r\nc".toList ['a', 'c'] ∧
      ∃ contents : List String,
        (ofText "a<!-- b --> \r\nc" "").Finds (contents.map .text) ∧
          (∀ content ∈ contents, content ≠ "") ∧ String.join contents = "ac" := by
  have comment : Uncommented
      (commentStart ++ ([' ', 'b', ' '] ++ (commentEnd ++ [' ', '\r', '\n', 'c']))) ['c'] :=
    .comment (by unfold CommentBody; decide) (.char (by decide) .nil)
  have prose : Prose "a<!-- b --> \r\nc".toList ['a', 'c'] :=
    ⟨.char (by decide) comment, by decide⟩
  obtain ⟨contents, finds, some_, joined, -⟩ := finds_prose prose ""
  exact ⟨prose, contents, finds, some_, joined⟩

end Reader

end ConfigTemplate.Markup
