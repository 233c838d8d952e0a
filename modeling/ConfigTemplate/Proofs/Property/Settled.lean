import ConfigTemplate.Proofs.Property.Expansion

/-!
# Settled texts

Substitution stops with a pass that replaces nothing. Such a pass may still drop pairs of `##`, and
the text on both sides of a pair closes up where the pair was. No new `##` comes from that: a single
`#` is literal only in front of another character or at the end, so what stands before a dropped pair
does not end in `#`.

Results:
1. `scan`: the cases of a pass as an induction over texts.
2. `passFrom_unclosed` and `passFrom_closed`: an open marker is closed by the first `##` behind it.
3. `delimiterCount_pass`: a pass that replaces nothing leaves at most one `##`.
4. `substitute_settled`: what substitution yields is left alone by every scope, and these are exactly
   the texts with at most one `##`.
-/

namespace ConfigTemplate.Property

/-- How many `##` are found from left to right when none may overlap the one before. -/
def delimiterCount : List Char → Nat
  | '#' :: '#' :: rest => delimiterCount rest + 1
  | _ :: rest => delimiterCount rest
  | [] => 0

variable {value : String → String} {c : Char} {text rest inner content : List Char}

/-! ## The first delimiter -/

theorem not_opensMarker_of_noDelimiter (noDelimiter : ¬ ['#', '#'] <:+: c :: rest) :
    ¬ OpensMarker c rest := by
  rintro ⟨rfl, second⟩
  obtain ⟨others, rfl⟩ := List.head?_eq_some_iff.1 second
  exact noDelimiter ⟨[], others, rfl⟩

theorem noDelimiter_tail (noDelimiter : ¬ ['#', '#'] <:+: c :: rest) : ¬ ['#', '#'] <:+: rest :=
  fun inside => noDelimiter (inside.trans (List.suffix_cons c rest).isInfix)

theorem noDelimiter_cons (literal : ¬ OpensMarker c rest) (noDelimiter : ¬ ['#', '#'] <:+: rest) :
    ¬ ['#', '#'] <:+: c :: rest := by
  intro inside
  rcases List.infix_cons_iff.1 inside with front | inside
  · obtain ⟨others, same⟩ := front
    obtain ⟨rfl, rfl⟩ := List.cons.inj same
    exact literal ⟨rfl, rfl⟩
  · exact noDelimiter inside

/-- The `##` behind this text is the first one: the text has none, not even with the first `#`. -/
def EndsAtFirst (inner : List Char) : Prop := ¬ ['#', '#'] <:+: inner ++ ['#']

theorem endsAtFirst_nil : EndsAtFirst [] := show ¬ ['#', '#'] <:+: ['#'] by decide

theorem EndsAtFirst.not_opensMarker (first : EndsAtFirst (c :: inner)) (rest : List Char) :
    ¬ OpensMarker c (inner ++ '#' :: '#' :: rest) := by
  have literal : ¬ OpensMarker c (inner ++ ['#']) := not_opensMarker_of_noDelimiter first
  rintro ⟨rfl, second⟩
  refine literal ⟨rfl, ?_⟩
  cases inner <;> exact second

theorem EndsAtFirst.cons (literal : ¬ OpensMarker c (inner ++ '#' :: '#' :: rest))
    (first : EndsAtFirst inner) : EndsAtFirst (c :: inner) := by
  refine noDelimiter_cons ?_ first
  rintro ⟨rfl, second⟩
  refine literal ⟨rfl, ?_⟩
  cases inner <;> exact second

theorem exists_first (text : List Char) : ¬ ['#', '#'] <:+: text ∨
    ∃ inner rest, text = inner ++ '#' :: '#' :: rest ∧ EndsAtFirst inner := by
  induction text with
  | nil => exact .inl (by decide)
  | cons c text ih =>
    by_cases opens : OpensMarker c text
    · obtain ⟨rfl, second⟩ := opens
      obtain ⟨rest, rfl⟩ := List.head?_eq_some_iff.1 second
      exact .inr ⟨[], rest, rfl, endsAtFirst_nil⟩
    · rcases ih with noDelimiter | ⟨inner, rest, rfl, first⟩
      · exact .inl (noDelimiter_cons opens noDelimiter)
      · exact .inr ⟨c :: inner, rest, rfl, .cons opens first⟩

/-- A text is read from left to right as literal characters and as pairs of `##`, perhaps with one
`##` that has no partner in front of its last part. -/
theorem scan {motive : List Char → Prop} (nil : motive [])
    (literal : ∀ c rest, ¬ OpensMarker c rest → motive rest → motive (c :: rest))
    (unclosed : ∀ rest, ¬ ['#', '#'] <:+: rest → motive ('#' :: '#' :: rest))
    (closed : ∀ inner rest, EndsAtFirst inner → motive rest →
      motive ('#' :: '#' :: (inner ++ '#' :: '#' :: rest)))
    (text : List Char) : motive text := by
  induction counts : text.length using Nat.strongRecOn generalizing text with
  | ind length shorter =>
    subst counts
    match text with
    | [] => exact nil
    | c :: text =>
      by_cases opens : OpensMarker c text
      · obtain ⟨rfl, second⟩ := opens
        obtain ⟨behind, rfl⟩ := List.head?_eq_some_iff.1 second
        rcases exists_first behind with noDelimiter | ⟨inner, rest, rfl, first⟩
        · exact unclosed behind noDelimiter
        · refine closed inner rest first (shorter rest.length ?_ rest rfl)
          simp only [List.length_cons, List.length_append]
          omega
      · exact literal c text opens (shorter text.length (Nat.lt_succ_self _) text rfl)

/-! ## Counting -/

theorem delimiterCount_char (literal : ¬ OpensMarker c rest) :
    delimiterCount (c :: rest) = delimiterCount rest := by
  rw [delimiterCount]
  rintro others rfl rfl
  exact literal ⟨rfl, rfl⟩

theorem delimiterCount_eq_zero (noDelimiter : ¬ ['#', '#'] <:+: text) : delimiterCount text = 0 := by
  induction text with
  | nil => rfl
  | cons c text ih =>
    rw [delimiterCount_char (not_opensMarker_of_noDelimiter noDelimiter)]
    exact ih (noDelimiter_tail noDelimiter)

theorem delimiterCount_first (first : EndsAtFirst inner) (rest : List Char) :
    delimiterCount (inner ++ '#' :: '#' :: rest) = delimiterCount rest + 1 := by
  induction inner with
  | nil => rfl
  | cons c inner ih =>
    rw [List.cons_append, delimiterCount_char (first.not_opensMarker rest)]
    exact ih (noDelimiter_tail first)

/-! ## One pass -/

theorem passFrom_some_char (value : String → String) (content : List Char)
    (literal : ¬ OpensMarker c rest) :
    passFrom value (some content) (c :: rest) = passFrom value (some (c :: content)) rest := by
  rw [passFrom]
  rintro others rfl rfl
  exact literal ⟨rfl, rfl⟩

/-- A `##` that has no partner is literal, and so is everything behind it. -/
theorem passFrom_unclosed (value : String → String) (content : List Char)
    (noDelimiter : ¬ ['#', '#'] <:+: text) :
    passFrom value (some content) text = ⟨'#' :: '#' :: (content.reverse ++ text), none⟩ := by
  induction text generalizing content with
  | nil => rw [passFrom, List.append_nil]
  | cons c text ih =>
    rw [passFrom_some_char value content (not_opensMarker_of_noDelimiter noDelimiter),
      ih _ (noDelimiter_tail noDelimiter), List.reverse_cons, List.append_assoc]
    rfl

/-- An open marker is closed by the first `##` behind it. -/
theorem passFrom_closed (value : String → String) (content rest : List Char)
    (first : EndsAtFirst inner) :
    passFrom value (some content) (inner ++ '#' :: '#' :: rest) =
      match markerName? (content.reverse ++ inner) with
      | some name => (passFrom value none rest).replaced name (value name).toList
      | none => passFrom value none rest := by
  induction inner generalizing content with
  | nil =>
    rw [List.append_nil]
    cases named : markerName? content.reverse <;> simp [passFrom, named]
  | cons c inner ih =>
    rw [List.cons_append, passFrom_some_char value content (first.not_opensMarker rest),
      ih _ (noDelimiter_tail first), List.reverse_cons, List.append_assoc]
    rfl

namespace Scope

variable {scope : Scope}

theorem pass_char (scope : Scope) (literal : ¬ OpensMarker c rest) :
    scope.pass (c :: rest) = (scope.pass rest).literal [c] := passFrom_char scope.get literal

theorem pass_unclosed (scope : Scope) (noDelimiter : ¬ ['#', '#'] <:+: text) :
    scope.pass ('#' :: '#' :: text) = ⟨'#' :: '#' :: text, none⟩ := by
  rw [pass, passFrom]
  exact passFrom_unclosed scope.get [] noDelimiter

theorem pass_closed (scope : Scope) (first : EndsAtFirst inner) (rest : List Char) :
    scope.pass ('#' :: '#' :: (inner ++ '#' :: '#' :: rest)) =
      match markerName? inner with
      | some name => (scope.pass rest).replaced name (scope.get name).toList
      | none => scope.pass rest := by
  rw [pass, passFrom]
  exact passFrom_closed scope.get [] rest first

/-- Unless a text begins with `##`, a pass keeps its first character. -/
theorem head?_pass (scope : Scope) (literal : text.head? ≠ some '#') :
    (scope.pass text).output.head? = text.head? := by
  cases text with
  | nil => rfl
  | cons c text =>
    have other : ¬ OpensMarker c text := fun opens => literal (congrArg some opens.1)
    rw [pass_char scope other]
    rfl

/-- A pass leaves a text with at most one `##` as it is. -/
theorem pass_of_delimiterCount (scope : Scope) (few : delimiterCount text ≤ 1) :
    scope.pass text = ⟨text, none⟩ := by
  induction text using scan with
  | nil => rfl
  | literal c rest literal ih =>
    rw [delimiterCount_char literal] at few
    rw [pass_char scope literal, ih few]
    rfl
  | unclosed rest noDelimiter => exact scope.pass_unclosed noDelimiter
  | closed inner rest first ih =>
    have two : delimiterCount ('#' :: '#' :: (inner ++ '#' :: '#' :: rest)) =
        delimiterCount rest + 1 + 1 := by
      rw [delimiterCount, delimiterCount_first first]
    omega

/-- A pass that replaces nothing leaves at most one `##`. -/
theorem delimiterCount_pass (done : (scope.pass text).last = none) :
    delimiterCount (scope.pass text).output ≤ 1 := by
  induction text using scan with
  | nil => exact Nat.zero_le 1
  | literal c rest literal ih =>
    rw [pass_char scope literal] at done ⊢
    -- A literal `#` does not meet another one behind a dropped pair: the next character is literal, too.
    have apart : ¬ OpensMarker c (scope.pass rest).output := by
      rintro ⟨rfl, second⟩
      have other : rest.head? ≠ some '#' := fun same => literal ⟨rfl, same⟩
      rw [scope.head?_pass other] at second
      exact other second
    show delimiterCount (c :: (scope.pass rest).output) ≤ 1
    rw [delimiterCount_char apart]
    exact ih done
  | unclosed rest noDelimiter =>
    rw [scope.pass_unclosed noDelimiter, delimiterCount, delimiterCount_eq_zero noDelimiter]
  | closed inner rest first ih =>
    rw [scope.pass_closed first rest] at done ⊢
    cases named : markerName? inner with
    | some name =>
      rw [named] at done
      cases found : (scope.pass rest).last <;> simp [Pass.replaced, found] at done
    | none =>
      rw [named] at done
      exact ih done

/-! ## Substitution -/

/-- What a text settles to comes from a pass that replaces nothing. -/
theorem exists_last_pass {passes : Nat} {output : List Char}
    (settles : scope.settle passes text = .ok output) :
    ∃ before, (scope.pass before).last = none ∧ (scope.pass before).output = output := by
  induction passes generalizing text with
  | zero =>
    cases found : (scope.pass text).last with
    | none => exact ⟨text, found, Except.ok.inj ((settle_of_last_eq_none found).symm.trans settles)⟩
    | some name => cases (settle_zero_of_last found).symm.trans settles
  | succ passes ih =>
    cases found : (scope.pass text).last with
    | none => exact ⟨text, found, Except.ok.inj ((settle_of_last_eq_none found).symm.trans settles)⟩
    | some name => exact ih ((settle_succ_of_last found).symm.trans settles)

theorem substitute_of_delimiterCount (scope : Scope) {input : String}
    (few : delimiterCount input.toList ≤ 1) : scope.substitute input = .ok input := by
  have kept : scope.pass input.toList = ⟨input.toList, none⟩ := scope.pass_of_delimiterCount few
  rw [substitute, settle_of_last_eq_none (by rw [kept]), kept]
  exact congrArg Except.ok String.ofList_toList

theorem delimiterCount_of_substitute {input output : String}
    (substitutes : scope.substitute input = .ok output) : delimiterCount output.toList ≤ 1 := by
  unfold substitute at substitutes
  cases settles : scope.settle maxPasses input.toList with
  | error cause => simp [settles, Except.map] at substitutes
  | ok text =>
    obtain ⟨before, done, rfl⟩ := exists_last_pass settles
    simp only [settles, Except.map, Except.ok.injEq] at substitutes
    rw [← substitutes, String.toList_ofList]
    exact delimiterCount_pass done

/-- What substitution yields has at most one `##`, and no scope changes it any more. So substitution
is idempotent, and it returns a text unchanged exactly if the text has at most one `##`. -/
theorem substitute_settled (scope : Scope) (input : String) :
    (∀ output, scope.substitute input = .ok output →
      delimiterCount output.toList ≤ 1 ∧ ∀ other : Scope, other.substitute output = .ok output) ∧
    (scope.substitute input >>= scope.substitute) = scope.substitute input ∧
    (scope.substitute input = .ok input ↔ delimiterCount input.toList ≤ 1) := by
  have settled : ∀ output, scope.substitute input = .ok output →
      delimiterCount output.toList ≤ 1 ∧ ∀ other : Scope, other.substitute output = .ok output := by
    intro output substitutes
    have few : delimiterCount output.toList ≤ 1 := delimiterCount_of_substitute substitutes
    exact ⟨few, fun other => other.substitute_of_delimiterCount few⟩
  refine ⟨settled, ?_, fun same => (settled input same).1, scope.substitute_of_delimiterCount⟩
  cases found : scope.substitute input with
  | error cause => rfl
  | ok output => exact (settled output found).2 scope

/-- A marker is replaced, a malformed one is dropped, and single `#` and the last `##` stay for good. -/
theorem exScope_settled :
    exScope.substitute "##greeting##: 1##-## 2# ## 3" = .ok "Hi Bo: 1 2# ## 3" ∧
      ∀ other : Scope, other.substitute "Hi Bo: 1 2# ## 3" = .ok "Hi Bo: 1 2# ## 3" := by
  have found : exScope.substitute "##greeting##: 1##-## 2# ## 3" = .ok "Hi Bo: 1 2# ## 3" := by cbv
  exact ⟨found, ((substitute_settled exScope _).1 _ found).2⟩

end Scope

end ConfigTemplate.Property
