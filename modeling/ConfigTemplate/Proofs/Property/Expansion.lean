import ConfigTemplate.Proofs.Property.WellFormed
import Mathlib

/-!
# The recursive expansion of markers

Substitution rescans its own output until nothing is left to replace. For well-formed texts and values
this is the recursive expansion: every marker becomes the expansion of its value. The passes that are
needed are counted by the longest chain of names of which each is mentioned in the value of the one
before.

Results:
1. `Scope.settle_append`: texts side by side settle on their own.
2. `Scope.settle_eq_error`: a chain of more names than passes makes substitution fail.
3. `Scope.exists_settle_eq_ok`: without such a chain it yields the expansion.
4. `Scope.substitute_eq_expansion`: what substitution does with every well-formed text.
-/

namespace ConfigTemplate.Property.Scope

variable {scope : Scope} {text front back output : List Char} {passes : Nat}

/-! ## Passes until nothing is left -/

theorem settle_of_last_eq_none (done : (scope.pass text).last = none) :
    scope.settle passes text = .ok (scope.pass text).output := by
  unfold settle
  simp only [done]

theorem settle_zero_of_last {name : String} (more : (scope.pass text).last = some name) :
    scope.settle 0 text = .error ⟨maxPasses, name⟩ := by
  unfold settle
  simp only [more]

theorem settle_succ_of_last {name : String} (more : (scope.pass text).last = some name) :
    scope.settle (passes + 1) text = scope.settle passes (scope.pass text).output := by
  rw [settle]
  simp only [more]

/-- A text that settles does so one pass earlier behind a pass. -/
theorem settle_pass (proper : Property.WellFormed text)
    (settles : scope.settle (passes + 1) text = .ok output) :
    scope.settle passes (scope.pass text).output = .ok output := by
  cases found : (scope.pass text).last with
  | some name => rwa [settle_succ_of_last found] at settles
  | none =>
    obtain ⟨parts, rfl⟩ := proper
    rw [settle_of_last_eq_none found] at settles
    rw [pass_written] at found settles ⊢
    have same := scope.replacement_of_properties_eq_nil (List.getLast?_eq_none_iff.1 found)
    rw [← settles]
    dsimp only
    rw [same, settle_of_last_eq_none] <;> simp [pass_written, found, same]

/-- A pass over texts side by side is a pass over each of them. -/
theorem pass_append_of_wellFormed (scope : Scope) (proper : Property.WellFormed front)
    (back : List Char) :
    (scope.pass (front ++ back)).output = (scope.pass front).output ++ (scope.pass back).output ∧
      (scope.pass (front ++ back)).last = ((scope.pass back).last <|> (scope.pass front).last) := by
  obtain ⟨parts, rfl⟩ := proper
  rw [pass_append, pass_written]
  exact ⟨rfl, rfl⟩

/-- Texts side by side settle on their own. -/
theorem settle_append (values : scope.WellFormed) (proper : Property.WellFormed front)
    (follows : Property.WellFormed back) {first second : List Char}
    (left : scope.settle passes front = .ok first) (right : scope.settle passes back = .ok second) :
    scope.settle passes (front ++ back) = .ok (first ++ second) := by
  induction passes generalizing front back with
  | zero =>
    obtain ⟨outputs, lasts⟩ := scope.pass_append_of_wellFormed proper back
    have done : ∀ {text output}, scope.settle 0 text = .ok output → (scope.pass text).last = none := by
      intro text output settles
      cases found : (scope.pass text).last with
      | none => rfl
      | some name => cases (settle_zero_of_last found).symm.trans settles
    have both : (scope.pass (front ++ back)).last = none := by rw [lasts, done left, done right]; rfl
    rw [settle_of_last_eq_none (done left)] at left
    rw [settle_of_last_eq_none (done right)] at right
    rw [settle_of_last_eq_none both, outputs, Except.ok.inj left, Except.ok.inj right]
  | succ passes ih =>
    obtain ⟨outputs, lasts⟩ := scope.pass_append_of_wellFormed proper back
    cases found : (scope.pass (front ++ back)).last with
    | none =>
      obtain ⟨none_, noneBefore⟩ : (scope.pass back).last = none ∧ (scope.pass front).last = none := by
        simpa using lasts.symm.trans found
      rw [settle_of_last_eq_none noneBefore] at left
      rw [settle_of_last_eq_none none_] at right
      rw [settle_of_last_eq_none found, outputs, Except.ok.inj left, Except.ok.inj right]
    | some name =>
      rw [settle_succ_of_last found, outputs]
      refine ih ?_ ?_ (settle_pass proper left) (settle_pass follows right)
      · obtain ⟨parts, rfl⟩ := proper
        rw [pass_written]
        exact wellFormed_replacement values parts
      · obtain ⟨parts, rfl⟩ := follows
        rw [pass_written]
        exact wellFormed_replacement values parts

theorem settle_plain (isPlain : IsPlain text) : scope.settle passes text = .ok text := by
  have kept : scope.pass text = ⟨text, none⟩ := by
    have whole := scope.pass_written [.plain text isPlain]
    rw [written_singleton] at whole
    simpa [Part.written, replacement, properties, Part.property?] using whole
  rw [settle_of_last_eq_none (by rw [kept]), kept]

/-- A marker settles one pass later than its value. -/
theorem settle_marker (mark : Marker) :
    scope.settle (passes + 1) mark.written =
      scope.settle passes (scope.get mark.property).toList := by
  have replaced : scope.pass mark.written =
      ⟨(scope.get mark.property).toList, some mark.property⟩ := by
    have whole := scope.pass_written [.marker mark]
    rw [written_singleton] at whole
    simpa [Part.written, replacement, properties, Part.property?] using whole
  rw [settle_succ_of_last (by rw [replaced]), replaced]

/-! ## References -/

/-- The value of the first property mentions the second one. -/
def Refers (scope : Scope) (name other : String) : Prop := Mentions (scope.get name).toList other

/-- A property that the text mentions leads to this one. -/
def Reaches (scope : Scope) (text : List Char) (name : String) : Prop :=
  ∃ first, Mentions text first ∧ Relation.ReflTransGen scope.Refers first name

/-- The references that start in the text make no loop. -/
def Acyclic (scope : Scope) (text : List Char) : Prop :=
  ∀ name, scope.Reaches text name → ¬ Relation.TransGen scope.Refers name name

/-- Names of which the text mentions the first one, and the value of each mentions the next one. -/
structure Chain (scope : Scope) (text : List Char) (names : List String) : Prop where
  mentioned : ∀ first, names.head? = some first → Mentions text first
  linked : names.IsChain scope.Refers

/-- A chain of references from the text counts at most so many names. -/
def Shallow (scope : Scope) (text : List Char) (limit : Nat) : Prop :=
  ∀ names, scope.Chain text names → names.length ≤ limit

/-- The recursive expansion of a text: every marker becomes the expansion of its value. -/
inductive Expands (scope : Scope) : List Char → List Char → Prop where
  | nil : Expands scope [] []
  | plain {text rest output : List Char} (isPlain : IsPlain text)
      (others : Expands scope rest output) : Expands scope (text ++ rest) (text ++ output)
  | marker {mark : Marker} {rest value output : List Char}
      (inner : Expands scope (scope.get mark.property).toList value)
      (others : Expands scope rest output) : Expands scope (mark.written ++ rest) (value ++ output)

theorem Expands.wellFormed (expands : scope.Expands text output) : Property.WellFormed text := by
  induction expands with
  | nil => exact wellFormed_nil
  | @plain text rest output isPlain others ih =>
    exact isPlain.wellFormed.append ih
  | @marker mark rest value output inner others _ ih =>
    exact mark.wellFormed.append ih

/-- With enough passes a text settles to its expansion. -/
theorem Expands.settles (values : scope.WellFormed) (expands : scope.Expands text output) :
    ∃ enough, ∀ passes, enough ≤ passes → scope.settle passes text = .ok output := by
  induction expands with
  | nil => exact ⟨0, fun passes _ => settle_of_last_eq_none rfl⟩
  | @plain text rest output isPlain others ih =>
    obtain ⟨enough, settles⟩ := ih
    exact ⟨enough, fun passes le => settle_append values isPlain.wellFormed others.wellFormed
      (settle_plain isPlain) (settles passes le)⟩
  | @marker mark rest value output inner others ihInner ihOthers =>
    obtain ⟨enough, settles⟩ := ihInner
    obtain ⟨further, settle⟩ := ihOthers
    refine ⟨max (enough + 1) further, fun passes le => ?_⟩
    obtain ⟨passes, rfl⟩ : ∃ fewer, passes = fewer + 1 := ⟨passes - 1, by omega⟩
    refine settle_append values mark.wellFormed others.wellFormed ?_ (settle _ (by omega))
    rw [settle_marker]
    exact settles _ (by omega)

/-- A text has at most one expansion. -/
theorem Expands.functional (values : scope.WellFormed) {first second : List Char}
    (left : scope.Expands text first) (right : scope.Expands text second) : first = second := by
  obtain ⟨enough, settles⟩ := left.settles values
  obtain ⟨further, settle⟩ := right.settles values
  have same := (settles (max enough further) (Nat.le_max_left ..)).symm.trans
    (settle _ (Nat.le_max_right ..))
  exact Except.ok.inj same

/-! ## Chains -/

/-- A chain in the value of a marker goes on from that marker. -/
theorem Chain.cons {parts : List Part} {mark : Marker} {names : List String}
    (member : .marker mark ∈ parts)
    (chain : scope.Chain (scope.get mark.property).toList names) :
    scope.Chain (written parts) (mark.property :: names) where
  mentioned first head := by
    obtain rfl := Option.some.inj head
    exact ⟨parts, rfl, List.mem_filterMap.2 ⟨_, member, rfl⟩⟩
  linked := List.isChain_cons.2 ⟨chain.mentioned, chain.linked⟩

theorem exists_last_of_mentions (scope : Scope) {name : String} (mentions : Mentions text name) :
    ∃ last, (scope.pass text).last = some last := by
  obtain ⟨parts, rfl, member⟩ := mentions
  rw [pass_written]
  exact ⟨_, List.getLast?_eq_some_getLast (List.ne_nil_of_mem member)⟩

/-- After a pass the text still mentions what the value of one of its markers mentions. -/
theorem mentions_pass (values : scope.WellFormed) {name other : String} (mentions : Mentions text name)
    (refers : scope.Refers name other) : Mentions (scope.pass text).output other := by
  obtain ⟨parts, rfl, member⟩ := mentions
  obtain ⟨part, inside, named⟩ := List.mem_filterMap.1 member
  obtain ⟨before, after, rfl⟩ := List.append_of_mem inside
  have value : scope.replacement part = (scope.get name).toList := by
    cases part with
    | plain text isPlain => cases named
    | marker mark => rw [replacement, Option.some.inj named]
  have within := Mentions.within refers (wellFormed_replacement values before)
    (wellFormed_replacement values after)
  rw [pass_written]
  simpa [value] using within

/-- A chain of more names than passes makes substitution fail. -/
theorem settle_eq_error (values : scope.WellFormed) {names : List String}
    (chain : scope.Chain text names) (long : names.length = passes + 1) :
    ∃ name, scope.settle passes text = .error ⟨maxPasses, name⟩ := by
  induction passes generalizing text names with
  | zero =>
    obtain ⟨name, rfl⟩ := List.length_eq_one_iff.1 long
    obtain ⟨last, found⟩ := scope.exists_last_of_mentions (chain.mentioned name rfl)
    exact ⟨last, settle_zero_of_last found⟩
  | succ passes ih =>
    match names, chain, long with
    | name :: others, chain, long =>
      have mentions := chain.mentioned name rfl
      obtain ⟨last, found⟩ := scope.exists_last_of_mentions mentions
      obtain ⟨refers, linked⟩ := List.isChain_cons.1 chain.linked
      rw [settle_succ_of_last found]
      exact ih ⟨fun second head => mentions_pass values mentions (refers second head), linked⟩
        (Nat.succ.inj long)

/-- A text settles when its markers do. -/
theorem exists_settle_of_markers (values : scope.WellFormed) {parts : List Part}
    (markers : ∀ mark, .marker mark ∈ parts → ∃ value, scope.settle passes mark.written = .ok value ∧
      scope.Expands (scope.get mark.property).toList value) :
    ∃ output, scope.settle passes (written parts) = .ok output ∧
      scope.Expands (written parts) output := by
  induction parts with
  | nil => exact ⟨[], settle_of_last_eq_none rfl, .nil⟩
  | cons part parts ih =>
    obtain ⟨output, settles, expands⟩ := ih fun mark member =>
      markers mark (List.mem_cons_of_mem _ member)
    have split : written (part :: parts) = part.written ++ written parts := by simp [written]
    rw [split]
    cases part with
    | plain text isPlain =>
      exact ⟨text ++ output, settle_append values isPlain.wellFormed ⟨parts, rfl⟩
        (settle_plain isPlain) settles, .plain isPlain expands⟩
    | marker mark =>
      obtain ⟨value, inner, expanded⟩ := markers mark List.mem_cons_self
      exact ⟨value ++ output, settle_append values mark.wellFormed ⟨parts, rfl⟩ inner settles,
        .marker expanded expands⟩

/-- Without such a chain it yields the expansion. -/
theorem exists_settle_eq_ok (values : scope.WellFormed) (proper : Property.WellFormed text)
    (short : ∀ names, scope.Chain text names → names.length ≤ passes) :
    ∃ output, scope.settle passes text = .ok output ∧ scope.Expands text output := by
  induction passes generalizing text with
  | zero =>
    obtain ⟨parts, rfl⟩ := proper
    refine exists_settle_of_markers values fun mark member => ?_
    have chain : scope.Chain (written parts) [mark.property] := .cons member ⟨nofun, .nil⟩
    exact absurd (short _ chain) (by simp)
  | succ passes ih =>
    obtain ⟨parts, rfl⟩ := proper
    refine exists_settle_of_markers values fun mark member => ?_
    rw [settle_marker]
    exact ih (values mark.property) fun names chain =>
      Nat.le_of_succ_le_succ (short _ (.cons member chain))

/-- References that run into a loop go on for as long as one likes. -/
theorem exists_chain_of_loop {first name : String}
    (leads : Relation.ReflTransGen scope.Refers first name)
    (loop : Relation.TransGen scope.Refers name name) (length : Nat) :
    ∃ names : List String, (first :: names).IsChain scope.Refers ∧ names.length = length := by
  induction length generalizing first with
  | zero => exact ⟨[], .singleton _, rfl⟩
  | succ length ih =>
    obtain ⟨next, refers, further⟩ : ∃ next, scope.Refers first next ∧
        Relation.ReflTransGen scope.Refers next name := by
      rcases Relation.ReflTransGen.cases_head leads with rfl | ⟨next, refers, further⟩
      · obtain ⟨next, refers, further⟩ := Relation.TransGen.head'_iff.1 loop
        exact ⟨next, refers, further⟩
      · exact ⟨next, refers, further⟩
    obtain ⟨names, linked, counts⟩ := ih further
    exact ⟨next :: names, .cons_cons refers linked, by simp [counts]⟩

/-- References that make a loop, or a chain of more names than the limit, make a chain of one name
more than the limit. -/
theorem exists_chain_of_not_shallow {limit : Nat}
    (deep : ¬ (scope.Acyclic text ∧ scope.Shallow text limit)) :
    ∃ names, scope.Chain text names ∧ names.length = limit + 1 := by
  by_cases acyclic : scope.Acyclic text
  · obtain ⟨names, long⟩ := not_forall.1 fun shallow => deep ⟨acyclic, shallow⟩
    obtain ⟨chain, long⟩ := Classical.not_imp.1 long
    refine ⟨names.take (limit + 1), ⟨fun first head => chain.mentioned first ?_, ?_⟩, ?_⟩
    · rwa [List.head?_take, if_neg (Nat.succ_ne_zero limit)] at head
    · exact chain.linked.take _
    · rw [List.length_take]
      omega
  · obtain ⟨name, looping⟩ := not_forall.1 acyclic
    obtain ⟨⟨first, mentions, leads⟩, loop⟩ := Classical.not_imp.1 looping
    obtain ⟨names, linked, counts⟩ := exists_chain_of_loop leads (not_not.1 loop) limit
    exact ⟨first :: names, ⟨fun _ head => Option.some.inj head ▸ mentions, linked⟩, by simp [counts]⟩

/-- For a scope of well-formed values, substitution yields the recursive expansion of a well-formed
text if the references from the text make no loop and no chain of them counts more than 64 names. In
every other case it fails at the limit of 64 passes. -/
theorem substitute_eq_expansion {scope : Scope} {input : String} (values : scope.WellFormed)
    (proper : Property.WellFormed input.toList) :
    (scope.Acyclic input.toList ∧ scope.Shallow input.toList 64 →
      ∃ output : String, scope.substitute input = .ok output ∧
        ∀ text, scope.Expands input.toList text ↔ text = output.toList) ∧
    (¬ (scope.Acyclic input.toList ∧ scope.Shallow input.toList 64) →
      ∃ name, scope.substitute input = .error ⟨64, name⟩) := by
  constructor
  · rintro ⟨-, shallow⟩
    obtain ⟨output, settles, expands⟩ : ∃ output, scope.settle maxPasses input.toList = .ok output ∧
        scope.Expands input.toList output := exists_settle_eq_ok values proper shallow
    refine ⟨String.ofList output, by rw [substitute, settles]; rfl, fun text => ⟨fun other => ?_, ?_⟩⟩
    · rw [String.toList_ofList]
      exact other.functional values expands
    · rintro rfl
      rwa [String.toList_ofList]
  · intro deep
    obtain ⟨names, chain, long⟩ := exists_chain_of_not_shallow deep
    obtain ⟨name, fails⟩ : ∃ name, scope.settle maxPasses input.toList = .error ⟨maxPasses, name⟩ :=
      settle_eq_error values chain long
    exact ⟨name, by rw [substitute, fails]; rfl⟩

/-- A greeting with a name from an outer scope, and two properties that mention each other. -/
def exScope : Scope where
  values := ⟨[("greeting", "Hi ## name ##"), ("loop", "<##pool##>"), ("pool", "##loop##")], by decide⟩
  outer := [⟨[("name", "Bo##unknown##")], by decide⟩]

theorem exScope_loops : exScope.Refers "loop" "pool" ∧ exScope.Refers "pool" "loop" :=
  ⟨⟨[.plain ['<'] ⟨by decide, nofun, nofun⟩, .marker ⟨[], "pool".toList, [], rfl, by decide, rfl⟩,
      .plain ['>'] ⟨by decide, nofun, nofun⟩], by cbv, by decide⟩,
    ⟨[.marker ⟨[], "loop".toList, [], rfl, by decide, rfl⟩], by cbv, by decide⟩⟩

theorem exScope_wellFormed : exScope.WellFormed := by
  intro name
  by_cases greeting : name = "greeting"
  · subst greeting
    exact ⟨[.plain "Hi ".toList ⟨by decide, by decide, by decide⟩,
      .marker ⟨[' '], "name".toList, [' '], rfl, by decide, rfl⟩], by cbv⟩
  by_cases loop : name = "loop"
  · subst loop
    exact exScope_loops.1.wellFormed
  by_cases pool : name = "pool"
  · subst pool
    exact exScope_loops.2.wellFormed
  by_cases named : name = "name"
  · subst named
    exact ⟨[.plain "Bo".toList ⟨by decide, by decide, by decide⟩,
      .marker ⟨[], "unknown".toList, [], rfl, by decide, rfl⟩], by cbv⟩
  have unknown : exScope.get name = "" := by
    simp [get, exScope, NameMap.get?, NameMap.findEntry, Ne.symm greeting, Ne.symm loop,
      Ne.symm pool, Ne.symm named]
  rw [unknown]
  exact wellFormed_nil

theorem exScope_substitute : exScope.substitute "##greeting##!" = .ok "Hi Bo!" := by cbv

/-- The greeting settles to its expansion, and the loop does not settle. -/
theorem exScope_expands :
    exScope.WellFormed ∧ Property.WellFormed "##greeting##!".toList ∧
      (∀ text, exScope.Expands "##greeting##!".toList text ↔ text = "Hi Bo!".toList) ∧
      Property.WellFormed "##loop##".toList ∧
      ∃ name, exScope.substitute "##loop##" = .error ⟨64, name⟩ := by
  have greets : Property.WellFormed "##greeting##!".toList :=
    ⟨[.marker ⟨[], "greeting".toList, [], rfl, by decide, rfl⟩,
      .plain ['!'] ⟨by decide, nofun, nofun⟩], by cbv⟩
  have loops : Mentions "##loop##".toList "loop" :=
    ⟨[.marker ⟨[], "loop".toList, [], rfl, by decide, rfl⟩], by cbv, by decide⟩
  refine ⟨exScope_wellFormed, greets, ?_, loops.wellFormed, ?_⟩
  · obtain ⟨settles, fails⟩ := substitute_eq_expansion exScope_wellFormed greets
    -- It does settle, so this is not the other case.
    have short := Classical.not_not.1 fun deep => by
      obtain ⟨name, failed⟩ := fails deep
      cases exScope_substitute.symm.trans failed
    obtain ⟨output, same, expands⟩ := settles short
    cases exScope_substitute.symm.trans same
    exact expands
  · refine (substitute_eq_expansion exScope_wellFormed loops.wellFormed).2 fun short => ?_
    exact short.1 "loop" ⟨"loop", loops, .refl⟩
      (.tail (.single exScope_loops.1) exScope_loops.2)

end ConfigTemplate.Property.Scope
