import ConfigTemplate.Attempt
import ConfigTemplate.Proofs.Document.Outline

/-!
# What a visit calls

A visitor is called with labels one after the other, keeps a state of its own, and answers each call
with whether the labels below count, or with an error. The answers prescribe the calls: the labels in
pre-order, without those below a label that was answered with false, up to the first error.

Results:
1. `Forest.failsOnly_visit`: a visit fails in no other way than its visitor.
2. `Forest.exists_visits`: the visit of a forest with distinct labels makes the prescribed calls and
   ends with the error of the last one, if that is one.
3. `Tree.Listed.nodup_forest`: the nodes of a forest that lists make are distinct.
4. `Tree.Listed.exists_visits`: so the visit of a tree makes the prescribed calls.
-/

namespace ConfigTemplate

namespace Forest

variable {α ε σ : Type}

/-! ## Prescribed calls -/

/-- The forest without what is below the labels that do not open. -/
def pruned (opens : α → Bool) : Forest α → Forest α
  | .nil => .nil
  | .cons label children rest =>
    .cons label (if opens label then children.pruned opens else .nil) (rest.pruned opens)

/-- The labels up to the first one that is answered with an error, which is the last of them. -/
def upToError (answer : α → Except ε Bool) : List α → List α
  | [] => []
  | label :: rest =>
    match answer label with
    | .ok _ => label :: upToError answer rest
    | .error _ => [label]

/-- The error of the first label that is answered with one. -/
def outcome (answer : α → Except ε Bool) : List α → Except ε Unit
  | [] => .ok ()
  | label :: rest =>
    match answer label with
    | .ok _ => outcome answer rest
    | .error cause => .error cause

/-- The answer is that the labels below count. -/
def accepts : Except ε Bool → Bool
  | .ok below => below
  | .error _ => false

/-- The labels in pre-order, without those below a label that is not answered with true. -/
def reached (answer : α → Except ε Bool) (forest : Forest α) : List α :=
  (forest.pruned fun label => accepts (answer label)).toList

/-- The labels with which a visitor is called that gives these answers. -/
def visited (answer : α → Except ε Bool) (forest : Forest α) : List α :=
  upToError answer (forest.reached answer)

/-- Calls with these labels, one after the other, get the given answers and take the first state to
the last one. -/
inductive Calls (call : α → σ → Except ε Bool × σ → Prop) (answer : α → Except ε Bool) :
    σ → List α → σ → Prop
  | nil {state : σ} : Calls call answer state [] state
  | cons {state middle after : σ} {label : α} {rest : List α}
      (first : call label state (answer label, middle))
      (further : Calls call answer middle rest after) :
      Calls call answer state (label :: rest) after

variable {call : α → σ → Except ε Bool × σ → Prop} {answer other : α → Except ε Bool}
  {state middle after : σ} {left right labels : List α} {cause : ε}

theorem Calls.append (begins : Calls call answer state left middle)
    (continues : Calls call answer middle right after) :
    Calls call answer state (left ++ right) after := by
  induction begins with
  | nil => exact continues
  | cons first _ ih => exact .cons first (ih continues)

theorem Calls.imp {other : α → σ → Except ε Bool × σ → Prop}
    (calls : Calls call answer state labels after)
    (implies : ∀ label ∈ labels, ∀ state result, call label state result →
      other label state result) : Calls other answer state labels after := by
  induction calls with
  | nil => exact .nil
  | cons first _ ih =>
    refine .cons (implies _ List.mem_cons_self _ _ first) (ih ?_)
    intro label member
    exact implies label (List.mem_cons_of_mem _ member)

theorem Calls.congr (calls : Calls call answer state labels after)
    (same : ∀ label ∈ labels, answer label = other label) :
    Calls call other state labels after := by
  induction calls with
  | nil => exact .nil
  | cons first _ ih =>
    refine .cons (same _ List.mem_cons_self ▸ first) (ih ?_)
    intro label member
    exact same label (List.mem_cons_of_mem _ member)

theorem outcome_append_of_ok (passes : outcome answer left = .ok ()) (right : List α) :
    upToError answer (left ++ right) = upToError answer left ++ upToError answer right ∧
      outcome answer (left ++ right) = outcome answer right := by
  induction left with
  | nil => exact ⟨rfl, rfl⟩
  | cons label rest ih =>
    cases answered : answer label with
    | error cause => simp [outcome, answered] at passes
    | ok below =>
      simp only [outcome, answered] at passes
      obtain ⟨labels, results⟩ := ih passes
      simp [upToError, outcome, answered, labels, results]

theorem outcome_append_of_error (fails : outcome answer left = .error cause) (right : List α) :
    upToError answer (left ++ right) = upToError answer left ∧
      outcome answer (left ++ right) = .error cause := by
  induction left with
  | nil => cases fails
  | cons label rest ih =>
    cases answered : answer label with
    | error cause =>
      simp only [outcome, answered] at fails
      simp [upToError, outcome, answered, fails]
    | ok below =>
      simp only [outcome, answered] at fails
      obtain ⟨labels, results⟩ := ih fails
      simp [upToError, outcome, answered, labels, results]

theorem mem_of_mem_upToError {label : α} (member : label ∈ upToError answer labels) :
    label ∈ labels := by
  induction labels with
  | nil => cases member
  | cons first rest ih =>
    cases answered : answer first with
    | error cause =>
      simp only [upToError, answered, List.mem_singleton] at member
      exact member ▸ List.mem_cons_self
    | ok below =>
      simp only [upToError, answered] at member
      rcases List.mem_cons.1 member with rfl | later
      · exact List.mem_cons_self
      · exact List.mem_cons_of_mem _ (ih later)

theorem mem_of_mem_pruned {opens : α → Bool} {forest : Forest α} {label : α}
    (member : label ∈ (forest.pruned opens).toList) : label ∈ forest.toList := by
  induction forest with
  | nil => exact member
  | cons first children rest ihChildren ihRest =>
    rw [pruned, toList] at member
    rw [toList]
    rcases List.mem_cons.1 member with rfl | member
    · exact List.mem_cons_self
    refine List.mem_cons_of_mem _ (List.mem_append.2 ?_)
    rcases List.mem_append.1 member with below | behind
    · split at below
      · exact .inl (ihChildren below)
      · cases below
    · exact .inr (ihRest behind)

theorem pruned_congr {opens others : α → Bool} {forest : Forest α}
    (same : ∀ label ∈ forest.toList, opens label = others label) :
    forest.pruned opens = forest.pruned others := by
  induction forest with
  | nil => rfl
  | cons label children rest ihChildren ihRest =>
    rw [pruned, pruned, same label List.mem_cons_self,
      ihChildren fun inner member => same inner (by simp [toList, member]),
      ihRest fun later member => same later (by simp [toList, member])]

theorem upToError_congr (same : ∀ label ∈ labels, answer label = other label) :
    upToError answer labels = upToError other labels ∧
      outcome answer labels = outcome other labels := by
  induction labels with
  | nil => exact ⟨rfl, rfl⟩
  | cons label rest ih =>
    obtain ⟨further, results⟩ := ih fun later member => same later (List.mem_cons_of_mem _ member)
    rw [upToError, upToError, outcome, outcome, same label List.mem_cons_self, further, results]
    exact ⟨rfl, rfl⟩

/-! ## The visit of a forest -/

/-- The calls that the answers prescribe take the state to the one of the result, and the result is
the error of the last call, if that is one. -/
structure Visits (call : α → σ → Except ε Bool × σ → Prop) (answer : α → Except ε Bool)
    (forest : Forest α) (state : σ) (result : Except ε Unit × σ) : Prop where
  calls : Calls call answer state (forest.visited answer) result.2
  outcome : outcome answer (forest.reached answer) = result.1

variable {label : α} {children rest forest : Forest α} {below : Bool}
  {result : Except ε Unit × σ}

/-- Only the answers to the labels of the forest matter. -/
theorem Visits.congr (visits : Visits call answer forest state result)
    (same : ∀ label ∈ forest.toList, answer label = other label) :
    Visits call other forest state result := by
  have labels : forest.reached answer = forest.reached other := by
    unfold reached
    rw [pruned_congr fun label member => congrArg accepts (same label member)]
  have inside : ∀ label ∈ forest.reached other, answer label = other label := by
    intro label member
    exact same label (mem_of_mem_pruned member)
  obtain ⟨cut, results⟩ := upToError_congr inside
  have calls := visits.calls
  have ends := visits.outcome
  rw [visited, labels, cut] at calls
  rw [labels, results] at ends
  refine ⟨calls.congr ?_, ends⟩
  intro label member
  exact inside label (mem_of_mem_upToError member)

theorem reached_cons (answered : answer label = .ok below) :
    (cons label children rest).reached answer =
      label :: ((if below then children else .nil).reached answer ++ rest.reached answer) := by
  rw [reached, pruned, toList, answered]
  cases below <;> rfl

theorem Visits.cons_error (answered : answer label = .error cause)
    (first : call label state (answer label, after)) :
    Visits call answer (cons label children rest) state (.error cause, after) := by
  have labels : (cons label children rest).visited answer = [label] := by
    rw [visited, reached, pruned, toList, upToError, answered]
  refine ⟨labels ▸ .cons first .nil, ?_⟩
  rw [reached, pruned, toList, Forest.outcome, answered]

theorem Visits.cons_inner_error (answered : answer label = .ok below)
    (first : call label state (answer label, middle))
    (inner : Visits call answer (if below then children else .nil) middle (.error cause, after)) :
    Visits call answer (cons label children rest) state (.error cause, after) := by
  obtain ⟨labels, ends⟩ := outcome_append_of_error inner.outcome (rest.reached answer)
  constructor
  · rw [visited, reached_cons answered, upToError, answered]
    exact .cons first (labels ▸ inner.calls)
  · rw [reached_cons answered, Forest.outcome, answered]
    exact ends

theorem Visits.cons (answered : answer label = .ok below)
    (first : call label state (answer label, middle)) {between : σ}
    (inner : Visits call answer (if below then children else .nil) middle (.ok (), between))
    (further : Visits call answer rest between result) :
    Visits call answer (cons label children rest) state result := by
  obtain ⟨labels, ends⟩ := outcome_append_of_ok inner.outcome (rest.reached answer)
  constructor
  · rw [visited, reached_cons answered, upToError, answered]
    exact .cons first (labels ▸ inner.calls.append further.calls)
  · rw [reached_cons answered, Forest.outcome, answered]
    exact ends.trans further.outcome

theorem visit_cons (visitor : α → Attempt ε σ Bool) (label : α) (children rest : Forest α) :
    (cons label children rest).visit visitor = (do
      let below ← visitor label
      (if below then children else .nil).visit visitor
      rest.visit visitor) := by
  rw [Forest.visit]
  congr
  funext below
  cases below <;> rfl

/-- A visit fails with errors of the kind with which its visitor fails. -/
theorem failsOnly_visit {kind : ε → Prop} {visitor : α → Attempt ε σ Bool}
    (each : ∀ label, Attempt.FailsOnly kind (visitor label)) (forest : Forest α) :
    Attempt.FailsOnly kind (forest.visit visitor) := by
  induction forest with
  | nil => exact Attempt.failsOnly_pure _
  | cons label children rest ihChildren ihRest =>
    refine (each label).bind fun answer => ?_
    split
    · exact ihChildren.bind fun _ => ihRest
    · exact ihRest

/-- Without a state of its own, too, a visit fails over one of the labels. -/
theorem exists_error_of_visit {visitor : α → Except ε Bool} {forest : Forest α} {cause : ε}
    (fails : forest.visit visitor = .error cause) : ∃ label, visitor label = .error cause := by
  induction forest with
  | nil => cases fails
  | cons label children rest ihChildren ihRest =>
    rcases except_bind_eq_error fails with now | ⟨answer, -, later⟩
    · exact ⟨label, now⟩
    split at later
    · rcases except_bind_eq_error later with inside | ⟨_, -, behind⟩
      · exact ihChildren inside
      · exact ihRest behind
    · exact ihRest later

theorem notMem_toList_cons {other : α} :
    other ∉ (cons label children rest).toList ↔
      other ≠ label ∧ other ∉ children.toList ∧ other ∉ rest.toList := by
  rw [toList, List.mem_cons, List.mem_append, not_or, not_or]

/-- The visitor answers every label of the forest once at most, so its answers are a function of the
labels. Outside of the forest the function is arbitrary. -/
theorem exists_visits (visitor : α → Attempt ε σ Bool) (distinct : forest.toList.Nodup)
    (elsewhere : α → Except ε Bool) (state : σ) :
    ∃ answer, (∀ label ∉ forest.toList, answer label = elsewhere label) ∧
      Visits (fun label before result => visitor label before = result) answer forest state
        (forest.visit visitor state) := by
  classical
  induction forest generalizing elsewhere state with
  | nil => exact ⟨elsewhere, fun _ _ => rfl, .nil, rfl⟩
  | cons label children rest ihChildren ihRest =>
    rw [toList, List.nodup_cons, List.nodup_append] at distinct
    obtain ⟨fresh, distinctChildren, distinctRest, apart⟩ := distinct
    rw [visit_cons, Attempt.run_bind]
    rcases asked : visitor label state with ⟨cause | below, middle⟩
    · refine ⟨Function.update elsewhere label (.error cause), ?_, ?_⟩
      · intro other outside
        exact Function.update_of_ne (notMem_toList_cons.1 outside).1 _ _
      · refine .cons_error (Function.update_self ..) ?_
        rw [Function.update_self]
        exact asked
    dsimp only
    rw [Attempt.run_bind]
    -- The answers to what is below are chosen first, then those to what is behind.
    obtain ⟨first, kept, inner⟩ : ∃ answer : α → Except ε Bool,
        (∀ other ∉ children.toList, answer other =
          Function.update elsewhere label (.ok below) other) ∧
        Visits (fun label before result => visitor label before = result) answer
          (if below then children else .nil) middle
          ((if below then children else .nil).visit visitor middle) := by
      cases below with
      | false => exact ⟨_, fun _ _ => rfl, .nil, rfl⟩
      | true => exact ihChildren distinctChildren _ middle
    have here : label ∉ children.toList := fun member => fresh (List.mem_append_left _ member)
    have own : first label = .ok below := (kept label here).trans (Function.update_self ..)
    rcases ran : (if below then children else .nil).visit visitor middle with ⟨cause | done, between⟩
    · rw [ran] at inner
      refine ⟨first, ?_, .cons_inner_error own (by rw [own]; exact asked) inner⟩
      intro other outside
      obtain ⟨apart, notBelow, -⟩ := notMem_toList_cons.1 outside
      rw [kept other notBelow, Function.update_of_ne apart]
    · rw [ran] at inner
      obtain ⟨answer, same, further⟩ := ihRest distinctRest first between
      have later : label ∉ rest.toList := fun member => fresh (List.mem_append_right _ member)
      have own : answer label = .ok below := (same label later).trans own
      refine ⟨answer, ?_, .cons own (by rw [own]; exact asked) (inner.congr ?_) further⟩
      · intro other outside
        obtain ⟨apart, notBelow, notBehind⟩ := notMem_toList_cons.1 outside
        rw [same other notBehind, kept other notBelow, Function.update_of_ne apart]
      · intro other member
        have below : other ∈ children.toList := by
          cases below
          · cases member
          · exact member
        exact (same other fun behind => apart other below other behind rfl).symm

end Forest

/-! ## The visit of a tree -/

namespace Document.Tree

variable {tree : Tree} {lists : Option NodeId → List NodeId} {parent : Option NodeId}
  {top other id : NodeId} {ids : List NodeId} {F : Forest NodeId}

/-- The second node is in the list below the first one. -/
def Below (lists : Option NodeId → List NodeId) (parent id : NodeId) : Prop :=
  id ∈ lists (some parent)

theorem Listed.le_of_below (listed : tree.Listed lists)
    (path : Relation.ReflTransGen (Below lists) top id) : top ≤ id := by
  induction path with
  | refl => exact Nat.le_refl _
  | tail _ below ih => exact Nat.le_trans ih (Nat.le_of_lt (listed.above _ _ below))

/-- A node is below one node of a list at most. -/
theorem Listed.top_unique (listed : tree.Listed lists) (first : top ∈ lists parent)
    (second : other ∈ lists parent) (path : Relation.ReflTransGen (Below lists) top id)
    (also : Relation.ReflTransGen (Below lists) other id) : top = other := by
  -- A node of a list is not below its neighbours, because it would be below its own parent.
  have level : ∀ {left right : NodeId}, left ∈ lists parent → right ∈ lists parent →
      Relation.ReflTransGen (Below lists) left right → left = right := by
    intro left right inList member path
    cases path with
    | refl => rfl
    | @tail above _ path below =>
      obtain rfl := listed.parent_unique member below
      have higher : left ≤ above := listed.le_of_below path
      exact absurd (listed.above above left inList) (Nat.not_lt.2 higher)
  induction path with
  | refl => exact (level second first also).symm
  | @tail above id path below ih =>
    cases also with
    | refl => exact level first second (path.tail below)
    | tail also behind =>
      obtain rfl := Option.some.inj (listed.parent_unique below behind)
      exact ih also

theorem Grows.exists_top (grows : Grows lists ids F) (member : id ∈ F.toList) :
    ∃ top ∈ ids, Relation.ReflTransGen (Below lists) top id := by
  induction grows with
  | nil => cases member
  | @cons first rest children behind _ _ ihBelow ihFurther =>
    rcases List.mem_cons.1 member with rfl | member
    · exact ⟨id, List.mem_cons_self, .refl⟩
    rcases List.mem_append.1 member with inside | later
    · obtain ⟨next, below, path⟩ := ihBelow inside
      exact ⟨first, List.mem_cons_self, .head below path⟩
    · obtain ⟨top, inRest, path⟩ := ihFurther later
      exact ⟨top, List.mem_cons_of_mem _ inRest, path⟩

/-- A forest that lists make has every node once. -/
theorem Listed.nodup_of_grows (listed : tree.Listed lists) (grows : Grows lists ids F)
    (inList : ∀ id ∈ ids, id ∈ lists parent) (distinct : ids.Nodup) : F.toList.Nodup := by
  induction grows generalizing parent with
  | nil => exact .nil
  | @cons first rest children behind below further ihBelow ihFurther =>
    have member := inList first List.mem_cons_self
    have others : ∀ id ∈ rest, id ∈ lists parent :=
      fun id later => inList id (List.mem_cons_of_mem _ later)
    -- What is below the first node is below no other one.
    have apart : ∀ id, Relation.ReflTransGen (Below lists) first id → id ∉ behind.toList := by
      intro id path later
      obtain ⟨top, inRest, also⟩ := further.exists_top later
      obtain rfl := listed.top_unique member (others top inRest) path also
      exact (List.nodup_cons.1 distinct).1 inRest
    rw [Forest.toList, List.nodup_cons, List.mem_append, not_or, List.nodup_append]
    refine ⟨⟨?_, apart first .refl⟩, ihBelow (fun _ inside => inside) (listed.nodup _),
      ihFurther others (List.nodup_cons.1 distinct).2, ?_⟩
    · intro inside
      obtain ⟨top, inBelow, path⟩ := below.exists_top inside
      exact absurd (listed.above first top inBelow) (Nat.not_lt.2 (listed.le_of_below path))
    · rintro id inside other later rfl
      obtain ⟨top, inBelow, path⟩ := below.exists_top inside
      exact apart id (.head inBelow path) later

theorem Listed.nodup_forest (listed : tree.Listed lists) : tree.forest.toList.Nodup :=
  listed.nodup_of_grows listed.grows (fun _ inside => inside) (listed.nodup none)

/-- A visitor is called with the number of a node and the node itself. -/
def CallsNode {ε σ : Type} (tree : Tree) (visitor : NodeId → Node → Attempt ε σ Bool) (id : NodeId)
    (state : σ) (result : Except ε Bool × σ) : Prop :=
  ∃ node, tree.node? id = some node ∧ visitor id node state = result

theorem visit_eq {ε σ : Type} (tree : Tree) (visitor : NodeId → Node → Attempt ε σ Bool) :
    tree.visit visitor =
      tree.forest.visit fun id => (tree.node? id).elim (pure false) (visitor id) := by
  unfold Tree.visit
  congr 1
  funext id
  cases tree.node? id <;> rfl

/-- The visit of a tree makes the calls that the answers prescribe, each with a node of the tree. -/
theorem Listed.exists_visits {ε σ : Type} (listed : tree.Listed lists)
    (visitor : NodeId → Node → Attempt ε σ Bool) (state : σ) :
    ∃ answer, Forest.Visits (tree.CallsNode visitor) answer tree.forest state
      (tree.visit visitor state) := by
  rw [visit_eq]
  obtain ⟨answer, -, visits⟩ := Forest.exists_visits
    (fun id => (tree.node? id).elim (pure false) (visitor id)) listed.nodup_forest
    (fun _ => .ok false) state
  refine ⟨answer, visits.calls.imp ?_, visits.outcome⟩
  rintro id member state _ rfl
  have inside : id < tree.nodes.length := by
    have reached := Forest.mem_of_mem_pruned (Forest.mem_of_mem_upToError member)
    rw [listed.forest_eq] at reached
    exact lt_of_mem_grow listed (fun _ => listed.lt_length) reached
  obtain ⟨node, found⟩ := exists_node? inside
  exact ⟨node, found, by simp [found]⟩

end Document.Tree

end ConfigTemplate
