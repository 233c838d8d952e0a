import ConfigTemplate.Proofs.Markup.Opened
import ConfigTemplate.Proofs.Run.Stages

/-!
# Updating

A request that updates its destination leaves it alone if it holds the output already, and otherwise
does what a request that replaces it does. The output does not depend on the policy, because only
the commit asks for it, and not on the destination either, unless this is a file that the run reads.

Results:
1. `prepare_withPolicy`: the steps that lead to the output do not ask for the policy.
2. `prepare_put`: writing a file that the run has not read changes nothing for a second run.
3. `configure_update`: updating twice is updating once, and updating agrees with replacing.
-/

namespace ConfigTemplate

open Document (Node NodeId Tree)
open Markup (Reader)

/-- The request with another policy for a destination that exists. -/
def Request.withPolicy (request : Request) (policy : Overwrite) : Request :=
  { request with overwrite := policy }

namespace Run

def withPolicy (run : Run) (policy : Overwrite) : Run :=
  { run with request := run.request.withPolicy policy }

/-! ## Steps and the policy -/

/-- The step comes to the same with every policy, and keeps it. -/
def IgnoresPolicy {α : Type} (step : StepM α) : Prop :=
  ∀ run policy, step (run.withPolicy policy) = ((step run).1, (step run).2.withPolicy policy)

variable {α β : Type}

theorem ignoresPolicy_pure (value : α) : IgnoresPolicy (pure value) := fun _ _ => rfl

theorem ignoresPolicy_bind {first : StepM α} {second : α → StepM β}
    (begins : IgnoresPolicy first) (continues : ∀ value, IgnoresPolicy (second value)) :
    IgnoresPolicy (first >>= second) := by
  intro run policy
  rw [Attempt.run_bind, Attempt.run_bind, begins]
  rcases first run with ⟨cause | value, middle⟩
  · rfl
  · exact continues value middle policy

theorem ignoresPolicy_expect (stage : Stage) : IgnoresPolicy (expect stage) := by
  intro run policy
  by_cases reached : run.stage = stage
  · have also : (run.withPolicy policy).stage = stage := reached
    rw [expect_eq_ok_iff.2 ⟨reached, rfl⟩, expect_eq_ok_iff.2 ⟨also, rfl⟩]
  · have also : (run.withPolicy policy).stage ≠ stage := reached
    rw [expect_of_ne reached, expect_of_ne also]
    rfl

theorem ignoresPolicy_modify {change : Run → Run}
    (same : ∀ run policy, change (run.withPolicy policy) = (change run).withPolicy policy) :
    IgnoresPolicy (modify change : StepM Unit) := by
  intro run policy
  show (Except.ok (), change (run.withPolicy policy)) = (Except.ok (), _)
  rw [same]
  rfl

theorem ofExcept_bind_withPolicy {run : Run} {policy : Overwrite} {result : Except RunError α}
    {rest other : α → StepM β} (each : ∀ value, other value (run.withPolicy policy) =
      ((rest value run).1, (rest value run).2.withPolicy policy)) :
    (Attempt.ofExcept result >>= other : StepM β) (run.withPolicy policy) =
      (((Attempt.ofExcept result >>= rest : StepM β) run).1,
        ((Attempt.ofExcept result >>= rest : StepM β) run).2.withPolicy policy) := by
  rw [Attempt.run_bind, Attempt.run_bind]
  cases result with
  | error cause => rfl
  | ok value => exact each value

theorem ignoresPolicy_reach (stage : Stage) : IgnoresPolicy (reach stage) :=
  ignoresPolicy_modify fun _ _ => rfl

theorem ignoresPolicy_forM {step : α → StepM Unit} (each : ∀ value, IgnoresPolicy (step value))
    (steps : List α) : IgnoresPolicy (steps.forM step) := by
  induction steps with
  | nil => exact ignoresPolicy_pure ()
  | cons first rest ih => exact ignoresPolicy_bind (each first) fun _ => ih

theorem ignoresPolicy_visit {forest : Forest α} {visitor : α → StepM Bool}
    (each : ∀ label, IgnoresPolicy (visitor label)) : IgnoresPolicy (forest.visit visitor) := by
  induction forest with
  | nil => exact ignoresPolicy_pure ()
  | cons label below behind ihBelow ihBehind =>
    refine ignoresPolicy_bind (each label) fun answer => ?_
    cases answer with
    | true => exact ignoresPolicy_bind ihBelow fun _ => ihBehind
    | false => exact ihBehind

theorem ignoresPolicy_parse (store : Store) : IgnoresPolicy (parse store) := by
  intro run policy
  by_cases fresh : run.stage = .unparsed
  · have also : (run.withPolicy policy).stage = .unparsed := fresh
    rw [parse, Attempt.run_get_bind, Attempt.run_get_bind, if_pos fresh, if_pos also]
    exact ofExcept_bind_withPolicy fun text => ofExcept_bind_withPolicy fun tree => rfl
  · have also : (run.withPolicy policy).stage ≠ .unparsed := fresh
    rw [parse_rests store fresh, parse_rests store also]

theorem ignoresPolicy_seedFormula (named : NamedFormula) : IgnoresPolicy (seedFormula named) := by
  intro run policy
  rw [seedFormula, Attempt.run_get_bind, Attempt.run_get_bind]
  by_cases known : run.conditions.contains named.name
  · have also : (run.withPolicy policy).conditions.contains named.name := known
    rw [if_pos known, if_pos also]
    rfl
  · have also : ¬ (run.withPolicy policy).conditions.contains named.name := known
    rw [if_neg known, if_neg also]
    exact ofExcept_bind_withPolicy fun formula => rfl

theorem override_withPolicy (locked : List String) (run : Run) (policy : Overwrite)
    (wish : String × String) : override locked (run.withPolicy policy) wish =
      (override locked run wish).withPolicy policy := by
  have same (run : Run) : override locked run wish =
      if run.scope.contains (spelled run.catalog wish.1) &&
          locked.contains (spelled run.catalog wish.1) then
        { run with warnings :=
            run.warnings ++ [.propertyNotOverridable (spelled run.catalog wish.1)] }
      else { run with scope := run.scope.set (spelled run.catalog wish.1) wish.2 } := rfl
  rw [same, same, apply_ite (withPolicy · policy)]
  rfl

theorem foldl_override_withPolicy (locked : List String) (run : Run) (policy : Overwrite)
    (wishes : List (String × String)) :
    wishes.foldl (override locked) (run.withPolicy policy) =
      (wishes.foldl (override locked) run).withPolicy policy := by
  induction wishes generalizing run with
  | nil => rfl
  | cons wish rest ih => rw [List.foldl_cons, override_withPolicy, ih, List.foldl_cons]

theorem ignoresPolicy_emit (node : Node) : IgnoresPolicy (emit node) := by
  intro run policy
  rw [emit, Attempt.run_get_bind, Attempt.run_get_bind]
  cases node.content with
  | text characters => exact ofExcept_bind_withPolicy fun piece => rfl
  | block condition => rfl
  | declaration declared => rfl

theorem Step.ignoresPolicy (store : Store) (step : Step) : IgnoresPolicy (step.perform store) := by
  cases step with
  | parse => exact ignoresPolicy_parse store
  | extractDefinitions =>
    refine ignoresPolicy_bind (ignoresPolicy_expect _) fun _ run policy => ?_
    rw [Attempt.run_get_bind, Attempt.run_get_bind]
    exact ofExcept_bind_withPolicy fun catalog => rfl
  | seedConditions =>
    refine ignoresPolicy_bind (ignoresPolicy_expect _) fun _ run policy => ?_
    rw [Attempt.run_get_bind, Attempt.run_get_bind]
    refine ofExcept_bind_withPolicy fun requested => ?_
    let seeded : Run := { run with conditions :=
      run.catalog.configurations.values.foldl (seedConfiguration requested) run.conditions }
    have adds := ignoresPolicy_bind
      (ignoresPolicy_forM (@ignoresPolicy_seedFormula) (run.catalog.defines ++ run.catalog.rules))
      fun _ => ignoresPolicy_reach .conditionsSeeded
    exact adds seeded policy
  | filterTree =>
    exact ignoresPolicy_bind (ignoresPolicy_expect _) fun _ => ignoresPolicy_modify fun _ _ => rfl
  | validateTree =>
    refine ignoresPolicy_bind (ignoresPolicy_expect _) fun _ run policy => ?_
    rw [Attempt.run_get_bind, Attempt.run_get_bind]
    exact ofExcept_bind_withPolicy fun _ => rfl
  | evaluateConditions =>
    refine ignoresPolicy_bind (ignoresPolicy_expect _) fun _ run policy => ?_
    rw [Attempt.run_get_bind, Attempt.run_get_bind]
    exact ofExcept_bind_withPolicy fun conditions => rfl
  | buildProperties =>
    refine ignoresPolicy_bind (ignoresPolicy_expect _) fun _ => ignoresPolicy_modify ?_
    intro run policy
    let active := activeProperties run.catalog run.conditions
    exact foldl_override_withPolicy (lockedNames active)
      { run with scope := declare run.scope active, stage := .propertiesBuilt } policy
      run.request.properties.toList
  | checkRules =>
    refine ignoresPolicy_bind (ignoresPolicy_expect _) fun _ run policy => ?_
    rw [Attempt.run_get_bind, Attempt.run_get_bind]
    have same : (run.withPolicy policy).catalog.rules.find?
        (fun rule => !(run.withPolicy policy).conditions.isTrue rule.name) =
      run.catalog.rules.find? fun rule => !run.conditions.isTrue rule.name := rfl
    rw [same]
    cases run.catalog.rules.find? fun rule => !run.conditions.isTrue rule.name with
    | none => rfl
    | some rule => rfl
  | generateOutput =>
    refine ignoresPolicy_bind (ignoresPolicy_expect _) fun _ => ?_
    refine ignoresPolicy_bind (ignoresPolicy_modify fun _ _ => rfl) fun _ run policy => ?_
    have emits : IgnoresPolicy (run.tree.visit fun _ node => emit node) := by
      refine ignoresPolicy_visit fun id => ?_
      cases run.tree.node? id with
      | none => exact ignoresPolicy_pure false
      | some node => exact ignoresPolicy_emit node
    exact ignoresPolicy_bind emits (fun _ => ignoresPolicy_reach .outputGenerated) run policy

/-- The policy does not show in what the steps come to. -/
theorem prepare_withPolicy (store : Store) (request : Request) (directory : String)
    (policy : Overwrite) :
    prepare store (request.withPolicy policy) directory =
      ((prepare store request directory).1,
        (prepare store request directory).2.withPolicy policy) :=
  ignoresPolicy_forM (Step.ignoresPolicy store) Step.all (start request directory) policy

end Run

/-! ## Files that are read -/

variable {store after : Store} {request : Request} {directory : String} {file target : Location}

/-- The directory in which the paths of the template are read. -/
def Request.templateDirectory (request : Request) (directory : String) : String :=
  (Path.parent? (Path.join directory request.template)).getD ""

/-- Carrying out the request reads the file, which is its template or is included. -/
inductive Request.Reads (store : Store) (request : Request) (directory : String) : Location → Prop
  | template {file : Location} {text : String}
      (opens : Reader.openFile store (Path.join directory request.template) = .ok (file, text)) :
      Request.Reads store request directory file
  | included {first file : Location} {text : String}
      (opens : Reader.openFile store (Path.join directory request.template) = .ok (first, text))
      (further : Reader.Opens store Document.Assembly.handler
        (Reader.ofText text (request.templateDirectory directory)) .empty file) :
      Request.Reads store request directory file

theorem Request.Reads.holds (reads : request.Reads store directory file) :
    ∃ text, store.textAt file = .ok text := by
  cases reads with
  | template opens => exact ⟨_, (Reader.openFile_eq_ok opens).2⟩
  | included _ further => exact further.holds

theorem Request.Reads.isSome_entry? (reads : request.Reads store directory file) :
    (store.entry? file).isSome := by
  obtain ⟨text, held⟩ := reads.holds
  cases found : store.entry? file with
  | none => simp [Store.textAt, Store.bytesAt, found, bind, Except.bind] at held
  | some entry => rfl

namespace Run

variable {run : Run}

/-- Only `parse` looks at the files. -/
theorem Step.perform_of_ne_parse {step : Step} (later : step ≠ .parse) (store other : Store) :
    step.perform store = step.perform other := by
  cases step with
  | parse => exact absurd rfl later
  | _ => rfl

theorem forM_perform_of_notMem {steps : List Step} (later : Step.parse ∉ steps)
    (store other : Store) :
    (steps.forM (Step.perform store) : StepM Unit) = steps.forM (Step.perform other) := by
  induction steps with
  | nil =>
    have stops (store : Store) : ([].forM (Step.perform store) : StepM Unit) = pure () := rfl
    rw [stops, stops]
  | cons step rest ih =>
    obtain ⟨different, further⟩ := not_or.1 (mt List.mem_cons.2 later)
    have goes (store : Store) : ((step :: rest).forM (Step.perform store) : StepM Unit) =
      step.perform store >>= fun _ => rest.forM (Step.perform store) := rfl
    rw [goes, goes, ih further,
      Step.perform_of_ne_parse (fun same => different same.symm) store other]

theorem parse_of_reads {text : String} {tree : Tree} (fresh : run.stage = .unparsed)
    (reads : store.readText run.templatePath = .ok text)
    (parses : Tree.parse store text ((Path.parent? run.templatePath).getD "") = .ok tree) :
    parse store run = (.ok (), { run with tree, stage := .parsed }) := by
  rw [parse, Attempt.run_get_bind, if_pos fresh]
  dsimp only
  rw [Attempt.run_bind, reads]
  dsimp only [Except.mapError, Attempt.run_ofExcept]
  rw [Attempt.run_bind, parses]
  rfl

/-- Writing a file that has not been read changes nothing for the tree of the template. -/
theorem parse_put {text : String} {tree : Tree} (proper : target ≠ [])
    (notDirectory : store.isDirectory target = false) (content : Bytes)
    (unread : ¬ request.Reads store directory target)
    (opens : Reader.openFile store (Path.join directory request.template) = .ok (file, text))
    (parses : Tree.parse store text (request.templateDirectory directory) = .ok tree) :
    Tree.parse (store.put target (.file content)) text (request.templateDirectory directory) =
      .ok tree := by
  unfold Tree.parse at parses ⊢
  split at parses
  · cases parses
  · rename_i last assembly reaches
    have same (other : Location)
        (further : Reader.Opens store Document.Assembly.handler _ .empty other) (path text : String)
        (opened : Reader.openFile store path = .ok (other, text)) :
        Reader.openFile (store.put target (.file content)) path = .ok (other, text) :=
      Reader.openFile_put proper notDirectory content
        (fun isTarget => unread (isTarget ▸ .included opens further)) opened
    rw [Reader.parse_of_opens same reaches]
    exact parses

/-- Writing a file that has not been read changes nothing for the steps. -/
theorem prepare_put (proper : target ≠ []) (notDirectory : store.isDirectory target = false)
    (content : Bytes) (unread : ¬ request.Reads store directory target)
    (prepares : prepare store request directory = (.ok (), run)) :
    prepare (store.put target (.file content)) request directory = (.ok (), run) := by
  obtain ⟨first, parsing, rest⟩ := forM_cons_eq_ok prepares
  obtain ⟨text, tree, reads, parses, rfl⟩ := parse_eq_ok rfl parsing
  obtain ⟨file, opens⟩ := Reader.readText_eq_ok_iff.1 reads
  have opensAgain := Reader.openFile_put proper notDirectory content
    (fun isTarget => unread (isTarget ▸ .template opens)) opens
  have again := @parse_of_reads (store.put target (.file content)) (start request directory) _ _ rfl
    (Reader.readText_eq_ok_iff.2 ⟨file, opensAgain⟩)
    (parse_put proper notDirectory content unread opens parses)
  rw [forM_perform_of_notMem (by decide) _ (store.put target (.file content))] at rest
  exact Attempt.run_bind_eq_ok_iff.2 ⟨(), _, again, rest⟩

end Run

/-! ## Carrying out a request -/

/-- Unless an existing destination must be left alone, a request makes all steps and commits the
output. -/
theorem configure_eq {policy : Overwrite} (writes : policy ≠ .no) :
    configure store (request.withPolicy policy) directory =
      match Run.prepare store request directory with
      | (.error cause, _) => (.error cause, store)
      | (.ok (), run) =>
        match store.commit run.outputPath run.output policy with
        | (.ok outcome, after) => (.ok (run.report outcome), after)
        | (.error cause, after) => (.error (.commitFailed run.outputPath cause), after) := by
  have steps : (Run.Step.all.forM (Run.Step.perform store) : StepM Unit)
      (Run.start (request.withPolicy policy) directory) = _ :=
    Run.prepare_withPolicy store request directory policy
  unfold configure
  rw [Run.complete_eq, if_neg fun skips => writes skips.1, steps]
  generalize prepares : Run.prepare store request directory = prepared
  obtain ⟨cause | ⟨⟩, run⟩ := prepared
  · rfl
  · obtain ⟨-, -, ready, -⟩ := Run.prepare_eq_ok prepares
    dsimp only
    rw [@Run.commit_eq (run.withPolicy policy) ready]
    have same : store.commit (run.withPolicy policy).outputPath (run.withPolicy policy).output
        (run.withPolicy policy).request.overwrite =
      store.commit run.outputPath run.output policy := rfl
    rw [same]
    generalize store.commit run.outputPath run.output policy = committed
    obtain ⟨cause | outcome, later⟩ := committed <;> rfl

theorem configure_eq_ok_iff {policy : Overwrite} {report : Report} (writes : policy ≠ .no) :
    configure store (request.withPolicy policy) directory = (.ok report, after) ↔
      ∃ run outcome, Run.prepare store request directory = (.ok (), run) ∧
        store.commit (Path.join directory request.output) run.output policy =
          (.ok outcome, after) ∧ run.report outcome = report := by
  rw [configure_eq writes]
  generalize prepares : Run.prepare store request directory = prepared
  obtain ⟨cause | ⟨⟩, run⟩ := prepared
  · simp
  · obtain ⟨-, path, -⟩ := Run.prepare_eq_ok prepares
    dsimp only
    rw [path]
    generalize commits : store.commit (Path.join directory request.output) run.output policy =
      committed
    obtain ⟨cause | outcome, later⟩ := committed
    · simp [commits]
    · simp [commits, and_comm]

/-- A file that is not read can be updated again: it holds the output then, and nothing changes. -/
theorem configure_again {report : Report}
    (unread : ∀ file, request.Reads store directory file →
      store.resolve (Path.join directory request.output) ≠ .ok file)
    (first : configure store (request.withPolicy .update) directory = (.ok report, after)) :
    configure after (request.withPolicy .update) directory =
      (.ok { report with outcome := .unchanged }, after) := by
  obtain ⟨run, outcome, prepares, commits, rfl⟩ := (configure_eq_ok_iff (by decide)).1 first
  refine (configure_eq_ok_iff (by decide)).2 ⟨run, .unchanged, ?_, Store.commit_again commits, rfl⟩
  rcases Store.commit_update_eq_ok commits with ⟨-, -, rfl⟩ | ⟨-, writes⟩
  · exact prepares
  · obtain ⟨-, target, destination, notDirectory, rfl⟩ := Store.overwrite_eq_ok writes
    refine Run.prepare_put destination.ne_nil notDirectory _ (fun reads => ?_) prepares
    -- A file that is read is there before the commit, so the destination leads to it.
    refine unread target reads ?_
    rw [destination.resolve_eq, if_pos reads.isSome_entry?]

/-- Updating a destination that the run does not read is idempotent and agrees with replacing it.
The second of two updates changes nothing. An update leaves the same files as a replacement, with
the same warnings and the same outcome, except that it says unchanged exactly where the replacement
says replaced and the destination held the output already. -/
theorem configure_update (store : Store) (request : Request) (directory : String)
    (unread : ∀ file, request.Reads store directory file →
      store.resolve (Path.join directory request.output) ≠ .ok file) :
    (∀ report after,
      configure store (request.withPolicy .update) directory = (.ok report, after) →
        configure after (request.withPolicy .update) directory =
          (.ok { report with outcome := .unchanged }, after)) ∧
      ∀ replacing updating written left,
        configure store (request.withPolicy .yes) directory = (.ok replacing, written) →
        configure store (request.withPolicy .update) directory = (.ok updating, left) →
          left.Agrees written ∧ updating.output = replacing.output ∧
            updating.warnings = replacing.warnings ∧
            ∃ run, Run.prepare store request directory = (.ok (), run) ∧
              (updating.outcome = .unchanged ↔ replacing.outcome = .replaced ∧
                store.readBytes (Path.join directory request.output) =
                  .ok (Bytes.ofText run.output)) ∧
              (updating.outcome ≠ .unchanged → updating.outcome = replacing.outcome) := by
  refine ⟨fun report after => configure_again unread, ?_⟩
  intro replacing updating written left replaces updates
  obtain ⟨run, outcome, prepares, commits, rfl⟩ := (configure_eq_ok_iff (by decide)).1 replaces
  obtain ⟨run', outcome', prepares', commits', rfl⟩ := (configure_eq_ok_iff (by decide)).1 updates
  obtain ⟨-, same⟩ := Prod.mk.inj (prepares.symm.trans prepares')
  subst same
  obtain ⟨agrees, unchanged, otherwise⟩ := Store.commit_update_agrees commits commits'
  exact ⟨agrees, rfl, rfl, run, prepares, unchanged, otherwise⟩

/-- A template that includes a file, and a destination that holds no text. -/
def exBinary : Store :=
  ⟨[(["t"], .file (Bytes.ofText "<include path=\"i\"/>")), (["i"], .file (Bytes.ofText "new")),
    (["o"], .file #[0xff])], []⟩

def exBinaryRequest : Request := ⟨"t", "o", [], [], .empty, .no⟩

theorem exBinary_unread (file : Location) (reads : exBinaryRequest.Reads exBinary "" file) :
    exBinary.resolve (Path.join "" exBinaryRequest.output) ≠ .ok file := by
  have leads : exBinary.resolve (Path.join "" exBinaryRequest.output) = .ok ["o"] := by
    decide +kernel
  rw [leads]
  intro same
  obtain rfl := Except.ok.inj same
  obtain ⟨text, held⟩ := reads.holds
  have noText : exBinary.textAt ["o"] = .error .invalidData := by decide +kernel
  rw [noText] at held
  cases held

theorem exBinary_updates :
    let written := exBinary.put ["o"] (.file (Bytes.ofText "new"))
    configure exBinary (exBinaryRequest.withPolicy .update) "" =
        (.ok ⟨"o", .replaced, []⟩, written) ∧
      configure exBinary (exBinaryRequest.withPolicy .yes) "" =
        (.ok ⟨"o", .replaced, []⟩, written) ∧
      configure written (exBinaryRequest.withPolicy .update) "" =
        (.ok ⟨"o", .unchanged, []⟩, written) ∧
      ∃ run, Run.prepare exBinary exBinaryRequest "" = (.ok (), run) ∧
        exBinary.readBytes "o" ≠ .ok (Bytes.ofText run.output) := by
  intro written
  have updates : configure exBinary (exBinaryRequest.withPolicy .update) "" =
      (.ok ⟨"o", .replaced, []⟩, written) := by decide +kernel
  have replaces : configure exBinary (exBinaryRequest.withPolicy .yes) "" =
      (.ok ⟨"o", .replaced, []⟩, written) := by decide +kernel
  obtain ⟨again, agrees⟩ := configure_update exBinary exBinaryRequest "" exBinary_unread
  obtain ⟨-, -, -, run, prepares, unchanged, -⟩ := agrees _ _ _ _ replaces updates
  exact ⟨updates, replaces, again _ _ updates, run, prepares,
    fun held => nomatch unchanged.2 ⟨rfl, held⟩⟩

end ConfigTemplate
