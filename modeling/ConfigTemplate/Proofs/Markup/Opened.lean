import ConfigTemplate.Proofs.Document.Flat
import ConfigTemplate.Proofs.Files.Store

/-!
# The files that parsing opens

Parsing depends on the files only through those that it opens. If all of these are found with the
same text in another store, then parsing comes to the same there.

Results:
1. `openFile_put`: a file that is written elsewhere does not change what is opened at a path.
2. `parse_of_opens`: parsing comes to the same in every store in which it finds the same files.
-/

namespace ConfigTemplate.Markup.Reader

variable {store other : Store} {path text : String} {file target : Location}

/-! ## Opening a file -/

theorem openFile_eq_ok_iff : openFile store path = .ok (file, text) ↔
    store.resolve path = .ok file ∧ store.textAt file = .ok text := by
  refine ⟨openFile_eq_ok, fun ⟨resolved, held⟩ => ?_⟩
  simp [openFile, resolved, held, bind, Except.bind, pure, Except.pure]

theorem readText_eq_ok_iff : store.readText path = .ok text ↔
    ∃ file, openFile store path = .ok (file, text) := by
  unfold Store.readText openFile
  rcases store.resolve path with cause | place
  · simp [bind, Except.bind]
  · rcases held : store.textAt place with cause | content <;>
      simp [held, bind, Except.bind, pure, Except.pure]

/-- A path that leads somewhere leads there also when a file is written. -/
theorem resolve_put (proper : target ≠ []) (notDirectory : store.isDirectory target = false)
    (content : Bytes) (resolved : store.resolve path = .ok file) :
    (store.put target (.file content)).resolve path = .ok file := by
  unfold Store.resolve at resolved ⊢
  cases valid : Store.checkPath path with
  | error cause => simp [valid, bind, Except.bind] at resolved
  | ok =>
    simp only [valid, bind, Except.bind] at resolved ⊢
    rw [Store.startOf, Store.workingDirectory_put]
    exact Store.walk_mono (Store.isDirectory_put_file proper notDirectory content)
      (fun _ => Store.isSome_entry?_put proper) resolved

/-- Writing a file changes the text of no other one. -/
theorem textAt_put (store : Store) (proper : target ≠ []) (content : Bytes)
    (apart : file ≠ target) :
    (store.put target (.file content)).textAt file = store.textAt file := by
  unfold Store.textAt Store.bytesAt
  rw [Store.entry?_put store _ _ proper, if_neg apart]

theorem openFile_put (proper : target ≠ []) (notDirectory : store.isDirectory target = false)
    (content : Bytes) (apart : file ≠ target) (opens : openFile store path = .ok (file, text)) :
    openFile (store.put target (.file content)) path = .ok (file, text) := by
  obtain ⟨resolved, held⟩ := openFile_eq_ok opens
  refine openFile_eq_ok_iff.2 ⟨resolve_put proper notDirectory content resolved, ?_⟩
  rw [textAt_put store proper content apart, held]

/-! ## Parsing -/

variable {σ : Type} {handler : Handler σ} {r last : Reader} {state result : σ}

/-- Parsing opens the file, because the handler asks for it behind some event. -/
inductive Opens (store : Store) (handler : Handler σ) : Reader → σ → Location → Prop
  | here {r after : Reader} {state later : σ} {event : Event} {path text : String} {file : Location}
      (found : nextEvent r = (.ok (some event), after))
      (asks : handler.receive event state = (.ok (some path), later))
      (opens : openFile store (Path.join after.directory path) = .ok (file, text)) :
      Opens store handler r state file
  | inside {r after included : Reader} {state later : σ} {event : Event} {path : String}
      {file : Location} (found : nextEvent r = (.ok (some event), after))
      (asks : handler.receive event state = (.ok (some path), later))
      (reads : includeFile store after path = .ok included)
      (further : Opens store handler included later file) : Opens store handler r state file
  | behind {r after : Reader} {state later : σ} {event : Event} {file : Location}
      (found : nextEvent r = (.ok (some event), after))
      (goes : handler.receive event state = (.ok none, later))
      (further : Opens store handler after later file) : Opens store handler r state file

/-- A file that is opened holds a text. -/
theorem Opens.holds (opens : Opens store handler r state file) :
    ∃ text, store.textAt file = .ok text := by
  induction opens with
  | here _ _ opens => exact ⟨_, (openFile_eq_ok opens).2⟩
  | inside _ _ _ _ ih => exact ih
  | behind _ _ _ ih => exact ih

theorem parse_of_opens
    (same : ∀ file, Opens store handler r state file → ∀ path text,
      openFile store path = .ok (file, text) → openFile other path = .ok (file, text))
    (parses : r.parse store handler state = (.ok (), last, result)) :
    r.parse other handler state = (.ok (), last, result) := by
  fun_induction Reader.parse store handler r state with
  | case1 r state cause after found => cases parses
  | case2 r state after found =>
    cases parses
    exact parse_of_end found
  | case3 r state event after found cause later refuses => cases parses
  | case4 r state event after found later goes ih =>
    rw [parse_of_event found goes]
    exact ih (fun file opens => same file (.behind found goes opens)) parses
  | case5 r state event after found path later asks cause unread => cases parses
  | case6 r state event after found path later asks included reads ih =>
    obtain ⟨file, text, opens, free, rfl⟩ := includeFile_eq_ok.1 reads
    have again := same file (.here found asks opens) _ _ opens
    have readsOther := includeFile_eq_ok.2 ⟨file, text, again, free, rfl⟩
    rw [parse_event found, asks]
    dsimp only
    rw [readsOther]
    exact ih (fun file opens => same file (.inside found asks reads opens)) parses

end ConfigTemplate.Markup.Reader
