import ConfigTemplate.Markup.Parsing
import Mathlib.Algebra.Group.Nat.Defs
import Mathlib.Data.List.Perm.Subperm

/-!
# The sources of a reader

A reader works on a stack of sources: the template at the bottom and above it the files that are being
included. `Stacked` finds the stack in the symbols that are left, and `Reads` says which readers come
up while a template is parsed: one for every token, and one for every file that is put before the
input.

Results:
1. `Reads.stacked`: the input of every such reader is a stack, and no file is on it twice.
2. `Reads.length_add_potential_le`: the potential pays for every token.
3. `Reader.parse_halts`: parsing stops behind a last token, whatever the handler asks for.
-/

namespace ConfigTemplate.Markup

variable {store : Store} {template : String} {files : List Location} {symbols : List Symbol}

/-! ## Stacks of sources -/

/-- The symbols are what is left of a stack of sources. The template is at the bottom, and above it
are the given files, the innermost first. -/
inductive Stacked (store : Store) (template : String) : List Location → List Symbol → Prop where
  | template {rest : List Char} (left : rest <:+ template.toList) :
      Stacked store template [] (rest.map .char)
  | file {location : Location} {text : String} {rest : List Char} {files : List Location}
      {symbols : List Symbol} (held : store.textAt location = .ok text)
      (left : rest <:+ text.toList) (outer : Stacked store template files symbols) :
      Stacked store template (location :: files) (rest.map .char ++ .endOf location :: symbols)

namespace Stacked

theorem mem_iff (stacked : Stacked store template files symbols) {location : Location} :
    .endOf location ∈ symbols ↔ location ∈ files := by
  induction stacked with
  | template left => simp
  | file held left outer ih => simp [ih]

theorem readable (stacked : Stacked store template files symbols) :
    ∀ location ∈ files, location ∈ store.files.map Prod.fst := by
  induction stacked with
  | template left => exact fun _ member => nomatch member
  | file held left outer ih =>
    intro location member
    rcases List.mem_cons.1 member with rfl | outside
    · obtain ⟨content, file⟩ := Symbol.mem_files_of_textAt held
      exact List.mem_map_of_mem file
    · exact ih location outside

/-- Reading pops sources, but changes none that stay. -/
theorem suffix (stacked : Stacked store template files symbols) {later : List Symbol}
    (suffix : later <:+ symbols) :
    ∃ outer, outer <:+ files ∧ Stacked store template outer later := by
  induction stacked with
  | template left =>
    obtain ⟨rest, shorter, rfl⟩ := List.suffix_map_iff.1 suffix
    exact ⟨[], List.suffix_refl _, .template (shorter.trans left)⟩
  | @file location text rest files symbols held left outer ih =>
    obtain ⟨before, split⟩ := suffix
    rcases List.append_eq_append_iff.1 split with ⟨middle, same, rfl⟩ | ⟨middle, rfl, further⟩
    · obtain ⟨_, remaining, rfl, rfl, rfl⟩ := List.map_eq_append_iff.1 same
      exact ⟨_, List.suffix_refl _, .file held ((List.suffix_append _ _).trans left) outer⟩
    · rcases List.cons_eq_append_iff.1 further with ⟨rfl, rfl⟩ | ⟨popped, rfl, rfl⟩
      · exact ⟨_, List.suffix_refl _, .file held List.nil_suffix outer⟩
      · obtain ⟨remaining, fewer, kept⟩ := ih (List.suffix_append _ _)
        exact ⟨remaining, fewer.trans (List.suffix_cons _ _), kept⟩

theorem ofText (store : Store) (text : String) : Stacked store text [] (Symbol.ofText text) :=
  .template (List.suffix_refl _)

/-- A file that is included goes on top of the stack. -/
theorem opened (stacked : Stacked store template files symbols) {location : Location}
    {text : String} (held : store.textAt location = .ok text) :
    Stacked store template (location :: files) (Symbol.ofText text ++ .endOf location :: symbols) :=
  .file held (List.suffix_refl _) stacked

end Stacked

namespace Reader

/-! ## The readers of a parse -/

/-- The readers that come up when tokens are read one after the other. Behind the `>` of an element a
file may be put before the input, whichever is asked for. -/
inductive Reads (store : Store) : Reader → List Token → Reader → Prop where
  | stop (r : Reader) : Reads store r [] r
  | token {r middle last : Reader} {first : Token} {others : List Token}
      (found : r.next = (.ok (some first), middle)) (further : Reads store middle others last) :
      Reads store r (first :: others) last
  | opened {r middle included last : Reader} {path : String} {others : List Token}
      (found : r.next = (.ok (some .closeMarkup), middle))
      (reads : includeFile store middle path = .ok included)
      (further : Reads store included others last) : Reads store r (.closeMarkup :: others) last

namespace Reads

variable {r middle last : Reader} {tokens front back : List Token}

theorem append (first : Reads store r front middle) (second : Reads store middle back last) :
    Reads store r (front ++ back) last := by
  induction first with
  | stop r => exact second
  | token found _ ih => exact .token found (ih second)
  | opened found reads _ ih => exact .opened found reads (ih second)

theorem ofTrail (trail : Trail r tokens last) : Reads store r tokens last := by
  induction trail with
  | stop r => exact .stop r
  | token found _ ih => exact .token found ih

/-- Behind the end of the input no reader comes up. -/
theorem eq_of_ended (reads : Reads store r tokens last) (ended : r.next = (.ok none, r)) :
    last = r := by
  cases reads with
  | stop => rfl
  | token found _ => cases ended.symm.trans found
  | opened found _ _ => cases ended.symm.trans found

/-! ### Bounds -/

/-- The potential pays for every token. -/
theorem length_add_potential_le (reads : Reads store r tokens last) :
    tokens.length + last.potential store ≤ r.potential store := by
  induction reads with
  | stop r => simp
  | token found _ ih =>
    have less := @potential_lt_of_token store _ _ _ found
    simp only [List.length_cons]
    omega
  | opened found reads _ ih =>
    have less := @potential_lt_of_opened store _ _ _ _ found reads
    simp only [List.length_cons]
    omega

/-- The input stays a stack of sources, and no file comes to be on it twice. -/
theorem stacked (reads : Reads store r tokens last) (stacked : Stacked store template files r.input)
    (distinct : files.Nodup) :
    ∃ files, Stacked store template files last.input ∧ files.Nodup := by
  induction reads generalizing files with
  | stop r => exact ⟨files, stacked, distinct⟩
  | @token r middle last first others found _ ih =>
    have follows := r.next_follows
    rw [found] at follows
    obtain ⟨fewer, suffix, kept⟩ := stacked.suffix follows.input
    exact ih kept (distinct.sublist suffix.sublist)
  | @opened r middle included last path others found reads _ ih =>
    have follows := r.next_follows
    rw [found] at follows
    obtain ⟨fewer, suffix, kept⟩ := stacked.suffix follows.input
    obtain ⟨location, text, opens, free, rfl⟩ := includeFile_eq_ok.1 reads
    refine ih (kept.opened (openFile_eq_ok opens).2) (List.nodup_cons.2 ⟨?_, ?_⟩)
    · exact fun member => free (kept.mem_iff.2 member)
    · exact distinct.sublist suffix.sublist

end Reads

/-! ## Parsing -/

variable {σ : Type} {handler : Handler σ} {state : σ}

/-- A parse that ends with this result and reader has read tokens up to a last one. When it succeeds,
nothing is left to be read. -/
def Halts (store : Store) (r : Reader) (result : Except ParseError Unit) (reader : Reader) : Prop :=
  ∃ tokens last, Reads store r tokens last ∧ StopsBehind last (result, reader) ∧
    (result = .ok () → last.next = (.ok none, reader))

theorem Halts.of_reaches {α : Type} {r reader : Reader} {result : Except ParseError α}
    {cause : ParseError} (reaches : Reaches r (result, reader))
    (same : ∀ found, result = .error found → found = cause) :
    Halts store r (.error cause) reader := by
  obtain ⟨tokens, last, trail, stops⟩ := reaches
  refine ⟨tokens, last, .ofTrail trail, stops.imp_right fun stops => stops.imp_right ?_, nofun⟩
  rintro ⟨found, failed, isError⟩
  obtain rfl := same found isError
  exact ⟨found, failed, rfl⟩

theorem Halts.of_reads {r middle reader : Reader} {result : Except ParseError Unit}
    {tokens : List Token} (first : Reads store r tokens middle)
    (halts : Halts store middle result reader) : Halts store r result reader := by
  obtain ⟨others, last, further, stops⟩ := halts
  exact ⟨tokens ++ others, last, first.append further, stops⟩

/-- A parse goes on where an event was read. -/
theorem Halts.of_event {α : Type} {r after reader : Reader} {event : α}
    {result : Except ParseError Unit} (first : Reaches r (.ok event, after))
    (halts : Halts store after result reader) : Halts store r result reader := by
  obtain ⟨tokens, last, trail, stopped | ended | ⟨_, _, failed⟩⟩ := first
  · obtain rfl : after = last := stopped
    exact .of_reads (.ofTrail trail) halts
  · obtain ⟨others, final, further, stops, whole⟩ := halts
    have still := next_of_next_eq_none ended
    obtain rfl := further.eq_of_ended still
    have same : reader = final := by
      rcases stops with same | again | ⟨_, found, _⟩
      · exact same
      · exact congrArg Prod.snd (again.symm.trans still)
      · cases still.symm.trans found
    subst same
    exact ⟨tokens, last, .ofTrail trail, .inr (.inl ended), fun _ => ended⟩
  · cases failed

theorem next_of_nextEvent_eq_none {r after : Reader} (found : nextEvent r = (.ok none, after)) :
    r.next = (.ok none, after) := by
  unfold nextEvent at found
  obtain ⟨line, _, atStart, found⟩ := Attempt.run_bind_eq_ok_iff.1 found
  cases atStart
  obtain ⟨first, middle, reads, found⟩ := Attempt.run_bind_eq_ok_iff.1 found
  split at found
  · cases found
    exact reads
  · cases found
  · obtain ⟨event, _, _, found⟩ := Attempt.run_bind_eq_ok_iff.1 found
    cases found
  · cases found

theorem parse_halts (store : Store) (handler : Handler σ) (r : Reader) (state : σ) :
    Halts store r (r.parse store handler state).1 (r.parse store handler state).2.1 := by
  fun_induction Reader.parse store handler r state with
  | case1 r state cause after found =>
    have reaches := traced_nextEvent r
    rw [found] at reaches
    exact .of_reaches reaches fun _ same => (Except.error.inj same).symm
  | case2 r state after found =>
    have ended := next_of_nextEvent_eq_none found
    exact ⟨[], r, .stop r, .inr (.inl ended), fun _ => ended⟩
  | case3 r state after event found cause state' answer =>
    have reaches := traced_nextEvent r
    rw [found] at reaches
    exact .of_reaches reaches nofun
  | case4 r state after event found state' answer ih =>
    have reaches := traced_nextEvent r
    rw [found] at reaches
    exact .of_event reaches ih
  | case5 r state after event found path state' answer cause reads =>
    have reaches := traced_nextEvent r
    rw [found] at reaches
    exact .of_reaches reaches nofun
  | case6 r state after event found path state' answer included reads ih =>
    obtain ⟨tokens, before, trail, closes⟩ :=
      nextEvent_closing found (Handler.isClosing_of_receive answer)
    exact .of_reads ((Reads.ofTrail trail).append (.opened closes reads (.stop included))) ih

end Reader

open Reader in
/-- Parsing stops behind a last token, whatever the handler answers, and behind all of the input when
it succeeds. There is a bound for the number of tokens. At every moment the input is a stack of
sources with the template at the bottom and distinct files above it, so there are never more of them
than the store has files. -/
theorem parse_bounded {σ : Type} (store : Store) (handler : Handler σ) (state : σ)
    (template directory : String) :
    let start := Reader.ofText template directory
    let (result, reader, _) := start.parse store handler state
    (∃ tokens last, Reads store start tokens last ∧ StopsBehind last (result, reader) ∧
      (result = .ok () → last.next = (.ok none, reader))) ∧
    ∀ tokens moment, Reads store start tokens moment →
      tokens.length ≤ template.length * Symbol.base store ^ store.files.length ∧
      ∀ rest, rest <:+ moment.input → ∃ files, Stacked store template files rest ∧
        files.Nodup ∧ files.length ≤ store.files.length := by
  intro start
  refine ⟨parse_halts store handler start state, fun tokens moment reads => ⟨?_, ?_⟩⟩
  · have paid := reads.length_add_potential_le
    have whole : start.potential store =
        template.length * Symbol.base store ^ store.files.length := by
      have free : Symbol.freeFiles store [] = store.files.length := by simp [Symbol.freeFiles]
      have weighs := Symbol.potential_characters store template.toList []
      rw [String.length_toList] at weighs
      simpa [start, Reader.ofText, Symbol.ofText, Reader.potential, Symbol.potential, Symbol.weight,
        free] using weighs
    omega
  · intro rest suffix
    obtain ⟨files, stacked, distinct⟩ := reads.stacked (.ofText store template) .nil
    obtain ⟨fewer, inner, kept⟩ := stacked.suffix suffix
    have apart := distinct.sublist inner.sublist
    refine ⟨fewer, kept, apart, ?_⟩
    simpa using (apart.subperm kept.readable).length_le

end ConfigTemplate.Markup
