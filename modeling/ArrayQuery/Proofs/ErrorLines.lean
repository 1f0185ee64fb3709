import ArrayQuery.Diagnostic.FirstError
import ArrayQuery.Proofs.Boundaries

/-! The first line of an output that reports an error. It is found, and its absence noticed, unless one of
the lines that are looked at before it has a character across its fifth byte. -/

set_option autoImplicit false
namespace ArrayQuery

theorem Text.occurs_iff {pattern text : List Char} : occurs pattern text = true ↔ pattern <:+: text := by
  induction text with
  | nil => rw [occurs, List.isEmpty_iff, List.infix_nil]
  | cons c text ih => rw [occurs, Bool.or_eq_true, List.isPrefixOf_iff_prefix, ih, List.infix_cons_iff]

theorem Text.utf8Size_of_toLower {c : Char} (small : c.toLower.utf8Size = 1) : c.utf8Size = 1 := by
  unfold Char.toLower at small
  split at small
  · next capital => exact Char.utf8Size_eq_one_iff.mpr (UInt32.le_trans capital.2 (by decide))
  · exact small

namespace ErrorSearch

/-- Whether a line reports an error: it starts with the word, in letters of either case, or with a number
in brackets, and has the word behind one. -/
def Reports (line : List Char) : Prop :=
  (∃ word, word <+: line ∧ word.map Char.toLower = "error".toList) ∨
    ("[E".toList <+: line ∧ "] Error".toList <:+: line)

theorem byteCount_narrow {text : List Char} (each : ∀ c ∈ text, c.utf8Size = 1) :
    Text.byteCount text = text.length := by
  induction text with
  | nil => rfl
  | cons c text ih =>
    rw [Text.byteCount_cons, each c List.mem_cons_self, List.length_cons,
      ih fun d member => each d (List.mem_cons_of_mem c member), Nat.add_comm]

theorem byteCount_word {word : List Char} (spelled : word.map Char.toLower = "error".toList) :
    Text.byteCount word = 5 := by
  have each : ∀ c ∈ word, c.utf8Size = 1 := by
    intro c member
    have letters : "error".toList.all (fun d => d.utf8Size == 1) = true := by decide
    have letter := List.all_eq_true.mp letters _ (spelled ▸ List.mem_map_of_mem member)
    exact Text.utf8Size_of_toLower (beq_iff_eq.mp letter)
  rw [byteCount_narrow each, ← List.length_map (f := Char.toLower), spelled]
  rfl

theorem isNumbered_iff {line : List Char} :
    isNumbered line = true ↔ "[E".toList <+: line ∧ "] Error".toList <:+: line := by
  rw [isNumbered, Bool.and_eq_true, List.isPrefixOf_iff_prefix, Text.occurs_iff]

theorem isError?_eq_none {line : List Char} : isError? line = none ↔ Text.Splits 5 line := by
  unfold isError?
  split
  · next short =>
    refine iff_of_false (by simp) ?_
    rintro ⟨before, c, after, rfl, _, beyond⟩
    rw [Text.byteCount_append, Text.byteCount_cons] at short
    omega
  · next long => rw [Option.map_eq_none_iff, Text.cutAt_eq_none, or_iff_left long]

theorem isError?_reports {line : List Char} {reports : Bool} (tested : isError? line = some reports) :
    reports = true ↔ Reports line := by
  unfold isError? at tested
  split at tested
  · next short =>
    obtain rfl := Option.some.inj tested
    refine isNumbered_iff.trans (or_iff_right ?_).symm
    rintro ⟨word, ⟨rest, rfl⟩, spelled⟩
    rw [Text.byteCount_append, byteCount_word spelled] at short
    omega
  · obtain ⟨word, cut, rfl⟩ := Option.map_eq_some_iff.mp tested
    obtain ⟨beginning, bytes⟩ := Text.cutAt_beginning cut
    rw [Bool.or_eq_true, beq_iff_eq, isNumbered_iff]
    refine or_congr_left ⟨fun spelled => ⟨word, beginning, spelled⟩, ?_⟩
    -- Both beginnings take five bytes, so that they are the same.
    rintro ⟨other, beginning', spelled⟩
    have same := Text.eq_of_byteCount beginning beginning' (bytes.trans (byteCount_word spelled).symm)
    rw [same, spelled]

theorem search_cons (line : List Char) (rest : List (List Char)) :
    (Text.Splits 5 line ∧ search (line :: rest) = .splitCharacter) ∨
      (¬Text.Splits 5 line ∧ Reports line ∧ search (line :: rest) = .found (String.ofList line)) ∨
      (¬Text.Splits 5 line ∧ ¬Reports line ∧ search (line :: rest) = search rest) := by
  rw [search]
  cases tested : isError? line with
  | none => exact .inl ⟨isError?_eq_none.mp tested, rfl⟩
  | some reports =>
    have whole : ¬Text.Splits 5 line := fun splits => by
      rw [isError?_eq_none.mpr splits] at tested
      exact nomatch tested
    have tells := isError?_reports tested
    cases reports with
    | true => exact .inr (.inl ⟨whole, tells.mp rfl, rfl⟩)
    | false => exact .inr (.inr ⟨whole, fun reports => Bool.noConfusion (tells.mpr reports), rfl⟩)

theorem search_past {before : List (List Char)} (quiet : ∀ l ∈ before, ¬Reports l) (rest : List (List Char)) :
    search (before ++ rest) = .splitCharacter ∨ search (before ++ rest) = search rest := by
  induction before with
  | nil => exact .inr rfl
  | cons first before ih =>
    rcases search_cons first (before ++ rest) with ⟨_, ended⟩ | ⟨_, loud, _⟩ | ⟨_, _, goes⟩
    · exact .inl ended
    · exact absurd loud (quiet first List.mem_cons_self)
    · rw [List.cons_append, goes]
      exact ih fun l member => quiet l (List.mem_cons_of_mem first member)

theorem search_splits (lines : List (List Char)) :
    search lines = .splitCharacter ↔ ∃ before line after, lines = before ++ line :: after ∧
      (∀ l ∈ before, ¬Reports l) ∧ Text.Splits 5 line := by
  constructor
  · intro ended
    induction lines with
    | nil => exact nomatch ended
    | cons line rest ih =>
      rcases search_cons line rest with ⟨splits, _⟩ | ⟨_, _, found⟩ | ⟨_, silent, goes⟩
      · exact ⟨[], line, rest, rfl, by simp, splits⟩
      · exact nomatch found.symm.trans ended
      · obtain ⟨before, later, after, rfl, quiet, splits⟩ := ih (goes.symm.trans ended)
        exact ⟨line :: before, later, after, rfl, List.forall_mem_cons.mpr ⟨silent, quiet⟩, splits⟩
  · rintro ⟨before, line, after, rfl, quiet, splits⟩
    rcases search_past quiet (line :: after) with earlier | past
    · exact earlier
    · rw [past]
      rcases search_cons line after with ⟨_, ended⟩ | ⟨whole, _⟩ | ⟨whole, _⟩
      · exact ended
      · exact absurd splits whole
      · exact absurd splits whole

theorem search_finds {before : List (List Char)} (quiet : ∀ l ∈ before, ¬Reports l) {line : List Char}
    (reports : Reports line) (after : List (List Char))
    (whole : search (before ++ line :: after) ≠ .splitCharacter) :
    search (before ++ line :: after) = .found (String.ofList line) := by
  have past := (search_past quiet (line :: after)).resolve_left whole
  rw [past] at whole ⊢
  rcases search_cons line after with ⟨_, ended⟩ | ⟨_, _, found⟩ | ⟨_, silent, _⟩
  · exact absurd ended whole
  · exact found
  · exact absurd reports silent

theorem search_misses {lines : List (List Char)} (quiet : ∀ l ∈ lines, ¬Reports l)
    (whole : search lines ≠ .splitCharacter) : search lines = .missing := by
  have past := search_past quiet []
  rw [List.append_nil] at past
  exact past.resolve_left whole

/-- The search ends within a character exactly if an output has a line, once trimmed, whose fifth byte is
followed by more of the same character, and none before it reports an error. For every other output it
gives the first line that reports an error, and nothing if there is none. -/
theorem ofOutput_answers (output : String) :
    let lines := (Text.linesOf output.toList).map Text.trim
    (ofOutput output = .splitCharacter ↔ ∃ before line after, lines = before ++ line :: after ∧
      (∀ l ∈ before, ¬Reports l) ∧ Text.Splits 5 line) ∧
    (ofOutput output ≠ .splitCharacter →
      (∀ before line after, lines = before ++ line :: after → (∀ l ∈ before, ¬Reports l) → Reports line →
        ofOutput output = .found (String.ofList line)) ∧
      ((∀ line ∈ lines, ¬Reports line) → ofOutput output = .missing)) := by
  intro lines
  refine ⟨search_splits lines, fun whole => ⟨fun before line after parts quiet reports => ?_, ?_⟩⟩
  · have found := search_finds quiet reports after
    rw [← parts] at found
    exact found whole
  · exact fun quiet => search_misses quiet whole

/-- A frame drawn above the error ends the search, and a short line does not. -/
theorem ofOutput_answers_frame :
    ofOutput "   ╭─[kernel.wgsl:1:1]\nerror: expected ';'" = .splitCharacter ∧
      ofOutput "note\n ERROR: ─ " = .found "ERROR: ─" := by
  obtain ⟨ends, -⟩ := ofOutput_answers "   ╭─[kernel.wgsl:1:1]\nerror: expected ';'"
  obtain ⟨-, finds⟩ := ofOutput_answers "note\n ERROR: ─ "
  refine ⟨ends.mpr ⟨[], "╭─[kernel.wgsl:1:1]".toList, ["error: expected ';'".toList], by decide, by simp,
    ['╭'], '─', "[kernel.wgsl:1:1]".toList, by decide, by decide, by decide⟩, ?_⟩
  have quiet : isError? "note".toList = some false := by decide
  have loud : isError? "ERROR: ─".toList = some true := by decide
  refine (finds (by decide)).1 ["note".toList] "ERROR: ─".toList [] (by decide) ?_
    ((isError?_reports loud).mp rfl)
  intro line member reports
  obtain rfl := List.mem_singleton.mp member
  exact Bool.noConfusion ((isError?_reports quiet).mpr reports)

end ErrorSearch
end ArrayQuery
