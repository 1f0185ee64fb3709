import ArrayQuery.Kernel.Records
import ArrayQuery.Proofs.Numerals
import Mathlib.Data.List.Nodup
import Mathlib.Data.List.Perm.Subperm

/-! Names of structs and members are words, no reserved ones and none that the compiler gives to buffers
and steps, and the structs of one kernel have different names. -/

set_option autoImplicit false
namespace ArrayQuery.Kernel

theorem alphanum_ascii {c : Char} (plain : c.isAlphanum = true) : c.toNat < 128 := by
  delta Char.isAlphanum Char.isAlpha Char.isUpper Char.isLower Char.isDigit at plain
  simp only [Bool.or_eq_true, Bool.and_eq_true, decide_eq_true_eq, ge_iff_le,
    UInt32.le_iff_toNat_le, Char.reduceVal, UInt32.reduceToNat] at plain
  change c.val.toNat < 128
  omega

theorem forall_alphanum {P : Char → Prop} (each : ∀ n < 128, P (Char.ofNat n)) {c : Char}
    (plain : c.isAlphanum = true) : P c := by
  have holds := each c.toNat (alphanum_ascii plain)
  rwa [Char.ofNat_toNat] at holds

theorem toLower_alphanum {c : Char} (plain : c.isAlphanum = true) :
    c.toLower.isAlphanum = true :=
  forall_alphanum (P := fun c => c.isAlphanum = true → c.toLower.isAlphanum = true)
    (by decide) plain plain

theorem plainChar_wordChar (c : Char) : isWordChar (plainChar c) = true := by
  unfold plainChar isWordChar
  split
  · next plain => simp [toLower_alphanum plain]
  · decide

theorem wordStart_of_not_digit {c : Char} (word : isWordChar c = true) (other : c.isDigit = false) :
    isWordStart c = true := by
  simpa [isWordChar, isWordStart, Char.isAlphanum, other] using word

theorem fixStart_word {cs : List Char} (plain : cs.all isWordChar = true) :
    ∃ c rest, fixStart cs = c :: rest ∧ isWordStart c = true ∧ rest.all isWordChar = true := by
  unfold fixStart
  cases cs with
  | nil => exact ⟨'_', [], rfl, by decide, rfl⟩
  | cons c rest =>
    have each := plain
    simp only [List.all_cons, Bool.and_eq_true] at each
    dsimp only
    -- An underscore goes before a digit, and a letter before two underscores.
    by_cases digit : c.isDigit = true
    · simp only [digit, if_true]
      split
      · next tail same =>
        refine ⟨'r', _, rfl, by decide, ?_⟩
        rw [← same]
        exact plain
      · exact ⟨'_', c :: rest, rfl, by decide, plain⟩
    · have start := wordStart_of_not_digit each.1 (Bool.eq_false_iff.mpr digit)
      simp only [digit, if_false, Bool.false_eq_true]
      split
      · next tail same =>
        refine ⟨'r', _, rfl, by decide, ?_⟩
        rw [← same]
        exact plain
      · exact ⟨c, rest, rfl, start, each.2⟩

theorem underscore_not_numbered {stem name : List Char} (free : '_' ∉ stem) (scored : '_' ∈ name) :
    isNumbered stem name = false := by
  induction stem generalizing name with
  | nil =>
    have digits : name.all Char.isDigit = false := by
      refine List.all_eq_false.mpr ⟨'_', scored, by decide⟩
    simp [isNumbered, digits]
  | cons c stem ih =>
    cases name with
    | nil => rfl
    | cons d name =>
      by_cases same : c = d
      · subst same
        have inside : '_' ∈ name := by
          rcases List.mem_cons.mp scored with rfl | inside
          · exact absurd List.mem_cons_self free
          · exact inside
        simp [isNumbered, ih (fun member => free (List.mem_cons_of_mem _ member)) inside]
      · simp [isNumbered, same]

theorem underscore_not_taken {name : List Char} (scored : '_' ∈ name) : isTaken name = false := by
  have reserved : ∀ word ∈ reservedWords, '_' ∉ word.toList := by decide
  simp only [isTaken, isGenerated, Bool.or_eq_false_iff]
  refine ⟨?_, underscore_not_numbered (by decide) scored, underscore_not_numbered (by decide) scored⟩
  rw [List.contains_eq_mem, decide_eq_false_iff_not]
  intro member
  have absent := reserved _ member
  rw [String.toList_ofList] at absent
  exact absent scored

/-- Whether a name is one word that means nothing else in a kernel. -/
def IsFree (name : String) : Prop :=
  isWord name = true ∧ isTaken name.toList = false

theorem identifier_free (name : String) : IsFree (identifier name) := by
  have plain : (name.toList.map plainChar).all isWordChar = true := by
    simp [plainChar_wordChar]
  obtain ⟨c, rest, fixed, start, more⟩ := fixStart_word plain
  unfold identifier
  dsimp only
  rw [fixed]
  split
  · refine ⟨?_, ?_⟩
    · have last : (rest ++ ['_']).all isWordChar = true := by
        rw [List.all_append, more]
        decide
      simp only [isWord, String.toList_ofList, List.cons_append, start, last, Bool.and_self]
    · rw [String.toList_ofList]
      exact underscore_not_taken (List.mem_append_right _ List.mem_cons_self)
  · next free =>
    refine ⟨?_, ?_⟩
    · simp only [isWord, String.toList_ofList, start, more, Bool.and_self]
    · rw [String.toList_ofList]
      exact Bool.eq_false_iff.mpr free

namespace RecordNames

theorem candidate_free {base : String} (free : IsFree base) (n : Nat) :
    IsFree (candidate base n) := by
  unfold candidate
  split
  · exact free
  · refine ⟨isWord_append (isWord_append free.1 (by decide)) (digits_wordChars n), ?_⟩
    refine underscore_not_taken ?_
    rw [String.toList_append, String.toList_append]
    exact List.mem_append_left _ (List.mem_append_right _ List.mem_cons_self)

theorem candidate_injective (base : String) {n m : Nat}
    (same : candidate base n = candidate base m) : n = m := by
  have longer : ∀ k : Nat, base ≠ base ++ "_" ++ toString k := by
    intro k equal
    have lengths := congrArg String.length equal
    simp only [String.length_append] at lengths
    have one : "_".length = 1 := by decide
    omega
  unfold candidate at same
  split at same <;> split at same
  · omega
  · exact absurd same (longer m)
  · exact absurd same.symm (longer n)
  · have texts := congrArg String.toList same
    simp only [String.toList_append, List.append_cancel_left_eq] at texts
    exact digits_injective texts

/-- Among one more candidates than there are names, one is no name yet. -/
theorem freeName_not_taken (names : RecordNames) (base : String) :
    names.freeName base ∉ names.taken := by
  unfold freeName
  dsimp only
  cases found : (List.range (names.taken.length + 1)).find? fun n =>
      !(Std.HashSet.ofList names.taken).contains (candidate base n) with
  | some n =>
    have free := List.find?_some found
    simpa [Std.HashSet.contains_ofList] using free
  | none =>
    -- All the candidates would be taken. They are different, and more than the names there are.
    exfalso
    have covered : (List.range (names.taken.length + 1)).map (candidate base) ⊆ names.taken := by
      intro name member
      obtain ⟨n, inside, rfl⟩ := List.mem_map.mp member
      have taken := List.find?_eq_none.mp found n inside
      simpa [Std.HashSet.contains_ofList] using taken
    have different : ((List.range (names.taken.length + 1)).map (candidate base)).Nodup :=
      List.Nodup.map (fun _ _ same => candidate_injective base same) List.nodup_range
    have bound := (different.subperm covered).length_le
    simp only [List.length_map, List.length_range] at bound
    omega

/-- Whether the names are free ones, and all different. -/
structure Distinct (names : RecordNames) : Prop where
  free : ∀ name ∈ names.taken, IsFree name
  nodup : names.taken.Nodup

theorem freeName_free (names : RecordNames) {base : String} (free : IsFree base) :
    IsFree (names.freeName base) :=
  candidate_free free _

theorem assign_get (names : RecordNames) (r : RecordType) :
    (names.assign r).2.get? r = some (names.assign r).1 := by
  unfold assign
  cases found : names.get? r with
  | some name => exact found
  | none =>
    unfold get? at found
    simp [get?, List.lookup_append, found]

theorem assign_distinct {names : RecordNames} (distinct : names.Distinct) (r : RecordType) :
    (names.assign r).2.Distinct := by
  unfold assign
  cases names.get? r with
  | some name => exact distinct
  | none =>
    have fresh := freeName_not_taken names (identifier r.name)
    refine ⟨fun name member => ?_, ?_⟩
    · simp only [taken, List.map_append, List.mem_append] at member
      rcases member with member | member
      · exact distinct.free name member
      · obtain rfl : name = names.freeName (identifier r.name) := by simpa using member
        exact names.freeName_free (identifier_free r.name)
    · simp only [taken, List.map_append, List.map_cons, List.map_nil]
      exact List.Nodup.append distinct.nodup (List.nodup_singleton _)
        (List.disjoint_singleton.mpr fresh)

end RecordNames
end ArrayQuery.Kernel
