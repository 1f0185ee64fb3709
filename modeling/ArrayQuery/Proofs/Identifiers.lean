import ArrayQuery.Proofs.Members

/-! Identifiers as names of the kernel language. Whatever a name of the host is, its identifier is
spelled with small letters, digits and underscores, starts as a name may, and is no name of a buffer or
of a step. But four keywords are not reserved, and a name may come to an underscore alone. -/

set_option autoImplicit false
namespace ArrayQuery.Kernel

def keywords : List String := [
  "alias", "break", "case", "const", "const_assert", "continue", "continuing", "default",
  "diagnostic", "discard", "else", "enable", "false", "fn", "for", "if", "let", "loop", "override",
  "requires", "return", "struct", "switch", "true", "var", "while"]

def unreservedKeywords : List String :=
  keywords.filter fun word => !reservedWords.contains word

theorem mem_unreservedKeywords {word : String} (keyword : word ∈ keywords)
    (free : isTaken word.toList = false) : word ∈ unreservedKeywords := by
  have reserved := (Bool.or_eq_false_iff.mp free).1
  rw [String.ofList_toList] at reserved
  exact List.mem_filter.mpr ⟨keyword, by rw [reserved]; rfl⟩

/-- Underscores of the keywords stand inside, so that nothing else turns into one. -/
theorem spelt_eq_keyword {word : String} (member : word ∈ unreservedKeywords) {cs : List Char} :
    spelt cs = word.toList ↔ cs = word.toList := by
  have each : ∀ word ∈ unreservedKeywords, '_' ∉ word.toList.take 2 ∧
      word.toList.getLast? ≠ some '_' ∧ spelt word.toList = word.toList := by decide
  obtain ⟨front, back, own⟩ := each word member
  exact spelt_eq_iff front back own

theorem identifier_keyword_iff (name : String) :
    identifier name ∈ keywords ↔ String.ofList (plain name) ∈ unreservedKeywords := by
  constructor
  · intro keyword
    have member := mem_unreservedKeywords keyword (identifier_free name).2
    have same := (spelt_eq_keyword member).mp (toList_identifier name).symm
    rwa [same, String.ofList_toList]
  · intro member
    have same := (spelt_eq_keyword member).mpr String.toList_ofList.symm
    have own : identifier name = String.ofList (plain name) := by
      rw [← String.toList_inj, toList_identifier, same]
    exact own ▸ (List.mem_filter.mp member).1

theorem spelt_eq_score_iff {cs : List Char} : spelt cs = ['_'] ↔ cs = [] ∨ cs = ['_'] := by
  constructor
  · intro alone
    have cases := spelt_cases cs
    rw [alone] at cases
    cases cases with
    | same => exact .inr rfl
    | empty => exact .inl rfl
    | taken _ taken scored => exact absurd rfl (taken_dropLast taken scored).2
  · rintro (rfl | rfl)
    · decide
    · decide

theorem plainChar_eq_score_iff {c : Char} : plainChar c = '_' ↔ c.isAlphanum = false := by
  unfold plainChar
  split
  · next alphanum =>
    refine ⟨fun same => ?_, fun other => absurd alphanum (by simp [other])⟩
    have lowered := toLower_alphanum alphanum
    rw [same] at lowered
    exact absurd lowered (by decide)
  · next other => simpa using other

theorem identifier_score_iff (name : String) : identifier name = "_" ↔
    name.toList = [] ∨ ∃ c, name.toList = [c] ∧ c.isAlphanum = false := by
  rw [← String.toList_inj, toList_identifier]
  refine spelt_eq_score_iff.trans (or_congr List.map_eq_nil_iff ?_)
  rw [plain, List.map_eq_singleton_iff]
  simp only [plainChar_eq_score_iff]

def isSmall (c : Char) : Bool :=
  c.isLower || c.isDigit || c == '_'

theorem plainChar_small (c : Char) : isSmall (plainChar c) = true := by
  unfold plainChar
  split
  · next alphanum =>
    exact forall_alphanum (P := fun c => c.isAlphanum = true → isSmall c.toLower = true)
      (by decide) alphanum alphanum
  · rfl

theorem Spelt.small {cs ds : List Char} (spelt : Spelt cs ds) (small : cs.all isSmall = true) :
    ds.all isSmall = true := by
  have score : isSmall '_' = true := rfl
  have r : isSmall 'r' = true := rfl
  cases spelt with
  | same => exact small
  | empty => rfl
  | digit => rwa [List.all_cons, score, Bool.true_and]
  | scores => rwa [List.all_cons, r, Bool.true_and]
  | taken _ _ scored => simp [scored, small, score]

theorem isNumbered_append {digits : List Char} (some : digits ≠ [])
    (all : digits.all Char.isDigit = true) (stem : List Char) :
    isNumbered stem (stem ++ digits) = true := by
  induction stem with
  | nil => simp [isNumbered, some, all]
  | cons c stem ih => simp [isNumbered, ih]

/-- Whether characters make up a name of the kernel language that the compiler gives to nothing itself,
unless they are a keyword or an underscore alone. -/
structure IsPlainName (cs : List Char) : Prop where
  nonempty : cs ≠ []
  small : cs.all isSmall = true
  undigited : ∀ c rest, cs = c :: rest → c.isDigit = false
  unscored : ¬['_', '_'] <+: cs
  ungenerated : ∀ digits ≠ [], digits.all Char.isDigit = true →
    cs ≠ "buf".toList ++ digits ∧ cs ≠ "v".toList ++ digits

theorem Spelt.plainName {cs ds : List Char} (spelt : Spelt cs ds) (small : cs.all isSmall = true) :
    IsPlainName ds := by
  have fixed := spelt.fixed
  have free := spelt.free
  simp only [isTaken, isGenerated, Bool.or_eq_false_iff] at free
  refine ⟨?_, spelt.small small, ?_, ?_, ?_⟩
  · rintro rfl
    exact absurd fixed (by decide)
  · rintro c rest rfl
    exact not_digit_of_fixed fixed
  · rintro ⟨rest, rfl⟩
    exact absurd (congrArg List.length fixed) (by simp [fixStart])
  · intro digits some all
    constructor
    · rintro rfl
      exact Bool.false_ne_true (free.2.1.symm.trans (isNumbered_append some all _))
    · rintro rfl
      exact Bool.false_ne_true (free.2.2.symm.trans (isNumbered_append some all _))

/-- Every identifier is spelled as a name of the kernel language. It is an underscore alone exactly for
the empty name and for a single character that is neither a letter nor a digit, and a keyword exactly
where the name comes to one of those that are not reserved. -/
theorem identifier_spelled (name : String) :
    IsPlainName (identifier name).toList ∧
      (identifier name = "_" ↔
        name.toList = [] ∨ ∃ c, name.toList = [c] ∧ c.isAlphanum = false) ∧
      (identifier name ∈ keywords ↔ String.ofList (plain name) ∈ unreservedKeywords) := by
  have small : (plain name).all isSmall = true := by simp [plain, plainChar_small]
  refine ⟨?_, identifier_score_iff name, identifier_keyword_iff name⟩
  rw [toList_identifier]
  exact (spelt_cases _).plainName small

/-- Four keywords are not reserved. -/
example : unreservedKeywords = ["alias", "const_assert", "continuing", "diagnostic"] ∧
    identifier "Alias" = "alias" ∧ identifier "é" = "_" := by decide

end ArrayQuery.Kernel
