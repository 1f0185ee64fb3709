import ArrayQuery.Proofs.Declared

/-! Struct names beside the words that kernels rely on. No struct has the name of a buffer, of a step, of
a type or of the entry point; but the names of the primitives are not reserved, and the first record
with such a name, whatever its case, takes it from the primitive. -/

set_option autoImplicit false
namespace ArrayQuery.Kernel

def plain (name : String) : List Char :=
  name.toList.map plainChar

def spelt (cs : List Char) : List Char :=
  if isTaken (fixStart cs) then fixStart cs ++ ['_'] else fixStart cs

/-- What becomes of characters: they stay, or get an underscore in front, an `r`, or an underscore at
the end. -/
inductive Spelt : List Char → List Char → Prop where
  | same {cs : List Char} (fixed : fixStart cs = cs) (free : isTaken cs = false) : Spelt cs cs
  | empty : Spelt [] ['_']
  | digit {c : Char} {cs : List Char} (digit : c.isDigit = true) : Spelt (c :: cs) ('_' :: c :: cs)
  | scores (cs : List Char) : Spelt ('_' :: '_' :: cs) ('r' :: '_' :: '_' :: cs)
  | taken {cs ds : List Char} (fixed : fixStart cs = cs) (taken : isTaken cs = true)
      (scored : ds = cs ++ ['_']) : Spelt cs ds

theorem toList_identifier (name : String) : (identifier name).toList = spelt (plain name) := by
  unfold identifier spelt
  dsimp only
  rw [String.toList_ofList]
  rfl

theorem fixStart_digit {c : Char} (digit : c.isDigit = true) (cs : List Char) :
    fixStart (c :: cs) = '_' :: c :: cs := by
  have other : c ≠ '_' := by
    rintro rfl
    exact absurd digit (by decide)
  simp only [fixStart, digit, if_true]
  split
  · next same => exact absurd (List.cons.inj (List.cons.inj same).2).1 other
  · rfl

theorem fixStart_same {c : Char} (digit : c.isDigit = false) {cs : List Char}
    (single : ∀ rest, c :: cs ≠ '_' :: '_' :: rest) : fixStart (c :: cs) = c :: cs := by
  simp only [fixStart, digit, Bool.false_eq_true, if_false]

theorem spelt_cases (cs : List Char) : Spelt cs (spelt cs) := by
  -- Whatever is put in front has an underscore, so that nothing is put behind.
  have changed : ∀ {ds : List Char}, fixStart cs = ds → '_' ∈ ds → spelt cs = ds := by
    rintro ds rfl scored
    exact if_neg (by simp [underscore_not_taken scored])
  cases cs with
  | nil =>
    rw [changed rfl List.mem_cons_self]
    exact .empty
  | cons c cs =>
    by_cases digit : c.isDigit = true
    · rw [changed (fixStart_digit digit cs) List.mem_cons_self]
      exact .digit digit
    · by_cases double : ∃ rest, c :: cs = '_' :: '_' :: rest
      · obtain ⟨rest, same⟩ := double
        obtain ⟨rfl, rfl⟩ := List.cons.inj same
        rw [changed rfl (by simp [fixStart])]
        exact .scores rest
      · have fixed := fixStart_same (by simpa using digit) (not_exists.mp double)
        unfold spelt
        rw [fixed]
        split
        · next taken => exact .taken fixed taken rfl
        · next free => exact .same fixed (by simpa using free)

/-- A word whose underscores, if any, stand inside is the identifier of itself alone. -/
theorem spelt_eq_iff {w : List Char} (front : '_' ∉ w.take 2) (back : w.getLast? ≠ some '_')
    (own : spelt w = w) {cs : List Char} : spelt cs = w ↔ cs = w := by
  constructor
  · intro same
    have cases := spelt_cases cs
    rw [same] at cases
    cases cases with
    | same => rfl
    | empty => exact absurd List.mem_cons_self front
    | digit => exact absurd List.mem_cons_self front
    | scores => exact absurd (List.mem_cons_of_mem _ List.mem_cons_self) front
    | taken _ _ scored => exact absurd (scored ▸ List.getLast?_concat) back
  · rintro rfl
    exact own

theorem plainChar_eq_iff {x : Char} (plain : x.isAlphanum = true) (c : Char) :
    plainChar c = x ↔ c.toLower = x := by
  unfold plainChar
  by_cases alphanum : c.isAlphanum = true
  · rw [if_pos alphanum]
  · have score : x ≠ '_' := by
      rintro rfl
      exact absurd plain (by decide)
    have same : c.toLower = c := by
      apply dif_neg
      intro upper
      have letter : c.isAlpha = true := Bool.or_eq_true_iff.mpr (.inl (decide_eq_true upper))
      exact alphanum (Bool.or_eq_true_iff.mpr (.inl letter))
    rw [if_neg alphanum, same]
    exact ⟨fun equal => absurd equal.symm score, fun equal => absurd (equal ▸ plain) alphanum⟩

theorem identifier_eq_iff {w : String} (letters : w.toList.all Char.isAlphanum = true)
    (own : spelt w.toList = w.toList) (name : String) :
    identifier name = w ↔ name.toList.map Char.toLower = w.toList := by
  have clear : '_' ∉ w.toList := fun member => absurd (List.all_eq_true.mp letters _ member) (by decide)
  have front : '_' ∉ w.toList.take 2 := fun member => clear (List.mem_of_mem_take member)
  have back : w.toList.getLast? ≠ some '_' := fun last => clear (List.mem_of_getLast? last)
  rw [← String.toList_inj, toList_identifier, spelt_eq_iff front back own, plain]
  generalize name.toList = cs
  generalize w.toList = ds at letters
  clear own clear front back
  -- Character by character; the word has none that stands for another one.
  induction cs generalizing ds with
  | nil => rfl
  | cons c cs ih =>
    cases ds with
    | nil => simp
    | cons x ds =>
      simp only [List.all_cons, Bool.and_eq_true] at letters
      simp only [List.map_cons, List.cons.injEq, plainChar_eq_iff letters.1, ih _ letters.2]

namespace RecordNames

def reached (rs : List RecordType) : RecordNames :=
  rs.foldl (fun names r => (names.assign r).2) {}

theorem reached_append (rs : List RecordType) (r : RecordType) :
    reached (rs ++ [r]) = ((reached rs).assign r).2 := by
  rw [reached, reached, List.foldl_append]
  rfl

theorem freeName_self {names : RecordNames} {base : String} (free : base ∉ names.taken) :
    names.freeName base = base := by
  have first : (!(Std.HashSet.ofList names.taken).contains (candidate base 0)) = true := by
    simpa [candidate, Std.HashSet.contains_ofList] using free
  simp only [freeName, List.range_succ_eq_map, List.find?_cons, first]
  rfl

theorem freeName_eq_iff {names : RecordNames} {w : String} (clear : '_' ∉ w.toList) (base : String) :
    names.freeName base = w ↔ base = w ∧ w ∉ names.taken := by
  constructor
  · rintro rfl
    refine ⟨?_, names.freeName_not_taken base⟩
    unfold freeName candidate at clear ⊢
    dsimp only at clear ⊢
    split
    · rfl
    · next other =>
      rw [if_neg other] at clear
      simp at clear
  · rintro ⟨rfl, free⟩
    exact freeName_self free

/-- What naming some records comes to for one name: the records that have names are those, and the
first of them that has the name for its identifier has got it. -/
structure Gives (w : String) (rs : List RecordType) (names : RecordNames) : Prop where
  known : ∀ r, (names.get? r).isSome = true ↔ r ∈ rs
  taken : w ∈ names.taken ↔ ∃ r ∈ rs, identifier r.name = w
  first : ∀ r, names.get? r = some w ↔ rs.find? (identifier ·.name == w) = some r

theorem assign_known {names : RecordNames} {r : RecordType} {name : String}
    (found : names.get? r = some name) : names.assign r = (name, names) := by
  simp only [assign, found]

theorem assign_new {names : RecordNames} {r : RecordType} (absent : names.get? r = none) :
    names.assign r = (names.freeName (identifier r.name),
      ⟨names.assigned ++ [(r, names.freeName (identifier r.name))]⟩) := by
  simp only [assign, absent]

theorem assign_get_other {names : RecordNames} {r s : RecordType} (other : s ≠ r) :
    (names.assign r).2.get? s = names.get? s := by
  cases found : names.get? r with
  | some name => rw [assign_known found]
  | none =>
    have apart : (s == r) = false := beq_eq_false_iff_ne.mpr other
    simp [assign_new found, get?, List.lookup_append, List.lookup_cons, apart]

theorem find_append_other {p : RecordType → Bool} {rs : List RecordType} {r s : RecordType}
    (other : s ≠ r) : (rs ++ [r]).find? p = some s ↔ rs.find? p = some s := by
  rw [List.find?_append]
  cases rs.find? p with
  | some t => rfl
  | none =>
    simp only [Option.none_or, List.find?_cons, List.find?_nil]
    split <;> simp [other.symm]

theorem isSome_assign (names : RecordNames) (r s : RecordType) :
    ((names.assign r).2.get? s).isSome = true ↔ (names.get? s).isSome = true ∨ s = r := by
  by_cases same : s = r
  · simp [same, names.assign_get r]
  · simp [assign_get_other same, same]

section
variable {w : String} {rs : List RecordType} {names : RecordNames} {r : RecordType}

theorem Gives.again (gives : Gives w rs names) (member : r ∈ rs) : Gives w (rs ++ [r]) names := by
  refine ⟨fun s => ?_, gives.taken.trans ?_, fun s => (gives.first s).trans ?_⟩
  · simp only [gives.known s, List.mem_append, List.mem_singleton]
    exact ⟨.inl, fun either => either.elim id (· ▸ member)⟩
  · simp only [List.mem_append, List.mem_singleton, or_and_right, exists_or, exists_eq_left]
    exact ⟨.inl, fun either => either.elim id fun own => ⟨r, member, own⟩⟩
  · rw [List.find?_append]
    cases none : rs.find? (identifier ·.name == w) with
    | some t => rfl
    | none =>
      have own := List.find?_eq_none.mp none r member
      simp only [List.find?_cons, own, List.find?_nil, Option.none_or]

theorem find_concat_new (absent : r ∉ rs) : (rs ++ [r]).find? (identifier ·.name == w) = some r ↔
    identifier r.name = w ∧ ¬∃ s ∈ rs, identifier s.name = w := by
  rw [List.find?_append]
  cases earlier : rs.find? (identifier ·.name == w) with
  | some s =>
    have member := List.mem_of_find?_eq_some earlier
    have own : identifier s.name = w := by simpa using List.find?_some earlier
    have apart : s ≠ r := fun same => absent (same ▸ member)
    simp only [Option.some_or, Option.some.injEq, apart, false_iff]
    exact fun both => both.2 ⟨s, member, own⟩
  | none =>
    have others : ¬∃ s ∈ rs, identifier s.name = w := by
      simpa using List.find?_eq_none.mp earlier
    simp [others]

theorem Gives.added (clear : '_' ∉ w.toList) (gives : Gives w rs names)
    (absent : names.get? r = none) : Gives w (rs ++ [r]) (names.assign r).2 := by
  have new : r ∉ rs := fun member => by simpa [absent] using (gives.known r).mpr member
  have named : names.freeName (identifier r.name) = w ↔
      identifier r.name = w ∧ ¬∃ s ∈ rs, identifier s.name = w := by
    rw [freeName_eq_iff clear, gives.taken]
  refine ⟨fun s => ?_, ?_, fun s => ?_⟩
  · rw [isSome_assign, gives.known, List.mem_append, List.mem_singleton]
  · have added : w ∈ (names.assign r).2.taken ↔
        w ∈ names.taken ∨ names.freeName (identifier r.name) = w := by
      simp [assign_new absent, RecordNames.taken, eq_comm]
    rw [added, named, gives.taken]
    simp only [List.mem_append, List.mem_singleton, or_and_right, exists_or, exists_eq_left]
    by_cases earlier : ∃ s ∈ rs, identifier s.name = w
    · simp only [earlier, true_or]
    · simp only [earlier, not_false_eq_true, and_true]
  · by_cases same : s = r
    · rw [same, names.assign_get r, find_concat_new new, assign_new absent, Option.some.injEq, named]
    · rw [assign_get_other same, gives.first s, find_append_other same]

theorem Gives.assign (clear : '_' ∉ w.toList) (gives : Gives w rs names) (r : RecordType) :
    Gives w (rs ++ [r]) (names.assign r).2 := by
  cases found : names.get? r with
  | some name =>
    rw [assign_known found]
    exact gives.again ((gives.known r).mp (by rw [found]; rfl))
  | none => exact gives.added clear found

end

theorem reached_gives {w : String} (clear : '_' ∉ w.toList) (rs : List RecordType) :
    Gives w rs (reached rs) := by
  induction rs using List.reverseRecOn with
  | nil => exact ⟨fun r => by simp [reached, get?], by simp [reached, RecordNames.taken], by simp [reached, get?]⟩
  | append_singleton rs r ih =>
    rw [reached_append]
    exact ih.assign clear r

theorem reached_distinct (rs : List RecordType) : (reached rs).Distinct := by
  induction rs using List.reverseRecOn with
  | nil => exact ⟨nofun, .nil⟩
  | append_singleton rs r ih =>
    rw [reached_append]
    exact assign_distinct ih r

theorem assign_free (rs : List RecordType) (r : RecordType) :
    IsFree ((reached rs).assign r).1 := by
  have named := mem_of_lookup ((reached rs).assign_get r)
  exact (assign_distinct (reached_distinct rs) r).free _ (List.mem_map_of_mem named)

/-- Words that kernels are written with, apart from the names of primitives: the entry point and its
index, and the spellings of types. -/
def relied : List String :=
  ["gid", "main", "bool", "i32", "u32", "f32", "vec2", "vec3", "vec4", "mat3x2", "mat4x4", "array"]

theorem relied_taken : ∀ word ∈ relied, isTaken word.toList = true := by decide

theorem kernelName_own (fn : MathFn) : fn.kernelName.toList.all Char.isAlphanum = true ∧
    spelt fn.kernelName.toList = fn.kernelName.toList := by
  cases fn <;> decide

/-- The name of a record differs from the names of buffers and steps and from the words for types,
whatever records have been named before. It is the name of a primitive if and only if the record is
the first of them that is called so but for the case of letters. -/
theorem assign_captures (rs : List RecordType) (r : RecordType) :
    let name := ((reached rs).assign r).1
    (∀ k, name ≠ Program.bufferName k ∧ name ≠ (Variable.step k).name) ∧
      (∀ word ∈ relied, name ≠ word) ∧
      ∀ fn : MathFn, name = fn.kernelName ↔
        (rs ++ [r]).find? (·.name.toList.map Char.toLower == fn.kernelName.toList) = some r := by
  intro name
  have free : isTaken name.toList = false := (assign_free rs r).2
  have apart : ∀ word : String, isTaken word.toList = true → name ≠ word := by
    rintro word taken rfl
    exact Bool.false_ne_true (free.symm.trans taken)
  have generated : ∀ word : String, isGenerated word.toList = true → name ≠ word := by
    intro word generated
    apply apart
    rw [isTaken, generated, Bool.or_true]
  refine ⟨fun k => ⟨generated _ (bufferName_generated k), generated _ (stepName_generated k)⟩,
    fun word member => apart word (relied_taken word member), fun fn => ?_⟩
  obtain ⟨letters, own⟩ := kernelName_own fn
  have clear : '_' ∉ fn.kernelName.toList :=
    fun member => absurd (List.all_eq_true.mp letters _ member) (by decide)
  -- Naming the record once more gives it the same name, whether or not it was among the others.
  have first := (reached_gives clear (rs ++ [r])).first r
  have lowered : (fun s : RecordType => identifier s.name == fn.kernelName) =
      fun s => s.name.toList.map Char.toLower == fn.kernelName.toList := by
    funext s
    rw [Bool.eq_iff_iff, beq_iff_eq, beq_iff_eq, identifier_eq_iff letters own]
  rwa [reached_append, assign_get, Option.some.injEq, lowered] at first

end RecordNames
end ArrayQuery.Kernel
