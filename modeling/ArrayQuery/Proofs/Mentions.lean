import ArrayQuery.Proofs.Declared

/-! The buffers and steps that the text of an expression mentions. What is a name of one of them is so
wherever it stands as a word, so that nothing has to be known of the structure of the text. -/

set_option autoImplicit false
namespace ArrayQuery.Kernel

open Compile

/-- The words of a text: its longest runs of letters, digits and underscores. -/
def words (text : List Char) : List (List Char) :=
  text.splitOnP fun c => !isWordChar c

/-- The names of buffers and steps among the words of a text, in order. -/
def mentions (text : String) : List String :=
  ((words text.toList).filter isGenerated).map String.ofList

def generated (text : List Char) : List (List Char) :=
  (words text).filter isGenerated

theorem mentions_eq (text : String) : mentions text = (generated text.toList).map String.ofList :=
  rfl

theorem generated_split {c : Char} (apart : isWordChar c = false) (xs ys : List Char) :
    generated (xs ++ c :: ys) = generated xs ++ generated ys := by
  have other : (!isWordChar c) = true := by rw [apart, Bool.not_false]
  rw [generated, words, List.splitOnP_append_cons xs ys other, List.filter_append]
  rfl

theorem generated_cons {c : Char} (apart : isWordChar c = false) (ys : List Char) :
    generated (c :: ys) = generated ys :=
  generated_split apart [] ys

theorem generated_concat {c : Char} (apart : isWordChar c = false) (xs : List Char) :
    generated (xs ++ [c]) = generated xs := by
  have split := generated_split apart xs []
  rwa [show generated [] = [] from rfl, List.append_nil] at split

theorem generated_word {word : List Char} (whole : word.all isWordChar = true) :
    generated word = [word].filter isGenerated := by
  have each : ∀ c ∈ word, (!isWordChar c) = false := by
    intro c member
    rw [List.all_eq_true.mp whole c member, Bool.not_true]
  rw [generated, words, List.splitOnP_eq_singleton each]

theorem mem_of_mem_words {c : Char} : ∀ {text word : List Char}, word ∈ words text → c ∈ word →
    c ∈ text
  | [], word, member, inside => by
    obtain rfl := List.mem_singleton.mp member
    exact inside
  | d :: text, word, member, inside => by
    rw [words, List.splitOnP_cons_eq_if_modifyHead] at member
    split at member
    · rcases List.mem_cons.mp member with rfl | member
      · exact nomatch inside
      · exact List.mem_cons_of_mem _ (mem_of_mem_words member inside)
    · -- The first character goes on with the first word of the rest.
      cases rest : List.splitOnP (fun c => !isWordChar c) text with
      | nil => exact absurd rest (List.splitOnP_ne_nil _ _)
      | cons first others =>
        rw [rest, List.modifyHead_cons] at member
        rcases List.mem_cons.mp member with rfl | member
        · rcases List.mem_cons.mp inside with rfl | inside
          · exact List.mem_cons_self
          · have held : first ∈ words text := by rw [words, rest]; exact List.mem_cons_self
            exact List.mem_cons_of_mem _ (mem_of_mem_words held inside)
        · have held : word ∈ words text := by rw [words, rest]; exact List.mem_cons_of_mem _ member
          exact List.mem_cons_of_mem _ (mem_of_mem_words held inside)

/-- Names of buffers and steps have a letter that numerals do not have. -/
theorem isGenerated_letter {word : List Char} (found : isGenerated word = true) :
    'b' ∈ word ∨ 'v' ∈ word := by
  have first : ∀ c stem, isNumbered (c :: stem) word = true → c ∈ word := by
    intro c stem numbered
    cases word with
    | nil => exact absurd numbered Bool.false_ne_true
    | cons d rest =>
      rw [isNumbered, Bool.and_eq_true, beq_iff_eq] at numbered
      rw [numbered.1]
      exact List.mem_cons_self
  rcases Bool.or_eq_true_iff.mp found with buffer | step
  · exact .inl (first 'b' _ buffer)
  · exact .inr (first 'v' _ step)

theorem generated_quiet {text : List Char} (first : 'b' ∉ text) (second : 'v' ∉ text) :
    generated text = [] := by
  refine List.filter_eq_nil_iff.mpr fun word member found => ?_
  rcases isGenerated_letter found with inside | inside
  · exact first (mem_of_mem_words member inside)
  · exact second (mem_of_mem_words member inside)

def isNumeralChar (c : Char) : Bool :=
  c.isDigit || ['.', 'e', '-', '+', 'i', 'u', 'f'].contains c

def Scan.IsNumber : Scan → Prop
  | whole _ | fraction _ | power _ | signed _ | exponent _ | suffixed _ => True
  | _ => False

theorem extend_number {s t : Scan} {c : Char} (number : s.IsNumber) (next : s.extend c = some t) :
    isNumeralChar c = true ∧ t.IsNumber := by
  cases s with
  | blank | word | mark | pair => exact number.elim
  | suffixed r => exact nomatch next
  | whole r | fraction r | power r | signed r | exponent r =>
    -- Each character that goes on with a numeral is one of those that are listed.
    simp only [Scan.extend] at next
    repeat' split at next
    all_goals cases next
    all_goals
      refine ⟨?_, trivial⟩
      simp only [isNumeralChar, List.contains_cons, List.contains_nil, Bool.or_eq_true, beq_iff_eq]
      tauto

theorem feed_numeralChars {s t : Scan} {text : List Char} (number : s.IsNumber)
    (fed : s.feed text = some t) : text.all isNumeralChar = true := by
  induction text generalizing s with
  | nil => rfl
  | cons c text ih =>
    simp only [Scan.feed, List.foldlM_cons] at fed
    obtain ⟨u, next, fed⟩ := Option.bind_eq_some_iff.mp fed
    obtain ⟨plain, number'⟩ := extend_number number next
    rw [List.all_cons, plain, ih number' fed, Bool.and_self]

theorem signedNumeral_chars {text : List Char} (numeral : IsSignedNumeral text) :
    text.all isNumeralChar = true := by
  obtain ⟨sign, digits, rfl, signed, c, rest, rfl, digit, fed⟩ := numeral
  have number : (Scan.whole [c]).IsNumber := trivial
  have more := feed_numeralChars number fed
  have first : isNumeralChar c = true := by rw [isNumeralChar, digit, Bool.true_or]
  rcases signed with rfl | rfl
  · simp only [List.nil_append, List.all_cons, first, more, Bool.and_self]
  · simp only [List.cons_append, List.nil_append, List.all_cons, first, more, Bool.and_true]
    decide

/-! ## What a text names -/

/-- Whether a text is on one line, and mentions no buffers and steps but some. -/
structure Names (allowed : Variable → Prop) (text : List Char) : Prop where
  inline : '\n' ∉ text
  named : ∀ word ∈ generated text, ∃ v, allowed v ∧ word = v.name.toList

section Texts

variable {allowed : Variable → Prop}

theorem names_quiet {text : List Char} (inline : '\n' ∉ text) (quiet : generated text = []) :
    Names allowed text :=
  ⟨inline, fun word member => by rw [quiet] at member; exact nomatch member⟩

theorem Names.split {c : Char} {xs ys : List Char} (first : Names allowed xs)
    (second : Names allowed ys) (apart : isWordChar c = false) (inline : c ≠ '\n') :
    Names allowed (xs ++ c :: ys) := by
  refine ⟨?_, ?_⟩
  · simp only [List.mem_append, List.mem_cons, not_or]
    exact ⟨first.inline, inline.symm, second.inline⟩
  · rw [generated_split apart]
    intro word member
    rcases List.mem_append.mp member with member | member
    · exact first.named word member
    · exact second.named word member

theorem names_nil : Names allowed [] :=
  names_quiet (by decide) rfl

theorem Names.cons {c : Char} {ys : List Char} (rest : Names allowed ys)
    (apart : isWordChar c = false) (inline : c ≠ '\n') : Names allowed (c :: ys) :=
  names_nil.split rest apart inline

theorem Names.concat {c : Char} {xs : List Char} (first : Names allowed xs)
    (apart : isWordChar c = false) (inline : c ≠ '\n') : Names allowed (xs ++ [c]) :=
  first.split names_nil apart inline

theorem names_numeral {text : List Char} (plain : text.all isNumeralChar = true) :
    Names allowed text := by
  have absent : ∀ c, isNumeralChar c = false → c ∉ text := by
    intro c other member
    rw [List.all_eq_true.mp plain c member] at other
    exact Bool.false_ne_true other.symm
  exact names_quiet (absent _ (by decide))
    (generated_quiet (absent _ (by decide)) (absent _ (by decide)))

theorem wordChars_inline {word : List Char} (whole : word.all isWordChar = true) : '\n' ∉ word := by
  intro member
  exact absurd (List.all_eq_true.mp whole _ member) (by decide)

theorem wordChars_of_isWord {name : String} (word : isWord name = true) :
    name.toList.all isWordChar = true := by
  unfold isWord at word
  split at word
  · exact absurd word Bool.false_ne_true
  · next c rest spelled =>
    rw [Bool.and_eq_true] at word
    have first : isWordChar c = true := by
      rcases Bool.or_eq_true_iff.mp word.1 with letter | score
      · simp [isWordChar, Char.isAlphanum, letter]
      · rw [isWordChar, score, Bool.or_true]
    rw [spelled, List.all_cons, first, word.2, Bool.and_self]

theorem variable_generated (v : Variable) : isGenerated v.name.toList = true := by
  cases v with
  | buffer slot => exact bufferName_generated slot
  | step number => exact stepName_generated number

theorem names_variable {v : Variable} (known : allowed v) : Names allowed v.name.toList := by
  have whole := wordChars_of_isWord (variable_isWord v)
  refine ⟨wordChars_inline whole, fun word member => ?_⟩
  rw [generated_word whole, List.filter_cons_of_pos (variable_generated v)] at member
  exact ⟨v, known, List.mem_singleton.mp member⟩

theorem names_free {name : String} (free : IsFree name) : Names allowed name.toList := by
  have whole := wordChars_of_isWord free.1
  have other : ¬isGenerated name.toList = true := by
    intro found
    have taken := free.2
    rw [isTaken, found, Bool.or_true] at taken
    exact Bool.false_ne_true taken.symm
  refine names_quiet (wordChars_inline whole) ?_
  rw [generated_word whole, List.filter_cons_of_neg other, List.filter_nil]

end Texts

def KernelType.IsNamed : KernelType → Prop
  | .struct name => IsFree name
  | t => t ∈ KernelType.builtin

def Callee.IsNamed : Callee → Prop
  | .type t => t.IsNamed
  | .function _ => True

def Access.IsNamed : Access → Prop
  | .field name => IsFree name
  | .cell _ _ => True

mutual
/-- Whether a term reads none but the given buffers and steps. -/
def Term.Reads (allowed : Variable → Prop) : Term → Prop
  | .literal l => l.IsReadable
  | .step n => allowed (.step n)
  | .element slot => allowed (.buffer slot)
  | .index slot i => allowed (.buffer slot) ∧ i.Reads allowed
  | .nonzero e | .negate e | .negateMatrix e | .group e => e.Reads allowed
  | .binary _ l r => l.Reads allowed ∧ r.Reads allowed
  | .call c args => c.IsNamed ∧ Term.AllRead allowed args
  | .access e a => e.Reads allowed ∧ a.IsNamed

def Term.AllRead (allowed : Variable → Prop) : List Term → Prop
  | [] => True
  | e :: rest => e.Reads allowed ∧ Term.AllRead allowed rest
end

mutual
theorem Term.Reads.mono {p q : Variable → Prop} (more : ∀ v, p v → q v) : ∀ t : Term, t.Reads p →
    t.Reads q
  | .literal _, reads => reads
  | .step _, reads | .element _, reads => more _ reads
  | .index _ i, reads => ⟨more _ reads.1, Term.Reads.mono more i reads.2⟩
  | .nonzero e, reads | .negate e, reads | .negateMatrix e, reads | .group e, reads =>
    Term.Reads.mono more e reads
  | .binary _ l r, reads => ⟨Term.Reads.mono more l reads.1, Term.Reads.mono more r reads.2⟩
  | .call _ args, reads => ⟨reads.1, Term.AllRead.mono more args reads.2⟩
  | .access e _, reads => ⟨Term.Reads.mono more e reads.1, reads.2⟩

theorem Term.AllRead.mono {p q : Variable → Prop} (more : ∀ v, p v → q v) : ∀ ts : List Term,
    Term.AllRead p ts → Term.AllRead q ts
  | [], _ => trivial
  | t :: ts, reads => ⟨Term.Reads.mono more t reads.1, Term.AllRead.mono more ts reads.2⟩
end

section Terms

variable {allowed : Variable → Prop}

theorem names_type {t : KernelType} (named : t.IsNamed) : Names allowed t.text.toList := by
  have builtin : ∀ t ∈ KernelType.builtin, '\n' ∉ t.text.toList ∧ generated t.text.toList = [] := by
    decide
  cases t with
  | struct name => exact names_free named
  | _ => exact names_quiet (builtin _ named).1 (builtin _ named).2

theorem names_callee {c : Callee} (named : c.IsNamed) : Names allowed c.text.toList := by
  cases c with
  | type t => exact names_type named
  | function fn =>
    have plain : '\n' ∉ fn.kernelName.toList ∧ generated fn.kernelName.toList = [] := by
      cases fn <;> decide
    exact names_quiet plain.1 plain.2

theorem names_digits (n : Nat) : Names allowed (toString n).toList := by
  refine names_numeral (List.all_eq_true.mpr fun c member => ?_)
  rw [Nat.toString_eq_repr, Nat.toList_repr] at member
  rw [isNumeralChar, List.all_eq_true.mp (Decimal.all_isDigit_toDigits n) c member, Bool.true_or]

theorem names_literal {l : Literal} (readable : l.IsReadable) : Names allowed l.text.toList := by
  cases l with
  | bool b => cases b <;> exact names_quiet (by decide) (by decide)
  | int n =>
    -- The least integer has no numeral of its type, and is spelled as a conversion.
    by_cases least : n.toInt = -2147483648
    · rw [Literal.text, if_pos least]
      exact names_quiet (by decide) (by decide)
    · rw [Literal.text, if_neg least, String.toList_append]
      exact names_numeral (signedNumeral_chars (int_isSignedNumeral _))
  | uint n =>
    rw [Literal.text, String.toList_append]
    exact names_numeral (signedNumeral_chars ⟨[], _, rfl, .inl rfl, nat_isNumeral _⟩)
  | float x =>
    rw [Literal.text, String.toList_append]
    exact names_numeral (signedNumeral_chars (single_isSignedNumeral readable))

theorem names_access {a : Access} (named : a.IsNamed) :
    ∃ c rest, a.text.toList = c :: rest ∧ isWordChar c = false ∧ c ≠ '\n' ∧ Names allowed rest := by
  cases a with
  | field name =>
    exact ⟨'.', name.toList, by simp [Access.text], by decide, by decide, names_free named⟩
  | cell column row =>
    refine ⟨'[', (toString column).toList ++ ']' :: '[' :: ((toString row).toList ++ [']']),
      by simp [Access.text], by decide, by decide, ?_⟩
    have last := (@names_digits allowed row).concat (c := ']') (by decide) (by decide)
    exact (names_digits column).split (last.cons (by decide) (by decide)) (by decide) (by decide)

theorem names_operator (op : BinaryOp) : Names allowed op.symbol.toList := by
  cases op <;> exact names_quiet (by decide) (by decide)

theorem names_arguments {texts : List String} (each : ∀ text ∈ texts, Names allowed text.toList) :
    Names allowed (", ".intercalate texts).toList := by
  induction texts with
  | nil => exact names_nil
  | cons first rest ih =>
    have head := each first List.mem_cons_self
    have others := ih fun text member => each text (List.mem_cons_of_mem _ member)
    cases rest with
    | nil => rwa [String.intercalate_singleton]
    | cons second rest =>
      rw [String.intercalate_cons_cons, String.toList_append, String.toList_append]
      have spaced := others.cons (c := ' ') (by decide) (by decide)
      rw [List.append_assoc]
      exact head.split spaced (by decide) (by decide)

theorem Term.toList_element (slot : Nat) : (Term.element slot).text.toList =
    (Variable.buffer slot).name.toList ++ '[' :: "gid.x]".toList := by
  simp [Term.text, invocation]

theorem Term.toList_index (slot : Nat) (i : Term) : (Term.index slot i).text.toList =
    (Variable.buffer slot).name.toList ++ '[' :: (i.text.toList ++ [']']) := by
  simp [Term.text]

theorem Term.toList_nonzero (e : Term) : (Term.nonzero e).text.toList =
    '(' :: (e.text.toList ++ ' ' :: "!= 0u)".toList) := by
  simp [Term.text]

theorem Term.toList_binary (op : BinaryOp) (l r : Term) : (Term.binary op l r).text.toList =
    '(' :: (l.text.toList ++ ' ' :: (op.symbol.toList ++ ' ' :: (r.text.toList ++ [')']))) := by
  simp [Term.text]

theorem Term.toList_negate (e : Term) : (Term.negate e).text.toList =
    '(' :: '-' :: (e.text.toList ++ [')']) := by
  simp [Term.text]

theorem Term.toList_negateMatrix (e : Term) : (Term.negateMatrix e).text.toList =
    "(-1.0f *".toList ++ ' ' :: (e.text.toList ++ [')']) := by
  simp [Term.text]

theorem Term.toList_call (c : Callee) (args : List Term) : (Term.call c args).text.toList =
    c.text.toList ++ '(' :: ((", ".intercalate (Term.textAll args)).toList ++ [')']) := by
  simp [Term.text]

theorem Term.toList_group (e : Term) : (Term.group e).text.toList =
    '(' :: (e.text.toList ++ [')']) := by
  simp [Term.text]

mutual
theorem Term.text_names : ∀ t : Term, t.Reads allowed → Names allowed t.text.toList
  | .literal l, reads => names_literal reads
  | .step n, reads => names_variable reads
  | .element slot, reads => by
    rw [Term.toList_element]
    exact (names_variable reads).split (names_quiet (by decide) (by decide)) (by decide) (by decide)
  | .index slot i, reads => by
    rw [Term.toList_index]
    exact (names_variable reads.1).split ((i.text_names reads.2).concat (by decide) (by decide)) (by decide)
      (by decide)
  | .nonzero e, reads => by
    rw [Term.toList_nonzero]
    exact ((e.text_names reads).split (names_quiet (by decide) (by decide)) (by decide) (by decide)).cons
      (by decide) (by decide)
  | .binary op l r, reads => by
    rw [Term.toList_binary]
    have right := (r.text_names reads.2).concat (c := ')') (by decide) (by decide)
    have rest := (names_operator op).split right (c := ' ') (by decide) (by decide)
    exact ((l.text_names reads.1).split rest (by decide) (by decide)).cons (by decide) (by decide)
  | .negate e, reads => by
    rw [Term.toList_negate]
    exact (((e.text_names reads).concat (by decide) (by decide)).cons (by decide) (by decide)).cons
      (by decide) (by decide)
  | .negateMatrix e, reads => by
    rw [Term.toList_negateMatrix]
    have first : Names allowed "(-1.0f *".toList := names_quiet (by decide) (by decide)
    exact first.split ((e.text_names reads).concat (by decide) (by decide)) (by decide) (by decide)
  | .call c args, reads => by
    rw [Term.toList_call]
    have inner := names_arguments (Term.textAll_names args reads.2)
    exact (names_callee reads.1).split (inner.concat (by decide) (by decide)) (by decide) (by decide)
  | .group e, reads => by
    rw [Term.toList_group]
    exact ((e.text_names reads).concat (by decide) (by decide)).cons (by decide) (by decide)
  | .access e a, reads => by
    obtain ⟨c, rest, spelled, apart, inline, last⟩ := @names_access allowed _ reads.2
    rw [Term.text, String.toList_append, spelled]
    exact (e.text_names reads.1).split last apart inline

theorem Term.textAll_names : ∀ ts : List Term, Term.AllRead allowed ts →
    ∀ text ∈ Term.textAll ts, Names allowed text.toList
  | [], _ => nofun
  | t :: ts, reads => by
    intro text member
    rcases List.mem_cons.mp member with rfl | member
    · exact t.text_names reads.1
    · exact Term.textAll_names ts reads.2 text member
end

end Terms

/-! ## Translations -/

section Literals

variable {allowed : Variable → Prop}

theorem ofLeaf_named {l : Leaf} {k : KernelType} (found : ofLeaf l = some k) : k.IsNamed := by
  cases l <;> cases found <;> simp [KernelType.IsNamed, KernelType.builtin]

theorem RecordNames.typeOf_named {names : RecordNames} (distinct : names.Distinct) {t : ElementType}
    {k : KernelType} (found : names.typeOf t = .ok k) : k.IsNamed := by
  cases t with
  | leaf l => exact ofLeaf_named (typeOf_leaf_ok.mp found)
  | record n fields =>
    obtain ⟨name, known, rfl⟩ := typeOf_record_ok.mp found
    exact distinct.free name (get_mem known)

theorem floatLiterals_read {xs : List Single} {ts : List Term} (found : floatLiterals xs = .ok ts) :
    Term.AllRead allowed ts := by
  induction xs generalizing ts with
  | nil =>
    obtain rfl := Except.ok.inj found
    trivial
  | cons x xs ih =>
    obtain ⟨rest, finite, others, rfl⟩ := floatLiterals_cons_ok found
    exact ⟨finite, ih others⟩

theorem packed_reads {names : RecordNames} {v : Value} {k : KernelType} {xs : List Single}
    {t : Term} (named : k.IsNamed) (packed : names.literal v = do
      return .call (.type k) (← floatLiterals xs)) (found : names.literal v = .ok t) :
    t.Reads allowed := by
  obtain ⟨ts, cells, rfl⟩ := RecordNames.literal_packed_ok packed found
  exact ⟨named, floatLiterals_read cells⟩

mutual
theorem literal_reads {names : RecordNames} (distinct : names.Distinct) :
    ∀ (v : Value) (t : Term), names.literal v = .ok t → t.Reads allowed
  | .bool b, t, found => by
    obtain rfl := Except.ok.inj found
    trivial
  | .i32 n, t, found => by
    obtain rfl := Except.ok.inj found
    trivial
  | .u32 n, t, found => by
    obtain rfl := Except.ok.inj found
    trivial
  | .f32 x, t, found | .f64 x, t, found => by
    obtain ⟨rfl, finite⟩ := floatLiteral_ok found
    exact finite
  | .vector2 v, t, found => packed_reads (ofLeaf_named (l := .vector2) rfl) rfl found
  | .vector3 v, t, found => packed_reads (ofLeaf_named (l := .vector3) rfl) rfl found
  | .vector4 v, t, found => packed_reads (ofLeaf_named (l := .vector4) rfl) rfl found
  | .matrix4x4 m, t, found => packed_reads (ofLeaf_named (l := .matrix4x4) rfl) rfl found
  | .matrix3x2 m, t, found => packed_reads (ofLeaf_named (l := .matrix3x2) rfl) rfl found
  | .record r values, t, found => by
    obtain ⟨_, args, name, fields, known, rfl⟩ := RecordNames.literal_record_ok found
    exact ⟨distinct.free name (RecordNames.get_mem known),
      fieldLiterals_read distinct values _ _ args fields⟩

theorem fieldLiterals_read {names : RecordNames} (distinct : names.Distinct) :
    ∀ (values : List Value) (node : String) (fields : List (String × ElementType))
      (ts : List Term), names.fieldLiterals node fields values = .ok ts → Term.AllRead allowed ts
  | [], _, _, ts, found => by
    obtain rfl := Except.ok.inj found
    trivial
  | _ :: _, _, [], ts, found => by
    obtain rfl := Except.ok.inj found
    trivial
  | v :: values, node, (field, u) :: fields, ts, found => by
    obtain ⟨_, t, rest, first, others, rfl⟩ := RecordNames.fieldLiterals_cons_ok found
    exact ⟨literal_reads distinct v t first,
      fieldLiterals_read distinct values node fields rest others⟩
end

end Literals

/-- What the translation of a body may read: what its parameters stand for, and the inputs. -/
def InScope (scope : Scope) (inputs : List Input) (v : Variable) : Prop :=
  (∃ p ∈ scope, p.2.target = v) ∨ ∃ slot < inputs.length, v = .buffer slot

theorem InScope.mono {scope : Scope} {inputs inputs' : List Input} (more : inputs <+: inputs')
    (v : Variable) : InScope scope inputs v → InScope scope inputs' v
  | .inl operand => .inl operand
  | .inr ⟨slot, inside, same⟩ => .inr ⟨slot, inside.trans_le more.length_le, same⟩

theorem operand_reads {allowed : Variable → Prop} {o : Operand} (known : allowed o.target) :
    o.term.Reads allowed := by
  unfold Operand.term
  split
  · next n target =>
    rw [target] at known
    exact known
  · next slot target =>
    rw [target] at known
    split <;> exact known

theorem access_named {container : ElementType} {member : String} {a : Access}
    (found : accessOf container member = some a) : a.IsNamed := by
  unfold accessOf at found
  split at found
  · obtain rfl := Option.some.inj found
    trivial
  · obtain ⟨_, _, rfl⟩ := Option.map_eq_some_iff.mp found
    exact identifier_free member

theorem bindArray_inside {node : Expr} {a : SharedArray} {d e : Draft} {slot : Nat}
    (run : bindArray node a d = .ok (slot, e)) : slot < e.inputs.length := by
  rcases bindArray_ok run with ⟨found, rfl⟩ | ⟨_, rfl, storage, c, stored, rfl⟩
  · exact (List.findIdx?_eq_some_iff_getElem.mp found).1
  · have inputs := (declare_frame node _ d () c (storageType_ok.mp stored).1).1
    rw [inputs, List.length_append, List.length_singleton]
    exact Nat.lt_succ_self _

mutual
theorem translate_reads {scope : Scope} : ∀ (e : Expr) {d f : Draft} {t : Term},
    d.records.Distinct → translate scope e d = .ok (t, f) → t.Reads (InScope scope f.inputs)
  | .constant v, d, f, t, distinct, run => by
    obtain ⟨declared, found⟩ := translate_constant_ok run
    exact literal_reads (declare_distinct _ _ d () f declared distinct) v t found
  | .parameter p, _, _, _, _, run => by
    obtain ⟨operand, found, rfl, _⟩ := translate_parameter_ok run
    exact operand_reads (.inl ⟨_, mem_of_lookup found, rfl⟩)
  | .binary op l r u, d, f, t, distinct, run => by
    obtain ⟨_, first, second, c, rfl, ⟨_, run₁, run₂⟩ | ⟨_, run₁, run₂⟩⟩ := translate_binary_ok run
    · -- What is translated second may bind inputs, and takes none away from the first.
      have left := translate_reads r distinct run₁
      exact ⟨left.mono (InScope.mono (translate_grows run₂).inputs) first,
        translate_reads l (translate_distinct run₁ distinct) run₂⟩
    · have left := translate_reads l distinct run₁
      exact ⟨left.mono (InScope.mono (translate_grows run₂).inputs) first,
        translate_reads r (translate_distinct run₁ distinct) run₂⟩
  | .negate e u, d, f, t, distinct, run => by
    obtain ⟨inner, inside, ⟨_, rfl⟩ | ⟨_, rfl⟩⟩ := translate_negate_ok run
    · have operand := translate_reads e distinct inside
      exact operand
    · have operand := translate_reads e distinct inside
      exact operand
  | .convert tag e u, d, f, t, distinct, run => by
    obtain ⟨c, k, inner, wrapped, _, typed, inside, rfl⟩ := translate_convert_ok run
    have distinct' := overrideWrapper_keeps distinct_kept tag u e trivial (fun _ _ => trivial) d () c
      wrapped distinct
    exact ⟨RecordNames.typeOf_named distinct' typed, translate_reads e distinct' inside, trivial⟩
  | .member e name u, d, f, t, distinct, run => by
    obtain ⟨container, access, v, b, c, inner, chain, followed, inside, rfl⟩ :=
      translate_member_ok run
    have distinct' := reached_keeps distinct_kept chain followed distinct
    have operand := translate_reads e distinct' inside
    refine ⟨?_, access_named (follow_ok followed).1⟩
    split <;> exact operand
  | .index a i u, d, f, t, distinct, run => by
    obtain ⟨source, slot, c, inner, _, bound, inside, rfl⟩ := translate_index_ok run
    have distinct' := distinct_kept.bound _ source trivial d slot c bound distinct
    have position := translate_reads i distinct' inside
    -- The buffer of the array is among the inputs from its binding on.
    have held : InScope scope f.inputs (.buffer slot) := .inr ⟨slot,
      (bindArray_inside bound).trans_le (translate_grows inside).inputs.length_le, rfl⟩
    split
    · exact ⟨held, position⟩
    · exact ⟨held, position⟩
  | .construct r args, d, f, t, distinct, run => by
    obtain ⟨_, k, c, terms, typed, inside, rfl⟩ := translate_construct_ok run
    have distinct' := valueType_keeps distinct_kept _ r.type d k c typed distinct
    exact ⟨RecordNames.typeOf_named distinct' (valueType_ok.mp typed).2,
      translateAll_reads args distinct' inside⟩
  | .call fn args u, d, f, t, distinct, run => by
    obtain ⟨c, terms, overrides, inside, rfl⟩ := translate_call_ok run
    have distinct' := overrideCall_keeps distinct_kept fn args (fun _ _ => trivial) d () c overrides
      distinct
    exact ⟨trivial, translateAll_reads args distinct' inside⟩
  | .select .., _, _, _, _, run => (translate_query_ok (.inl rfl) run).elim
  | .zip .., _, _, _, _, run => (translate_query_ok (.inl rfl) run).elim
  | .array a, _, _, _, _, run => (translate_query_ok (.inr ⟨a, rfl⟩) run).elim

theorem translateAll_reads {scope : Scope} : ∀ (es : List Expr) {d f : Draft} {ts : List Term},
    d.records.Distinct → translateAll scope es d = .ok (ts, f) →
      Term.AllRead (InScope scope f.inputs) ts
  | [], _, _, _, _, run => by
    obtain ⟨rfl, _⟩ := pure_ok.mp run
    trivial
  | e :: es, d, f, ts, distinct, run => by
    obtain ⟨head, tail, c, first, rest, rfl⟩ := translateAll_cons_ok run
    have reads := translate_reads e distinct first
    have more := translateAll_keeps grows_kept scope es (fun _ _ => trivial) (fun _ _ => trivial) c tail f
      rest
    exact ⟨reads.mono (InScope.mono more.inputs) head,
      translateAll_reads es (translate_distinct first distinct) rest⟩
end

end ArrayQuery.Kernel
