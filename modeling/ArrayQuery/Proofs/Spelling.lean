import ArrayQuery.Kernel.Program
import ArrayQuery.Proofs.Numerals
import ArrayQuery.Proofs.Phrases

/-! The text of a term is read as the term's own structure: the parentheses and spaces that are
written are enough for the operators to group as they do in the term. -/

set_option autoImplicit false
namespace ArrayQuery.Kernel

def signedForm : List Char → Form
  | '-' :: digits => .negate (.number digits)
  | digits => .number digits

def minusOne : List Char := ['1', '.', '0', 'f']

def leastMagnitude : List Char := ['2', '1', '4', '7', '4', '8', '3', '6', '4', '8']

def Literal.form : Literal → Form
  | .bool b => .name (Literal.bool b).text
  | .int n =>
    if n.toInt = -2147483648 then .call "i32" [.negate (.number leastMagnitude)]
    else signedForm (Literal.int n).text.toList
  | l => signedForm l.text.toList

def Access.form (e : Form) : Access → Form
  | .field name => .member e name
  | .cell column row =>
    .index (.index e (.number (toString column).toList)) (.number (toString row).toList)

def invocationForm : Form := .member (.name "gid") "x"

mutual
def Term.form : Term → Form
  | .literal l => l.form
  | .step n => .name (Variable.step n).name
  | .element slot => .index (.name (Variable.buffer slot).name) invocationForm
  | .index slot i => .index (.name (Variable.buffer slot).name) i.form
  | .nonzero e => .paren (.binary .unequal e.form (.number ['0', 'u']))
  | .binary op l r => .paren (.binary (.arithmetic op) l.form r.form)
  | .negate e => .paren (.negate e.form)
  | .negateMatrix e =>
    .paren (.binary (.arithmetic .mul) (.negate (.number minusOne)) e.form)
  | .call c args => .call c.text (Term.formAll args)
  | .group e => .paren e.form
  | .access e a => a.form e.form

def Term.formAll : List Term → List Form
  | [] => []
  | e :: rest => e.form :: Term.formAll rest
end

/-! ## Terms that can be read -/

def Literal.isSigned (l : Literal) : Bool :=
  l.text.toList.head? == some '-'

def Term.isSigned : Term → Bool
  | .literal l => l.isSigned
  | _ => false

def Literal.IsReadable : Literal → Prop
  | .float x => x.isFinite = true
  | _ => True

def KernelType.IsReadable : KernelType → Prop
  | .struct name => isWord name = true
  | _ => True

def Callee.IsReadable : Callee → Prop
  | .type t => t.IsReadable
  | .function _ => True

def Access.IsReadable : Access → Prop
  | .field name => isWord name = true
  | .cell _ _ => True

mutual
/-- No minus sign stands before another one, no accessor behind a signed numeral, and names are
words. -/
def Term.IsReadable : Term → Prop
  | .literal l => l.IsReadable
  | .step _ | .element _ => True
  | .index _ i => i.IsReadable
  | .nonzero e | .negateMatrix e | .group e => e.IsReadable
  | .binary _ l r => l.IsReadable ∧ r.IsReadable
  | .negate e => e.isSigned = false ∧ e.IsReadable
  | .call c args => c.IsReadable ∧ Term.AreReadable args
  | .access e a => e.isSigned = false ∧ e.IsReadable ∧ a.IsReadable

def Term.AreReadable : List Term → Prop
  | [] => True
  | e :: rest => e.IsReadable ∧ Term.AreReadable rest
end

theorem variable_isWord (v : Variable) : isWord v.name = true := by
  cases v with
  | buffer slot => exact isWord_append (by decide) (digits_wordChars slot)
  | step number => exact isWord_append (by decide) (digits_wordChars number)

theorem function_isWord (fn : MathFn) : isWord fn.kernelName = true := by
  cases fn <;> decide

def Starts (signed : Bool) (text : List Char) : Prop :=
  ∃ c rest, text = c :: rest ∧ (signed = false → isPair '-' c = false)

theorem Starts.append {signed : Bool} {text : List Char} (starts : Starts signed text)
    (more : List Char) : Starts signed (text ++ more) := by
  obtain ⟨c, rest, rfl, apart⟩ := starts
  exact ⟨c, rest ++ more, rfl, apart⟩

theorem starts_paren {signed : Bool} (text : List Char) : Starts signed ('(' :: text) :=
  ⟨'(', text, rfl, fun _ => by decide⟩

theorem not_paired {c : Char} (dash : c ≠ '-') (greater : c ≠ '>') (equal : c ≠ '=') :
    isPair '-' c = false := by
  simp [isPair, pairs, dash, greater, equal]

theorem digit_apart {c : Char} (digit : c.isDigit = true) : isPair '-' c = false := by
  refine not_paired ?_ ?_ ?_ <;> rintro rfl <;> exact absurd digit (by decide)

theorem starts_word {signed : Bool} {name : String} (word : isWord name = true) :
    Starts signed name.toList := by
  unfold isWord at word
  split at word
  · exact absurd word Bool.false_ne_true
  · next c rest spelled =>
    simp only [Bool.and_eq_true] at word
    refine ⟨c, rest, spelled, fun _ => not_paired ?_ ?_ ?_⟩ <;> rintro rfl <;>
      exact absurd word.1 (by decide)

theorem starts_numeral {signed : Bool} {text : List Char} (numeral : IsNumeral text) :
    Starts signed text := by
  obtain ⟨c, rest, rfl, digit, _⟩ := numeral
  exact ⟨c, rest, rfl, fun _ => digit_apart digit⟩

def Inline (ls : List Lexeme) : Prop :=
  ∀ l ∈ ls, l ≠ .mark ';' ∧ l ≠ .mark '='

theorem spells_template {name : String} (word : isWord name = true) :
    Spells (name ++ "<f32>").toList [.word name, .mark '<', .word "f32", .mark '>'] := by
  intro rest following stops read
  have closed : lexFrom .blank ('>' :: rest) = some (.mark '>' :: following) := by
    refine lexFrom_mark (by decide) (fun d head => ?_) read
    have stop := stops d head
    simp only [isStop, List.contains_cons, List.contains_nil, Bool.or_false, Bool.or_eq_true,
      beq_iff_eq] at stop
    rcases stop with rfl | rfl | rfl | rfl | rfl | rfl | rfl | rfl | rfl | rfl <;> decide
  have argument : lexFrom .blank ("f32".toList ++ '>' :: rest) =
      some (.word "f32" :: .mark '>' :: following) := by
    refine lexFrom_word (by decide) (fun c head => ?_) closed
    obtain rfl := Option.some.inj head
    decide
  have opened : lexFrom .blank ('<' :: ("f32".toList ++ '>' :: rest)) =
      some (.mark '<' :: .word "f32" :: .mark '>' :: following) := by
    refine lexFrom_mark (by decide) (fun d head => ?_) argument
    obtain rfl := Option.some.inj head
    decide
  rw [String.toList_append, List.append_assoc]
  refine lexFrom_word word (fun c head => ?_) opened
  obtain rfl := Option.some.inj head
  decide

/-- The lexemes of a type can stand before arguments, and behind the name that a `let` declares. -/
theorem KernelType.spells {t : KernelType} (readable : t.IsReadable) :
    Starts false t.text.toList ∧ ∃ ls, Spells t.text.toList ls ∧ Calls ls t.text ∧
      readType ls = some t.text ∧ Inline ls := by
  have word : ∀ name, isWord name = true → Starts false name.toList ∧ ∃ ls,
      Spells name.toList ls ∧ Calls ls name ∧ readType ls = some name ∧ Inline ls :=
    fun name word =>
      ⟨starts_word word, [.word name], spells_word word, calls_word name, rfl, by simp [Inline]⟩
  have template : ∀ name, isWord name = true → Starts false (name ++ "<f32>").toList ∧ ∃ ls,
      Spells (name ++ "<f32>").toList ls ∧ Calls ls (name ++ "<f32>") ∧
      readType ls = some (name ++ "<f32>") ∧ Inline ls := by
    intro name word
    have joined : name ++ "<f32>" = name ++ "<" ++ "f32" ++ ">" := by
      rw [String.append_assoc, String.append_assoc]
      rfl
    refine ⟨?_, _, spells_template word, ?_, ?_, by simp [Inline]⟩
    · rw [String.toList_append]
      exact (starts_word word).append _
    · rw [joined]
      exact calls_template name "f32"
    · rw [joined]
      rfl
  cases t with
  | bool => exact word _ (by decide)
  | i32 => exact word _ (by decide)
  | u32 => exact word _ (by decide)
  | f32 => exact word _ (by decide)
  | vector n => exact template _ (isWord_append (by decide) (digits_wordChars n))
  | matrix columns rows =>
    refine template _ (isWord_append (isWord_append (isWord_append (by decide) ?_) (by decide)) ?_)
    · exact digits_wordChars columns
    · exact digits_wordChars rows
  | struct name => exact word name readable

theorem Callee.spells {c : Callee} (readable : c.IsReadable) :
    Starts false c.text.toList ∧ ∃ ls, Spells c.text.toList ls ∧ Calls ls c.text ∧ Inline ls := by
  cases c with
  | type t =>
    obtain ⟨starts, ls, spelled, calls, _, inline⟩ := t.spells readable
    exact ⟨starts, ls, spelled, calls, inline⟩
  | function fn =>
    have word := function_isWord fn
    exact ⟨starts_word word, [.word fn.kernelName], spells_word word, calls_word _, by simp [Inline]⟩

/-! ## Texts of terms -/

/-- Whether a text is read as an expression wherever expressions stand, and as a whole unless it is
signed. -/
structure Written (signed : Bool) (text : List Char) (e : Form) : Prop where
  starts : Starts signed text
  lexed : ∃ ls, Spells text ls ∧ Inline ls ∧ Reads ls e ∧ (signed = false → ReadsWhole ls e)

theorem Written.whole {text : List Char} {e : Form} (written : Written false text e) :
    ∃ ls, Spells text ls ∧ Inline ls ∧ ReadsWhole ls e := by
  obtain ⟨ls, spelled, inline, _, whole⟩ := written.lexed
  exact ⟨ls, spelled, inline, whole rfl⟩

theorem written_of_whole {signed : Bool} {text : List Char} {ls : List Lexeme} {e : Form}
    (starts : Starts signed text) (spelled : Spells text ls) (inline : Inline ls)
    (whole : ReadsWhole ls e) : Written signed text e :=
  ⟨starts, ls, spelled, inline, whole.reads, fun _ => whole⟩

theorem Inline.append {ls ms : List Lexeme} (first : Inline ls) (second : Inline ms) :
    Inline (ls ++ ms) := by
  intro l member
  rcases List.mem_append.mp member with member | member
  · exact first l member
  · exact second l member

theorem Inline.cons {l : Lexeme} {ls : List Lexeme} (head : l ≠ .mark ';' ∧ l ≠ .mark '=')
    (tail : Inline ls) : Inline (l :: ls) := by
  intro m member
  rcases List.mem_cons.mp member with rfl | member
  · exact head
  · exact tail m member

theorem inline_close {c : Char} (closing : c = ')' ∨ c = ']') : Inline [.mark c] := by
  rcases closing with rfl | rfl <;> simp [Inline]

theorem spells_close {c : Char} (solo : isSolo c = true) : Spells [c] [.mark c] :=
  .solo solo .nil

theorem written_name {signed : Bool} {name : String} (word : isWord name = true) :
    Written signed name.toList (.name name) :=
  written_of_whole (starts_word word) (spells_word word) (by simp [Inline]) (reads_name name)

theorem written_numeral {signed : Bool} {text : List Char} (numeral : IsNumeral text) :
    Written signed text (.number text) :=
  written_of_whole (starts_numeral numeral) (spells_numeral numeral) (by simp [Inline]) (reads_number text)

theorem spells_minus {c : Char} {text : List Char} {ls : List Lexeme}
    (apart : isPair '-' c = false) (rest : Spells (c :: text) ls) :
    Spells ('-' :: c :: text) (.mark '-' :: ls) :=
  .mark (by decide) apart rest

theorem spells_digits {digits text : List Char} {ls : List Lexeme} {c : Char}
    (nonempty : digits ≠ []) (plain : digits.all Char.isDigit = true)
    (closing : c = ')' ∨ c = ']') (rest : Spells text ls) :
    Spells (digits ++ c :: text) (.number digits :: .mark c :: ls) := by
  intro more following stops read
  have solo : isSolo c = true := by rcases closing with rfl | rfl <;> decide
  rw [List.append_assoc]
  refine lexFrom_digits nonempty plain (fun d head => ?_)
    (lexFrom_solo solo (rest more following stops read))
  obtain rfl := Option.some.inj head
  rcases closing with rfl | rfl <;> simp [Scan.extend, Char.isDigit]

theorem signedForm_digit {c : Char} {rest : List Char} (digit : c.isDigit = true) :
    signedForm (c :: rest) = .number (c :: rest) := by
  unfold signedForm
  split
  · next same =>
    rw [(List.cons.inj same).1] at digit
    exact absurd digit (by decide)
  · rfl

theorem written_signed {text : List Char} (numeral : IsSignedNumeral text) :
    Written (text.head? == some '-') text (signedForm text) := by
  obtain ⟨sign, digits, rfl, sign_eq, numeral⟩ := numeral
  have plain := numeral
  obtain ⟨c, rest, rfl, digit, _⟩ := plain
  rcases sign_eq with rfl | rfl
  · rw [List.nil_append, signedForm_digit digit]
    exact written_numeral numeral
  · have signed : ((['-'] ++ c :: rest).head? == some '-') = true := rfl
    rw [signed]
    refine ⟨⟨'-', c :: rest, rfl, nofun⟩, [.mark '-', .number (c :: rest)], ?_, by simp [Inline],
      reads_minus _, nofun⟩
    exact spells_minus (digit_apart digit) (spells_numeral numeral)

theorem written_least :
    Written false "i32(-2147483648)".toList (.call "i32" [.negate (.number leastMagnitude)]) := by
  have digits : Spells (leastMagnitude ++ [')']) [.number leastMagnitude, .mark ')'] :=
    spells_digits (by decide) (by decide) (.inl rfl) .nil
  have argument : Spells ('-' :: (leastMagnitude ++ [')']))
      [.mark '-', .number leastMagnitude, .mark ')'] := spells_minus (by decide) digits
  have spelled : Spells ("i32".toList ++ '(' :: '-' :: (leastMagnitude ++ [')']))
      [.word "i32", .mark '(', .mark '-', .number leastMagnitude, .mark ')'] :=
    (spells_word (by decide)).append (by decide) (.solo (by decide) argument)
  have text : "i32(-2147483648)".toList =
      "i32".toList ++ '(' :: '-' :: (leastMagnitude ++ [')']) := by decide
  rw [text]
  refine written_of_whole ((starts_word (by decide)).append _) spelled (by simp [Inline]) ?_
  exact reads_call (calls_word "i32") (.cons (reads_minus _) .nil)

theorem Literal.written {l : Literal} (readable : l.IsReadable) :
    Written l.isSigned l.text.toList l.form := by
  cases l with
  | bool b => cases b <;> exact written_name (by decide)
  | int n =>
    by_cases least : n.toInt = -2147483648
    · have text : (Literal.int n).text = "i32(-2147483648)" := by simp [Literal.text, least]
      have signed : (Literal.int n).isSigned = false := by
        rw [Literal.isSigned, text]
        decide
      rw [signed, text]
      simpa [Literal.form, least] using written_least
    · have text : (Literal.int n).text.toList = (toString n.toInt).toList ++ ['i'] := by
        simp [Literal.text, least]
      have form : (Literal.int n).form = signedForm (Literal.int n).text.toList := by
        simp only [Literal.form, least, if_false]
      rw [form]
      refine written_signed ?_
      rw [text]
      exact int_isSignedNumeral _
  | uint n =>
    refine written_signed ⟨[], _, (List.nil_append _).symm, .inl rfl, ?_⟩
    simpa [Literal.text] using nat_isNumeral n.toNat
  | float x =>
    refine written_signed ?_
    simpa [Literal.text] using single_isSignedNumeral readable

theorem written_paren {signed : Bool} {text : List Char} {e : Form}
    (inner : Written signed text e) : Written false ('(' :: (text ++ [')'])) (.paren e) := by
  obtain ⟨ls, spelled, inline, reads, _⟩ := inner.lexed
  have closed : Spells (text ++ [')']) (ls ++ [.mark ')']) :=
    spelled.append (by decide) (spells_close (by decide))
  exact written_of_whole (starts_paren _) (.solo (by decide) closed)
    (.cons (by simp) (inline.append (inline_close (.inl rfl)))) (reads_paren reads)

theorem written_binary {signed signed' : Bool} {left right : List Char} (sign : List Char)
    {l r : Form} {op : Operator} {lexeme : Lexeme} (known : Operator.ofLexeme? lexeme = some op)
    (lexed : ∀ {text ls}, Spells text ls → Spells (sign ++ ' ' :: text) (lexeme :: ls))
    (first : Written signed left l) (second : Written signed' right r) :
    Written false ('(' :: (left ++ ' ' :: (sign ++ ' ' :: (right ++ [')']))))
      (.paren (.binary op l r)) := by
  obtain ⟨ls, spelled, inline, reads, _⟩ := first.lexed
  obtain ⟨ms, spelled', inline', reads', _⟩ := second.lexed
  have closed : Spells (right ++ [')']) (ms ++ [.mark ')']) :=
    spelled'.append (by decide) (spells_close (by decide))
  have joined := spelled.append (by decide) (.space (lexed closed))
  have plain : lexeme ≠ .mark ';' ∧ lexeme ≠ .mark '=' := by
    constructor <;> rintro rfl <;> simp [Operator.ofLexeme?] at known
  exact written_of_whole (starts_paren _) (.solo (by decide) joined)
    (.cons (by simp) (inline.append (.cons plain (inline'.append (inline_close (.inl rfl))))))
    (reads_binary known reads reads')

theorem written_negate {text : List Char} {e : Form} (inner : Written false text e) :
    Written false ('(' :: '-' :: (text ++ [')'])) (.paren (.negate e)) := by
  obtain ⟨ls, spelled, inline, reads, _⟩ := inner.lexed
  obtain ⟨c, rest, rfl, apart⟩ := inner.starts
  have closed : Spells (c :: rest ++ [')']) (ls ++ [.mark ')']) :=
    spelled.append (by decide) (spells_close (by decide))
  exact written_of_whole (starts_paren _) (.solo (by decide) (spells_minus (apart rfl) closed))
    (.cons (by simp) (.cons (by simp) (inline.append (inline_close (.inl rfl)))))
    (reads_paren (reads_negate reads))

theorem written_index {name : String} (word : isWord name = true) {signed : Bool}
    {text : List Char} {position : Form} (inner : Written signed text position) :
    Written false (name.toList ++ '[' :: (text ++ [']'])) (.index (.name name) position) := by
  obtain ⟨ls, spelled, inline, reads, _⟩ := inner.lexed
  have closed : Spells (text ++ [']']) (ls ++ [.mark ']']) :=
    spelled.append (by decide) (spells_close (by decide))
  exact written_of_whole ((starts_word word).append _)
    ((spells_word word).append (by decide) (.solo (by decide) closed))
    (.append (by simp [Inline]) (.cons (by simp) (inline.append (inline_close (.inr rfl)))))
    (reads_index (reads_name name) reads)

theorem written_member (name : String) (word : isWord name = true) {text : List Char} {e : Form}
    (inner : Written false text e) :
    Written false (text ++ '.' :: name.toList) (.member e name) := by
  obtain ⟨ls, spelled, inline, whole⟩ := inner.whole
  have dotted : Spells ('.' :: name.toList) [.mark '.', .word name] :=
    .solo (by decide) (spells_word word)
  exact written_of_whole (inner.starts.append _) (spelled.append (by decide) dotted)
    (inline.append (by simp [Inline])) (reads_member whole name)

theorem written_position {text : List Char} {e : Form} (inner : Written false text e) (n : Nat) :
    Written false (text ++ '[' :: ((toString n).toList ++ [']']))
      (.index e (.number (toString n).toList)) := by
  obtain ⟨ls, spelled, inline, whole⟩ := inner.whole
  have digits : Spells ((toString n).toList ++ [']']) [.number (toString n).toList, .mark ']'] := by
    rw [Nat.toString_eq_repr, Nat.toList_repr]
    exact spells_digits Nat.toDigits_ne_nil (Decimal.all_isDigit_toDigits n) (.inr rfl) .nil
  exact written_of_whole (inner.starts.append _)
    (spelled.append (by decide) (.solo (by decide) digits))
    (inline.append (by simp [Inline])) (reads_index whole (reads_number _).reads)

theorem written_access {text : List Char} {e : Form} (inner : Written false text e) {a : Access}
    (readable : a.IsReadable) : Written false (text ++ a.text.toList) (a.form e) := by
  cases a with
  | field name => simpa [Access.text, Access.form] using written_member name readable inner
  | cell column row =>
    have cell := written_position (written_position inner column) row
    simpa [Access.text, Access.form] using cell

theorem spells_listed {texts : List (List Char)} {args : List (List Lexeme)}
    (each : List.Forall₂ Spells texts args) :
    Spells ([',', ' '].intercalate texts ++ [')']) (listed args ++ [.mark ')']) := by
  induction each with
  | nil => exact spells_close (by decide)
  | @cons text ls texts args first rest ih =>
    cases rest with
    | nil => simpa [listed] using first.append (by decide) (spells_close (c := ')') (by decide))
    | @cons text' ms texts args second more =>
      have others := first.append (by decide) (.solo (c := ',') (by decide) (.space ih))
      rw [List.intercalate_cons_cons]
      simpa [listed] using others

theorem inline_listed {args : List (List Lexeme)} (each : ∀ ls ∈ args, Inline ls) :
    Inline (listed args) := by
  induction args with
  | nil => simp [Inline, listed]
  | cons ls args ih =>
    have rest := ih fun ms member => each ms (List.mem_cons_of_mem _ member)
    cases args with
    | nil => exact each ls List.mem_cons_self
    | cons ms args => exact (each ls List.mem_cons_self).append (.cons (by simp) rest)

theorem lexed_all {texts : List (List Char)} {forms : List Form}
    (each : List.Forall₂ (fun text e => ∃ signed, Written signed text e) texts forms) :
    ∃ args, List.Forall₂ Spells texts args ∧ (∀ ls ∈ args, Inline ls) ∧
      List.Forall₂ Reads args forms := by
  induction each with
  | nil => exact ⟨[], .nil, by simp, .nil⟩
  | cons first _ ih =>
    obtain ⟨signed, _, ls, spelled, inline, reads, _⟩ := first
    obtain ⟨args, spelled', inline', reads'⟩ := ih
    refine ⟨ls :: args, .cons spelled spelled', ?_, .cons reads reads'⟩
    rintro ms member
    rcases List.mem_cons.mp member with rfl | member
    · exact inline
    · exact inline' ms member

theorem written_call {c : Callee} (readable : c.IsReadable) {texts : List (List Char)}
    {forms : List Form}
    (each : List.Forall₂ (fun text e => ∃ signed, Written signed text e) texts forms) :
    Written false (c.text.toList ++ '(' :: ([',', ' '].intercalate texts ++ [')']))
      (.call c.text forms) := by
  obtain ⟨starts, ls, spelled, calls, inline⟩ := c.spells readable
  obtain ⟨args, spelled', inline', reads⟩ := lexed_all each
  have opened := spelled.append (by decide) (.solo (c := '(') (by decide) (spells_listed spelled'))
  have closed := (inline_listed inline').append (inline_close (.inl rfl))
  exact written_of_whole (starts.append _) opened (inline.append (.cons (by simp) closed))
    (reads_call calls reads)

theorem lexed_operator (op : BinaryOp) : ∃ lexeme,
    Operator.ofLexeme? lexeme = some (.arithmetic op) ∧ ∀ {text ls}, Spells text ls →
      Spells (op.symbol.toList ++ ' ' :: text) (lexeme :: ls) := by
  have signed : ∀ c, Scan.start c = some (.mark c) → isPair c ' ' = false → ∀ {text ls},
      Spells text ls → Spells (c :: ' ' :: text) (.mark c :: ls) :=
    fun c known apart _ _ rest => .mark known apart (.space rest)
  cases op with
  | add => exact ⟨.mark '+', rfl, signed '+' (by decide) (by decide)⟩
  | sub => exact ⟨.mark '-', rfl, signed '-' (by decide) (by decide)⟩
  | mul => exact ⟨.mark '*', rfl, signed '*' (by decide) (by decide)⟩
  | div => exact ⟨.mark '/', rfl, signed '/' (by decide) (by decide)⟩
  | rem => exact ⟨.mark '%', rfl, signed '%' (by decide) (by decide)⟩

theorem spells_unequal {text : List Char} {ls : List Lexeme} (rest : Spells text ls) :
    Spells ('!' :: '=' :: ' ' :: text) (.pair '!' '=' :: ls) := by
  intro more following stops read
  have started : Scan.start '!' = some (.mark '!') := by decide
  have fed : (Scan.mark '!').feed ['='] = some (.pair '!' '=') := by decide
  have finished : (Scan.pair '!' '=').finish = some [.pair '!' '='] := rfl
  have ends : ∀ d, (' ' :: (text ++ more)).head? = some d →
      (Scan.pair '!' '=').extend d = none := fun _ _ => rfl
  have spaced := lexFrom_space (rest more following stops read)
  have whole := lexFrom_start started fed finished ends spaced
  exact whole

theorem invocation_written : Written false invocation.toList invocationForm := by
  have global : Written false "gid".toList (.name "gid") := written_name (by decide)
  have member := written_member "x" (by decide) global
  exact member

mutual
/-- The text of a readable term is read as the form of the term. -/
theorem Term.written : ∀ t : Term, t.IsReadable → Written t.isSigned t.text.toList t.form
  | .literal l, readable => by
    simpa [Term.text, Term.form, Term.isSigned] using Literal.written readable
  | .step n, _ => by
    simpa [Term.text, Term.form, Term.isSigned] using written_name (variable_isWord _)
  | .element slot, _ => by
    have element := written_index (variable_isWord (.buffer slot)) invocation_written
    simpa [Term.text, Term.form, Term.isSigned] using element
  | .index slot i, readable => by
    have position := Term.written i readable
    have element := written_index (variable_isWord (.buffer slot)) position
    simpa [Term.text, Term.form, Term.isSigned] using element
  | .nonzero e, readable => by
    have operand := Term.written e readable
    have zero : Written false ['0', 'u'] (.number ['0', 'u']) :=
      written_numeral (isNumeral_whole ['0'] (by decide) (by decide) (.inr (.inl rfl)))
    have compared := written_binary ['!', '='] rfl spells_unequal operand zero
    simpa [Term.text, Term.form, Term.isSigned] using compared
  | .binary op l r, readable => by
    have left := Term.written l readable.1
    have right := Term.written r readable.2
    obtain ⟨lexeme, known, lexed⟩ := lexed_operator op
    simpa [Term.text, Term.form, Term.isSigned] using written_binary _ known lexed left right
  | .negate e, readable => by
    have operand := Term.written e readable.2
    -- A second minus sign would make the two one lexeme.
    rw [readable.1] at operand
    simpa [Term.text, Term.form, Term.isSigned] using written_negate operand
  | .negateMatrix e, readable => by
    have operand := Term.written e readable
    have one : IsNumeral minusOne := isNumeral_point ['1'] ['0'] (by decide) (by decide) (by decide)
    have minus : Written true ('-' :: minusOne) (.negate (.number minusOne)) :=
      written_signed ⟨['-'], minusOne, rfl, .inr rfl, one⟩
    obtain ⟨lexeme, known, lexed⟩ := lexed_operator .mul
    have product := written_binary _ known lexed minus operand
    simpa [Term.text, Term.form, Term.isSigned, minusOne, BinaryOp.symbol] using product
  | .call c args, readable => by
    have each := Term.writtenAll args readable.2
    simpa [Term.text, Term.form, Term.isSigned] using written_call readable.1 each
  | .group e, readable => by
    simpa [Term.text, Term.form, Term.isSigned] using written_paren (Term.written e readable)
  | .access e a, readable => by
    have operand := Term.written e readable.2.1
    rw [readable.1] at operand
    simpa [Term.text, Term.form, Term.isSigned] using written_access operand readable.2.2

theorem Term.writtenAll : ∀ ts : List Term, Term.AreReadable ts →
    List.Forall₂ (fun text e => ∃ signed, Written signed text e)
      ((Term.textAll ts).map String.toList) (Term.formAll ts)
  | [], _ => .nil
  | t :: ts, readable =>
    .cons ⟨t.isSigned, Term.written t readable.1⟩ (Term.writtenAll ts readable.2)
end

theorem Term.readExpression_text {t : Term} (readable : t.IsReadable) :
    readExpression t.text = some t.form := by
  obtain ⟨ls, spelled, _, reads, _⟩ := (t.written readable).lexed
  have lexed := spelled [] [] (fun _ head => nomatch head) rfl
  rw [List.append_nil, List.append_nil] at lexed
  unfold readExpression lex
  rw [lexed]
  exact readForm_reads reads

end ArrayQuery.Kernel
