/-! Kernel text as a row of lexemes. At every place the longest lexeme is taken, so that two minus
signs in a row are one lexeme of their own. The main statements say how a text that is put together
from words, numerals and marks is cut again. -/

set_option autoImplicit false
namespace ArrayQuery.Kernel

inductive Lexeme where
  | word (name : String)
  /-- A numeral with its suffix. -/
  | number (text : List Char)
  | mark (c : Char)
  | pair (c d : Char)
  deriving DecidableEq, Repr

/-- Marks of two characters, and the openings of comments, which are not read further. -/
def pairs : List (Char × Char) := [
  ('-', '-'), ('+', '+'), ('&', '&'), ('|', '|'), ('-', '>'), ('=', '='), ('!', '='), ('<', '='),
  ('>', '='), ('<', '<'), ('>', '>'), ('+', '='), ('-', '='), ('*', '='), ('/', '='), ('%', '='),
  ('&', '='), ('|', '='), ('^', '='), ('/', '/'), ('/', '*')]

def marks : List Char := [
  '(', ')', '[', ']', ',', ';', ':', '.', '@', '<', '>', '=', '!', '+', '-', '*', '/',
  '%', '&', '|', '^', '~']

def isPair (c d : Char) : Bool :=
  pairs.contains (c, d)

def isWordStart (c : Char) : Bool :=
  c.isAlpha || c == '_'

def isWordChar (c : Char) : Bool :=
  c.isAlphanum || c == '_'

/-- What has been read of the current lexeme, its last character first. -/
inductive Scan where
  | blank
  | word (read : List Char)
  /-- Digits, then a point, then an exponent with its sign and its digits, then a suffix. -/
  | whole (read : List Char)
  | fraction (read : List Char)
  | power (read : List Char)
  | signed (read : List Char)
  | exponent (read : List Char)
  | suffixed (read : List Char)
  | mark (c : Char)
  | pair (c d : Char)
  deriving DecidableEq, Repr

namespace Scan

def extend : Scan → Char → Option Scan
  | blank, _ => none
  | word r, c => if isWordChar c then some (word (c :: r)) else none
  | whole r, c =>
    if c.isDigit then some (whole (c :: r))
    else if c = '.' then some (fraction (c :: r))
    else if c = 'e' then some (power (c :: r))
    else if c = 'i' ∨ c = 'u' ∨ c = 'f' then some (suffixed (c :: r))
    else none
  | fraction r, c =>
    if c.isDigit then some (fraction (c :: r))
    else if c = 'e' then some (power (c :: r))
    else if c = 'f' then some (suffixed (c :: r))
    else none
  | power r, c =>
    if c.isDigit then some (exponent (c :: r))
    else if c = '-' ∨ c = '+' then some (signed (c :: r))
    else none
  | signed r, c => if c.isDigit then some (exponent (c :: r)) else none
  | exponent r, c =>
    if c.isDigit then some (exponent (c :: r))
    else if c = 'f' then some (suffixed (c :: r))
    else none
  | suffixed _, _ => none
  | mark c, d => if isPair c d then some (pair c d) else none
  | pair .., _ => none

/-- The lexeme that ends here; an exponent needs digits. -/
def finish : Scan → Option (List Lexeme)
  | blank => some []
  | word r => some [.word (String.ofList r.reverse)]
  | whole r | fraction r | exponent r | suffixed r => some [.number r.reverse]
  | power _ | signed _ => none
  | mark c => some [.mark c]
  | pair c d => some [.pair c d]

def start (c : Char) : Option Scan :=
  if c = ' ' ∨ c = '\n' then some blank
  else if isWordStart c then some (word [c])
  else if c.isDigit then some (whole [c])
  else if marks.contains c then some (mark c)
  else none

end Scan

def lexFrom : Scan → List Char → Option (List Lexeme)
  | s, [] => s.finish
  | s, c :: rest =>
    match s.extend c with
    | some t => lexFrom t rest
    | none =>
      match s.finish, Scan.start c with
      | some ls, some t => (lexFrom t rest).map (ls ++ ·)
      | _, _ => none

def lex (text : String) : Option (List Lexeme) :=
  lexFrom .blank text.toList

/-- The characters that follow names and expressions; none of them goes on with the last lexeme of
one. -/
def isStop (c : Char) : Bool :=
  [' ', ')', ']', ',', ';', ':', '[', '(', '.', '\n'].contains c

def Stops (rest : List Char) : Prop :=
  ∀ c, rest.head? = some c → isStop c = true

/-- Whether a text is cut into the given lexemes wherever it stands. -/
def Spells (text : List Char) (ls : List Lexeme) : Prop :=
  ∀ rest following, Stops rest → lexFrom .blank rest = some following →
    lexFrom .blank (text ++ rest) = some (ls ++ following)

def isWord (name : String) : Bool :=
  match name.toList with
  | [] => false
  | c :: rest => isWordStart c && rest.all isWordChar

def Scan.feed (s : Scan) (text : List Char) : Option Scan :=
  text.foldlM Scan.extend s

def IsNumeral (text : List Char) : Prop :=
  ∃ c rest, text = c :: rest ∧ c.isDigit = true ∧
    (Scan.whole [c]).feed rest = some (.suffixed text.reverse)

theorem lexFrom_feed {s t : Scan} {text : List Char} (fed : s.feed text = some t)
    (rest : List Char) : lexFrom s (text ++ rest) = lexFrom t rest := by
  induction text generalizing s with
  | nil =>
    obtain rfl := Option.some.inj fed
    rfl
  | cons c text ih =>
    simp only [Scan.feed, List.foldlM_cons] at fed
    obtain ⟨u, extended, fed⟩ := Option.bind_eq_some_iff.mp fed
    simp only [List.cons_append, lexFrom, extended]
    exact ih fed

/-- A lexeme that cannot go on is complete, and the rest is read by itself. -/
theorem lexFrom_finish {s : Scan} {ls following : List Lexeme} {rest : List Char}
    (finished : s.finish = some ls) (ends : ∀ c, rest.head? = some c → s.extend c = none)
    (read : lexFrom .blank rest = some following) : lexFrom s rest = some (ls ++ following) := by
  cases rest with
  | nil =>
    obtain rfl := Option.some.inj read
    rw [List.append_nil]
    exact finished
  | cons c rest =>
    simp only [lexFrom, ends c rfl, finished]
    -- The character that ends the lexeme starts the next one, as it does behind a blank.
    simp only [lexFrom, Scan.extend, Scan.finish] at read
    cases started : Scan.start c with
    | none => simp [started] at read
    | some t =>
      simp only [started, List.nil_append, Option.map_id'] at read
      simp [read]

theorem lexFrom_start {c : Char} {s t : Scan} {ls following : List Lexeme}
    {text rest : List Char} (started : Scan.start c = some s) (fed : s.feed text = some t)
    (finished : t.finish = some ls) (ends : ∀ d, rest.head? = some d → t.extend d = none)
    (read : lexFrom .blank rest = some following) :
    lexFrom .blank (c :: text ++ rest) = some (ls ++ following) := by
  have tail := (lexFrom_feed fed rest).trans (lexFrom_finish finished ends read)
  simp only [List.cons_append, lexFrom, Scan.extend, Scan.finish, started, tail]
  rfl

theorem lexFrom_space {rest : List Char} {following : List Lexeme}
    (read : lexFrom .blank rest = some following) :
    lexFrom .blank (' ' :: rest) = some following := by
  have ends : ∀ c, rest.head? = some c → Scan.blank.extend c = none := fun _ _ => rfl
  have fed : Scan.blank.feed [] = some .blank := rfl
  exact lexFrom_start (c := ' ') rfl fed rfl ends read

theorem lexFrom_newline {rest : List Char} {following : List Lexeme}
    (read : lexFrom .blank rest = some following) :
    lexFrom .blank ('\n' :: rest) = some following := by
  have fed : Scan.blank.feed [] = some .blank := rfl
  have ends : ∀ c, rest.head? = some c → Scan.blank.extend c = none := fun _ _ => rfl
  exact lexFrom_start (c := '\n') rfl fed rfl ends read

theorem lexFrom_mark {c : Char} {rest : List Char} {following : List Lexeme}
    (known : Scan.start c = some (.mark c))
    (apart : ∀ d, rest.head? = some d → isPair c d = false)
    (read : lexFrom .blank rest = some following) :
    lexFrom .blank (c :: rest) = some (.mark c :: following) := by
  have ends : ∀ d, rest.head? = some d → (Scan.mark c).extend d = none := by
    intro d first
    simp only [Scan.extend, apart d first]
    rfl
  have fed : (Scan.mark c).feed [] = some (.mark c) := rfl
  exact lexFrom_start known fed rfl ends read

def isSolo (c : Char) : Bool :=
  ['(', ')', '[', ']', ',', ';', ':', '.'].contains c

theorem lexFrom_solo {c : Char} (solo : isSolo c = true) {rest : List Char}
    {following : List Lexeme} (read : lexFrom .blank rest = some following) :
    lexFrom .blank (c :: rest) = some (.mark c :: following) := by
  simp only [isSolo, List.contains_cons, List.contains_nil, Bool.or_false, Bool.or_eq_true,
    beq_iff_eq] at solo
  have alone : ∀ d, isPair c d = false := by
    rcases solo with rfl | rfl | rfl | rfl | rfl | rfl | rfl | rfl <;> intro d <;>
      simp [isPair, pairs]
  refine lexFrom_mark ?_ (fun d _ => alone d) read
  rcases solo with rfl | rfl | rfl | rfl | rfl | rfl | rfl | rfl <;> decide

theorem Scan.feed_all (state : List Char → Scan) {fits : Char → Bool}
    (goes : ∀ read c, fits c = true → (state read).extend c = some (state (c :: read)))
    (read text : List Char) (plain : text.all fits = true) :
    (state read).feed text = some (state (text.reverse ++ read)) := by
  induction text generalizing read with
  | nil => rfl
  | cons c text ih =>
    simp only [List.all_cons, Bool.and_eq_true] at plain
    have fed := ih (c :: read) plain.2
    rw [feed, List.foldlM_cons, goes read c plain.1]
    simpa [feed] using fed

theorem feed_word (read text : List Char) (plain : text.all isWordChar = true) :
    (Scan.word read).feed text = some (.word (text.reverse ++ read)) :=
  Scan.feed_all .word (fun _ _ fits => if_pos fits) read text plain

theorem lexFrom_word {name : String} (word : isWord name = true) {rest : List Char}
    {following : List Lexeme} (ends : ∀ c, rest.head? = some c → isWordChar c = false)
    (read : lexFrom .blank rest = some following) :
    lexFrom .blank (name.toList ++ rest) = some (.word name :: following) := by
  unfold isWord at word
  split at word
  · exact absurd word Bool.false_ne_true
  · next c text spelled =>
    simp only [Bool.and_eq_true] at word
    have started : Scan.start c = some (.word [c]) := by
      have visible : ¬(c = ' ' ∨ c = '\n') := by
        rintro (rfl | rfl) <;> exact absurd word.1 (by decide)
      simp only [Scan.start, visible, word.1, if_false, if_true]
    have finished : (Scan.word (text.reverse ++ [c])).finish = some [.word name] := by
      simp [Scan.finish, ← spelled]
    rw [spelled]
    exact lexFrom_start started (feed_word [c] text word.2) finished
      (fun d first => by simp [Scan.extend, ends d first]) read

theorem stop_not_wordChar {c : Char} (stop : isStop c = true) : isWordChar c = false := by
  simp only [isStop, List.contains_cons, List.contains_nil, Bool.or_false, Bool.or_eq_true,
    beq_iff_eq] at stop
  rcases stop with rfl | rfl | rfl | rfl | rfl | rfl | rfl | rfl | rfl | rfl <;> decide

theorem spells_word {name : String} (word : isWord name = true) :
    Spells name.toList [.word name] := fun _ _ stops read =>
  lexFrom_word word (fun c first => stop_not_wordChar (stops c first)) read

theorem digit_start {c : Char} (digit : c.isDigit = true) :
    Scan.start c = some (.whole [c]) := by
  have visible : ¬(c = ' ' ∨ c = '\n') := by
    rintro (rfl | rfl) <;> exact absurd digit (by decide)
  -- Letters are tried before digits, so a digit has to be shown to be none.
  have letter : isWordStart c = false := by
    simp only [isWordStart, Bool.or_eq_false_iff, beq_eq_false_iff_ne]
    simp only [Char.isDigit, Bool.and_eq_true, decide_eq_true_eq] at digit
    constructor
    · delta Char.isAlpha Char.isUpper Char.isLower
      simp only [Bool.or_eq_false_iff, Bool.and_eq_false_iff, decide_eq_false_iff_not]
      have := digit.2
      simp only [ge_iff_le, UInt32.le_iff_toNat_le, Char.reduceVal, UInt32.reduceToNat] at *
      omega
    · rintro rfl
      exact absurd digit (by decide)
  simp only [Scan.start, visible, letter, digit, if_false, if_true, Bool.false_eq_true]

theorem spells_numeral {text : List Char} (numeral : IsNumeral text) :
    Spells text [.number text] := by
  obtain ⟨c, rest, rfl, digit, fed⟩ := numeral
  have finished : (Scan.suffixed (c :: rest).reverse).finish = some [.number (c :: rest)] := by
    simp [Scan.finish]
  exact fun _ _ _ read => lexFrom_start (digit_start digit) fed finished (fun _ _ => rfl) read

theorem feed_digits (read digits : List Char) (plain : digits.all Char.isDigit = true) :
    (Scan.whole read).feed digits = some (.whole (digits.reverse ++ read)) :=
  Scan.feed_all .whole (fun _ _ fits => if_pos fits) read digits plain

theorem lexFrom_digits {digits rest : List Char} {following : List Lexeme}
    (nonempty : digits ≠ []) (plain : digits.all Char.isDigit = true)
    (ends : ∀ c, rest.head? = some c → (Scan.whole digits.reverse).extend c = none)
    (read : lexFrom .blank rest = some following) :
    lexFrom .blank (digits ++ rest) = some (.number digits :: following) := by
  cases digits with
  | nil => exact absurd rfl nonempty
  | cons c digits =>
    simp only [List.all_cons, Bool.and_eq_true] at plain
    have fed := feed_digits [c] digits plain.2
    rw [← List.reverse_cons] at fed
    have finished : (Scan.whole (c :: digits).reverse).finish = some [.number (c :: digits)] := by
      simp [Scan.finish]
    exact lexFrom_start (digit_start plain.1) fed finished ends read

end ArrayQuery.Kernel
