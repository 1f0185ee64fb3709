import ArrayQuery.Proofs.Forms
import Mathlib.Data.List.Forall2

/-! Texts that are put together from smaller ones, and the expressions that are read from them. What
stands in brackets is read as a whole; what does not may leave a minus sign pending, which the next
operator or bracket settles. -/

set_option autoImplicit false
namespace ArrayQuery.Kernel

namespace Spells

theorem nil : Spells [] [] := fun _ _ _ read => read

theorem append {c : Char} {text rest : List Char} {ls ms : List Lexeme} (first : Spells text ls)
    (stop : isStop c = true) (second : Spells (c :: rest) ms) :
    Spells (text ++ c :: rest) (ls ++ ms) := by
  intro more following stops read
  have ends : Stops (c :: rest ++ more) := by
    rintro d head
    obtain rfl := Option.some.inj head
    exact stop
  rw [List.append_assoc, List.append_assoc]
  exact first _ _ ends (second more following stops read)

theorem solo {c : Char} {text : List Char} {ls : List Lexeme} (known : isSolo c = true)
    (rest : Spells text ls) : Spells (c :: text) (.mark c :: ls) :=
  fun more following stops read => lexFrom_solo known (rest more following stops read)

theorem space {text : List Char} {ls : List Lexeme} (rest : Spells text ls) :
    Spells (' ' :: text) ls :=
  fun more following stops read => lexFrom_space (rest more following stops read)

theorem mark {c d : Char} {text : List Char} {ls : List Lexeme}
    (known : Scan.start c = some (.mark c)) (apart : isPair c d = false)
    (rest : Spells (d :: text) ls) : Spells (c :: d :: text) (.mark c :: ls) := by
  intro more following stops read
  refine lexFrom_mark known (fun e head => ?_) (rest more following stops read)
  obtain rfl := Option.some.inj head
  exact apart

end Spells

/-- Whether lexemes behind any pending frames are read as an expression, up to pending signs. -/
def Reads (ls : List Lexeme) (e : Form) : Prop :=
  ∀ frames, ∃ f pending, ls.foldlM Reading.step (.operand frames) = some (.after f pending) ∧
    ∀ tightness, settle tightness f pending = settle tightness e frames

/-- Whether nothing is left pending, so that an accessor behind the lexemes applies to all of
them. -/
def ReadsWhole (ls : List Lexeme) (e : Form) : Prop :=
  ∀ frames, ls.foldlM Reading.step (.operand frames) = some (.after e frames)

theorem ReadsWhole.reads {ls : List Lexeme} {e : Form} (whole : ReadsWhole ls e) : Reads ls e :=
  fun frames => ⟨e, frames, whole frames, fun _ => rfl⟩

theorem readForm_reads {ls : List Lexeme} {e : Form} (read : Reads ls e) :
    readForm ls = some e := by
  obtain ⟨f, pending, run, settled⟩ := read []
  have last : settle 0 f pending = (e, []) := settled 0
  simp [readForm, run, Reading.finish, last]

theorem reads_number (text : List Char) : ReadsWhole [.number text] (.number text) :=
  fun _ => rfl

theorem reads_name (name : String) : ReadsWhole [.word name] (.name name) :=
  fun _ => rfl

theorem reads_minus (text : List Char) :
    Reads [.mark '-', .number text] (.negate (.number text)) :=
  fun frames => ⟨.number text, .negate :: frames, rfl, fun _ => rfl⟩

theorem step_close {f : Form} {pending : List Frame} {settled : Form × List Frame} {c : Char}
    (closing : c = ')' ∨ c = ']' ∨ c = ',') (last : settle 0 f pending = settled) :
    Reading.step (.after f pending) (.mark c) = Reading.close settled (.mark c) := by
  rcases closing with rfl | rfl | rfl <;> simp [Reading.step, Operator.ofLexeme?, last]

theorem reads_paren {ls : List Lexeme} {e : Form} (inner : Reads ls e) :
    ReadsWhole (.mark '(' :: (ls ++ [.mark ')'])) (.paren e) := by
  intro frames
  obtain ⟨f, pending, run, settled⟩ := inner (.paren :: frames)
  have opened : Reading.step (.operand frames) (.mark '(') =
      some (.operand (.paren :: frames)) := rfl
  have closed := step_close (c := ')') (.inl rfl) (settled 0)
  simp only [List.foldlM_cons, List.foldlM_append, List.foldlM_nil, opened, run, closed, settle,
    Reading.close, Option.bind_eq_bind, Option.bind_some, Option.pure_def]

theorem reads_negate {ls : List Lexeme} {e : Form} (inner : Reads ls e) :
    Reads (.mark '-' :: ls) (.negate e) := by
  intro frames
  obtain ⟨f, pending, run, settled⟩ := inner (.negate :: frames)
  exact ⟨f, pending, run, settled⟩

/-- An operator behind a bracket takes everything since the bracket as its left operand. -/
theorem reads_binary {ls ms : List Lexeme} {l r : Form} {op : Operator} {sign : Lexeme}
    (known : Operator.ofLexeme? sign = some op) (first : Reads ls l) (second : Reads ms r) :
    ReadsWhole (.mark '(' :: (ls ++ sign :: (ms ++ [.mark ')']))) (.paren (.binary op l r)) := by
  intro frames
  obtain ⟨f, pending, run, settled⟩ := first (.paren :: frames)
  obtain ⟨g, rest, run', settled'⟩ := second (.left l op :: .paren :: frames)
  have opened : Reading.step (.operand frames) (.mark '(') =
      some (.operand (.paren :: frames)) := rfl
  -- The sign settles what is pending down to the bracket, which is where the left operand ends.
  have taken : Reading.step (.after f pending) sign =
      some (.operand (.left l op :: .paren :: frames)) := by
    have left : settle op.tightness f pending = (l, .paren :: frames) := settled op.tightness
    have sign_mark : (∃ c, sign = .mark c ∧ c ≠ '.' ∧ c ≠ '[' ∧ c ≠ '(' ∧ c ≠ '<') ∨
        ∃ c d, sign = .pair c d := by
      unfold Operator.ofLexeme? at known
      split at known <;> simp at known ⊢
    rcases sign_mark with ⟨c, rfl, dot, bracket, paren, less⟩ | ⟨c, d, rfl⟩
    · simp [Reading.step, known, left, dot, bracket, paren, less]
    · simp [Reading.step, known, left]
  have whole : settle 0 g rest = (.binary op l r, .paren :: frames) := by
    rw [settled' 0, settle]
    simp [settle]
  have closed := step_close (c := ')') (.inl rfl) whole
  simp only [List.foldlM_cons, List.foldlM_append, List.foldlM_nil, opened, run, taken, run', closed,
    Reading.close, Option.bind_eq_bind, Option.bind_some, Option.pure_def]

theorem reads_member {ls : List Lexeme} {e : Form} (whole : ReadsWhole ls e) (name : String) :
    ReadsWhole (ls ++ [.mark '.', .word name]) (.member e name) := by
  intro frames
  have dotted : Reading.step (.after e frames) (.mark '.') = some (.dot e frames) := rfl
  simp only [List.foldlM_append, whole frames, List.foldlM_cons, dotted, Option.bind_eq_bind,
    Option.bind_some]
  rfl

theorem reads_index {ls ms : List Lexeme} {e position : Form} (whole : ReadsWhole ls e)
    (inner : Reads ms position) :
    ReadsWhole (ls ++ .mark '[' :: (ms ++ [.mark ']'])) (.index e position) := by
  intro frames
  obtain ⟨f, pending, run, settled⟩ := inner (.index e :: frames)
  have opened : Reading.step (.after e frames) (.mark '[') =
      some (.operand (.index e :: frames)) := rfl
  have closed := step_close (c := ']') (.inr (.inl rfl)) (settled 0)
  simp only [List.foldlM_cons, List.foldlM_append, List.foldlM_nil, whole frames, opened, run,
    closed, settle, Reading.close, Option.bind_eq_bind, Option.bind_some, Option.pure_def]

def Calls (ls : List Lexeme) (callee : String) : Prop :=
  ∀ frames, (ls ++ [Lexeme.mark '(']).foldlM Reading.step (.operand frames) =
    some (.operand (.args callee [] :: frames))

theorem calls_word (name : String) : Calls [.word name] name := fun _ => rfl

theorem calls_template (name argument : String) :
    Calls [.word name, .mark '<', .word argument, .mark '>'] (name ++ "<" ++ argument ++ ">") :=
  fun _ => rfl

def listed : List (List Lexeme) → List Lexeme
  | [] => []
  | [ls] => ls
  | ls :: rest => ls ++ .mark ',' :: listed rest

theorem foldlM_listed {args : List (List Lexeme)} {forms : List Form}
    (each : List.Forall₂ Reads args forms) (nonempty : args ≠ []) (callee : String)
    (before : List Form) (frames : List Frame) :
    (listed args ++ [Lexeme.mark ')']).foldlM Reading.step
        (.operand (.args callee before :: frames)) =
      some (.after (.call callee (before.reverse ++ forms)) frames) := by
  induction each generalizing before with
  | nil => exact absurd rfl nonempty
  | @cons ls e args forms first rest ih =>
    obtain ⟨f, pending, run, settled⟩ := first (.args callee before :: frames)
    cases rest with
    | nil =>
      -- The last argument is followed by the closing bracket, each other one by a comma.
      have closed := step_close (c := ')') (.inl rfl) (settled 0)
      simp only [listed, List.foldlM_append, run, List.foldlM_cons, List.foldlM_nil, closed, settle,
        Reading.close, Option.bind_eq_bind, Option.bind_some, Option.pure_def]
    | @cons ms g args forms second more =>
      have comma := step_close (c := ',') (.inr (.inr rfl)) (settled 0)
      have others := ih (List.cons_ne_nil _ _) (e :: before)
      simp only [List.foldlM_append] at others
      simp only [listed, List.append_assoc, List.cons_append, List.foldlM_append, run,
        List.foldlM_cons, comma, settle, Reading.close, Option.bind_eq_bind, Option.bind_some]
      simpa [listed] using others

theorem reads_call {ls : List Lexeme} {callee : String} (named : Calls ls callee)
    {args : List (List Lexeme)} {forms : List Form} (each : List.Forall₂ Reads args forms) :
    ReadsWhole (ls ++ .mark '(' :: (listed args ++ [.mark ')'])) (.call callee forms) := by
  intro frames
  have split : ls ++ Lexeme.mark '(' :: (listed args ++ [.mark ')']) =
      (ls ++ [.mark '(']) ++ (listed args ++ [.mark ')']) := by simp
  rw [split, List.foldlM_append, named frames]
  cases each with
  | nil => rfl
  | cons first rest =>
    exact foldlM_listed (.cons first rest) (List.cons_ne_nil _ _) callee [] frames

end ArrayQuery.Kernel
