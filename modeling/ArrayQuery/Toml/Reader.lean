/-! Readers: each takes a beginning of the text, or refuses it. -/

set_option autoImplicit false
namespace ArrayQuery.Toml

/-- The text that is left to read. Its length comes with it, so that what a reader has taken shows
without counting the rest. -/
structure Input where
  chars : List Char
  length : Nat
  length_eq : length = chars.length

namespace Input

def ofList (cs : List Char) : Input :=
  ⟨cs, cs.length, rfl⟩

def drop (n : Nat) (i : Input) : Input :=
  ⟨i.chars.drop n, i.length - n, by rw [List.length_drop, i.length_eq]⟩

end Input

/-- A reader that refuses leaves the text to the next alternative. -/
abbrev Reader := StateT Input Option

namespace Reader

variable {α β : Type}

def refuse : Reader α := fun _ => none

def character (p : Char → Bool) : Reader Char := fun i =>
  match i.chars with
  | c :: _ => if p c then some (c, i.drop 1) else none
  | [] => none

def text (expected : List Char) : Reader Unit := fun i =>
  if expected.isPrefixOf i.chars then some ((), i.drop expected.length) else none

def many (p : Char → Bool) : Reader (List Char) := fun i =>
  let taken := i.chars.takeWhile p
  some (taken, i.drop taken.length)

def many1 (p : Char → Bool) : Reader (List Char) := do
  let cs ← many p
  if cs.isEmpty then refuse else return cs

def times (n : Nat) (p : Char → Bool) : Reader (List Char) := fun i =>
  let taken := i.chars.take n
  if taken.length = n ∧ taken.all p then some (taken, i.drop n) else none

def finish : Reader Unit := do
  if !(← get).chars.isEmpty then refuse

/-- Reads as often as the reader takes something; `done` is what it has read before, the last item
first. -/
def repeatedAfter (r : Reader α) (done : List α) (i : Input) : List α × Input :=
  match r i with
  | none => (done.reverse, i)
  | some (a, rest) =>
    if rest.length < i.length then repeatedAfter r (a :: done) rest
    else ((a :: done).reverse, rest)
termination_by i.length

def repeated (r : Reader α) : Reader (List α) := fun i =>
  some (repeatedAfter r [] i)

def separated (r : Reader α) (separator : Reader β) : Reader (List α) := do
  match ← optional r with
  | none => return []
  | some first => return first :: (← repeated (separator *> r))

def separated1 (r : Reader α) (separator : Reader β) : Reader (List α) := do
  let items ← separated r separator
  if items.isEmpty then refuse else return items

end Reader
end ArrayQuery.Toml
