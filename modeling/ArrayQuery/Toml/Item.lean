import ArrayQuery.Binary.Number

/-! Configuration documents: values, and tables that keep the order of their keys. -/

set_option autoImplicit false
namespace ArrayQuery.Toml

/-- How a table came to be, which settles what may still be added to it. -/
inductive Origin where
  /-- A header of its own. -/
  | header
  /-- Headers and dotted keys of tables inside it. -/
  | passage
  /-- Keys with dots. -/
  | dotted
  /-- Braces; such a table is complete. -/
  | braces
  deriving DecidableEq, Repr

inductive Item where
  | string (s : String)
  | integer (n : Int)
  | float (x : Double)
  | boolean (b : Bool)
  | moment
  | array (items : List Item)
  | table (origin : Origin) (entries : List (String × Item))
  /-- The tables of one repeated header. -/
  | tables (rows : List (List (String × Item)))

abbrev Table := List (String × Item)

/-- A key with dots, cut at them: the tables on the way, and the last key. -/
structure Key where
  path : List String
  last : String
  deriving DecidableEq, Repr

namespace Table

def replace (t : Table) (key : String) (item : Item) : Table :=
  t.map fun e => if e.1 = key then (key, item) else e

def remove (t : Table) (key : String) : Table :=
  t.filter fun e => e.1 ≠ key

def replaceLast : List Table → Table → List Table
  | [], _ => []
  | [_], t => [t]
  | row :: rest, t => row :: replaceLast rest t

/-- Adds an entry under a key. Its path opens new tables, and goes through those that were opened in
passing; the entry itself stands in a table that only dotted keys have opened. -/
def put (last : String) (item : Item) : List String → Table → Option Table
  | [], t => if (t.lookup last).isSome then none else some (t ++ [(last, item)])
  | key :: path, t =>
    match t.lookup key with
    | none => do
      let inner ← put last item path []
      return t ++ [(key, .table .dotted inner)]
    | some (.table origin inner) => do
      guard (origin = .dotted ∨ (origin = .passage ∧ path ≠ []))
      return t.replace key (.table origin (← put last item path inner))
    | some (.tables rows) => do
      guard (path ≠ [])
      let row ← put last item path (rows.getLast?.getD [])
      return t.replace key (.tables (replaceLast rows row))
    | some _ => none

/-- Changes the table at a path. Tables that are missing are opened in passing, and of the tables of
a repeated header the last one is meant. -/
def update (change : Table → Option Table) : List String → Table → Option Table
  | [], t => change t
  | key :: path, t =>
    match t.lookup key with
    | none => do
      return t ++ [(key, .table .passage (← update change path []))]
    | some (.table .braces _) => none
    | some (.table origin inner) => do
      return t.replace key (.table origin (← update change path inner))
    | some (.tables rows) => do
      let row ← update change path (rows.getLast?.getD [])
      return t.replace key (.tables (replaceLast rows row))
    | some _ => none

def putAll (t : Table) (entries : List (Key × Item)) : Option Table :=
  entries.foldlM (fun t e => put e.1.last e.2 e.1.path t) t

def ofBraces (entries : List (Key × Item)) : Option Item :=
  (putAll [] entries).map (.table .braces)

end Table

structure Section where
  key : Key
  repeated : Bool
  entries : List (Key × Item)

namespace Section

/-- Adds the table of a section. A table that was opened in passing moves to the end; any other
table of that name is an error, unless both are of a repeated header. -/
def enter (s : Section) (parent : Table) : Option Table :=
  match s.repeated, parent.lookup s.key.last with
  | true, none => do
    return parent ++ [(s.key.last, .tables [← Table.putAll [] s.entries])]
  | true, some (.tables rows) => do
    return Table.replace parent s.key.last (.tables (rows ++ [← Table.putAll [] s.entries]))
  | false, none => do
    return parent ++ [(s.key.last, .table .header (← Table.putAll [] s.entries))]
  | false, some (.table .passage inner) => do
    let entry := Item.table .header (← Table.putAll inner s.entries)
    return Table.remove parent s.key.last ++ [(s.key.last, entry)]
  | _, _ => none

end Section

def Table.ofSections (entries : List (Key × Item)) (sections : List Section) : Option Table := do
  let root ← Table.putAll [] entries
  sections.foldlM (fun t s => Table.update s.enter s.key.path t) root

end ArrayQuery.Toml
