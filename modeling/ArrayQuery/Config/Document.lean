import ArrayQuery.Config.Basic
import ArrayQuery.Decimal.Text
import ArrayQuery.Toml.Document

/-! Configurations as documents. Every field has a default, so that an empty document is one. -/

set_option autoImplicit false
namespace ArrayQuery

open Toml (Item Table)

/-- What a reader of a document finds; dates are taken apart like tables. -/
def Found.ofItem : Item → Found
  | .string s => .string s
  | .integer n => .integer n
  | .float x => .float x.fullText
  | .boolean b => .boolean b
  | .array _ | .tables _ => .sequence
  | .moment | .table .. => .map

def Toml.Item.kind : Item → String
  | .string _ => "string"
  | .integer _ => "integer"
  | .float _ => "float"
  | .boolean _ => "boolean"
  | .moment => "datetime"
  | .array _ => "array"
  | .table .braces _ => "inline table"
  | .table .. => "table"
  | .tables _ => "array of tables"

namespace Config

def readCount (expected : String) (greatest : Nat) : Item → Except ConfigError Nat
  | .integer n =>
    if 0 ≤ n ∧ n ≤ greatest then .ok n.toNat else .error (.integerRange n expected)
  | item => .error (.invalidType (.ofItem item) expected)

def readString : Item → Except ConfigError String
  | .string s => .ok s
  | item => .error (.invalidType (.ofItem item) "a string")

/-- What a variant is given as a table may hold nothing. -/
def checkContent : Item → Except ConfigError Unit
  | .table _ [] | .array [] | .tables [] => .ok ()
  | .table .. | .array _ => .error (.variantContent "expected empty table")
  | .tables _ => .error (.variantContent "expected empty array")
  | item => .error (.variantContent ("expected table, found " ++ item.kind))

/-- One of several variants by its name. In place of the name may stand a table, whose only key is
the name. -/
def readVariant {α : Type} (all : List α) (name : α → String) (item : Item) :
    Except ConfigError α := do
  let (word, content) ← match item with
    | .string s => pure (s, none)
    | .table _ [(key, content)] => pure (key, some content)
    | .table _ [] => throw .emptyVariant
    | .table .. => throw .severalVariants
    | _ => throw .notAVariant
  match all.find? (name · == word) with
  | none => throw (.unknownVariant word (all.map name))
  | some a =>
    if let some item := content then checkContent item
    return a

def readPlacement (item : Item) : Except ConfigError MemoryPlacement :=
  readVariant MemoryPlacement.all MemoryPlacement.name item

def readPlacements : Item → Except ConfigError (List MemoryPlacement)
  | .array items => items.mapM readPlacement
  | .tables rows => rows.mapM fun row => readPlacement (.table .header row)
  | item => .error (.invalidType (.ofItem item) "a sequence")

def fieldNames : List String :=
  ["workgroup_size", "queue_slots", "memory_preference", "adapter", "label"]

def set (c : Config) (key : String) (item : Item) : Except ConfigError Config :=
  match key with
  | "workgroup_size" => do
    return { c with workgroupSize := ← readCount "u32" (UInt32.size - 1) item }
  | "queue_slots" => do
    return { c with queueSlots := ← readCount "usize" (UInt64.size - 1) item }
  | "memory_preference" => do
    return { c with memoryPreference := ← readPlacements item }
  | "adapter" => do
    return { c with adapter := ← readVariant AdapterPreference.all AdapterPreference.name item }
  | "label" => do
    return { c with label := ← readString item }
  | _ => .error (.unknownField key fieldNames)

/-- Sets the fields in the order of the document; the first wrong entry counts. -/
def ofTable (t : Table) : Except ConfigError Config :=
  t.foldlM (fun c e => set c e.1 e.2) {}

def ofText (text : String) : Except ConfigError Config :=
  match Toml.parse? text with
  | none => .error .syntaxError
  | some t => do
    let c ← ofTable t
    c.validate
    return c

/-- Reads and validates the document in a file, by the bytes of the file if there is one. Errors name
the path. -/
def ofFile (path : String) (bytes : Option (List UInt8)) : Except ConfigError Config :=
  match bytes with
  | none => .error (.unreadable path "No such file or directory (os error 2)")
  | some bytes =>
    match String.fromUTF8? ⟨bytes.toArray⟩ with
    | none => .error (.unreadable path "stream did not contain valid UTF-8")
    | some text =>
      match ofText text with
      | .ok c => .ok c
      | .error e => .error (.inFile path e)

end Config
end ArrayQuery
