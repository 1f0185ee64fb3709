import ArrayQuery.Kernel.Document

/-! Kernels before they are text: structs, bound arrays, and one value for each step. -/

set_option autoImplicit false
namespace ArrayQuery.Kernel

structure Struct where
  name : String
  fields : List (String × KernelType)
  deriving DecidableEq, Repr

structure Input where
  tag : Tag
  array : HostArray
  storage : KernelType
  deriving DecidableEq

structure Let where
  type : KernelType
  value : Term

structure Program where
  workgroupSize : Nat
  structs : List Struct
  inputs : List Input
  lets : List Let
  /-- What each invocation stores, and the type of the elements that the store makes. -/
  result : Operand
  storage : KernelType

namespace Program

/-- The output is bound after the inputs. -/
def outputSlot (p : Program) : Nat :=
  p.inputs.length

/-- All sources have the length of the first input, which is one of them. -/
def count (p : Program) : Nat :=
  match p.inputs with
  | [] => 0
  | i :: _ => i.array.count

def bufferName (slot : Nat) : String :=
  (Variable.buffer slot).name

def declareStructs (d : Document) (structs : List Struct) : Document :=
  structs.foldl (fun d s => d.declareStruct s.name (s.fields.map fun f => (f.1, f.2.text))) d

def declareInputs (d : Document) (inputs : List Input) : Document :=
  inputs.zipIdx.foldl
    (fun d i => d.declareBuffer i.2 (bufferName i.2) i.1.storage.text true) d

def letLine (number : Nat) (l : Let) : String :=
  "let " ++ (Variable.step number).name ++ ": " ++ l.type.text ++ " = " ++ l.value.text ++ ";"

def letLines (lets : List Let) : List String :=
  (lets.zipIdx 1).map fun l => letLine l.2 l.1

/-- Truth values are stored as words. -/
def stored (result : Operand) : Term :=
  if result.type = .bool then .call (.type .u32) [result.term] else result.term

def storeLine (p : Program) : String :=
  bufferName p.outputSlot ++ "[" ++ invocation ++ "] = " ++ (stored p.result).text ++ ";"

def document (p : Program) : Document :=
  let output := bufferName p.outputSlot
  let declared := (declareInputs (declareStructs (.new p.workgroupSize) p.structs)
    p.inputs).declareBuffer p.outputSlot output p.storage.text false
  (declared.guardWith output).onBody fun b =>
    (letLines p.lets ++ [p.storeLine]).foldl (·.line ·) b

def text (p : Program) : String :=
  p.document.finish

end Program
end ArrayQuery.Kernel
