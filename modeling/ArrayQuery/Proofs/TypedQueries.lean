import ArrayQuery.Proofs.Steps
import ArrayQuery.Proofs.TypedBodies

/-! Every body that the compilation of a query comes to is translated to a well-typed expression, when
the host types the body and nothing else has its conversions. -/

set_option autoImplicit false
namespace ArrayQuery

/-- Whether no other body of a query has the conversions of a body. -/
def Expr.OwnsConversions (root body : Expr) : Prop :=
  ∀ other ∈ root.lambdas, other = body ∨ ∀ tag ∈ other.conversions, tag ∉ body.conversions

namespace Kernel

open Compile

/-- Whether the compilation of a query from a draft comes to the translation of a body, with the
scope and the draft that the body is translated in. Nothing is said of what comes of it. -/
inductive Reaches : Expr → Draft → Scope → Expr → Draft → Prop where
  | select {tag : Tag} {source body : Expr} {params : List Parameter} {d c b : Draft} {x : Operand}
      {k : KernelType} (fresh : d.steps.lookup tag = none) (first : step source d = .ok (x, c))
      (counted : params.length = 1)
      (typed : valueType (.select tag source params body) body.type c = .ok (k, b)) :
      Reaches (.select tag source params body) d (scopeOf params [x]) body b
  | selectSource {tag : Tag} {source body inner : Expr} {params : List Parameter} {d b : Draft}
      {scope : Scope} (fresh : d.steps.lookup tag = none) (inside : Reaches source d scope inner b) :
      Reaches (.select tag source params body) d scope inner b
  | zip {tag : Tag} {first second body : Expr} {params : List Parameter} {d b c e : Draft}
      {x y : Operand} {k : KernelType} (fresh : d.steps.lookup tag = none)
      (left : step first d = .ok (x, b)) (right : step second b = .ok (y, c))
      (counted : params.length = 2)
      (typed : valueType (.zip tag first second params body) body.type c = .ok (k, e)) :
      Reaches (.zip tag first second params body) d (scopeOf params [x, y]) body e
  | zipFirst {tag : Tag} {first second body inner : Expr} {params : List Parameter} {d b : Draft}
      {scope : Scope} (fresh : d.steps.lookup tag = none) (inside : Reaches first d scope inner b) :
      Reaches (.zip tag first second params body) d scope inner b
  | zipSecond {tag : Tag} {first second body inner : Expr} {params : List Parameter} {d b c : Draft}
      {x : Operand} {scope : Scope} (fresh : d.steps.lookup tag = none)
      (left : step first d = .ok (x, b)) (inside : Reaches second b scope inner c) :
      Reaches (.zip tag first second params body) d scope inner c

section Steadiness

variable {known : List SharedArray} {tags : List Tag}
  (faithful : ∀ a ∈ known, ∀ b ∈ known, a.tag = b.tag → a = b)
include faithful

theorem bindSource_steady {node : Expr} {a : SharedArray} {d e : Draft} {o : Operand}
    (member : a ∈ known) (steady : Steady known tags d) (run : bindSource node a d = .ok (o, e)) :
    Steady known tags e ∧ o.IsValid e := by
  obtain ⟨slot, bound, rfl, _⟩ := bindSource_bound run
  have before : Agreed known { d with sourceCount := some a.data.count }.inputs := steady.agreed
  obtain ⟨held, agreed⟩ := bindArray_slot faithful member before bound
  obtain ⟨input, found, data⟩ := Option.map_eq_some_iff.mp held
  refine ⟨⟨bindSource_sound steady.sound run, agreed, ?_⟩, input, found, by rw [data]⟩
  rw [bindArray_overrides bound]
  exact steady.plain

/-- Another body leaves the draft steady when it has no conversion of interest, or no calls. -/
theorem emit_steady {node body : Expr} {tag : Tag} {params : List Parameter} {inputs : List Operand}
    {d e : Draft} {o : Operand} (within : ∀ a ∈ body.arrays, a ∈ known)
    (apart : body.IsCallFree ∨ ∀ tag ∈ body.conversions, tag ∉ tags) (steady : Steady known tags d)
    (run : emit node tag params body inputs d = .ok (o, e)) :
    Steady known tags e ∧ o.IsValid e := by
  have sound := emit_sound steady.sound run
  obtain ⟨_, k, b, value, c, typed, translated, rfl, rfl⟩ := emit_ok run
  have steady' := valueType_keeps (steady_kept faithful) node body.type d k b typed steady
  -- A call overrides conversions of its own body at most.
  have steady'' : Steady known tags c := by
    rcases apart with free | other
    · exact steady'.translate_free faithful within free translated
    · exact translate_keeps (steady_kept faithful) _ body other within b value c translated steady'
  exact ⟨⟨sound, steady''.agreed, steady''.plain⟩, sound.steps _ List.mem_cons_self⟩

theorem Steps.steady {node : Expr} {d e : Draft} {o : Operand} (run : Steps node d o e)
    (within : ∀ a ∈ node.arrays, a ∈ known)
    (apart : ∀ body ∈ node.lambdas, body.IsCallFree ∨ ∀ tag ∈ body.conversions, tag ∉ tags)
    (steady : Steady known tags d) : Steady known tags e ∧ o.IsValid e := by
  induction run with
  | source bound => exact bindSource_steady faithful (within _ List.mem_cons_self) steady bound
  | shared tagged found =>
    exact ⟨steady, steady.sound.steps _ (mem_of_lookup found)⟩
  | select _ _ last ih =>
    obtain ⟨steady', _⟩ := ih (fun a member => within a (List.mem_append_left _ member))
      (fun body member => apart body (List.mem_cons_of_mem _ member)) steady
    exact emit_steady faithful (fun a member => within a (List.mem_append_right _ member))
      (apart _ List.mem_cons_self) steady' last
  | zip _ _ _ last ihl ihr =>
    obtain ⟨steady', _⟩ := ihl (fun a member => within a (List.mem_append_left _ member))
      (fun body member => apart body (List.mem_cons_of_mem _ (List.mem_append_left _ member))) steady
    obtain ⟨steady'', _⟩ := ihr
      (fun a member => within a (List.mem_append_right _ (List.mem_append_left _ member)))
      (fun body member => apart body (List.mem_cons_of_mem _ (List.mem_append_right _ member)))
      steady'
    exact emit_steady faithful
      (fun a member => within a (List.mem_append_right _ (List.mem_append_right _ member)))
      (apart _ List.mem_cons_self) steady'' last

theorem Reaches.supplied {node body : Expr} {d b : Draft} {scope : Scope}
    (reached : Reaches node d scope body b) (within : ∀ a ∈ node.arrays, a ∈ known)
    (apart : ∀ other ∈ node.lambdas, other.IsCallFree ∨ ∀ tag ∈ other.conversions, tag ∉ tags)
    (steady : Steady known tags d) :
    Supplied known tags scope b ∧ ∀ a ∈ body.arrays, a ∈ known := by
  induction reached with
  | select _ first _ typed =>
    obtain ⟨steady', valid⟩ := (steps_of_step _ first).steady faithful
      (fun a member => within a (List.mem_append_left _ member))
      (fun other member => apart other (List.mem_cons_of_mem _ member)) steady
    refine ⟨valueType_keeps (supplied_kept faithful) _ _ _ _ _ typed ⟨steady', ?_⟩,
      fun a member => within a (List.mem_append_right _ member)⟩
    intro p member
    rw [List.mem_singleton.mp (mem_scopeOf member)]
    exact valid
  | selectSource _ _ ih =>
    exact ih (fun a member => within a (List.mem_append_left _ member))
      (fun other member => apart other (List.mem_cons_of_mem _ member)) steady
  | zip _ left right _ typed =>
    obtain ⟨steady', valid⟩ := (steps_of_step _ left).steady faithful
      (fun a member => within a (List.mem_append_left _ member))
      (fun other member => apart other (List.mem_cons_of_mem _ (List.mem_append_left _ member)))
      steady
    obtain ⟨steady'', valid'⟩ := (steps_of_step _ right).steady faithful
      (fun a member => within a (List.mem_append_right _ (List.mem_append_left _ member)))
      (fun other member => apart other (List.mem_cons_of_mem _ (List.mem_append_right _ member)))
      steady'
    refine ⟨valueType_keeps (supplied_kept faithful) _ _ _ _ _ typed ⟨steady'', ?_⟩,
      fun a member => within a (List.mem_append_right _ (List.mem_append_right _ member))⟩
    intro p member
    rcases List.mem_cons.mp (mem_scopeOf member) with same | member
    · -- The left operand is settled before the right source is compiled.
      rw [same]
      exact valid.later (steps_of_step _ right).later
    · rw [List.mem_singleton.mp member]
      exact valid'
  | zipFirst _ _ ih =>
    exact ih (fun a member => within a (List.mem_append_left _ member))
      (fun other member => apart other (List.mem_cons_of_mem _ (List.mem_append_left _ member)))
      steady
  | zipSecond _ left _ ih =>
    -- A body of the second source is reached from the draft that the first source leaves.
    obtain ⟨steady', _⟩ := (steps_of_step _ left).steady faithful
      (fun a member => within a (List.mem_append_left _ member))
      (fun other member => apart other (List.mem_cons_of_mem _ (List.mem_append_left _ member)))
      steady
    exact ih (fun a member => within a (List.mem_append_right _ (List.mem_append_left _ member)))
      (fun other member => apart other (List.mem_cons_of_mem _ (List.mem_append_right _ member)))
      steady'

end Steadiness

theorem steady_start (known : List SharedArray) (tags : List Tag) : Steady known tags {} where
  sound := sound_start
  agreed _ _ _ member := nomatch member
  plain _ _ := rfl

/-- Wherever the compilation of a query comes to translating a body that the host types, and succeeds
in it, the text of the expression is read as one that has the kernel spelling of the body's type. -/
theorem reached_typed {root body : Expr} {scope : Scope} {d f : Draft} {t : Term}
    (faithful : ∀ a ∈ root.arrays, ∀ b ∈ root.arrays, a.tag = b.tag → a = b)
    (reached : Reaches root {} scope body d) (typed : body.IsHostTyped scope)
    (free : body.IsCallFree) (apart : body.SignsApart) (structs : body.HasStructs)
    (own : root.OwnsConversions body) (run : translate scope body d = .ok (t, f)) :
    ∃ e k, readExpression t.text = some e ∧ f.records.typeOf body.kernelType = .ok k ∧
      e.type? f.declarations = some (.value k) := by
  have others : ∀ other ∈ root.lambdas,
      other.IsCallFree ∨ ∀ tag ∈ other.conversions, tag ∉ body.conversions := by
    intro other member
    rcases own other member with rfl | disjoint
    · exact .inl free
    · exact .inr disjoint
  obtain ⟨supplied, within⟩ := reached.supplied faithful (fun _ => id) others
    (steady_start root.arrays body.conversions)
  have readable := translate_readable body supplied.sound.distinct apart run
  obtain ⟨k, known, spelled⟩ := translate_typed faithful body
    ⟨typed, free, structs, within, fun _ => id⟩ supplied run
  exact ⟨t.form, k, t.readExpression_text readable, known, spelled⟩

def turnedBody : Expr :=
  let flags : SharedArray := ⟨3, .ofList [false, true]⟩
  let lit := Expr.convert 4 (.index (.array flags) (.constant (.u32 1)) .bool) .f32
  let turned := Expr.binary .mul (.parameter ⟨"p", .vector4⟩)
    (.negate (.parameter ⟨"m", .matrix4x4⟩) .matrix4x4) .vector4
  .binary .mul lit turned .vector4

def turnedPlaces : SharedArray := ⟨1, .ofList [(⟨.mk 0, .mk 0, .mk 0, .mk 0⟩ : Vector4 Single)]⟩

def turnedTurns : SharedArray := ⟨2, .ofList [(default : Matrix4x4 Single)]⟩

def turnedQuery : Expr :=
  .zip 5 (.array turnedPlaces) (.array turnedTurns) [⟨"p", .vector4⟩, ⟨"m", .matrix4x4⟩] turnedBody

def turnedScope : Scope := [("m", ⟨.buffer 1, .matrix4x4⟩), ("p", ⟨.buffer 0, .vector4⟩)]

def turnedDraft : Draft where
  inputs := [⟨1, turnedPlaces.data, .vector 4⟩, ⟨2, turnedTurns.data, .matrix 4 4⟩]
  sourceCount := some 1

/-- The products have their operands exchanged, and the stored truth value is compared with zero. -/
theorem turnedQuery_typed : ∃ t f e, Reaches turnedQuery {} turnedScope turnedBody turnedDraft ∧
    translate turnedScope turnedBody turnedDraft = .ok (t, f) ∧
    t.text = "(((-1.0f * buf1[gid.x]) * buf0[gid.x]) * f32((buf2[1u] != 0u)))" ∧
    readExpression t.text = some e ∧ e.type? f.declarations = some (.value (.vector 4)) := by
  have faithful : ∀ a ∈ turnedQuery.arrays, ∀ b ∈ turnedQuery.arrays, a.tag = b.tag → a = b := by
    simp [turnedQuery, turnedPlaces, turnedTurns, turnedBody, Expr.arrays]
  have typed : turnedBody.IsHostTyped turnedScope := by
    refine ⟨rfl, ⟨rfl, rfl, ⟨_, rfl⟩, rfl, rfl, trivial⟩, rfl, ?_, rfl, ?_⟩
    · intro o found
      obtain rfl := Option.some.inj found
      rfl
    · intro o found
      obtain rfl := Option.some.inj found
      rfl
  have structs : turnedBody.HasStructs := by
    simp only [Expr.HasStructs, turnedBody, Expr.types, List.forall_mem_cons, List.cons_append,
      List.nil_append, List.not_mem_nil]
    exact ⟨nofun, nofun, nofun, nofun, nofun, nofun, nofun, nofun, nofun, nofun⟩
  have own : turnedQuery.OwnsConversions turnedBody :=
    fun other member => .inl (List.mem_singleton.mp member)
  have reached : Reaches turnedQuery {} turnedScope turnedBody turnedDraft :=
    .zip rfl rfl rfl rfl rfl
  have run : translate turnedScope turnedBody turnedDraft = .ok (_, _) := rfl
  obtain ⟨e, k, read, known, spelled⟩ := reached_typed faithful reached typed
    ⟨trivial, trivial, trivial⟩ ⟨trivial, trivial, rfl, trivial⟩ structs own run
  obtain rfl := Except.ok.inj known
  exact ⟨_, _, e, reached, run, rfl, read, spelled⟩

end Kernel
end ArrayQuery
