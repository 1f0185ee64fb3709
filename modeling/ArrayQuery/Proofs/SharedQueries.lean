import ArrayQuery.Device.Run
import ArrayQuery.Proofs.Bodies
import ArrayQuery.Proofs.Disturbance

/-! Kernels of two copies of a query. Where no conversion of the second has more than one place, they
are the same if and only if no conversion of the first is disturbed. -/

set_option autoImplicit false
namespace ArrayQuery.Kernel

open Compile ArrayQuery.Expr
open Use (Calm after)

def Let.Alike (l l' : Let) : Prop :=
  l.type = l'.type ∧ l.value.Alike l'.value

namespace Compile

/-- What relates two compilations between their steps: they have all but the overrides in common as
long as it has been calm, and statements that are alike otherwise. -/
structure Paired (calm : Prop) (done b b' : List Tag) (d d' : Draft) : Prop where
  related : Alongside d d' b b' d d'
  close : List.Forall₂ Let.Alike d.lets d'.lets
  same : d.lets = d'.lets ↔ calm
  done : d.steps.map Prod.fst = done

variable {α : Type} {calm : Prop} {done b b' : List Tag}

theorem Paired.congr {calm' : Prop} {d d' : Draft} (paired : Paired calm done b b' d d')
    (same : calm ↔ calm') : Paired calm' done b b' d d' :=
  ⟨paired.related, paired.close, paired.same.trans same, paired.done⟩

theorem paired_neutral {m m' : Compile α} (neutral : Neutral m m') :
    Lockstep (Paired calm done b b') m m'
      (fun a a' d d' => a = a' ∧ Paired calm done b b' d d') False := by
  intro d d' paired
  refine lockstep_weaken (neutral d d' b b') ?_ id d d' paired.related
  intro a a' e e' ⟨same, related⟩
  refine ⟨same, ⟨related.records, related.structs, related.inputs, related.steps,
    related.sourceCount, rfl, rfl, rfl, related.tracks, related.copies⟩, ?_, ?_, ?_⟩
  · rw [related.lets, related.copied]
    exact paired.close
  · rw [related.lets, related.copied]
    exact paired.same
  · rw [related.kept]
    exact paired.done

theorem neutral_bindSource (node node' : Expr) (a : SharedArray) :
    Neutral (bindSource node a) (bindSource node' a) := by
  refine neutral_get fun {_ _ _ _ d _} related => ?_
  have slot := (neutral_bindArray node node' a).bind fun slot =>
    neutral_pure (⟨.buffer slot, a.data.element⟩ : Operand)
  rw [related.sourceCount]
  cases d.sourceCount with
  | none =>
    refine Neutral.bind ?_ fun _ => slot
    exact fun _ _ _ _ _ _ related => ⟨rfl, related.records, related.structs, related.inputs,
      related.steps, rfl, related.lets, related.copied, related.kept, related.tracks,
      related.copies⟩
  | some count =>
    by_cases same : count = a.data.count
    · simp only [same, ne_eq, not_true_eq_false, if_false]
      exact slot
    · simp only [same, ne_eq, not_false_eq_true, if_true]
      exact fun _ _ _ _ _ _ _ => trivial

def stepUses (bodies : List (Tag × Expr)) : List Use :=
  bodies.flatMap fun s => s.2.uses none

theorem stepUses_append (xs ys : List (Tag × Expr)) :
    stepUses (xs ++ ys) = stepUses xs ++ stepUses ys :=
  List.flatMap_append

theorem stepUses_single (tag : Tag) (body : Expr) : stepUses [(tag, body)] = body.uses none :=
  List.append_nil _

def StepFollows (calm : Prop) (done b b' : List Tag) (bodies bodies' : List (Tag × Expr))
    (m m' : Compile Operand) : Prop :=
  Lockstep (Paired calm done b b') m m' (fun o o' d d' => o = o' ∧
    Paired (calm ∧ Calm b (stepUses bodies)) ((bodies.map Prod.fst).reverse ++ done)
      (after b (stepUses bodies)) (after b' (stepUses bodies')) d d')
    (¬(calm ∧ Calm b (stepUses bodies)))

theorem stepFollows_neutral {m m' : Compile Operand} (neutral : Neutral m m') :
    StepFollows calm done b b' [] [] m m' :=
  lockstep_weaken (paired_neutral neutral)
    (fun _ _ _ _ ⟨same, paired⟩ => ⟨same, paired.congr (by simp [stepUses, Calm])⟩) False.elim

theorem StepFollows.bind {xs xs' ys ys' : List (Tag × Expr)} {m m' : Compile Operand}
    {f f' : Operand → Compile Operand} (first : StepFollows calm done b b' xs xs' m m')
    (rest : ∀ o, StepFollows (calm ∧ Calm b (stepUses xs)) ((xs.map Prod.fst).reverse ++ done)
      (after b (stepUses xs)) (after b' (stepUses xs')) ys ys' (f o) (f' o)) :
    StepFollows calm done b b' (xs ++ ys) (xs' ++ ys') (m >>= f) (m' >>= f') := by
  unfold StepFollows
  simp only [stepUses_append, Use.calm_append, Use.after_append, List.map_append,
    List.reverse_append, List.append_assoc, ← and_assoc]
  refine lockstep_bind (lockstep_weaken first (fun _ _ _ _ => id) ?_) fun o o' =>
    lockstep_known fun same => ?_
  · exact fun disturbed both => disturbed both.1
  · obtain rfl := same
    exact rest o

theorem emit_follows {node node' body body' : Expr} (tag : Tag) (params : List Parameter)
    (inputs : List Operand) (copy : body'.untagged = body.untagged)
    (calm' : Calm b' (body'.uses none)) :
    StepFollows calm done b b' [(tag, body)] [(tag, body')] (emit node tag params body inputs)
      (emit node' tag params body' inputs) := by
  intro d d' paired
  rw [stepUses_single, stepUses_single]
  unfold emit
  by_cases counted : params.length = inputs.length
  · simp only [counted, ne_eq, not_true_eq_false, if_false]
    rw [copy_type copy]
    refine lockstep_bind (lockstep_weaken (neutral_valueType node node' body.type d d' b b')
      (fun _ _ _ _ => id) False.elim) (fun k k' => lockstep_known fun same => ?_) d d' paired.related
    obtain rfl := same
    refine lockstep_bind (lockstep_weaken (translate_follows (scopeOf params inputs) body body' none
      copy single_none (ready_none b _) (ready_none b' _) calm' d d') (fun _ _ _ _ => id) ?_)
      fun t t' => lockstep_known fun close => lockstep_known fun equal => ?_
    · exact fun disturbed both => disturbed both.2
    intro c c' related
    -- The translations leave the statements and the steps as they were, so that both drafts number the
    -- new statement alike.
    have lets : List.Forall₂ Let.Alike (c.lets ++ [⟨k, t⟩]) (c'.lets ++ [⟨k, t'⟩]) := by
      rw [related.lets, related.copied]
      exact List.rel_append paired.close (.cons ⟨rfl, close⟩ .nil)
    have length : c.lets.length = c'.lets.length := by
      rw [related.lets, related.copied]
      exact paired.close.length_eq
    have steps : (tag, (⟨.step (c.lets.length + 1), body.type⟩ : Operand)) :: c.steps =
        (tag, ⟨.step (c'.lets.length + 1), body.type⟩) :: c'.steps := by
      rw [length, related.steps]
    refine ⟨by rw [length], ⟨related.records, related.structs, related.inputs, steps.symm,
      related.sourceCount, rfl, rfl, rfl, related.tracks, related.copies⟩, lets, ?_, ?_⟩
    · dsimp only
      rw [related.lets, related.copied, ← paired.same, ← equal]
      constructor
      · intro whole
        obtain ⟨before, last⟩ := List.append_inj' whole rfl
        exact ⟨before, (Let.mk.inj (List.cons.inj last).1).2⟩
      · rintro ⟨before, rfl⟩
        rw [before]
    · simp only [List.map_cons, related.kept, paired.done]
      rfl
  · simp only [counted, ne_eq, not_false_eq_true, if_true]
    trivial

theorem copy_isQuery {node node' : Expr} (copy : node'.untagged = node.untagged) :
    node'.isQuery = node.isQuery := by
  have kept : ∀ e : Expr, e.untagged.isQuery = e.isQuery := fun e => by cases e <;> rfl
  rw [← kept node', copy, kept]

theorem steps_other {node : Expr} {done : List Tag} (other : node.isQuery = false) :
    node.steps done = [] := by
  cases node with
  | select _ _ _ _ => exact nomatch other
  | zip _ _ _ _ _ => exact nomatch other
  | _ => rfl

theorem step_other {node : Expr} (other : node.isQuery = false) (apart : ∀ a, node ≠ .array a) :
    step node = refuse node (.sourceKind node.kind) := by
  cases node with
  | select _ _ _ _ => exact nomatch other
  | zip _ _ _ _ _ => exact nomatch other
  | array a => exact absurd rfl (apart a)
  | _ => rfl

theorem steps_tags : ∀ (node node' : Expr) {done : List Tag}, node'.untagged = node.untagged →
    (node'.steps done).map Prod.fst = (node.steps done).map Prod.fst
  | .select tag source params body, node', done, copy => by
    obtain ⟨source', body', rfl, before, _⟩ := copy_select copy
    unfold Expr.steps
    split
    · rfl
    · simp only [List.map_append, steps_tags source source' before, List.map_cons, List.map_nil]
  | .zip tag first second params body, node', done, copy => by
    obtain ⟨first', second', body', rfl, before, before', _⟩ := copy_zip copy
    unfold Expr.steps
    split
    · rfl
    · simp only [List.map_append, steps_tags first first' before, steps_tags second second' before',
        List.map_cons, List.map_nil]
  | .array _, _, _, copy | .constant _, _, _, copy | .parameter _, _, _, copy | .binary .., _, _, copy
  | .negate .., _, _, copy | .convert .., _, _, copy | .member .., _, _, copy | .index .., _, _, copy
  | .construct .., _, _, copy | .call .., _, _, copy => by
    rw [steps_other ((copy_isQuery copy).trans rfl)]
    rfl

theorem stepFollows_memo {tag : Tag} {bodies bodies' : List (Tag × Expr)} {m m' : Compile Operand}
    (rest : tag ∉ done → StepFollows calm done b b' bodies bodies' m m') :
    StepFollows calm done b b' (if tag ∈ done then [] else bodies)
      (if tag ∈ done then [] else bodies')
      (do
        match (← get).steps.lookup tag with
        | some operand => return operand
        | none => m)
      (do
        match (← get).steps.lookup tag with
        | some operand => return operand
        | none => m') := by
  intro d d' paired
  rw [get_bind, get_bind, paired.related.steps]
  have known : (d.steps.lookup tag).isSome = true ↔ tag ∈ done := by
    rw [lookup_isSome_iff_mem, paired.done]
  cases found : d.steps.lookup tag with
  | some operand =>
    have member : tag ∈ done := known.mp (by rw [found]; rfl)
    simp only [member, if_true]
    exact stepFollows_neutral (neutral_pure operand) d d' paired
  | none =>
    have absent : tag ∉ done := fun member => by simpa [found] using known.mpr member
    simp only [absent, if_false]
    exact rest absent d d' paired

/-- Copies of steps are compiled alike, and to the same statements as long as it is calm. -/
theorem step_follows : ∀ (node node' : Expr) {calm : Prop} {done b b' : List Tag},
    node'.untagged = node.untagged → Calm b' (stepUses (node'.steps done)) →
    StepFollows calm done b b' (node.steps done) (node'.steps done) (step node) (step node')
  | .array a, node', calm, done, b, b', copy, _ => by
    obtain rfl := copy_array copy
    exact stepFollows_neutral (neutral_bindSource (.array a) (.array a) a)
  | .select tag source params body, node', calm, done, b, b', copy, calm' => by
    obtain ⟨source', body', rfl, before, inner⟩ := copy_select copy
    -- A copy has the tag of its original, so that both find the step or both compile it.
    unfold step
    rw [Expr.steps] at calm' ⊢
    rw [Expr.steps]
    refine stepFollows_memo fun absent => ?_
    rw [if_neg absent, stepUses_append, stepUses_single, Use.calm_append] at calm'
    exact (step_follows source source' before calm'.1).bind fun o =>
      emit_follows tag params [o] inner calm'.2
  | .zip tag first second params body, node', calm, done, b, b', copy, calm' => by
    obtain ⟨first', second', body', rfl, before, before', inner⟩ := copy_zip copy
    unfold step
    rw [Expr.steps] at calm' ⊢
    rw [Expr.steps]
    refine stepFollows_memo fun absent => ?_
    simp only [steps_tags first first' before, List.append_assoc] at calm' ⊢
    rw [if_neg absent, stepUses_append, stepUses_append, stepUses_single, Use.calm_append,
      Use.calm_append] at calm'
    exact (step_follows first first' before calm'.1).bind fun x =>
      (step_follows second second' before' calm'.2.1).bind fun y =>
        emit_follows tag params [x, y] inner calm'.2.2
  | .constant _, node', _, _, _, _, copy, _ | .parameter _, node', _, _, _, _, copy, _
  | .binary .., node', _, _, _, _, copy, _ | .negate .., node', _, _, _, _, copy, _
  | .convert .., node', _, _, _, _, copy, _ | .member .., node', _, _, _, _, copy, _
  | .index .., node', _, _, _, _, copy, _ | .construct .., node', _, _, _, _, copy, _
  | .call .., node', _, _, _, _, copy, _ => by
    have apart : ∀ a, node' ≠ Expr.array a := by
      rintro a rfl
      exact Expr.noConfusion (copy_array copy.symm)
    rw [step_other ((copy_isQuery copy).trans rfl) apart]
    exact fun _ _ _ => trivial

theorem root_follows {node node' : Expr} (copy : node'.untagged = node.untagged)
    (calm' : Calm [] (stepUses (node'.steps []))) :
    Outcome (fun r r' d d' => r = r' ∧ ∃ done b b',
        Paired (Calm [] (stepUses (node.steps []))) done b b' d d')
      (¬Calm [] (stepUses (node.steps []))) (Compile.root node {}) (Compile.root node' {}) := by
  have start : Paired True [] [] [] {} {} :=
    ⟨⟨rfl, rfl, rfl, rfl, rfl, rfl, rfl, rfl, fun _ => rfl, fun _ => rfl⟩, .nil, by simp, rfl⟩
  unfold Compile.root
  rw [copy_isQuery copy, copy_type copy]
  by_cases query : node.isQuery = true
  · simp only [query, Bool.not_true, Bool.false_eq_true, if_false]
    have steps : StepFollows True [] [] [] _ _ (step node) (step node') :=
      step_follows node node' copy calm'
    have compiled := lockstep_weaken steps (fun _ _ _ _ => id)
      fun disturbed => by simpa using disturbed
    refine lockstep_bind compiled (fun o o' => lockstep_known fun same => ?_) _ _ start
    obtain rfl := same
    refine lockstep_bind (lockstep_weaken (paired_neutral (neutral_storageType node node' node.type))
      (fun _ _ _ _ => id) False.elim) fun k k' => lockstep_known fun same => ?_
    obtain rfl := same
    exact lockstep_pure fun d d' paired => ⟨rfl, _, _, _, paired.congr (by simp)⟩
  · simp only [query, Bool.not_false, if_true]
    trivial

end Compile

theorem stepUses_bodies (root : Expr) :
    stepUses (root.steps []) = root.bodies.flatMap (uses none) := by
  rw [bodies, List.flatMap_map]
  rfl

theorem compile_root (workgroupSize : Nat) (node : Expr) :
    compile workgroupSize node = (Compile.root node {}).map fun r =>
      ⟨workgroupSize, r.2.structs, r.2.inputs, r.2.lets, r.1.1, r.1.2⟩ := by
  change Except.bind (Compile.root node {}) _ = _
  cases Compile.root node {} <;> rfl

theorem compile_outcome {root copy : Expr} (copied : copy.untagged = root.untagged)
    (separate : copy.IsSeparate) (workgroupSize : Nat) :
    match compile workgroupSize root, compile workgroupSize copy with
    | .ok p, .ok q => ∃ lets, q = { p with lets := lets } ∧ List.Forall₂ Let.Alike p.lets lets ∧
      (p.lets = lets ↔ ¬root.IsDisturbed)
    | .ok _, .error _ => root.IsDisturbed
    | .error _, .ok _ => False
    | .error _, .error _ => True := by
  have calm' := separate.calm
  rw [← stepUses_bodies] at calm'
  have reached := root_follows copied calm'
  rw [stepUses_bodies, calm_iff_not_disturbed, not_not] at reached
  rw [compile_root, compile_root]
  cases run : Compile.root root {} with
  | error cause =>
    cases run' : Compile.root copy {} with
    | error cause' => trivial
    | ok r' =>
      rw [run, run'] at reached
      exact reached.elim
  | ok r =>
    cases run' : Compile.root copy {} with
    | error cause' =>
      rw [run, run'] at reached
      exact reached
    | ok r' =>
      rw [run, run'] at reached
      obtain ⟨same, done, b, b', paired⟩ := reached
      refine ⟨r'.2.lets, ?_, paired.close, paired.same⟩
      dsimp only
      rw [same, paired.related.structs, paired.related.inputs]

/-! ## Texts of kernels -/

namespace Program

def lineChars (lines : List String) : List Char :=
  lines.flatMap fun line => "    ".toList ++ (line.toList ++ ['\n'])

theorem lines_chars {lines : List String} (nonempty : ∀ line ∈ lines, line ≠ "") {b : Text.Indented}
    (level : b.level = 1) (start : b.atLineStart = true) :
    (lines.foldl (·.line ·) b).text.toList = b.text.toList ++ lineChars lines := by
  induction lines generalizing b with
  | nil => simp [lineChars]
  | cons line lines ih =>
    obtain ⟨written, level', start'⟩ := line_text level start (nonempty line List.mem_cons_self)
    rw [List.foldl_cons, ih (fun l later => nonempty l (List.mem_cons_of_mem _ later)) level' start',
      written]
    simp [lineChars]

theorem letLine_cancels {l l' : Let} (alike : l.Alike l') (number : Nat) :
    Cancels (fun l => (letLine number l).toList) l l' := by
  intro x y same
  simp only [letLine, alike.1, String.toList_append, List.append_assoc,
    List.append_cancel_left_eq] at same
  obtain ⟨value, rest⟩ := alike.2 _ _ same
  refine ⟨?_, List.append_cancel_left rest⟩
  cases l
  cases l'
  exact congrArg₂ Let.mk alike.1 value

theorem letLines_cancel {lets lets' : List Let} (close : List.Forall₂ Let.Alike lets lets')
    (number : Nat) : Cancels
      (fun lets => lineChars ((lets.zipIdx number).map fun l => letLine l.2 l.1)) lets lets' := by
  induction close generalizing number with
  | nil => exact cancels_refl []
  | cons first _ ih =>
    intro x y same
    simp only [List.zipIdx_cons, List.map_cons, lineChars, List.flatMap_cons, List.append_assoc,
      List.append_cancel_left_eq] at same
    obtain ⟨rfl, rest⟩ := letLine_cancels first number _ _ same
    obtain ⟨rfl, last⟩ := ih (number + 1) _ _ (List.append_cancel_left rest)
    exact ⟨rfl, last⟩

theorem bodyText_chars (p : Program) :
    p.bodyText.toList = lineChars (letLines p.lets) ++ lineChars [p.storeLine] := by
  rw [bodyText, document_body, lines_chars p.statementLines_ne rfl rfl]
  simp [Text.Indented.atLevel, lineChars]

theorem text_lets {p : Program} {lets : List Let} (close : List.Forall₂ Let.Alike p.lets lets)
    (same : p.text = { p with lets := lets }.text) : p.lets = lets := by
  -- The statements are written in the body alone.
  have split : ∀ lets, { p with lets := lets }.text =
      p.document.header.text ++ Document.region p.document.structs ++
        Document.region p.document.buffers ++ "\n" ++ (Document.entry p.document.guard).text ++
        { p with lets := lets }.bodyText ++ "\x7d\n" := fun _ => rfl
  have chars := congrArg String.toList ((split p.lets).symm.trans (same.trans (split lets)))
  simp only [String.toList_append, List.append_assoc, List.append_cancel_left_eq] at chars
  rw [bodyText_chars, bodyText_chars, List.append_assoc, List.append_assoc] at chars
  exact (letLines_cancel close 1 _ _ chars).1

end Program

theorem toOption_map {ε α β : Type} (f : α → β) (x : Except ε α) :
    (x.map f).toOption = x.toOption.map f := by
  cases x <;> rfl

/-- A query and a copy of it, in which no conversion has more than one place, have the same kernel
with the same buffers, or none both, exactly if no conversion of the query is disturbed or the query
has no kernel at all. -/
theorem compile_copy_iff {root copy : Expr} (copied : copy.untagged = root.untagged)
    (separate : copy.IsSeparate) (c : Config) :
    (CompiledQuery.compile c copy).toOption = (CompiledQuery.compile c root).toOption ↔
      ¬root.IsDisturbed ∨ (CompiledQuery.compile c root).toOption = none := by
  have reached := compile_outcome copied separate c.workgroupSize
  rw [CompiledQuery.compile, CompiledQuery.compile, toOption_map, toOption_map]
  cases run : compile c.workgroupSize root with
  | error cause =>
    cases run' : compile c.workgroupSize copy with
    | error cause' => simp [Except.toOption]
    | ok q =>
      rw [run, run'] at reached
      exact reached.elim
  | ok p =>
    cases run' : compile c.workgroupSize copy with
    | error cause' =>
      rw [run, run'] at reached
      simpa [Except.toOption] using reached
    | ok q =>
      rw [run, run'] at reached
      obtain ⟨lets, rfl, close, same⟩ := reached
      simp only [Except.toOption, Option.map_some, Option.some.injEq, reduceCtorEq, or_false]
      constructor
      · intro equal
        have texts : p.text = { p with lets := lets }.text :=
          (congrArg CompiledQuery.source equal).symm
        exact same.mp (Program.text_lets close texts)
      · intro calm
        rw [← same.mpr calm]

/-- The sine of a number cut to an integer, added to that integer. The two conversions are one if
their tags are. -/
def sineOfInteger (first second : Tag) : Expr :=
  let values : SharedArray := ⟨1, .ofList [Single.mk 0x3f000000, Single.mk 0x40300000]⟩
  let x : Parameter := ⟨"x", .f32⟩
  .select 2 (.array values) [x] (.binary .add
    (.call .sin [.convert first (.parameter x) .i32] .f32)
    (.convert 3 (.convert second (.parameter x) .i32) .f32) .f32)

/-- With one conversion both are written as single precision, and nothing is cut off. -/
theorem sineOfInteger_shared :
    (CompiledQuery.compile {} (sineOfInteger 4 5)).toOption ≠
      (CompiledQuery.compile {} (sineOfInteger 4 4)).toOption := by
  have copied : (sineOfInteger 4 5).untagged = (sineOfInteger 4 4).untagged := rfl
  have separate : (sineOfInteger 4 5).IsSeparate := by decide
  have disturbed : (sineOfInteger 4 4).IsDisturbed := ⟨4, by decide⟩
  intro same
  rcases (compile_copy_iff copied separate {}).mp same with calm | failed
  · exact calm disturbed
  · exact nomatch failed

end ArrayQuery.Kernel
