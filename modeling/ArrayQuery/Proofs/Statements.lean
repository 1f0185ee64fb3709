import ArrayQuery.Proofs.SharedQueries
import ArrayQuery.Proofs.StepLines

/-! The statements of a kernel, one for each operator of its query in the order of compilation. What the
bodies of earlier operators have overridden is overridden still when a body is translated. -/

set_option autoImplicit false
namespace ArrayQuery.Kernel

open Compile ArrayQuery.Expr
open Use (after)

mutual
/-- Whether a term is made of literals, and of types around them that are no scalar ones. -/
def Term.IsLiteral : Term → Prop
  | .literal _ => True
  | .call (.type k) args => k.isScalar = false ∧ Term.AreLiterals args
  | _ => False

def Term.AreLiterals : List Term → Prop
  | [] => True
  | e :: rest => e.IsLiteral ∧ Term.AreLiterals rest
end

theorem floatLiterals_areLiterals {xs : List Single} {ts : List Term}
    (found : floatLiterals xs = .ok ts) : Term.AreLiterals ts := by
  induction xs generalizing ts with
  | nil =>
    obtain rfl := Except.ok.inj found
    trivial
  | cons x xs ih =>
    obtain ⟨rest, _, others, rfl⟩ := floatLiterals_cons_ok found
    exact ⟨trivial, ih others⟩

mutual
theorem literal_isLiteral {names : RecordNames} : ∀ (v : Value) {t : Term}, names.literal v = .ok t →
    t.IsLiteral
  | .bool _, t, found | .i32 _, t, found | .u32 _, t, found => by
    obtain rfl := Except.ok.inj found
    trivial
  | .f32 x, t, found | .f64 x, t, found => by
    obtain ⟨rfl, _⟩ := floatLiteral_ok found
    trivial
  | .vector2 _, t, found | .vector3 _, t, found | .vector4 _, t, found | .matrix4x4 _, t, found
  | .matrix3x2 _, t, found => by
    obtain ⟨_, cells, rfl⟩ := RecordNames.literal_packed_ok rfl found
    exact ⟨rfl, floatLiterals_areLiterals cells⟩
  | .record r values, t, found => by
    obtain ⟨_, args, name, fields, _, rfl⟩ := RecordNames.literal_record_ok found
    exact ⟨rfl, fieldLiterals_areLiterals values _ _ fields⟩

theorem fieldLiterals_areLiterals {names : RecordNames} : ∀ (values : List Value) (node : String)
    (fields : List (String × ElementType)) {ts : List Term},
    names.fieldLiterals node fields values = .ok ts → Term.AreLiterals ts
  | [], _, _, ts, found => by
    obtain rfl := Except.ok.inj found
    trivial
  | _ :: _, _, [], ts, found => by
    obtain rfl := Except.ok.inj found
    trivial
  | v :: values, node, (field, u) :: fields, ts, found => by
    obtain ⟨_, t, rest, first, others, rfl⟩ := RecordNames.fieldLiterals_cons_ok found
    exact ⟨literal_isLiteral v first, fieldLiterals_areLiterals values node fields others⟩
end

section Tracking

variable {α : Type} {m : Compile α} {a : α} {b c : List Tag} {d e : Draft}

theorem tracks_of_lockstep
    (lockstep : ∀ base base', Lockstep (Alongside base base' b b) m m
      (fun _ _ => Alongside base base' c c) False)
    (run : m d = .ok (a, e)) (tracks : Tracks b d.overrides) : Tracks c e.overrides := by
  have start : Alongside d d b b d d := ⟨rfl, rfl, rfl, rfl, rfl, rfl, rfl, rfl, tracks, tracks⟩
  have reached := lockstep d d d d start
  rw [run] at reached
  exact reached.tracks

theorem Compile.Neutral.tracks (neutral : Neutral m m) (run : m d = .ok (a, e))
    (tracks : Tracks b d.overrides) : Tracks b e.overrides :=
  tracks_of_lockstep (fun base base' => lockstep_weaken (neutral base base' b b)
    (fun _ _ _ _ both => both.2) id) run tracks

theorem reached_tracks {node target : Expr} {name : String} {container : ElementType}
    {step : Access × ElementType} {c : Draft}
    (chain : chainType node target d = .ok (container, c))
    (followed : follow node container name c = .ok (step, e)) (tracks : Tracks b d.overrides) :
    Tracks b e.overrides :=
  (neutral_follow node node container name).tracks followed
    ((neutral_chainType node node target target rfl).tracks chain tracks)

end Tracking

mutual
theorem translate_tracks {scope : Scope} : ∀ (e : Expr) (declared : Option ElementType) {b : List Tag}
    {d f : Draft} {t : Term}, translate scope e d = .ok (t, f) → Tracks b d.overrides →
    Tracks (after b (e.uses declared)) f.overrides
  | .constant v, _, b, d, f, t, run, tracks =>
    (neutral_declare (.constant v) (.constant v) v.type).tracks (translate_constant_ok run).1 tracks
  | .parameter p, _, b, d, f, t, run, tracks => by
    obtain ⟨_, _, _, rfl⟩ := translate_parameter_ok run
    exact tracks
  | .binary op l r u, _, b, d, f, t, run, tracks => by
    obtain ⟨_, first, second, c, _, ⟨product, right, left⟩ | ⟨other, left, right⟩⟩ :=
      translate_binary_ok run
    · rw [uses, if_pos product, Use.after_append]
      exact translate_tracks l none left (translate_tracks r none right tracks)
    · rw [uses, if_neg other, Use.after_append]
      exact translate_tracks r none right (translate_tracks l none left tracks)
  | .negate e u, _, b, d, f, t, run, tracks => by
    obtain ⟨inner, translated, _⟩ := translate_negate_ok run
    exact translate_tracks e none translated tracks
  | .convert tag e u, declared, b, d, f, t, run, tracks => by
    obtain ⟨c, k, inner, wrapped, _, _, translated, _⟩ := translate_convert_ok run
    -- The wrapper is overridden before the operand, as the uses have it.
    have overridden := tracks_of_lockstep
      (fun _ _ => overrideWrapper_lockstep tag tag u rfl) wrapped tracks
    rw [uses, Use.after_append, Use.after_append]
    split
    · exact translate_tracks e none translated overridden
    · exact translate_tracks e none translated overridden
  | .member target name u, _, b, d, f, t, run, tracks => by
    obtain ⟨container, access, v, c, c', inner, chain, followed, translated, _⟩ :=
      translate_member_ok run
    exact translate_tracks target none translated (reached_tracks chain followed tracks)
  | .index a i u, _, b, d, f, t, run, tracks => by
    obtain ⟨source, slot, c, inner, rfl, bound, translated, _⟩ := translate_index_ok run
    exact translate_tracks i none translated ((neutral_bindArray _ _ source).tracks bound tracks)
  | .construct r args, _, b, d, f, t, run, tracks => by
    obtain ⟨_, k, c, terms, typed, translated, _⟩ := translate_construct_ok run
    exact translateAll_tracks args [] translated ((neutral_valueType _ _ r.type).tracks typed tracks)
  | .call fn args u, _, b, d, f, t, run, tracks => by
    obtain ⟨c, terms, overridden, translated, _⟩ := translate_call_ok run
    rw [uses, Use.after_append]
    exact translateAll_tracks args fn.parameters translated
      (tracks_of_lockstep (fun _ _ => overrideCall_lockstep fn rfl) overridden tracks)
  | .select .., _, _, _, _, _, run, _ => (translate_query_ok (.inl rfl) run).elim
  | .zip .., _, _, _, _, _, run, _ => (translate_query_ok (.inl rfl) run).elim
  | .array a, _, _, _, _, _, run, _ => (translate_query_ok (.inr ⟨a, rfl⟩) run).elim

theorem translateAll_tracks {scope : Scope} : ∀ (es : List Expr) (declared : List ElementType)
    {b : List Tag} {d f : Draft} {ts : List Term}, translateAll scope es d = .ok (ts, f) →
    Tracks b d.overrides → Tracks (after b (usesAll declared es)) f.overrides
  | [], _, b, d, f, ts, run, tracks => by
    obtain ⟨_, rfl⟩ := pure_ok.mp run
    exact tracks
  | e :: rest, declared, b, d, f, ts, run, tracks => by
    obtain ⟨head, tail, c, first, others, _⟩ := translateAll_cons_ok run
    rw [usesAll, Use.after_append]
    exact translateAll_tracks rest declared.tail others (translate_tracks e declared.head? first tracks)
end

/-- Whether a statement has the translation of a body for its value, made while just these conversions
had their types overridden. -/
structure IsStatement (before : List Tag) (body : Expr) (l : Let) : Prop where
  named : l.type.IsNamed
  value : ∃ scope c d, c.records.Distinct ∧ Tracks before c.overrides ∧
    translate scope body c = .ok (l.value, d)

/-- Whether statements are those of bodies, where some conversions are overridden from the start. -/
inductive Statements : List Tag → List Expr → List Let → Prop where
  | nil {before : List Tag} : Statements before [] []
  | cons {before : List Tag} {body : Expr} {bodies : List Expr} {l : Let} {lets : List Let}
      (first : IsStatement before body l)
      (rest : Statements (after before (body.uses none)) bodies lets) :
      Statements before (body :: bodies) (l :: lets)

theorem Statements.append {before : List Tag} {bodies more : List Expr} {lets others : List Let}
    (first : Statements before bodies lets)
    (second : Statements (after before (bodies.flatMap (uses none))) more others) :
    Statements before (bodies ++ more) (lets ++ others) := by
  induction first with
  | nil => exact second
  | cons first _ ih =>
    rw [List.flatMap_cons, Use.after_append] at second
    exact .cons first (ih second)

theorem Statements.length {before : List Tag} {bodies : List Expr} {lets : List Let}
    (statements : Statements before bodies lets) : lets.length = bodies.length := by
  induction statements with
  | nil => rfl
  | cons _ _ ih => rw [List.length_cons, List.length_cons, ih]

/-- A statement stands where its body does, and has all earlier bodies before it. -/
theorem Statements.get {before : List Tag} {bodies : List Expr} {lets : List Let}
    (statements : Statements before bodies lets) {k : Nat} {body : Expr} {l : Let}
    (known : bodies[k]? = some body) (found : lets[k]? = some l) :
    IsStatement (after before ((bodies.take k).flatMap (uses none))) body l := by
  induction statements generalizing k with
  | nil => exact nomatch known
  | cons first _ ih =>
    cases k with
    | zero =>
      obtain rfl := Option.some.inj known
      obtain rfl := Option.some.inj found
      exact first
    | succ k =>
      rw [List.take_succ_cons, List.flatMap_cons, Use.after_append]
      exact ih known found

/-- What is known of a draft between steps: it is sound, and has these steps behind it and these
conversions overridden. -/
structure Stage (b done : List Tag) (d : Draft) : Prop where
  sound : Sound d
  tracks : Tracks b d.overrides
  done : d.steps.map Prod.fst = done

structure Writes (b done : List Tag) (steps : List (Tag × Expr)) (d e : Draft) : Prop where
  stage : Stage (after b (stepUses steps)) ((steps.map Prod.fst).reverse ++ done) e
  statements : ∃ lets, e.lets = d.lets ++ lets ∧ Statements b (steps.map Prod.snd) lets

section Runs

variable {b done : List Tag} {d c e : Draft}

theorem Stage.known (stage : Stage b done d) (tag : Tag) :
    (d.steps.lookup tag).isSome = true ↔ tag ∈ done := by
  rw [lookup_isSome_iff_mem, stage.done]

theorem Stage.writes (stage : Stage b done e) (lets : e.lets = d.lets) : Writes b done [] d e :=
  ⟨stage, [], by rw [lets, List.append_nil], .nil⟩

theorem Writes.trans {steps more : List (Tag × Expr)} (first : Writes b done steps d c)
    (second : Writes (after b (stepUses steps)) ((steps.map Prod.fst).reverse ++ done) more c e) :
    Writes b done (steps ++ more) d e := by
  obtain ⟨lets, before, bodies⟩ := first.statements
  obtain ⟨others, after, bodies'⟩ := second.statements
  refine ⟨?_, lets ++ others, by rw [after, before, List.append_assoc], ?_⟩
  · rw [stepUses_append, Use.after_append, List.map_append, List.reverse_append, List.append_assoc]
    exact second.stage
  · rw [List.map_append]
    refine bodies.append ?_
    rwa [List.flatMap_map]

theorem emit_writes {node body : Expr} {tag : Tag} {params : List Parameter} {inputs : List Operand}
    {o : Operand} (stage : Stage b done d)
    (run : emit node tag params body inputs d = .ok (o, e)) : Writes b done [(tag, body)] d e := by
  have sound := emit_sound stage.sound run
  obtain ⟨_, _, _, _, steps⟩ := emit_added run
  obtain ⟨_, k, c, value, f, typed, translated, _, rfl⟩ := emit_ok run
  obtain ⟨declared, known⟩ := valueType_ok.mp typed
  have distinct := (declare_sound node _ stage.sound declared).distinct
  have tracks := (neutral_valueType node node body.type).tracks typed stage.tracks
  have tracks' := translate_tracks body none translated tracks
  have lets := (translate_grows translated).lets.trans (declare_grows declared).lets
  refine ⟨⟨sound, ?_, ?_⟩, [⟨k, value⟩], by rw [← lets], .cons ⟨?_, ?_⟩ .nil⟩
  · rw [stepUses_single]
    exact tracks'
  · rw [steps, List.map_cons, stage.done]
    rfl
  · exact RecordNames.typeOf_named distinct known
  · exact ⟨_, c, f, distinct, tracks, translated⟩

theorem bindSource_writes {a : SharedArray} {node : Expr} {o : Operand} (stage : Stage b done d)
    (run : bindSource node a d = .ok (o, e)) : Writes b done [] d e := by
  have sound := bindSource_sound stage.sound run
  have tracks := (neutral_bindSource node node a).tracks run stage.tracks
  obtain ⟨slot, bound, _⟩ := bindSource_bound run
  have grows := bindArray_grows bound
  exact Stage.writes ⟨sound, tracks, by rw [grows.steps]; exact stage.done⟩ grows.lets

theorem Stage.shared {node : Expr} {tag : Tag} (stage : Stage b done d)
    (tagged : node.stepTag? = some tag) (member : tag ∈ done) :
    Writes b done (node.steps done) d d := by
  have none : node.steps done = [] := by
    cases node with
    | select tag' =>
      obtain rfl := Option.some.inj tagged
      rw [Expr.steps, if_pos member]
    | zip tag' =>
      obtain rfl := Option.some.inj tagged
      rw [Expr.steps, if_pos member]
    | _ => cases tagged
  rw [none]
  exact stage.writes rfl

theorem Steps.writes {node : Expr} {o : Operand} (run : Steps node d o e) (stage : Stage b done d) :
    Writes b done (node.steps done) d e := by
  induction run generalizing b done with
  | source bound => exact bindSource_writes stage bound
  | shared tagged found =>
    exact stage.shared tagged ((stage.known _).mp (by rw [found]; rfl))
  | @select tag _ _ _ _ _ _ _ _ fresh _ last ih =>
    have absent : tag ∉ done := fun member => by simpa [fresh] using (stage.known tag).mpr member
    have first := ih stage
    rw [Expr.steps, if_neg absent]
    exact first.trans (emit_writes first.stage last)
  | @zip tag _ _ _ _ _ _ _ _ _ _ _ fresh _ _ last ihl ihr =>
    have absent : tag ∉ done := fun member => by simpa [fresh] using (stage.known tag).mpr member
    have left := ihl stage
    have right := ihr left.stage
    rw [Expr.steps, if_neg absent]
    exact (left.trans right).trans (emit_writes (left.trans right).stage last)

end Runs

theorem compile_statements {root : Expr} {workgroupSize : Nat} {p : Program}
    (compiled : compile workgroupSize root = .ok p) : Statements [] root.bodies p.lets := by
  obtain ⟨result, storage, d, rooted, rfl⟩ := compile_ok compiled
  obtain ⟨_, o, c, stepped, _, stored⟩ := root_ok rooted
  have start : Stage [] [] {} := ⟨sound_start, fun _ => rfl, rfl⟩
  obtain ⟨lets, same, statements⟩ := ((steps_of_step root stepped).writes start).statements
  obtain rfl : d.lets = lets := (declare_grows (storageType_ok.mp stored).1).lets.trans same
  exact statements

end ArrayQuery.Kernel
