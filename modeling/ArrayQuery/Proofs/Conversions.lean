import ArrayQuery.Proofs.Acceptance
import ArrayQuery.Proofs.Statements
import ArrayQuery.Proofs.Typing

/-! The types that the conversions of a body are written with. Those that primitives with a declared
signature ask for hold only at their own places, unless an earlier body has overridden the same
conversion. -/

set_option autoImplicit false
namespace ArrayQuery

/-- A conversion at one place of a body, with the type that the place gives it. -/
structure Conversion where
  tag : Tag
  target : ElementType
  deriving DecidableEq, Repr

namespace Expr

mutual
/-- The conversions of a body in the order of writing. The type declared for an argument counts for a
conversion that is the argument itself, and a declared result for the conversion right around it. -/
def targets (declared : Option ElementType) : Expr → List Conversion
  | binary op l r _ =>
    if op = .mul then r.targets none ++ l.targets none else l.targets none ++ r.targets none
  | negate e _ | member e _ _ | index _ e _ => e.targets none
  | convert tag e t => ⟨tag, ((wrapped? t e).or declared).getD t⟩ :: e.targets none
  | construct _ args => targetsAll [] args
  | call fn args _ => targetsAll fn.parameters args
  | _ => []

def targetsAll (declared : List ElementType) : List Expr → List Conversion
  | [] => []
  | e :: rest => e.targets declared.head? ++ targetsAll declared.tail rest
end

def overriddenBefore (root : Expr) (position : Nat) : List Tag :=
  Use.after [] ((root.bodies.take position).flatMap (uses none))

end Expr

namespace Kernel

open Compile ArrayQuery.Expr
open Use (Settled after)

mutual
def Term.casts : Term → List KernelType
  | .call (.type k) args => if k.isScalar then k :: Term.castsAll args else Term.castsAll args
  | .call (.function _) args => Term.castsAll args
  | .binary _ l r => l.casts ++ r.casts
  | .index _ e | .nonzero e | .negate e | .negateMatrix e | .group e | .access e _ => e.casts
  | .literal _ | .step _ | .element _ => []

def Term.castsAll : List Term → List KernelType
  | [] => []
  | e :: rest => e.casts ++ Term.castsAll rest
end

def writtenType? : ElementType → Option KernelType
  | .leaf l => ofLeaf l
  | .record .. => none

/-- Whether a conversion is written with a type, where some are overridden. -/
def IsWritten (overridden : List Tag) (c : Conversion) (k : KernelType) : Prop :=
  writtenType? (if c.tag ∈ overridden then .f32 else c.target) = some k

/-- Whether the conversions in a term are written with the types that their places in a body give
them. -/
def FollowsPlaces (body : Expr) (t : Term) : Prop :=
  List.Forall₂ (IsWritten []) (body.targets none) t.casts

theorem isWritten_nil {c : Conversion} {k : KernelType} :
    IsWritten [] c k ↔ writtenType? c.target = some k := by
  rw [IsWritten, if_neg List.not_mem_nil]

/-- What is overridden makes no difference to single precision, and to nothing else. -/
theorem IsWritten.place_iff {overridden : List Tag} {c : Conversion} {k : KernelType}
    (written : IsWritten overridden c k) :
    IsWritten [] c k ↔ (c.tag ∈ overridden → c.target = .f32) := by
  unfold IsWritten at written
  rw [isWritten_nil]
  by_cases member : c.tag ∈ overridden
  · rw [if_pos member] at written
    obtain rfl := Option.some.inj written
    have single : ∀ l : Leaf, ofLeaf l = some .f32 ↔ l = .f32 := by
      intro l
      cases l <;> decide
    cases target : c.target with
    | leaf l =>
      simp only [writtenType?, single, member, true_imp_iff]
      exact ⟨fun same => congrArg _ same, fun same => ElementType.leaf.inj same⟩
    | record n fields => simp [writtenType?, member]
  · rw [if_neg member] at written
    exact iff_of_true written fun overridden => absurd overridden member

theorem IsWritten.double {overridden : List Tag} {c : Conversion} {k : KernelType}
    (written : IsWritten overridden c k) (double : c.target = .f64) : c.tag ∈ overridden := by
  by_contra absent
  rw [IsWritten, if_neg absent, double] at written
  exact nomatch written

mutual
theorem Term.IsLiteral.casts : ∀ {t : Term}, t.IsLiteral → t.casts = []
  | .literal _, _ => rfl
  | .call (.type k) args, held => by
    rw [Term.casts, held.1, if_neg Bool.false_ne_true, Term.AreLiterals.casts held.2]

theorem Term.AreLiterals.casts : ∀ {ts : List Term}, Term.AreLiterals ts → Term.castsAll ts = []
  | [], _ => rfl
  | _ :: _, literals => by
    rw [Term.castsAll, literals.1.casts, Term.AreLiterals.casts literals.2, List.append_nil]
end

theorem operand_casts (o : Operand) : o.term.casts = [] := by
  unfold Operand.term
  split
  · rfl
  · split <;> rfl

theorem typeOf_written {names : RecordNames} {t : ElementType} {k : KernelType}
    (scalar : t.isScalar = true) (typed : names.typeOf t = .ok k) :
    writtenType? t = some k ∧ k.isScalar = true := by
  cases t with
  | leaf l =>
    have known := RecordNames.typeOf_leaf_ok.mp typed
    refine ⟨known, ?_⟩
    cases l <;> cases known <;> first | rfl | exact nomatch scalar
  | record n fields => exact absurd scalar Bool.false_ne_true

/-- What is known of the uses ahead while a body is translated. No type is both overridden and spelled
among them, and those that are spelled are overridden by now only if they were before the body. -/
structure Foreseen (before b : List Tag) (us : List Use) : Prop where
  settled : Settled us
  agreed : ∀ tag, .plain tag ∈ us → (tag ∈ b ↔ tag ∈ before)

section Foreseen

variable {before b : List Tag} {us vs : List Use}

theorem Foreseen.left (foreseen : Foreseen before b (us ++ vs)) : Foreseen before b us where
  settled tag overridden plain :=
    foreseen.settled tag (List.mem_append_left _ overridden) (List.mem_append_left _ plain)
  agreed tag plain := foreseen.agreed tag (List.mem_append_left _ plain)

theorem Foreseen.right (foreseen : Foreseen before b (us ++ vs)) :
    Foreseen before (after b us) vs where
  settled tag overridden plain :=
    foreseen.settled tag (List.mem_append_right _ overridden) (List.mem_append_right _ plain)
  agreed tag plain := by
    have later := List.mem_append_right us plain
    have calm : .overridden tag ∉ us := fun overridden =>
      foreseen.settled tag (List.mem_append_left _ overridden) later
    rw [Use.mem_after, or_iff_left calm]
    exact foreseen.agreed tag later

end Foreseen

/-! ## Translation -/

section Bodies

variable {before : List Tag} {scope : Scope}

theorem target_foreseen {b : List Tag} {declared : Option ElementType} {tag : Tag} {e : Expr}
    {t : ElementType} (single : ∀ p, declared = some p → p = .f32)
    (ready : Ready b declared (.convert tag e t))
    (foreseen : Foreseen before b ((Expr.convert tag e t).uses declared)) :
    (if tag ∈ after b (wrapperUses tag t e) then some .f32 else none : Option ElementType).getD t =
      if tag ∈ before then .f32 else ((wrapped? t e).or declared).getD t := by
  by_cases alone : ((wrapped? t e).or declared).getD t = .f32
  · rw [target_single ready alone, alone, ite_self]
  · rw [uses, if_neg alone] at foreseen
    have agreed := foreseen.right.agreed tag (List.mem_append_left _ List.mem_cons_self)
    rw [target_own single alone]
    simp only [agreed]
    split <;> rfl

mutual
theorem translate_casts : ∀ (e : Expr) (declared : Option ElementType) {b : List Tag} {d f : Draft}
    {t : Term}, translate scope e d = .ok (t, f) → Tracks b d.overrides →
    (∀ p, declared = some p → p = .f32) → Ready b declared e →
    Foreseen before b (e.uses declared) →
    List.Forall₂ (IsWritten before) (e.targets declared) t.casts
  | .constant v, _, b, d, f, t, run, _, _, _, _ => by
    rw [(literal_isLiteral v (translate_constant_ok run).2).casts]
    exact .nil
  | .parameter p, _, b, d, f, t, run, _, _, _, _ => by
    obtain ⟨operand, _, rfl, _⟩ := translate_parameter_ok run
    rw [operand_casts]
    exact .nil
  | .binary op l r u, _, b, d, f, t, run, tracks, _, _, foreseen => by
    obtain ⟨_, first, second, c, rfl, ⟨product, right, left⟩ | ⟨other, left, right⟩⟩ :=
      translate_binary_ok run
    · rw [uses, if_pos product] at foreseen
      rw [targets, if_pos product]
      exact List.rel_append
        (translate_casts r none right tracks nofun (ready_none _ r) foreseen.left)
        (translate_casts l none left (translate_tracks r none right tracks) nofun (ready_none _ l)
          foreseen.right)
    · rw [uses, if_neg other] at foreseen
      rw [targets, if_neg other]
      exact List.rel_append
        (translate_casts l none left tracks nofun (ready_none _ l) foreseen.left)
        (translate_casts r none right (translate_tracks l none left tracks) nofun (ready_none _ r)
          foreseen.right)
  | .negate e u, _, b, d, f, t, run, tracks, _, _, foreseen => by
    obtain ⟨inner, translated, kind⟩ := translate_negate_ok run
    have written := translate_casts e none translated tracks nofun (ready_none _ e) foreseen
    rcases kind with ⟨_, rfl⟩ | ⟨_, rfl⟩
    · exact written
    · exact written
  | .convert tag e u, declared, b, d, f, t, run, tracks, single, ready, foreseen => by
    obtain ⟨c, k, inner, wrapped, scalar, typed, translated, rfl⟩ := translate_convert_ok run
    -- The type is read between the overrides around the operand and the operand itself.
    have overridden := tracks_of_lockstep
      (fun _ _ => overrideWrapper_lockstep tag tag u rfl) wrapped tracks
    rw [overridden tag, target_foreseen single ready foreseen] at scalar typed
    obtain ⟨written, scalar'⟩ := typeOf_written scalar typed
    have inside : Foreseen before (after b (wrapperUses tag u e)) (e.uses none) := by
      rw [uses] at foreseen
      have later := foreseen.right.right
      split at later <;> exact later
    rw [targets, Term.casts, if_pos scalar', Term.castsAll, Term.castsAll, List.append_nil]
    exact .cons written
      (translate_casts e none translated overridden nofun (ready_none _ e) inside)
  | .member target name u, _, b, d, f, t, run, tracks, _, _, foreseen => by
    obtain ⟨container, access, v, c, c', inner, chain, followed, translated, rfl⟩ :=
      translate_member_ok run
    have written := translate_casts target none translated (reached_tracks chain followed tracks)
      nofun (ready_none _ target) foreseen
    rw [Term.casts]
    split
    · exact written
    · exact written
  | .index a i u, _, b, d, f, t, run, tracks, _, _, foreseen => by
    obtain ⟨source, slot, c, inner, rfl, bound, translated, rfl⟩ := translate_index_ok run
    have reached := (neutral_bindArray _ _ source).tracks bound tracks
    have written := translate_casts i none translated reached nofun (ready_none _ i) foreseen
    split
    · exact written
    · exact written
  | .construct r args, _, b, d, f, t, run, tracks, _, _, foreseen => by
    obtain ⟨_, k, c, terms, typed, translated, rfl⟩ := translate_construct_ok run
    obtain ⟨name, _, rfl⟩ := RecordNames.typeOf_record_ok.mp (valueType_ok.mp typed).2
    have reached := (neutral_valueType _ _ r.type).tracks typed tracks
    exact translateAll_casts args [] translated reached nofun (readyAll_nil _ args) foreseen
  | .call fn args u, _, b, d, f, t, run, tracks, _, _, foreseen => by
    obtain ⟨c, terms, overridden, translated, rfl⟩ := translate_call_ok run
    have reached := tracks_of_lockstep (fun _ _ => overrideCall_lockstep fn rfl) overridden tracks
    rw [uses] at foreseen
    -- All arguments are overridden before the first of them is translated.
    exact translateAll_casts args fn.parameters translated reached fn.parameters_single
      (readyAll_arguments args _ fn.parameters_single fun tag used =>
        Use.mem_after.mpr (.inr used)) foreseen.right
  | .select .., _, _, _, _, _, run, _, _, _, _ => (translate_query_ok (.inl rfl) run).elim
  | .zip .., _, _, _, _, _, run, _, _, _, _ => (translate_query_ok (.inl rfl) run).elim
  | .array a, _, _, _, _, _, run, _, _, _, _ => (translate_query_ok (.inr ⟨a, rfl⟩) run).elim

theorem translateAll_casts : ∀ (es : List Expr) (declared : List ElementType) {b : List Tag}
    {d f : Draft} {ts : List Term}, translateAll scope es d = .ok (ts, f) → Tracks b d.overrides →
    (∀ p ∈ declared, p = .f32) → ReadyAll b declared es →
    Foreseen before b (usesAll declared es) →
    List.Forall₂ (IsWritten before) (targetsAll declared es) (Term.castsAll ts)
  | [], _, b, d, f, ts, run, _, _, _, _ => by
    obtain ⟨rfl, _⟩ := pure_ok.mp run
    exact .nil
  | e :: rest, declared, b, d, f, ts, run, tracks, single, ready, foreseen => by
    obtain ⟨head, tail, c, first, others, rfl⟩ := translateAll_cons_ok run
    rw [usesAll] at foreseen
    have later : ∀ tag ∈ b, tag ∈ after b (e.uses declared.head?) :=
      fun tag member => Use.mem_after.mpr (.inl member)
    exact List.rel_append
      (translate_casts e _ first tracks (fun p head => single p (List.mem_of_mem_head? head)) ready.1
        foreseen.left)
      (translateAll_casts rest _ others (translate_tracks e _ first tracks)
        (fun p tail => single p (List.mem_of_mem_tail tail)) (ready.2.mono later) foreseen.right)
end

end Bodies

theorem IsStatement.casts {before : List Tag} {body : Expr} {l : Let}
    (statement : IsStatement before body l) (separate : body.conversions.Nodup) :
    List.Forall₂ (IsWritten before) (body.targets none) l.value.casts := by
  obtain ⟨scope, c, d, _, tracks, translated⟩ := statement.value
  exact translate_casts body none translated tracks nofun (ready_none _ body)
    ⟨uses_settled body none nofun separate, fun _ _ => Iff.rfl⟩

section Places

variable {overridden : List Tag} {cs : List Conversion} {ks : List KernelType}

theorem places_iff (written : List.Forall₂ (IsWritten overridden) cs ks) :
    List.Forall₂ (IsWritten []) cs ks ↔ ∀ c ∈ cs, c.tag ∈ overridden → c.target = .f32 := by
  induction written with
  | nil => simp
  | cons first _ ih => rw [List.forall₂_cons, first.place_iff, ih, List.forall_mem_cons]

theorem doubles_overridden (written : List.Forall₂ (IsWritten overridden) cs ks) :
    ∀ c ∈ cs, c.target = .f64 → c.tag ∈ overridden := by
  induction written with
  | nil => simp
  | cons first _ ih => exact List.forall_mem_cons.mpr ⟨first.double, ih⟩

end Places

/-- Every body has its statement. Where no conversion of the body has two places, each is written with
the type that its place gives it, or with single precision if an earlier body has it overridden. So
they all follow their places exactly if none of those overridden before has another type at its place,
and one that comes out as double precision is overridden before. -/
theorem compile_casts {root : Expr} {workgroupSize : Nat} {p : Program}
    (compiled : compile workgroupSize root = .ok p) :
    p.lets.length = root.bodies.length ∧
      ∀ position body l, root.bodies[position]? = some body → p.lets[position]? = some l →
        body.conversions.Nodup →
          List.Forall₂ (IsWritten (root.overriddenBefore position)) (body.targets none)
            l.value.casts ∧
          (FollowsPlaces body l.value ↔ ∀ c ∈ body.targets none,
            c.tag ∈ root.overriddenBefore position → c.target = .f32) ∧
          ∀ c ∈ body.targets none, c.target = .f64 → c.tag ∈ root.overriddenBefore position := by
  have statements := compile_statements compiled
  refine ⟨statements.length, fun position body l known found separate => ?_⟩
  have written := (statements.get known found).casts separate
  exact ⟨written, places_iff written, doubles_overridden written⟩

def sineThenSum : Expr :=
  let values : SharedArray := ⟨1, .ofList [Single.mk 0x3f000000, Single.mk 0x40300000]⟩
  let x : Parameter := ⟨"x", .f32⟩
  let cut : Expr := .convert 3 (.parameter x) .i32
  .select 5 (.select 2 (.array values) [x] (.call .sin [cut] .f32)) [x]
    (.binary .add (.parameter x) (.convert 4 cut .f32) .f32)

/-- The second body is written as if its conversion were an argument of the sine too. -/
theorem sineThenSum_casts : ∃ p, compile 256 sineThenSum = .ok p ∧
    Program.letLines p.lets =
      ["let v1: f32 = sin(f32(buf0[gid.x]));", "let v2: f32 = (v1 + f32(f32(v1)));"] ∧
    ∃ body l, sineThenSum.bodies[1]? = some body ∧ p.lets[1]? = some l ∧ body.conversions.Nodup ∧
      ¬FollowsPlaces body l.value := by
  have compiled : compile 256 sineThenSum = .ok _ := rfl
  have separate : (sineThenSum.bodies.getD 1 sineThenSum).conversions.Nodup := by decide
  refine ⟨_, compiled, rfl, _, _, rfl, rfl, separate, fun follows => ?_⟩
  obtain ⟨_, places, _⟩ := (compile_casts compiled).2 1 _ _ rfl rfl separate
  have kept := places.mp follows ⟨3, .i32⟩ (.tail _ (.head _)) (by decide)
  exact nomatch kept

end Kernel
end ArrayQuery
