import ArrayQuery.Kernel.Translate
import ArrayQuery.Tree.Builder

/-! Operands that are brought together. Two scalars come to a common type, which does not depend on their
order, and a scalar beside anything else becomes a single; what has been brought together stays as it
is, and numbers that have been have all operators. -/

set_option autoImplicit false
namespace ArrayQuery

namespace ElementType

theorem rank_injective {s t : ElementType} (scalar : s.isScalar = true) (scalar' : t.isScalar = true)
    (same : s.rank = t.rank) : s = t := by
  have leaves : ∀ l m : Leaf, l.isScalar = true → m.isScalar = true →
      (leaf l).rank = (leaf m).rank → l = m := by
    intro l m
    cases l <;> cases m <;> decide
  cases s with
  | record => exact nomatch scalar
  | leaf l =>
    cases t with
    | record => exact nomatch scalar'
    | leaf m => rw [leaves l m scalar scalar' same]

theorem rank_wider (s t : ElementType) : (s.wider t).rank = max s.rank t.rank := by
  unfold wider
  split
  · next below => exact (Nat.max_eq_left below).symm
  · next above => exact (Nat.max_eq_right (Nat.le_of_not_le above)).symm

theorem wider_choice (s t : ElementType) : s.wider t = s ∨ s.wider t = t := by
  unfold wider
  split
  · exact .inl rfl
  · exact .inr rfl

def IsNumeric (t : ElementType) : Prop :=
  t = i32 ∨ t = u32 ∨ t = f32

theorem IsNumeric.scalar {t : ElementType} (numeric : t.IsNumeric) : t.isScalar = true := by
  rcases numeric with rfl | rfl | rfl <;> rfl

theorem IsNumeric.operators {t : ElementType} (numeric : t.IsNumeric) (op : BinaryOp) :
    Kernel.isOperatorDefined op t t = true :=
  if_pos ⟨rfl, numeric⟩

end ElementType

theorem Value.retype_type {v w : Value} {t : ElementType} (retyped : v.retype t = some w) :
    w.type = t := by
  unfold retype at retyped
  dsimp only at retyped
  split at retyped <;> cases retyped <;> rfl

namespace Expr

theorem conform_own (tag : Tag) {t : ElementType} {e : Expr} (own : e.type = t) :
    e.conform tag t = e :=
  if_pos (.inl own)

theorem conform_type (tag : Tag) {t : ElementType} {e : Expr} (scalar : e.type.isScalar = true)
    (scalar' : t.isScalar = true) : (e.conform tag t).type = t := by
  unfold conform
  split
  · next same => simpa [scalar, scalar'] using same
  · split
    · split
      · next retyped => exact Value.retype_type retyped
      · rfl
    · rfl

/-- The type that two scalars come to: a literal takes that of the other one, and otherwise the wider
one wins. -/
def commonType (l r : Expr) : ElementType :=
  match l.isConstant, r.isConstant with
  | false, true => l.type
  | true, false => r.type
  | _, _ => l.type.wider r.type

theorem commonType_choice (l r : Expr) : commonType l r = l.type ∨ commonType l r = r.type := by
  unfold commonType
  split
  · exact .inl rfl
  · exact .inr rfl
  · exact ElementType.wider_choice _ _

variable {l r : Expr}

theorem commonType_comm (scalar : l.type.isScalar = true) (scalar' : r.type.isScalar = true) :
    commonType r l = commonType l r := by
  have wider : r.type.wider l.type = l.type.wider r.type := by
    apply ElementType.rank_injective
    · rcases r.type.wider_choice l.type with same | same <;> rw [same] <;> assumption
    · rcases l.type.wider_choice r.type with same | same <;> rw [same] <;> assumption
    · rw [ElementType.rank_wider, ElementType.rank_wider, Nat.max_comm]
  unfold commonType
  cases l.isConstant <;> cases r.isConstant <;> first | rfl | exact wider

theorem commonType_scalar (scalar : l.type.isScalar = true) (scalar' : r.type.isScalar = true) :
    (commonType l r).isScalar = true := by
  rcases commonType_choice l r with same | same <;> rw [same] <;> assumption

theorem coercePair_scalars (i j : Tag) (scalar : l.type.isScalar = true)
    (scalar' : r.type.isScalar = true) :
    coercePair i j l r = (l.conform i (commonType l r), r.conform j (commonType l r)) := by
  unfold coercePair
  split
  · next same =>
    -- Operands of one type are left as they are, and so they are by conforming to their own type.
    have common : commonType l r = l.type := by
      rcases commonType_choice l r with own | own
      · exact own
      · exact own.trans same.symm
    rw [common, conform_own i rfl, conform_own j same.symm]
  · rw [scalar, scalar']
    unfold commonType
    cases l.isConstant <;> cases r.isConstant
    · rfl
    · simp only [conform_own i rfl]
    · simp only [conform_own j rfl]
    · rfl

theorem coercePair_left (i j : Tag) (scalar : l.type.isScalar = true)
    (other : r.type.isScalar = false) : coercePair i j l r = (l.conform i .f32, r) := by
  have apart : l.type ≠ r.type := by
    intro same
    rw [same, other] at scalar
    exact nomatch scalar
  rw [coercePair, if_neg apart, scalar, other]

theorem coercePair_right (i j : Tag) (other : l.type.isScalar = false)
    (scalar : r.type.isScalar = true) : coercePair i j l r = (l, r.conform j .f32) := by
  have apart : l.type ≠ r.type := by
    intro same
    rw [← same, other] at scalar
    exact nomatch scalar
  rw [coercePair, if_neg apart, scalar, other]

theorem coercePair_others (i j : Tag) (other : l.type.isScalar = false)
    (other' : r.type.isScalar = false) : coercePair i j l r = (l, r) := by
  unfold coercePair
  split
  · rfl
  · rw [other, other']

theorem coercePair_swap (i j : Tag) (l r : Expr) :
    coercePair j i r l = ((coercePair i j l r).2, (coercePair i j l r).1) := by
  cases scalar : l.type.isScalar <;> cases scalar' : r.type.isScalar
  · rw [coercePair_others i j scalar scalar', coercePair_others j i scalar' scalar]
  · rw [coercePair_right i j scalar scalar', coercePair_left j i scalar' scalar]
  · rw [coercePair_left i j scalar scalar', coercePair_right j i scalar' scalar]
  · rw [coercePair_scalars i j scalar scalar', coercePair_scalars j i scalar' scalar,
      commonType_comm scalar scalar']

theorem coercePair_twice (i j k m : Tag) (l r : Expr) :
    coercePair k m (coercePair i j l r).1 (coercePair i j l r).2 = coercePair i j l r := by
  cases scalar : l.type.isScalar <;> cases scalar' : r.type.isScalar
  · rw [coercePair_others i j scalar scalar', coercePair_others k m scalar scalar']
  · have single := conform_type j (t := .f32) scalar' rfl
    rw [coercePair_right i j scalar scalar', coercePair_right k m scalar (by rw [single]; rfl),
      conform_own m single]
  · have single := conform_type i (t := .f32) scalar rfl
    rw [coercePair_left i j scalar scalar', coercePair_left k m (by rw [single]; rfl) scalar',
      conform_own k single]
  · -- Whether what came out is a literal does not matter any more, for the types are equal.
    have common := commonType_scalar scalar scalar'
    have left := conform_type i scalar common
    have right := conform_type j scalar' common
    rw [coercePair_scalars i j scalar scalar', coercePair, if_pos (left.trans right.symm)]

/-- How operands, what they are brought to, and the type of an operator over them belong together. -/
structure AreCoerced (l r l' r' : Expr) (t : ElementType) : Prop where
  common : l.type.isScalar = true → r.type.isScalar = true → l'.type = t ∧ r'.type = t
  literal : l.type.isScalar = true → r.type.isScalar = true → l.isConstant ≠ r.isConstant →
    t = if l.isConstant = true then r.type else l.type
  wider : l.type.isScalar = true → r.type.isScalar = true → l.isConstant = r.isConstant →
    (t = l.type ∨ t = r.type) ∧ t.rank = max l.type.rank r.type.rank
  left : l.type.isScalar = true → r.type.isScalar = false → l'.type = .f32 ∧ r' = r ∧ t = r.type
  right : l.type.isScalar = false → r.type.isScalar = true → r'.type = .f32 ∧ l' = l ∧ t = l.type
  defined : l.type.IsNumeric → r.type.IsNumeric →
    ∀ op, Kernel.isOperatorDefined op l'.type r'.type = true

section Laws

variable (i j : Tag) (op : BinaryOp)

theorem operate_scalars (scalar : l.type.isScalar = true) (scalar' : r.type.isScalar = true) :
    operate i j op l r = binary op (l.conform i (commonType l r)) (r.conform j (commonType l r))
      (commonType l r) := by
  have common := commonType_scalar scalar scalar'
  have left := conform_type i scalar common
  have right := conform_type j scalar' common
  rw [operate, coercePair_scalars i j scalar scalar']
  simp only [left, right, common, Bool.not_true, Bool.and_false, Bool.false_eq_true, if_false]

theorem operate_left (scalar : l.type.isScalar = true) (other : r.type.isScalar = false) :
    operate i j op l r = binary op (l.conform i .f32) r r.type := by
  have single : (l.conform i .f32).type = .f32 := conform_type i scalar rfl
  rw [operate, coercePair_left i j scalar other]
  simp only [single, other]
  rfl

theorem operate_others (other : l.type.isScalar = false) :
    operate i j op l r = binary op l (coercePair i j l r).2 l.type := by
  have kept : (coercePair i j l r).1 = l := by
    cases scalar : r.type.isScalar
    · rw [coercePair_others i j other scalar]
    · rw [coercePair_right i j other scalar]
  rw [operate]
  simp only [kept, other, Bool.false_and, Bool.false_eq_true, if_false]

theorem areCoerced_scalars (scalar : l.type.isScalar = true) (scalar' : r.type.isScalar = true) :
    AreCoerced l r (l.conform i (commonType l r)) (r.conform j (commonType l r)) (commonType l r) := by
  have common := commonType_scalar scalar scalar'
  have left := conform_type i scalar common
  have right := conform_type j scalar' common
  refine ⟨fun _ _ => ⟨left, right⟩, fun _ _ one => ?_, fun _ _ alike => ?_,
    fun _ other => ?_, fun other _ => ?_, fun numeric numeric' op => ?_⟩
  · unfold commonType
    cases literal : l.isConstant <;> cases literal' : r.isConstant
    · exact absurd (literal.trans literal'.symm) one
    · rfl
    · rfl
    · exact absurd (literal.trans literal'.symm) one
  · have widest : commonType l r = l.type.wider r.type := by
      unfold commonType
      cases literal : l.isConstant <;> rw [← alike, literal]
    rw [widest]
    exact ⟨ElementType.wider_choice _ _, ElementType.rank_wider _ _⟩
  · exact absurd (scalar'.symm.trans other) nofun
  · exact absurd (scalar.symm.trans other) nofun
  · have both : (commonType l r).IsNumeric := by
      rcases commonType_choice l r with same | same <;> rw [same] <;> assumption
    rw [left, right]
    exact both.operators op

/-- Where one operand is no scalar, only what is said of a scalar beside it is left. -/
theorem areCoerced_of_other {l' r' : Expr} {t : ElementType}
    (other : l.type.isScalar = false ∨ r.type.isScalar = false)
    (left : l.type.isScalar = true → l'.type = .f32 ∧ r' = r ∧ t = r.type)
    (right : r.type.isScalar = true → r'.type = .f32 ∧ l' = l ∧ t = l.type) :
    AreCoerced l r l' r' t := by
  have apart : l.type.isScalar = true → r.type.isScalar = true → False := by
    intro scalar scalar'
    rcases other with other | other
    · exact absurd (scalar.symm.trans other) nofun
    · exact absurd (scalar'.symm.trans other) nofun
  exact ⟨fun s s' => (apart s s').elim, fun s s' => (apart s s').elim, fun s s' => (apart s s').elim,
    fun s _ => left s, fun _ s' => right s', fun n n' => (apart n.scalar n'.scalar).elim⟩

/-- Operands are brought together in the same way in either order, and once only. Two scalars come to one
type, which is that of the operator over them: of a literal and another expression that of the other,
and else the one of higher rank. A scalar beside anything else becomes a single, and leaves the type to
the other operand. Numbers that kernels calculate with come to operands that all operators are for. -/
theorem operate_coerces (l r : Expr) : ∃ l' r' t, operate i j op l r = binary op l' r' t ∧
    coercePair i j l r = (l', r') ∧ coercePair j i r l = (r', l') ∧
    (∀ k m, coercePair k m l' r' = (l', r')) ∧ AreCoerced l r l' r' t := by
  have swapped := coercePair_swap i j l r
  have settled := fun k m => coercePair_twice i j k m l r
  cases scalar : l.type.isScalar <;> cases scalar' : r.type.isScalar
  · have pair := coercePair_others i j scalar scalar'
    rw [pair] at swapped settled
    refine ⟨l, r, l.type, ?_, pair, swapped, settled, ?_⟩
    · rw [operate_others i j op scalar, pair]
    · refine areCoerced_of_other (.inl scalar) ?_ ?_ <;> simp [scalar, scalar']
  · have pair := coercePair_right i j scalar scalar'
    rw [pair] at swapped settled
    refine ⟨l, r.conform j .f32, l.type, ?_, pair, swapped, settled, ?_⟩
    · rw [operate_others i j op scalar, pair]
    · refine areCoerced_of_other (.inl scalar) (by simp [scalar]) fun _ => ?_
      exact ⟨conform_type j scalar' rfl, rfl, rfl⟩
  · have pair := coercePair_left i j scalar scalar'
    rw [pair] at swapped settled
    refine ⟨l.conform i .f32, r, r.type, operate_left i j op scalar scalar', pair, swapped, settled, ?_⟩
    refine areCoerced_of_other (.inr scalar') (fun _ => ?_) (by simp [scalar'])
    exact ⟨conform_type i scalar rfl, rfl, rfl⟩
  · have pair := coercePair_scalars i j scalar scalar'
    rw [pair] at swapped settled
    exact ⟨_, _, _, operate_scalars i j op scalar scalar', pair, swapped, settled,
      areCoerced_scalars i j scalar scalar'⟩

end Laws

/-- A truth value cannot be retyped: it gets a conversion, and yet the type of the other operand. -/
theorem operate_coerces_truth :
    let truth := constant (.bool true)
    let u := parameter ⟨"u", .u32⟩
    (∃ r', operate 0 1 .add truth u = binary .add (convert 0 truth .u32) r' .u32) ∧
      coercePair 1 0 u truth = (u, convert 0 truth .u32) := by
  intro truth u
  obtain ⟨l', r', t, node, pair, swapped, _, coerced⟩ := operate_coerces 0 1 .add truth u
  have same : l' = convert 0 truth .u32 ∧ r' = u := Prod.mk.inj pair.symm
  have type : t = .u32 := coerced.literal rfl rfl (by decide)
  rw [same.1, type] at node
  rw [swapped, same.1, same.2]
  exact ⟨⟨r', node⟩, rfl⟩

end Expr
end ArrayQuery
