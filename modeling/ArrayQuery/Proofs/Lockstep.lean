import ArrayQuery.Proofs.Runs
import ArrayQuery.Proofs.Sharing

/-! Two compilations side by side, which differ in the conversions that are overridden. -/

set_option autoImplicit false
namespace ArrayQuery.Kernel.Compile

variable {α β : Type}

/-- What two runs come to: both succeed, with related results, or both fail. The first may succeed
alone where that is allowed. -/
def Outcome (post : α → α → Draft → Draft → Prop) (alone : Prop) :
    Except ComputeError (α × Draft) → Except ComputeError (α × Draft) → Prop
  | .ok (a, d), .ok (a', d') => post a a' d d'
  | .ok _, .error _ => alone
  | .error _, .ok _ => False
  | .error _, .error _ => True

def Lockstep (pre : Draft → Draft → Prop) (m m' : Compile α) (post : α → α → Draft → Draft → Prop)
    (alone : Prop) : Prop :=
  ∀ d d', pre d d' → Outcome post alone (m d) (m' d')

variable {pre : Draft → Draft → Prop} {m m' : Compile α} {f f' : α → Compile β}
  {mid post : α → α → Draft → Draft → Prop} {alone : Prop}

theorem lockstep_bind {last : β → β → Draft → Draft → Prop} (first : Lockstep pre m m' mid alone)
    (rest : ∀ a a', Lockstep (mid a a') (f a) (f' a') last alone) :
    Lockstep pre (m >>= f) (m' >>= f') last alone := by
  intro d d' related
  have reached := first d d' related
  change Outcome last alone (Except.bind (m d) fun p => f p.1 p.2)
    (Except.bind (m' d') fun p => f' p.1 p.2)
  cases run : m d with
  | error cause =>
    cases run' : m' d' with
    | error cause' => trivial
    | ok p' =>
      rw [run, run'] at reached
      exact reached.elim
  | ok p =>
    cases run' : m' d' with
    | error cause' =>
      rw [run, run'] at reached
      -- The second has failed. The first fails later on as well, or is allowed to succeed alone.
      simp only [Except.bind]
      cases f p.1 p.2 with
      | error _ => trivial
      | ok _ => exact reached
    | ok p' =>
      rw [run, run'] at reached
      exact rest p.1 p'.1 p.2 p'.2 reached

theorem lockstep_weaken {post' : α → α → Draft → Draft → Prop} {alone' : Prop}
    (held : Lockstep pre m m' post alone) (after : ∀ a a' d d', post a a' d d' → post' a a' d d')
    (allowed : alone → alone') : Lockstep pre m m' post' alone' := by
  intro d d' related
  have reached := held d d' related
  cases run : m d with
  | error cause =>
    cases run' : m' d' with
    | error cause' => trivial
    | ok p' => rwa [run, run'] at reached
  | ok p =>
    cases run' : m' d' with
    | error cause' =>
      rw [run, run'] at reached
      exact allowed reached
    | ok p' =>
      rw [run, run'] at reached
      exact after _ _ _ _ reached

theorem lockstep_pure {a a' : α} (held : ∀ d d', pre d d' → post a a' d d') :
    Lockstep pre (pure a : Compile α) (pure a') post alone :=
  held

theorem lockstep_known {fact : Prop} (held : fact → Lockstep pre m m' post alone) :
    Lockstep (fun d d' => fact ∧ pre d d') m m' post alone :=
  fun d d' related => held related.1 d d' related.2

theorem lockstep_refuse (node node' : Expr) (cause cause' : Unsupported) :
    Lockstep pre (refuse node cause : Compile α) (refuse node' cause') post alone :=
  fun _ _ _ => trivial

theorem lockstep_guard {c : Prop} [Decidable c] {node node' : Expr} {cause cause' : Unsupported}
    {g g' : Unit → Compile α} (rest : ¬c → Lockstep pre (g ()) (g' ()) post alone) :
    Lockstep pre (if c then refuse node cause >>= g else g ())
      (if c then refuse node' cause' >>= g' else g' ()) post alone := by
  by_cases refused : c
  · simp only [refused, if_true]
    exact fun _ _ _ => trivial
  · simp only [refused, if_false]
    exact rest refused

/-- Whether two operations come to the same from related drafts, and leave the drafts related. -/
def Agree (related : Draft → Draft → Prop) (m m' : Compile α) : Prop :=
  Lockstep related m m' (fun a a' d d' => a = a' ∧ related d d') False

variable {related : Draft → Draft → Prop}

theorem Agree.bind (first : Agree related m m') (rest : ∀ a, Agree related (f a) (f' a)) :
    Agree related (m >>= f) (m' >>= f') := by
  apply lockstep_bind first
  intro a a'
  apply lockstep_known
  rintro rfl
  exact rest a

theorem Agree.cases {d d' : Draft} (agree : Agree related m m') (held : related d d') :
    (∃ cause cause', m d = .error cause ∧ m' d' = .error cause') ∨
      ∃ a e e', m d = .ok (a, e) ∧ m' d' = .ok (a, e') ∧ related e e' := by
  have reached := agree d d' held
  cases run : m d with
  | error cause =>
    cases run' : m' d' with
    | error cause' => exact .inl ⟨cause, cause', rfl, rfl⟩
    | ok p' =>
      rw [run, run'] at reached
      exact reached.elim
  | ok p =>
    cases run' : m' d' with
    | error cause' =>
      rw [run, run'] at reached
      exact reached.elim
    | ok p' =>
      rw [run, run'] at reached
      obtain ⟨same, after⟩ := reached
      exact .inr ⟨p.1, p.2, p'.2, rfl, by rw [same], after⟩

theorem agree_pure (a : α) : Agree related (pure a) (pure a) :=
  lockstep_pure fun _ _ held => ⟨rfl, held⟩

theorem agree_refuse (node node' : Expr) (cause cause' : Unsupported) :
    Agree related (refuse node cause : Compile α) (refuse node' cause') :=
  lockstep_refuse node node' cause cause'

theorem agree_get {k k' : Draft → Compile α}
    (rest : ∀ d d', related d d' → Agree related (k d) (k' d')) :
    Agree related (do k (← get)) (do k' (← get)) :=
  fun d d' held => rest d d' held d d' held

theorem agree_modify {g g' : Draft → Draft} (kept : ∀ d d', related d d' → related (g d) (g' d')) :
    Agree related (modify g) (modify g') :=
  fun d d' held => ⟨rfl, kept d d' held⟩

structure SharesRecords (related : Draft → Draft → Prop) : Prop where
  same : ∀ {d d'}, related d d' → d'.records = d.records
  added : ∀ {d d'} (names : RecordNames) (s : Struct), related d d' →
    related { d with records := names, structs := d.structs ++ [s] }
      { d' with records := names, structs := d'.structs ++ [s] }

section
variable (shared : SharesRecords related)
include shared

theorem agree_names (g : RecordNames → Except ComputeError α) :
    Agree related (do g (← get).records) (do g (← get).records) := by
  intro d d' held
  change Outcome _ _ (Except.bind (g d.records) fun a => .ok (a, d))
    (Except.bind (g d'.records) fun a => .ok (a, d'))
  rw [shared.same held]
  cases g d.records with
  | error cause => trivial
  | ok a => exact ⟨rfl, held⟩

theorem agree_addStruct (r : RecordType) (fields : List (String × KernelType)) :
    Agree related (addStruct r fields) (addStruct r fields) := by
  apply agree_modify
  intro d d' held
  rw [shared.same held]
  exact shared.added _ _ held

theorem agree_typeOf (t : ElementType) : Agree related (typeOf t) (typeOf t) :=
  agree_names shared fun names => names.typeOf t

mutual
theorem agree_declare (node node' : Expr) : ∀ t : ElementType,
    Agree related (declare node t) (declare node' t)
  | .leaf _ => agree_pure ()
  | .record name fields => by
    unfold declare
    apply agree_get
    intro d d' held
    rw [shared.same held]
    cases d.records.get? ⟨name, fields⟩ with
    | some _ => exact agree_pure ()
    | none =>
      exact (agree_declareFields node node' name fields).bind fun members =>
        agree_addStruct shared ⟨name, fields⟩ members

theorem agree_declareFields (node node' : Expr) (record : String) :
    ∀ fields : List (String × ElementType),
      Agree related (declareFields node record fields) (declareFields node' record fields)
  | [] => agree_pure []
  | (field, t) :: rest => by
    unfold declareFields
    apply lockstep_guard
    intro _
    exact (agree_declare node node' t).bind fun _ => (agree_typeOf shared t).bind fun _ =>
      (agree_declareFields node node' record rest).bind fun _ => agree_pure _
end

theorem agree_valueType (node node' : Expr) (t : ElementType) :
    Agree related (valueType node t) (valueType node' t) :=
  (agree_declare shared node node' t).bind fun _ => agree_typeOf shared t

theorem agree_storageType (node node' : Expr) (t : ElementType) :
    Agree related (storageType node t) (storageType node' t) :=
  (agree_declare shared node node' t).bind fun _ => agree_names shared fun names =>
    names.storageOf t

theorem agree_follow (node node' : Expr) (container : ElementType) (name : String) :
    Agree related (follow node container name) (follow node' container name) := by
  unfold follow
  cases accessOf container name with
  | none => exact agree_refuse node node' _ _
  | some a =>
    cases container.member? name with
    | none => exact agree_refuse node node' _ _
    | some t => exact (agree_declare shared node node' t).bind fun _ => agree_pure _

end

def Tracks (overridden : List Tag) (overrides : List (Tag × ElementType)) : Prop :=
  ∀ tag, overrides.lookup tag = if tag ∈ overridden then some .f32 else none

/-- Whether two drafts have all but the overrides and the statements in common, and the steps are
those that there were. -/
structure Alongside (base base' : Draft) (b b' : List Tag) (d d' : Draft) : Prop where
  records : d'.records = d.records
  structs : d'.structs = d.structs
  inputs : d'.inputs = d.inputs
  steps : d'.steps = d.steps
  sourceCount : d'.sourceCount = d.sourceCount
  lets : d.lets = base.lets
  copied : d'.lets = base'.lets
  kept : d.steps = base.steps
  tracks : Tracks b d.overrides
  copies : Tracks b' d'.overrides

theorem Alongside.shares {base base' : Draft} {b b' : List Tag} :
    SharesRecords (Alongside base base' b b') where
  same related := related.records
  added _ s related := ⟨rfl, congrArg (· ++ [s]) related.structs, related.inputs, related.steps,
    related.sourceCount, related.lets, related.copied, related.kept, related.tracks, related.copies⟩

def Neutral (m m' : Compile α) : Prop :=
  ∀ base base' b b', Lockstep (Alongside base base' b b') m m'
    (fun a a' d d' => a = a' ∧ Alongside base base' b b' d d') False

theorem Neutral.bind (first : Neutral m m') (rest : ∀ a, Neutral (f a) (f' a)) :
    Neutral (m >>= f) (m' >>= f') :=
  fun base base' b b' => Agree.bind (first base base' b b') fun a => rest a base base' b b'

theorem neutral_pure (a : α) : Neutral (pure a) (pure a) :=
  fun _ _ _ _ => agree_pure a

theorem neutral_names (g : RecordNames → Except ComputeError α) :
    Neutral (do g (← get).records) (do g (← get).records) :=
  fun _ _ _ _ => agree_names Alongside.shares g

theorem neutral_get {k k' : Draft → Compile α}
    (rest : ∀ {base base' b b' d d'}, Alongside base base' b b' d d' → Neutral (k d) (k' d')) :
    Neutral (do k (← get)) (do k' (← get)) :=
  fun base base' b b' d d' related => rest related base base' b b' d d' related

theorem neutral_typeOf (t : ElementType) : Neutral (typeOf t) (typeOf t) :=
  fun _ _ _ _ => agree_typeOf Alongside.shares t

theorem neutral_declare (node node' : Expr) (t : ElementType) :
    Neutral (declare node t) (declare node' t) :=
  fun _ _ _ _ => agree_declare Alongside.shares node node' t

theorem neutral_valueType (node node' : Expr) (t : ElementType) :
    Neutral (valueType node t) (valueType node' t) :=
  fun _ _ _ _ => agree_valueType Alongside.shares node node' t

theorem neutral_storageType (node node' : Expr) (t : ElementType) :
    Neutral (storageType node t) (storageType node' t) :=
  fun _ _ _ _ => agree_storageType Alongside.shares node node' t

theorem neutral_bindArray (node node' : Expr) (a : SharedArray) :
    Neutral (bindArray node a) (bindArray node' a) := by
  refine neutral_get fun {_ _ _ _ d _} related => ?_
  dsimp only
  rw [related.inputs]
  cases d.inputs.findIdx? (·.tag == a.tag) with
  | some slot => exact neutral_pure slot
  | none =>
    refine (neutral_storageType node node' a.data.element).bind fun storage => ?_
    refine Neutral.bind ?_ fun _ => neutral_pure _
    intro base base' b b' d d' related
    refine ⟨rfl, related.records, related.structs, ?_, related.steps, related.sourceCount,
      related.lets, related.copied, related.kept, related.tracks, related.copies⟩
    simp only [related.inputs]

theorem neutral_follow (node node' : Expr) (container : ElementType) (name : String) :
    Neutral (follow node container name) (follow node' container name) :=
  fun _ _ _ _ => agree_follow Alongside.shares node node' container name

end ArrayQuery.Kernel.Compile
