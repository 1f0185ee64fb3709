import ArrayQuery.Kernel.Program
import Mathlib.Data.List.Forall2

/-! Texts that tell apart what they are written for, whatever follows them. -/

set_option autoImplicit false
namespace ArrayQuery.Kernel

/-- Whether equal texts mean that two things are equal, and so is what follows them. -/
def Cancels {α : Type} (text : α → List Char) (a b : α) : Prop :=
  ∀ x y, text a ++ x = text b ++ y → a = b ∧ x = y

variable {α : Type} {text : α → List Char}

theorem cancels_refl (a : α) : Cancels text a a :=
  fun _ _ same => ⟨rfl, List.append_cancel_left same⟩

theorem cancels_of_head {a b : α} {c d : Char} {rest rest' : List Char} (first : text a = c :: rest)
    (second : text b = d :: rest') (apart : c ≠ d) : Cancels text a b := by
  intro x y same
  rw [first, second] at same
  exact absurd (List.cons.inj same).1 apart

namespace Term

def chars (t : Term) : List Char :=
  t.text.toList

def argumentChars (ts : List Term) : List Char :=
  (", ".intercalate (textAll ts)).toList

def Alike (t t' : Term) : Prop :=
  Cancels chars t t'

variable {t t' l l' r r' : Term}

theorem alike_around {f : Term → Term} (before after : List Char)
    (spelled : ∀ t, chars (f t) = before ++ (chars t ++ after)) (inner : Alike t t') :
    Alike (f t) (f t') := by
  intro x y same
  simp only [spelled, List.append_assoc, List.append_cancel_left_eq] at same
  obtain ⟨rfl, rest⟩ := inner _ _ same
  exact ⟨rfl, List.append_cancel_left rest⟩

theorem alike_index (slot : Nat) (inner : Alike t t') : Alike (.index slot t) (.index slot t') :=
  alike_around ((Variable.buffer slot).name.toList ++ ['[']) [']'] (fun t => by simp [chars, text])
    inner

theorem alike_nonzero (inner : Alike t t') : Alike (.nonzero t) (.nonzero t') :=
  alike_around ['('] [' ', '!', '=', ' ', '0', 'u', ')'] (fun t => by simp [chars, text]) inner

theorem alike_negate (inner : Alike t t') : Alike (.negate t) (.negate t') :=
  alike_around ['(', '-'] [')'] (fun t => by simp [chars, text]) inner

theorem alike_negateMatrix (inner : Alike t t') : Alike (.negateMatrix t) (.negateMatrix t') :=
  alike_around ['(', '-', '1', '.', '0', 'f', ' ', '*', ' '] [')'] (fun t => by simp [chars, text])
    inner

theorem alike_group (inner : Alike t t') : Alike (.group t) (.group t') :=
  alike_around ['('] [')'] (fun t => by simp [chars, text]) inner

theorem alike_access (inner : Alike t t') (a : Access) : Alike (.access t a) (.access t' a) :=
  alike_around (f := (access · a)) [] a.text.toList (fun t => by simp [chars, text]) inner

theorem alike_binary (op : BinaryOp) (left : Alike l l') (right : Alike r r') :
    Alike (.binary op l r) (.binary op l' r') := by
  intro x y same
  simp only [chars, text_binary, String.toList_append, List.append_assoc,
    List.append_cancel_left_eq] at same
  obtain ⟨rfl, more⟩ := left _ _ same
  simp only [List.append_cancel_left_eq] at more
  obtain ⟨rfl, rest⟩ := right _ _ more
  exact ⟨rfl, List.append_cancel_left rest⟩

theorem alike_arguments {ts ts' : List Term} (each : List.Forall₂ Alike ts ts') :
    Cancels argumentChars ts ts' := by
  induction each with
  | nil => exact cancels_refl []
  | @cons t t' ts ts' first rest ih =>
    intro x y same
    cases rest with
    | nil =>
      simp only [argumentChars, textAll, String.intercalate_singleton] at same
      obtain ⟨rfl, more⟩ := first _ _ same
      exact ⟨rfl, more⟩
    | @cons u u' us us' second others =>
      have spelled : ∀ v w ws, argumentChars (v :: w :: ws) =
          chars v ++ (", ".toList ++ argumentChars (w :: ws)) := by
        intro v w ws
        simp [argumentChars, textAll, chars]
      simp only [spelled, List.append_assoc] at same
      obtain ⟨rfl, more⟩ := first _ _ same
      obtain ⟨same', last⟩ := ih _ _ (List.append_cancel_left more)
      exact ⟨congrArg (t :: ·) same', last⟩

theorem alike_call {c c' : Callee} (callee : Cancels (fun c => c.text.toList) c c')
    {ts ts' : List Term} (each : List.Forall₂ Alike ts ts') : Alike (.call c ts) (.call c' ts') := by
  intro x y same
  simp only [chars, text, String.toList_append, List.append_assoc] at same
  obtain ⟨rfl, opened⟩ := callee _ _ same
  simp only [List.append_cancel_left_eq] at opened
  obtain ⟨rfl, closed⟩ := alike_arguments each _ _ opened
  exact ⟨rfl, List.append_cancel_left closed⟩

end Term
end ArrayQuery.Kernel
