import ArrayQuery.Error
import Mathlib.Order.Bounds.Basic

/-! Text cut between characters. What is kept of a text that is too long ends at the last position within
the budget that lies between two characters, which is where going back byte by byte from the budget ends. -/

set_option autoImplicit false
namespace ArrayQuery

namespace Text

theorem foldl_utf8Size (cs : List Char) (n : Nat) :
    cs.foldl (fun bytes c => bytes + c.utf8Size) n = n + byteCount cs := by
  induction cs generalizing n with
  | nil => rfl
  | cons c cs ih =>
    have tail := ih c.utf8Size
    rw [byteCount, List.foldl_cons, List.foldl_cons, ih, Nat.zero_add, tail, Nat.add_assoc]

@[simp] theorem byteCount_nil : byteCount [] = 0 := rfl

@[simp] theorem byteCount_cons (c : Char) (cs : List Char) :
    byteCount (c :: cs) = c.utf8Size + byteCount cs := by
  rw [byteCount, List.foldl_cons, foldl_utf8Size, Nat.zero_add]

@[simp] theorem byteCount_append (before after : List Char) :
    byteCount (before ++ after) = byteCount before + byteCount after := by
  induction before with
  | nil => simp
  | cons c before ih => simp [ih, Nat.add_assoc]

theorem utf8ByteSize_ofList (cs : List Char) : (String.ofList cs).utf8ByteSize = byteCount cs := by
  induction cs with
  | nil => rfl
  | cons c cs ih =>
    have single : (String.ofList [c]).utf8ByteSize = c.utf8Size := by
      rw [← String.singleton_eq_ofList, String.utf8ByteSize_singleton]
    rw [← List.singleton_append, String.ofList_append, String.utf8ByteSize_append, ih, single,
      List.singleton_append, byteCount_cons]

theorem utf8ByteSize_eq (s : String) : s.utf8ByteSize = byteCount s.toList := by
  rw [← utf8ByteSize_ofList, String.ofList_toList]

theorem eq_of_byteCount {text before before' : List Char} (beginning : before <+: text)
    (beginning' : before' <+: text) (same : byteCount before = byteCount before') : before = before' := by
  have extends_eq : ∀ {short long : List Char}, short <+: long → byteCount short = byteCount long →
      short = long := by
    rintro short _ ⟨rest, rfl⟩ same
    cases rest with
    | nil => exact (List.append_nil short).symm
    | cons c rest =>
      have positive := c.utf8Size_pos
      rw [byteCount_append, byteCount_cons] at same
      omega
  rcases List.prefix_or_prefix_of_prefix beginning beginning' with shorter | longer
  · exact extends_eq shorter same
  · exact (extends_eq longer same.symm).symm

/-- The positions between two characters are those where a beginning of the text ends. -/
theorem isValid_iff {s : String} {p : Nat} :
    String.Pos.Raw.IsValid s ⟨p⟩ ↔ ∃ before, before <+: s.toList ∧ byteCount before = p := by
  rw [String.Pos.Raw.isValid_iff_exists_append]
  constructor
  · rintro ⟨before, after, rfl, ends⟩
    refine ⟨before.toList, ⟨after.toList, by rw [String.toList_append]⟩, ?_⟩
    rw [← utf8ByteSize_eq]
    exact (congrArg String.Pos.Raw.byteIdx ends).symm
  · rintro ⟨before, ⟨after, whole⟩, rfl⟩
    refine ⟨String.ofList before, String.ofList after, ?_, ?_⟩
    · rw [← String.ofList_append, whole, String.ofList_toList]
    · rw [String.rawEndPos, utf8ByteSize_ofList]

/-- A beginning of a text that is within a budget, and that no other such beginning goes beyond. -/
structure Keeps (budget : Nat) (text kept : List Char) : Prop where
  within : byteCount kept ≤ budget
  beginning : kept <+: text
  longest : ∀ other, other <+: text → byteCount other ≤ budget → other <+: kept

theorem takeBytes_keeps (budget : Nat) (text : List Char) :
    Keeps budget text (takeBytes budget text) := by
  induction text generalizing budget with
  | nil => exact ⟨Nat.zero_le _, List.nil_prefix, fun _ beginning _ => beginning⟩
  | cons c text ih =>
    unfold takeBytes
    split
    · next fits =>
      have rest := ih (budget - c.utf8Size)
      refine ⟨?_, List.cons_prefix_cons.mpr ⟨rfl, rest.beginning⟩, fun other beginning within => ?_⟩
      · have tail := rest.within
        rw [byteCount_cons]
        omega
      · cases other with
        | nil => exact List.nil_prefix
        | cons d other =>
          obtain ⟨rfl, further⟩ := List.cons_prefix_cons.mp beginning
          rw [byteCount_cons] at within
          exact List.cons_prefix_cons.mpr ⟨rfl, rest.longest other further (by omega)⟩
    · next exceeds =>
      refine ⟨Nat.zero_le _, List.nil_prefix, fun other beginning within => ?_⟩
      cases other with
      | nil => exact List.nil_prefix
      | cons d other =>
        obtain ⟨rfl, _⟩ := List.cons_prefix_cons.mp beginning
        rw [byteCount_cons] at within
        omega

section Keeps

variable {budget : Nat} {s : String} {kept : List Char} (keeps : Keeps budget s.toList kept)
include keeps

theorem Keeps.nearly (long : budget < s.utf8ByteSize) : budget < byteCount kept + 4 := by
  obtain ⟨rest, whole⟩ := keeps.beginning
  cases rest with
  | nil =>
    have within := keeps.within
    rw [utf8ByteSize_eq, ← whole, List.append_nil] at long
    omega
  | cons c rest =>
    -- With the next character it would be too long.
    have width : c.utf8Size ≤ 4 := c.utf8Size_le_four
    by_contra room
    have further : kept ++ [c] <+: s.toList := ⟨rest, by rw [← whole]; simp⟩
    have within : byteCount (kept ++ [c]) ≤ budget := by
      rw [byteCount_append, byteCount_cons, byteCount_nil]
      omega
    have longer := (keeps.longest _ further within).length_le
    rw [List.length_append, List.length_singleton] at longer
    omega

theorem Keeps.isGreatest :
    IsGreatest {p | p ≤ budget ∧ String.Pos.Raw.IsValid s ⟨p⟩} (byteCount kept) := by
  refine ⟨⟨keeps.within, isValid_iff.mpr ⟨kept, keeps.beginning, rfl⟩⟩, ?_⟩
  rintro p ⟨within, valid⟩
  obtain ⟨other, beginning, rfl⟩ := isValid_iff.mp valid
  obtain ⟨rest, rfl⟩ := keeps.longest other beginning within
  rw [byteCount_append]
  exact Nat.le_add_right _ _

end Keeps

def boundaryFrom (s : String) : Nat → Nat
  | 0 => 0
  | n + 1 => if String.Pos.Raw.isValid s ⟨n + 1⟩ then n + 1 else boundaryFrom s n

theorem boundaryFrom_isGreatest (s : String) (n : Nat) :
    IsGreatest {p | p ≤ n ∧ String.Pos.Raw.IsValid s ⟨p⟩} (boundaryFrom s n) := by
  induction n with
  | zero => exact ⟨⟨Nat.le_refl _, String.Pos.Raw.isValid_zero⟩, fun p member => member.1⟩
  | succ n ih =>
    unfold boundaryFrom
    split
    · next here =>
      exact ⟨⟨Nat.le_refl _, String.Pos.Raw.isValid_eq_true_iff.mp here⟩, fun p member => member.1⟩
    · next inside =>
      refine ⟨⟨Nat.le_succ_of_le ih.1.1, ih.1.2⟩, ?_⟩
      rintro p ⟨within, valid⟩
      rcases Nat.lt_or_eq_of_le within with below | rfl
      · exact ih.2 ⟨Nat.le_of_lt_succ below, valid⟩
      · exact absurd (String.Pos.Raw.isValid_eq_true_iff.mpr valid) inside

/-! ## Cuts -/

/-- Whether a place between two bytes lies within a character. -/
def Splits (n : Nat) (text : List Char) : Prop :=
  ∃ before c after, text = before ++ c :: after ∧ byteCount before < n ∧ n < byteCount before + c.utf8Size

theorem cutAt_beginning {n : Nat} {text before : List Char} (cut : cutAt n text = some before) :
    before <+: text ∧ byteCount before = n := by
  induction text generalizing n before with
  | nil =>
    cases n with
    | zero =>
      obtain rfl := Option.some.inj cut
      exact ⟨List.nil_prefix, rfl⟩
    | succ n => exact nomatch cut
  | cons c text ih =>
    cases n with
    | zero =>
      obtain rfl := Option.some.inj cut
      exact ⟨List.nil_prefix, rfl⟩
    | succ n =>
      unfold cutAt at cut
      split at cut
      · next fits =>
        obtain ⟨tail, found, rfl⟩ := Option.map_eq_some_iff.mp cut
        obtain ⟨beginning, bytes⟩ := ih found
        refine ⟨List.cons_prefix_cons.mpr ⟨rfl, beginning⟩, ?_⟩
        rw [byteCount_cons, bytes]
        omega
      · exact nomatch cut

theorem cutAt_eq_none {n : Nat} {text : List Char} :
    cutAt n text = none ↔ Splits n text ∨ byteCount text < n := by
  induction text generalizing n with
  | nil => cases n <;> simp [cutAt, Splits]
  | cons c text ih =>
    cases n with
    | zero => simp [cutAt, Splits]
    | succ n =>
      unfold cutAt
      split
      · next fits =>
        rw [Option.map_eq_none_iff, ih, byteCount_cons]
        refine or_congr ⟨?_, ?_⟩ (by omega)
        · rintro ⟨before, d, after, rfl, low, high⟩
          exact ⟨c :: before, d, after, rfl, by rw [byteCount_cons]; omega, by rw [byteCount_cons]; omega⟩
        · rintro ⟨before, d, after, whole, low, high⟩
          -- The character that is split is not the first one, which fits.
          cases before with
          | nil =>
            obtain ⟨rfl, _⟩ := List.cons.inj whole
            rw [byteCount_nil] at high
            omega
          | cons _ before =>
            obtain ⟨rfl, rfl⟩ := List.cons.inj whole
            rw [byteCount_cons] at low high
            exact ⟨before, d, after, rfl, by omega, by omega⟩
      · next exceeds =>
        exact iff_of_true rfl (.inl ⟨[], c, text, rfl, Nat.succ_pos n, by rw [byteCount_nil]; omega⟩)

end Text

namespace ComputeError

/-- The node of an unsupported expression is stored as it is written where that takes no more than 160
bytes. Otherwise as much of it is stored as ends between two characters within 160 bytes, which leaves out
three bytes at most, and three dots; going back from byte 160 stops there. What is stored is text of at
most 163 bytes. -/
theorem unsupportedAt_node (cause : Unsupported) (node : String) :
    ∃ stored, unsupportedAt cause node = .unsupported cause stored ∧
      (node.utf8ByteSize ≤ 160 → stored = node) ∧
      (160 < node.utf8ByteSize → ∃ kept rest, node = kept ++ rest ∧ stored = kept ++ "..." ∧
        IsGreatest {p | p ≤ 160 ∧ String.Pos.Raw.IsValid node ⟨p⟩} kept.utf8ByteSize ∧
        157 ≤ kept.utf8ByteSize ∧ kept.utf8ByteSize = Text.boundaryFrom node 160) ∧
      stored.toByteArray.IsValidUTF8 ∧ stored.utf8ByteSize ≤ 163 := by
  refine ⟨Text.abbreviate 160 node, rfl, fun short => if_pos short, fun long => ?_,
    String.isValidUTF8 _, ?_⟩
  · have keeps := Text.takeBytes_keeps 160 node.toList
    obtain ⟨rest, whole⟩ := keeps.beginning
    have greatest := keeps.isGreatest
    have nearly := keeps.nearly long
    refine ⟨String.ofList (Text.takeBytes 160 node.toList), String.ofList rest, ?_, if_neg (by omega), ?_⟩
    · rw [← String.ofList_append, whole, String.ofList_toList]
    · rw [Text.utf8ByteSize_ofList]
      exact ⟨greatest, by omega, greatest.unique (Text.boundaryFrom_isGreatest node 160)⟩
  · unfold Text.abbreviate
    split
    · next short => omega
    · have within := (Text.takeBytes_keeps 160 node.toList).within
      have dots : "...".utf8ByteSize = 3 := rfl
      rw [String.utf8ByteSize_append, Text.utf8ByteSize_ofList, dots]
      omega

/-- A character of four bytes that starts right before the last three is left out. -/
theorem unsupportedAt_node_wide :
    let node := String.ofList (List.replicate 157 'x' ++ ['😀', '😀'])
    160 < node.utf8ByteSize ∧ ∃ kept rest, node = kept ++ rest ∧
      unsupportedAt .nestedQuery node = .unsupported .nestedQuery (kept ++ "...") ∧
      kept.utf8ByteSize = 157 := by
  intro node
  have long : 160 < node.utf8ByteSize := by decide +kernel
  obtain ⟨stored, same, -, cut, -, -⟩ := unsupportedAt_node .nestedQuery node
  obtain ⟨kept, rest, whole, rfl, -, -, walk⟩ := cut long
  exact ⟨long, kept, rest, whole, same, walk.trans (by decide +kernel)⟩

end ComputeError
end ArrayQuery
