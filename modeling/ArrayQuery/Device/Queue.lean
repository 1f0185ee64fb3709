/-! A pool of leases over one submission queue: the free slots wait in a bounded channel. A pool runs over
any kind of channel, and relies on the laws of channels alone. -/

set_option autoImplicit false
namespace ArrayQuery

inductive Received (C α : Type) where
  | item (a : α) (rest : C)
  | empty
  | disconnected

/-- Bounded channels, which somebody can receive from as long as they are there. -/
class BoundedChannel (C : Type) (α : outParam Type) where
  bounded : Nat → C
  /-- The channel with one item more, unless it refuses it. -/
  trySend : C → α → Option C
  tryReceive : C → Received C α
  length : C → Nat
  capacity : C → Nat
  /-- How many ends that can send are left. -/
  senders : C → Nat

namespace BoundedChannel

variable {C α : Type} [BoundedChannel C α]

/-- An operation on a channel that leaves `n` items in it. -/
structure Leaves (c : C) (n : Nat) (rest : C) : Prop where
  length : length rest = n
  capacity : capacity rest = capacity c
  senders : senders rest = senders c

end BoundedChannel

open BoundedChannel

/-- What is promised of bounded channels. -/
class LawfulChannel (C : Type) (α : outParam Type) [BoundedChannel C α] : Prop where
  length_bounded : ∀ n, length (bounded n : C) = 0
  capacity_bounded : ∀ n, capacity (bounded n : C) = n
  senders_bounded : ∀ n, senders (bounded n : C) = 1
  /-- A channel takes what is sent unless it is full. -/
  trySend_room : ∀ (c : C) (a : α), length c < capacity c →
    ∃ rest, trySend c a = some rest ∧ Leaves c (length c + 1) rest
  tryReceive_item : ∀ (c : C) (n : Nat), length c = n + 1 →
    ∃ a rest, tryReceive c = .item a rest ∧ Leaves c n rest
  /-- A channel that nobody sends to is disconnected once it is empty. -/
  tryReceive_none : ∀ c : C, length c = 0 →
    tryReceive c = if senders c = 0 then .disconnected else .empty

/-- A channel in two lists: the item to be received next stands first in the one, the item sent last
first in the other. -/
structure Channel (α : Type) where
  /-- How many items more it takes. -/
  room : Nat
  front : List α
  back : List α
  senders : Nat
  deriving DecidableEq, Repr

namespace Channel

variable {α : Type}

def length (c : Channel α) : Nat :=
  c.front.length + c.back.length

def trySend (c : Channel α) (a : α) : Option (Channel α) :=
  match c.room with
  | 0 => none
  | room + 1 => some { c with room, back := a :: c.back }

def tryReceive (c : Channel α) : Received (Channel α) α :=
  match c.front with
  | a :: rest => .item a { c with room := c.room + 1, front := rest }
  | [] =>
    match c.back.reverse with
    | a :: rest => .item a { c with room := c.room + 1, front := rest, back := [] }
    | [] => if c.senders = 0 then .disconnected else .empty

@[default_instance]
instance : BoundedChannel (Channel α) α where
  bounded n := ⟨n, [], [], 1⟩
  trySend := trySend
  tryReceive := tryReceive
  length := length
  capacity c := c.room + c.length
  senders := senders

instance : LawfulChannel (Channel α) α where
  length_bounded _ := rfl
  capacity_bounded _ := rfl
  senders_bounded _ := rfl
  trySend_room c a free := by
    obtain ⟨room, front, back, senders⟩ := c
    cases room with
    | zero =>
      rw [show capacity _ = 0 + BoundedChannel.length _ from rfl, Nat.zero_add] at free
      exact absurd free (Nat.lt_irrefl _)
    | succ room => exact ⟨_, rfl, rfl, (Nat.succ_add_eq_add_succ room _).symm, rfl⟩
  tryReceive_item c n more := by
    obtain ⟨room, front, back, senders⟩ := c
    change front.length + back.length = n + 1 at more
    cases front with
    | cons a rest =>
      rw [List.length_cons] at more
      have fewer : rest.length + back.length = n := by omega
      have same : room + 1 + (rest.length + back.length) = room + (rest.length + 1 + back.length) := by
        omega
      exact ⟨a, _, rfl, fewer, same, rfl⟩
    | nil =>
      -- What was sent since is turned round, and there is some of it.
      rw [List.length_nil, Nat.zero_add, ← List.length_reverse] at more
      obtain ⟨a, rest, turned⟩ := List.exists_cons_of_length_eq_add_one more
      have received : tryReceive ⟨room, [], back, senders⟩ = .item a ⟨room + 1, rest, [], senders⟩ := by
        simp only [tryReceive, turned]
      have fewer : rest.length = n := by
        rw [turned, List.length_cons] at more
        omega
      have same : room + 1 + rest.length = room + (0 + back.length) := by
        rw [List.length_reverse] at more
        omega
      exact ⟨a, _, received, fewer, same, rfl⟩
  tryReceive_none c none := by
    obtain ⟨room, front, back, senders⟩ := c
    obtain ⟨rfl, rfl⟩ : front = [] ∧ back = [] := by
      simpa [BoundedChannel.length, length] using none
    rfl

end Channel

variable {C α : Type}

/-- The pool keeps a sending end of its channel for the leases that are returned. -/
structure QueuePool (C : Type) where
  slots : Nat
  channel : C
  deriving DecidableEq, Repr

inductive Attempt (C α : Type) where
  | leased (queue : α) (pool : QueuePool C)
  | busy
  | closed

namespace QueuePool

variable [BoundedChannel C α]

/-- Sends a number of slots; whether the channel takes them is not looked at. -/
def fill (queue : α) : Nat → C → C
  | 0, c => c
  | n + 1, c => fill queue n ((trySend c queue).getD c)

/-- A pool has at least one slot. -/
def new (queue : α) (slots : Nat) : QueuePool C :=
  let n := max slots 1
  ⟨n, fill queue n (bounded n)⟩

def available (p : QueuePool C) : Nat :=
  length p.channel

def attempt (p : QueuePool C) : Attempt C α :=
  match tryReceive p.channel with
  | .item queue rest => .leased queue { p with channel := rest }
  | .empty => .busy
  | .disconnected => .closed

def tryAcquire (p : QueuePool C) : Option (α × QueuePool C) :=
  match p.attempt with
  | .leased queue pool => some (queue, pool)
  | _ => none

def release (p : QueuePool C) (queue : α) : QueuePool C :=
  { p with channel := (trySend p.channel queue).getD p.channel }

end QueuePool

/-- A pool with all leases that were ever given; one that has been returned holds nothing. -/
structure Leases (α : Type) where
  pool : QueuePool (Channel α)
  given : List (Option α) := []
  deriving DecidableEq, Repr

namespace Leases

def outstanding (s : Leases α) : Nat :=
  (s.given.filter Option.isSome).length

def take (s : Leases α) : Option α × Leases α :=
  match s.pool.tryAcquire with
  | some (queue, pool) => (some queue, ⟨pool, s.given ++ [some queue]⟩)
  | none => (none, s)

def drop (s : Leases α) (i : Nat) : Bool × Leases α :=
  match s.given[i]? with
  | some (some queue) => (true, ⟨s.pool.release queue, s.given.set i none⟩)
  | _ => (false, s)

end Leases
end ArrayQuery
