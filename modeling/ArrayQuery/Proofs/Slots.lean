import ArrayQuery.Device.Queue
import Mathlib.Algebra.BigOperators.Fin
import Mathlib.Algebra.Order.BigOperators.Group.Finset

/-! The slots of a queue pool. How many are leased is stored nowhere: it follows from the channel in
which the free ones wait and from the leases in the hands of clients. Whatever the clients do, in
whatever order, no slot is lost and none is made up. -/

set_option autoImplicit false
namespace ArrayQuery

open BoundedChannel

variable {C α : Type} {n : Nat}

/-- What a client does to a pool in one piece: each of these is one operation on the channel, and
the operations of a channel come one after the other. -/
inductive Turn where
  | tryAcquire
  /-- One look for a free slot by a client that waits until it has one. -/
  | attempt
  /-- Returns a lease of its own. -/
  | drop (lease : Nat)
  deriving DecidableEq, Repr

structure Clients (C α : Type) (n : Nat) where
  pool : QueuePool C
  leases : Fin n → List α

namespace Clients

variable {s : Clients C α n}

def outstanding (s : Clients C α n) : Nat :=
  ∑ client, (s.leases client).length

-- All counting goes through this: a turn changes what one client holds, and the others keep theirs.
theorem sum_update (s : Clients C α n) (client : Fin n) (held : List α) :
    ∑ other, (Function.update s.leases client held other).length + (s.leases client).length =
      s.outstanding + held.length := by
  have before := Finset.add_sum_erase Finset.univ (fun other => (s.leases other).length)
    (Finset.mem_univ client)
  have after := Finset.add_sum_erase Finset.univ
    (fun other => (Function.update s.leases client held other).length) (Finset.mem_univ client)
  have others : ∑ other ∈ Finset.univ.erase client, (Function.update s.leases client held other).length =
      ∑ other ∈ Finset.univ.erase client, (s.leases other).length := by
    refine Finset.sum_congr rfl fun other member => ?_
    rw [Function.update_of_ne (Finset.ne_of_mem_erase member)]
  rw [Function.update_self] at after
  unfold outstanding
  omega

theorem outstanding_pos {client : Fin n} {queue : α} (held : queue ∈ s.leases client) :
    0 < s.outstanding := by
  have own : (s.leases client).length ≤ s.outstanding :=
    Finset.single_le_sum (f := fun other => (s.leases other).length) (fun _ _ => Nat.zero_le _)
      (Finset.mem_univ client)
  exact (List.length_pos_of_mem held).trans_le own

variable [BoundedChannel C α]

def start (n : Nat) (queue : α) (slots : Nat) : Clients C α n :=
  ⟨.new queue slots, fun _ => []⟩

def lend (s : Clients C α n) (client : Fin n) : Option (α × QueuePool C) → Clients C α n
  | some (queue, pool) => ⟨pool, Function.update s.leases client (s.leases client ++ [queue])⟩
  | none => s

/-- A client that waits goes on waiting where there is no slot, and gives up where the pool is
closed; neither changes anything. -/
def turn (s : Clients C α n) (client : Fin n) : Turn → Clients C α n
  | .tryAcquire => s.lend client s.pool.tryAcquire
  | .attempt =>
    match s.pool.attempt with
    | .leased queue pool => s.lend client (some (queue, pool))
    | .busy | .closed => s
  | .drop lease =>
    match (s.leases client)[lease]? with
    | some queue =>
      ⟨s.pool.release queue, Function.update s.leases client ((s.leases client).eraseIdx lease)⟩
    | none => s

/-- The turns of the clients in the order in which they reach the channel. -/
def run (s : Clients C α n) (turns : List (Fin n × Turn)) : Clients C α n :=
  turns.foldl (fun s t => s.turn t.1 t.2) s

end Clients

namespace QueuePool

variable [BoundedChannel C α]

/-- A pool of which that many slots are leased. Its channel has room for all slots, of which there is
at least one, and an end to send them back. -/
structure Lends (p : QueuePool C) (leased : Nat) : Prop where
  counted : p.available + leased = p.slots
  nonempty : 0 < p.slots
  roomy : capacity p.channel = p.slots
  connected : senders p.channel ≠ 0

variable [LawfulChannel C α] {p : QueuePool C} {leased : Nat}

/-- While there is room for all that are still to be sent, the channel takes each of them. -/
theorem leaves_fill (queue : α) {c : C} {count : Nat} (room : length c + count ≤ capacity c) :
    Leaves c (length c + count) (fill queue count c) := by
  induction count generalizing c with
  | zero => exact ⟨rfl, rfl, rfl⟩
  | succ count ih =>
    obtain ⟨rest, sent, one⟩ := LawfulChannel.trySend_room c queue (by omega)
    have others : Leaves rest (length rest + count) (fill queue count rest) := by
      apply ih
      rw [one.length, one.capacity]
      omega
    rw [fill, sent, Option.getD_some]
    refine ⟨?_, others.capacity.trans one.capacity, others.senders.trans one.senders⟩
    rw [others.length, one.length]
    omega

theorem new_lends (queue : α) (slots : Nat) : (new queue slots : QueuePool C).Lends 0 := by
  have empty := LawfulChannel.length_bounded (C := C) (max slots 1)
  have capacity := LawfulChannel.capacity_bounded (C := C) (max slots 1)
  have filled : Leaves (bounded (max slots 1) : C) (length (bounded (max slots 1) : C) + max slots 1)
      (fill queue (max slots 1) (bounded (max slots 1))) := by
    apply leaves_fill
    omega
  refine ⟨?_, Nat.le_max_right slots 1, filled.capacity.trans capacity, ?_⟩
  · show length (fill queue _ _) + 0 = max slots 1
    rw [filled.length, empty]
    omega
  · show senders (fill queue _ _) ≠ 0
    rw [filled.senders, LawfulChannel.senders_bounded]
    exact Nat.one_ne_zero

theorem Lends.attempt_cases (lends : p.Lends leased) :
    (p.attempt = .busy ∧ p.tryAcquire = none ∧ leased = p.slots) ∨
      ∃ queue rest, p.attempt = .leased queue rest ∧ p.tryAcquire = some (queue, rest) ∧
        rest.slots = p.slots ∧ rest.Lends (leased + 1) := by
  have counted := lends.counted
  unfold available at counted
  unfold tryAcquire attempt
  cases free : length p.channel with
  | zero =>
    rw [LawfulChannel.tryReceive_none p.channel free, if_neg lends.connected]
    exact .inl ⟨rfl, rfl, by omega⟩
  | succ others =>
    obtain ⟨queue, rest, received, fewer⟩ := LawfulChannel.tryReceive_item p.channel others free
    rw [received]
    refine .inr ⟨queue, _, rfl, rfl, rfl, ?_, lends.nonempty, fewer.capacity.trans lends.roomy, ?_⟩
    · show length rest + (leased + 1) = p.slots
      rw [fewer.length]
      omega
    · show senders rest ≠ 0
      rw [fewer.senders]
      exact lends.connected

theorem Lends.trySend (lends : p.Lends (leased + 1)) (queue : α) :
    ∃ rest, BoundedChannel.trySend p.channel queue = some rest ∧
      Leaves p.channel (length p.channel + 1) rest := by
  have counted := lends.counted
  unfold available at counted
  apply LawfulChannel.trySend_room
  rw [lends.roomy]
  omega

theorem Lends.release (lends : p.Lends (leased + 1)) (queue : α) :
    (p.release queue).slots = p.slots ∧ (p.release queue).Lends leased := by
  have counted := lends.counted
  unfold available at counted
  obtain ⟨rest, sent, more⟩ := lends.trySend queue
  unfold QueuePool.release
  rw [sent, Option.getD_some]
  refine ⟨rfl, ?_, lends.nonempty, more.capacity.trans lends.roomy, ?_⟩
  · show length rest + leased = p.slots
    rw [more.length]
    omega
  · show senders rest ≠ 0
    rw [more.senders]
    exact lends.connected

end QueuePool

/-! ## Clients -/

namespace Clients

variable [BoundedChannel C α] {s : Clients C α n} {slots : Nat}

/-- The clients of a pool hold what the pool has leased. -/
def IsBalanced (s : Clients C α n) (slots : Nat) : Prop :=
  s.pool.slots = slots ∧ s.pool.Lends s.outstanding

theorem IsBalanced.lend (balanced : s.IsBalanced slots) (client : Fin n) (queue : α)
    {pool : QueuePool C} (same : pool.slots = s.pool.slots) (lends : pool.Lends (s.outstanding + 1)) :
    (s.lend client (some (queue, pool))).IsBalanced slots := by
  refine ⟨same.trans balanced.1, ?_⟩
  have counted := s.sum_update client (s.leases client ++ [queue])
  rw [List.length_append, List.length_singleton] at counted
  have more : (s.lend client (some (queue, pool))).outstanding = s.outstanding + 1 := by
    show ∑ other, (Function.update s.leases client (s.leases client ++ [queue]) other).length = _
    omega
  rw [more]
  exact lends

variable [LawfulChannel C α]

theorem start_balanced (n : Nat) (queue : α) (slots : Nat) :
    (start n queue slots : Clients C α n).IsBalanced (max slots 1) := by
  refine ⟨rfl, ?_⟩
  have idle : (start n queue slots : Clients C α n).outstanding = 0 := Finset.sum_eq_zero fun _ _ => rfl
  rw [idle]
  exact QueuePool.new_lends queue slots

theorem IsBalanced.turn (balanced : s.IsBalanced slots) (client : Fin n) (t : Turn) :
    (s.turn client t).IsBalanced slots := by
  cases t with
  | tryAcquire =>
    unfold Clients.turn
    obtain ⟨_, none, _⟩ | ⟨queue, rest, _, some, same, lends⟩ := balanced.2.attempt_cases
    · simp only [none]
      exact balanced
    · simp only [some]
      exact balanced.lend client queue same lends
  | attempt =>
    unfold Clients.turn
    obtain ⟨busy, _, _⟩ | ⟨queue, rest, leased, _, same, lends⟩ := balanced.2.attempt_cases
    · simp only [busy]
      exact balanced
    · simp only [leased]
      exact balanced.lend client queue same lends
  | drop lease =>
    unfold Clients.turn
    cases held : (s.leases client)[lease]? with
    | none =>
      simp only [held]
      exact balanced
    | some queue =>
      simp only [held]
      -- The returned lease was one of those counted, so the pool has one more leased than are left.
      obtain ⟨within, _⟩ := List.getElem?_eq_some_iff.mp held
      have counted := s.sum_update client ((s.leases client).eraseIdx lease)
      rw [List.length_eraseIdx_of_lt within] at counted
      have one : s.outstanding = ∑ other, (Function.update s.leases client
          ((s.leases client).eraseIdx lease) other).length + 1 := by
        omega
      obtain ⟨same, lends⟩ := (one ▸ balanced.2).release queue
      exact ⟨same.trans balanced.1, lends⟩

theorem IsBalanced.run (balanced : s.IsBalanced slots) (turns : List (Fin n × Turn)) :
    (s.run turns).IsBalanced slots := by
  induction turns generalizing s with
  | nil => exact balanced
  | cons t rest ih => exact ih (balanced.turn t.1 t.2)

/-- However many clients share a pool, and in whatever order they look for slots and return them:
every slot is free or leased; a slot is refused only where all are leased; a lease always finds room
in the channel when it is returned; and nobody who waits for a slot finds the pool closed. -/
theorem slots_conserved (n : Nat) (queue : α) (requested : Nat) (turns : List (Fin n × Turn)) :
    let s : Clients C α n := (start n queue requested).run turns
    s.pool.slots = max requested 1 ∧
      s.pool.available + s.outstanding = s.pool.slots ∧
      (s.pool.tryAcquire = none ↔ s.outstanding = s.pool.slots) ∧
      (∀ client, ∀ lease ∈ s.leases client, ∃ rest, trySend s.pool.channel lease = some rest) ∧
      s.pool.attempt ≠ .closed := by
  intro s
  obtain ⟨slots, lends⟩ : s.IsBalanced (max requested 1) :=
    (start_balanced n queue requested).run turns
  refine ⟨slots, lends.counted, ?_, ?_, ?_⟩
  · obtain ⟨_, none, all⟩ | ⟨_, _, _, some, same, more⟩ := lends.attempt_cases
    · exact ⟨fun _ => all, fun _ => none⟩
    · -- A slot was given, so with one more leased the count is still within the slots.
      have left := more.counted
      rw [some]
      constructor
      · nofun
      · omega
  · intro client lease held
    obtain ⟨others, counted⟩ := Nat.exists_eq_add_of_lt (outstanding_pos held)
    rw [Nat.zero_add] at counted
    obtain ⟨rest, sent, _⟩ := (counted ▸ lends : s.pool.Lends _).trySend lease
    exact ⟨rest, sent⟩
  · obtain ⟨busy, _⟩ | ⟨_, _, leased, _⟩ := lends.attempt_cases
    · rw [busy]
      nofun
    · rw [leased]
      nofun

/-- Of three clients that want one of two slots the last has to wait. -/
theorem slots_contended :
    let s : Clients (Channel Char) Char 3 :=
      (start 3 'q' 2).run [(0, .tryAcquire), (1, .attempt), (2, .attempt)]
    s.outstanding = s.pool.slots ∧ s.pool.tryAcquire = none ∧ 'q' ∈ s.leases 1 ∧
      (∃ rest, trySend s.pool.channel 'q' = some rest) ∧ s.leases 2 = [] := by
  intro s
  obtain ⟨_, _, refused, returned, _⟩ :=
    slots_conserved (C := Channel Char) 3 'q' 2 [(0, .tryAcquire), (1, .attempt), (2, .attempt)]
  have all : s.outstanding = 2 := rfl
  have held : 'q' ∈ s.leases 1 := List.mem_cons_self
  exact ⟨all, refused.mpr all, held, returned 1 'q' held, rfl⟩

end Clients
end ArrayQuery
