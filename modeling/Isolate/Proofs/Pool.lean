import Isolate.Pool
import Mathlib.Data.List.Basic

/-!
# A pool is a bounded queue

Whatever is asked of a pool, in any order and any number of times, no container is lost, none is
handed out twice, and all leave in the order in which they came.

* `WarmPool.after`, `WarmPool.history`: the pool after operations, and what each was answered;
* `WarmPool.stored`, `WarmPool.handedOut`: the containers that come in and go out by an operation;
* `WarmPool.balance_perform`, `WarmPool.balance`: what one operation, and what any number of them,
  leave equal;
* `WarmPool.bounded_queue`: the pool as a queue of at most its capacity.
-/

namespace Isolate.WarmPool

variable {p : WarmPool}

/-- The pool after operations. -/
def after (p : WarmPool) (ops : List Operation) : WarmPool :=
  ops.foldl (fun p op => (p.perform op).2) p

/-- The operations, each with its answer. -/
def history (p : WarmPool) : List Operation → List (Operation × Answer)
  | [] => []
  | op :: ops => (op, (p.perform op).1) :: (p.perform op).2.history ops

/-- What an answered operation has put into the pool. -/
def stored : Operation × Answer → List ContainerId
  | (.push id, .stored) => [id]
  | _ => []

/-- What an answered operation has taken out of the pool. A container that is handed back was never
in it. -/
def handedOut : Operation × Answer → List ContainerId
  | (_, .taken id) => id.toList
  | (_, .drained ids) => ids
  | _ => []

/-! ### One operation -/

/-- A container is stored, behind all others, or handed back. -/
theorem perform_push (p : WarmPool) (id : ContainerId) :
    p.perform (.push id) =
      if p.isFull then (.rejected id, p) else (.stored, { p with idle := p.idle ++ [id] }) := by
  unfold perform push
  by_cases hfull : p.isFull <;> simp [hfull]

@[simp] theorem capacity_perform (p : WarmPool) (op : Operation) :
    (p.perform op).2.capacity = p.capacity := by
  cases op with
  | push id => rw [perform_push]; split <;> rfl
  | take => rfl
  | drain => rfl

@[simp] theorem language_perform (p : WarmPool) (op : Operation) :
    (p.perform op).2.language = p.language := by
  cases op with
  | push id => rw [perform_push]; split <;> rfl
  | take => rfl
  | drain => rfl

/-- A pool that holds no more than its capacity still does after an operation. -/
theorem size_perform_le (op : Operation) (h : p.size ≤ p.capacity) :
    (p.perform op).2.size ≤ p.capacity := by
  cases op with
  | push id =>
    rw [perform_push]
    split
    · exact h
    · next hfull =>
      have hroom : p.size < p.capacity := by simpa [isFull] using hfull
      simpa [size] using Nat.succ_le_of_lt hroom
  | take =>
    have htail : p.idle.tail.length ≤ p.idle.length := by simp
    exact Nat.le_trans htail h
  | drain => exact Nat.zero_le _

/-- **What one operation leaves equal**: what was in the pool and what comes in, to what goes out
and what is in it then. -/
theorem balance_perform (p : WarmPool) (op : Operation) :
    p.idle ++ stored (op, (p.perform op).1) =
      handedOut (op, (p.perform op).1) ++ (p.perform op).2.idle := by
  cases op with
  | push id =>
    rw [perform_push]
    split <;> simp [stored, handedOut]
  | take =>
    have hfront : p.idle.head?.toList ++ p.idle.tail = p.idle := by cases p.idle <;> rfl
    simp [perform, take, stored, handedOut, hfront]
  | drain => simp [perform, stored, handedOut]

/-! ### Any number of operations -/

theorem capacity_after (ops : List Operation) : (p.after ops).capacity = p.capacity := by
  induction ops generalizing p with
  | nil => rfl
  | cons op ops ih => exact ih.trans (capacity_perform p op)

theorem size_after_le (ops : List Operation) (h : p.size ≤ p.capacity) :
    (p.after ops).size ≤ p.capacity := by
  induction ops generalizing p with
  | nil => exact h
  | cons op ops ih =>
    rw [← capacity_perform p op]
    exact ih (by rw [capacity_perform]; exact size_perform_le op h)

/-- **What any number of operations leave equal.** -/
theorem balance (p : WarmPool) (ops : List Operation) :
    p.idle ++ (p.history ops).flatMap stored =
      (p.history ops).flatMap handedOut ++ (p.after ops).idle := by
  induction ops generalizing p with
  | nil => simp [history, after]
  | cons op ops ih =>
    have hop := balance_perform p op
    calc p.idle ++ (p.history (op :: ops)).flatMap stored
        = p.idle ++ stored (op, (p.perform op).1) ++
            ((p.perform op).2.history ops).flatMap stored := by
          simp [history]
      _ = handedOut (op, (p.perform op).1) ++
            ((p.perform op).2.idle ++ ((p.perform op).2.history ops).flatMap stored) := by
          rw [hop, List.append_assoc]
      _ = (p.history (op :: ops)).flatMap handedOut ++ (p.after (op :: ops)).idle := by
          rw [ih]
          simp [history, after]

/-! ### The queue -/

/-- A pool of `n` places with this history is a queue: it loses nothing, hands nothing out twice
and keeps the order, it rejects a container exactly when it is full and then stays as it is, and it
has nothing to hand out exactly when it is empty. -/
structure BoundedQueue (n : ℕ) (history : List (Operation × Answer)) (p : WarmPool) :
    Prop where
  capacity : p.capacity = n
  balance : history.flatMap stored = history.flatMap handedOut ++ p.idle
  size_le : p.size ≤ n
  full : p.isFull = true ↔ p.size = n
  empty : p.isEmpty = true ↔ p.size = 0
  rejects (id : ContainerId) : p.perform (.push id) = (.rejected id, p) ↔ p.size = n
  stores (id : ContainerId) :
    p.perform (.push id) = (.stored, { p with idle := p.idle ++ [id] }) ↔ p.size < n
  lacks : (p.perform .take).1 = .taken none ↔ p.size = 0

/-- **A pool that starts empty is a bounded queue**, whatever its capacity is and whatever was asked
of it. -/
theorem bounded_queue (language : String) (capacity : ℕ) (ops : List Operation) :
    BoundedQueue capacity ((empty language capacity).history ops)
      ((empty language capacity).after ops) := by
  have hbalance := balance (empty language capacity) ops
  have hcapacity : ((empty language capacity).after ops).capacity = capacity := capacity_after ops
  have hsize : ((empty language capacity).after ops).size ≤ capacity :=
    size_after_le ops (Nat.zero_le _)
  generalize (empty language capacity).after ops = p at hbalance hcapacity hsize
  have hfull : p.isFull = true ↔ p.size = capacity := by
    simp only [isFull, hcapacity, decide_eq_true_eq]
    omega
  have hroom : p.isFull = false ↔ p.size < capacity := by simp [isFull, hcapacity]
  refine ⟨hcapacity, by simpa using hbalance, hsize, hfull, ?_, fun id => ?_, fun id => ?_, ?_⟩
  · simp [isEmpty, size]
  · rw [perform_push, ← hfull]
    by_cases h : p.isFull <;> simp [h]
  · rw [perform_push, ← hroom]
    by_cases h : p.isFull <;> simp [h]
  · simp [perform, take, size]

end Isolate.WarmPool
