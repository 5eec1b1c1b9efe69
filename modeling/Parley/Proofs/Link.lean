import Parley.Link

/-!
# What the operations of a link do

Each operation of a link, written out as one change of it: an event that is sent is lost or stands
last in the queue, one that is received stood first, and only closing and dropping change whether
the link is open.
-/

namespace Parley

/-- The event that was found, if there was one. -/
def Received.value? {α : Type} : Received α → Option α
  | .value a => some a
  | .empty | .ended | .dropped => none

namespace Link

variable {α : Type}

theorem push_of_isOpen {l : Link α} (h : l.isOpen) (x : α) :
    l.push x = { l with queue := l.queue ++ [x] } := by
  simp [push, send?, h]

theorem push_of_not_isOpen {l : Link α} (h : ¬ l.isOpen) (x : α) : l.push x = l := by
  simp [push, send?, h]

@[simp] theorem receive_closed (l : Link α) : l.receive.2.closed = l.closed := by
  unfold receive
  split
  · rfl
  · split <;> rfl

@[simp] theorem receive_dropped (l : Link α) : l.receive.2.dropped = l.dropped := by
  unfold receive
  split
  · rfl
  · split <;> rfl

theorem receive_of_dropped {l : Link α} (dropped : l.dropped = true) :
    l.receive = (.dropped, l) := by
  simp [receive, dropped]

/-- What is found on a link whose receiving end is there. -/
theorem receive_fst {l : Link α} (held : l.dropped = false) :
    l.receive.1 =
      match l.queue with
      | x :: _ => .value x
      | [] => if l.closed then .ended else .empty := by
  unfold receive
  rw [if_neg (by simp [held])]
  cases l.queue <;> rfl

/-- What is found, told by what was sent and what was received, when the rest is in the queue. -/
theorem receive_fst_of_kept {l : Link α} {sent got : List α}
    (kept : l.dropped = false → got ++ l.queue = sent) :
    l.receive.1 =
      if l.dropped then .dropped
      else
        match sent.drop got.length with
        | x :: _ => .value x
        | [] => if l.closed then .ended else .empty := by
  cases held : l.dropped with
  | true =>
    rw [receive_of_dropped held]
    rfl
  | false =>
    rw [receive_fst held, ← kept held, List.drop_left, if_neg Bool.false_ne_true]

/-- An event that is found is taken from the queue, and nothing else is. -/
theorem receive_queue {l : Link α} (held : l.dropped = false) :
    l.receive.1.value?.toList ++ l.receive.2.queue = l.queue := by
  unfold receive
  rw [if_neg (by simp [held])]
  cases filled : l.queue with
  | nil =>
    show (if l.closed then Received.ended else .empty).value?.toList ++ l.queue = []
    rw [filled]
    split <;> rfl
  | cons x rest => rfl

@[simp] theorem push_closed (l : Link α) (x : α) : (l.push x).closed = l.closed := by
  by_cases h : l.isOpen
  · rw [push_of_isOpen h]
  · rw [push_of_not_isOpen h]

@[simp] theorem push_dropped (l : Link α) (x : α) : (l.push x).dropped = l.dropped := by
  by_cases h : l.isOpen
  · rw [push_of_isOpen h]
  · rw [push_of_not_isOpen h]

end Link

end Parley
