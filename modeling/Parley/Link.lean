/-!
# Links

A link carries events one way, in the order in which they were sent. Any number of handles send
through the same link, and closing it through one of them closes it for all. What was sent before
stays there to be received. The receiving end can also go away; then nothing can be sent any more.

No handle is told from another here. `SharedLink` is a link together with its handles.
-/

namespace Parley

/-- A link and the events that were sent and not yet received. -/
structure Link (α : Type) where
  queue : List α
  /-- No handle can send any more. -/
  closed : Bool
  /-- The receiving end is gone, and the queue with it. -/
  dropped : Bool

/-- What the receiving end finds. -/
inductive Received (α : Type) where
  | value (a : α)
  /-- Nothing yet. -/
  | empty
  /-- Nothing, now or later. -/
  | ended
  /-- There is no receiving end. -/
  | dropped

namespace Link

variable {α : Type}

/-- A fresh link. -/
def fresh : Link α := ⟨[], false, false⟩

/-- Something can be sent. -/
def isOpen (l : Link α) : Bool := !l.closed && !l.dropped

/-- Send an event, if the link is open. -/
def send? (l : Link α) (a : α) : Option (Link α) :=
  if l.isOpen then some { l with queue := l.queue ++ [a] } else none

/-- Send an event; without an open link it is lost. -/
def push (l : Link α) (a : α) : Link α := (l.send? a).getD l

/-- Close the link for all its handles. -/
def close (l : Link α) : Link α := { l with closed := true }

/-- Give up the receiving end. -/
def dropReceiver (l : Link α) : Link α := { l with queue := [], dropped := true }

/-- Look for the next event, and take it if there is one. -/
def receive (l : Link α) : Received α × Link α :=
  if l.dropped then (.dropped, l)
  else
    match l.queue with
    | a :: rest => (.value a, { l with queue := rest })
    | [] => (if l.closed then .ended else .empty, l)

/-- Receive everything that was sent. -/
def drain (l : Link α) : List α × Link α := (l.queue, { l with queue := [] })

end Link

end Parley
