import Parley.Failure
import Parley.Link

/-!
# Links shared by many handles

A link as the holders of its handles use it. What it takes to send is kept in a slot, and a handle
says which slot that is; a copy of a handle says the same one. Closing through a handle empties its
slot, so that nobody whose handle says this slot can send any more, while what was sent before stays
in the queue. The receiving end is told that nothing will come any more once all slots are empty.

`Link.call` is what a call comes to where it does not matter whose handle is used, and
`SharedLink.view` is the link that is left when the handles are forgotten.
-/

namespace Parley

/-- Slots are numbered in the order in which they were set up. -/
abbrev SlotNumber := Nat

/-- Handles are numbered in the order in which they were given out. -/
abbrev HandleNumber := Nat

/-- What is asked of a link, through a handle or at its receiving end. -/
inductive LinkCall (α : Type) where
  | send (handle : HandleNumber) (event : α)
  /-- Send from where one must not wait. -/
  | trySend (handle : HandleNumber) (event : α)
  | close (handle : HandleNumber)
  | copy (handle : HandleNumber)
  | isOpen (handle : HandleNumber)
  | receive
  | dropReceiver

/-- What a call returns. -/
inductive LinkAnswer (α : Type) where
  | sent (outcome : Except Failure Unit)
  | copied (handle : HandleNumber)
  | isOpen (answer : Bool)
  | received (found : Received α)
  | done

/-- Make a call without regard to the handle that is used, when this many were given out. -/
def Link.call {α : Type} (l : Link α) (handles : Nat) : LinkCall α → LinkAnswer α × Link α
  | .send _ a | .trySend _ a =>
    match l.send? a with
    | some l => (.sent (.ok ()), l)
    | none => (.sent (.error .linkLost), l)
  | .close _ => (.done, l.close)
  | .copy _ => (.copied handles, l)
  | .isOpen _ => (.isOpen l.isOpen, l)
  | .receive => (.received l.receive.1, l.receive.2)
  | .dropReceiver => (.done, l.dropReceiver)

/-- A link and the handles that were given out to send through it. -/
structure SharedLink (α : Type) where
  /-- What was sent and not yet received. -/
  queue : List α
  /-- The receiving end is gone, and the queue with it. -/
  dropped : Bool
  /-- For each slot, whether there is something in it to send with. -/
  slots : List Bool
  /-- The slot of each handle. -/
  handles : List SlotNumber

namespace SharedLink

variable {α : Type}

/-- A fresh link with its first handle. -/
def fresh : SharedLink α := ⟨[], false, [true], [0]⟩

/-- The link, whoever holds its handles. -/
def view (s : SharedLink α) : Link α := ⟨s.queue, !s.slots.any id, s.dropped⟩

/-- There is something to send with in the slot of a handle. -/
def isFilled (s : SharedLink α) (h : HandleNumber) : Bool :=
  match s.handles[h]? with
  | some slot => s.slots.getD slot false
  | none => false

/-- Something can be sent through a handle. -/
def isOpen (s : SharedLink α) (h : HandleNumber) : Bool := s.isFilled h && !s.dropped

/-- Send an event from where one must not wait. -/
def trySend (s : SharedLink α) (h : HandleNumber) (a : α) : Except Failure (SharedLink α) :=
  if s.isFilled h then
    if s.dropped then .error .linkLost else .ok { s with queue := s.queue ++ [a] }
  else .error .linkLost

/-- Send an event. There is nothing to wait for. -/
def send (s : SharedLink α) (h : HandleNumber) (a : α) : Except Failure (SharedLink α) :=
  s.trySend h a

/-- Close the link through a handle. -/
def close (s : SharedLink α) (h : HandleNumber) : SharedLink α :=
  match s.handles[h]? with
  | some slot => { s with slots := s.slots.set slot false }
  | none => s

/-- Copy a handle, and return the number of the copy. -/
def copy (s : SharedLink α) (h : HandleNumber) : HandleNumber × SharedLink α :=
  match s.handles[h]? with
  | some slot => (s.handles.length, { s with handles := s.handles ++ [slot] })
  | none => (h, s)

/-- Look for the next event, and take it if there is one. -/
def receive (s : SharedLink α) : Received α × SharedLink α :=
  if s.dropped then (.dropped, s)
  else
    match s.queue with
    | a :: rest => (.value a, { s with queue := rest })
    | [] => (if s.slots.any id then .empty else .ended, s)

/-- Give up the receiving end. -/
def dropReceiver (s : SharedLink α) : SharedLink α := { s with queue := [], dropped := true }

/-- Answer an attempt to send. -/
def answerSend (s : SharedLink α) :
    Except Failure (SharedLink α) → LinkAnswer α × SharedLink α
  | .ok s => (.sent (.ok ()), s)
  | .error failure => (.sent (.error failure), s)

/-- Make a call. -/
def call (s : SharedLink α) : LinkCall α → LinkAnswer α × SharedLink α
  | .send h a => s.answerSend (s.send h a)
  | .trySend h a => s.answerSend (s.trySend h a)
  | .close h => (.done, s.close h)
  | .copy h => (.copied (s.copy h).1, (s.copy h).2)
  | .isOpen h => (.isOpen (s.isOpen h), s)
  | .receive => (.received s.receive.1, s.receive.2)
  | .dropReceiver => (.done, s.dropReceiver)

end SharedLink

end Parley
