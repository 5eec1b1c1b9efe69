import Mathlib.Data.List.Induction
import Parley.Link.Shared
import Parley.Proofs.History
import Parley.Proofs.Link

/-!
# One link behind many handles

All handles of a link say the same slot (`Unanimous`), and so a call through any of them is a call
to the one link behind them (`Unanimous.call_eq`). What a link does with its events is kept in
accounts of what was sent and what was received (`Link.Accounts.call`). `handles_share` puts both
together: whichever handles are used, and in whatever order, there is one queue with one close.
-/

namespace Parley

variable {α : Type}

/-! ## Calls and their answers -/

namespace LinkCall

/-- The handle that is used. -/
def handle? : LinkCall α → Option HandleNumber
  | .send h _ | .trySend h _ | .close h | .copy h | .isOpen h => some h
  | .receive | .dropReceiver => none

/-- The event that is to be sent. -/
def event? : LinkCall α → Option α
  | .send _ a | .trySend _ a => some a
  | _ => none

def closes : LinkCall α → Bool
  | .close _ => true
  | _ => false

def copies : LinkCall α → Bool
  | .copy _ => true
  | _ => false

def receives : LinkCall α → Bool
  | .receive => true
  | _ => false

def drops : LinkCall α → Bool
  | .dropReceiver => true
  | _ => false

/-- Somebody closed the link. -/
def closedBy (calls : List (LinkCall α)) : Bool := calls.any closes

/-- The receiving end was given up. -/
def droppedBy (calls : List (LinkCall α)) : Bool := calls.any drops

/-- Nobody closed the link, and the receiving end is there. -/
def intact (calls : List (LinkCall α)) : Bool := !closedBy calls && !droppedBy calls

/-- The number of handles after the calls, the first one included. -/
def givenOut (calls : List (LinkCall α)) : Nat := calls.countP copies + 1

/-- Each call goes through a handle that was given out before, or needs none. -/
def Possible (calls : List (LinkCall α)) : Prop :=
  ∀ i, ∀ now : i < calls.length, ∀ h ∈ calls[i].handle?, h < givenOut (calls.take i)

instance (calls : List (LinkCall α)) : Decidable (Possible calls) :=
  inferInstanceAs (Decidable (∀ i, ∀ now : i < calls.length,
    ∀ h ∈ calls[i].handle?, h < givenOut (calls.take i)))

variable {calls : List (LinkCall α)} {c : LinkCall α}

theorem closedBy_append (calls more : List (LinkCall α)) :
    closedBy (calls ++ more) = (closedBy calls || closedBy more) :=
  List.any_append

theorem droppedBy_append (calls more : List (LinkCall α)) :
    droppedBy (calls ++ more) = (droppedBy calls || droppedBy more) :=
  List.any_append

theorem intact_append (calls more : List (LinkCall α)) :
    intact (calls ++ more) = (intact calls && intact more) := by
  rw [intact, closedBy_append, droppedBy_append, intact, intact]
  cases closedBy calls <;> cases droppedBy calls <;> simp

theorem givenOut_snoc (calls : List (LinkCall α)) (c : LinkCall α) :
    givenOut (calls ++ [c]) = givenOut calls + if c.copies then 1 else 0 := by
  rw [givenOut, List.countP_append, List.countP_singleton, givenOut]
  omega

theorem possible_snoc :
    Possible (calls ++ [c]) ↔ Possible calls ∧ ∀ h ∈ c.handle?, h < givenOut calls := by
  constructor
  · intro possible
    refine ⟨fun i now => ?_, ?_⟩
    · have earlier := possible i (by simp; omega)
      rw [List.getElem_append_left now] at earlier
      rwa [List.take_append_of_le_length (Nat.le_of_lt now)] at earlier
    · have last := possible calls.length (by simp)
      rwa [List.getElem_concat_length rfl, List.take_left] at last
  · rintro ⟨possible, last⟩ i now
    rw [List.length_append, List.length_singleton] at now
    rcases Nat.lt_succ_iff_lt_or_eq.mp now with earlier | rfl
    · rw [List.getElem_append_left earlier, List.take_append_of_le_length (Nat.le_of_lt earlier)]
      exact possible i earlier
    · rw [List.getElem_concat_length rfl, List.take_left]
      exact last

end LinkCall

/-- A call with its answer. -/
abbrev LinkEntry (α : Type) := LinkCall α × LinkAnswer α

namespace LinkEntry

/-- The event that was sent, if the call was to send one and succeeded. -/
def sent? : LinkEntry α → Option α
  | (c, .sent (.ok ())) => c.event?
  | _ => none

/-- The event that was received. -/
def received? : LinkEntry α → Option α
  | (_, .received found) => found.value?
  | _ => none

/-- What was sent, through whichever handle. -/
def sentIn (log : List (LinkEntry α)) : List α := log.filterMap sent?

/-- What was received. -/
def receivedIn (log : List (LinkEntry α)) : List α := log.filterMap received?

theorem sentIn_snoc (log : List (LinkEntry α)) (entry : LinkEntry α) :
    sentIn (log ++ [entry]) = sentIn log ++ (sent? entry).toList := by
  rw [sentIn, List.filterMap_append]
  cases found : sent? entry <;> simp [sentIn, found]

theorem receivedIn_snoc (log : List (LinkEntry α)) (entry : LinkEntry α) :
    receivedIn (log ++ [entry]) = receivedIn log ++ (received? entry).toList := by
  rw [receivedIn, List.filterMap_append]
  cases found : received? entry <;> simp [receivedIn, found]

end LinkEntry

open LinkCall LinkEntry

/-! ## The accounts of a link -/

namespace Link

variable {l : Link α} {n : Nat} {c : LinkCall α}

theorem call_send (l : Link α) (n : Nat) {a : α} (sends : c.event? = some a) :
    l.call n c = (.sent (if l.isOpen then .ok () else .error .linkLost), l.push a) := by
  cases c with
  | send h b | trySend h b =>
    obtain rfl : b = a := Option.some.inj sends
    cases isOpen : l.isOpen <;> simp [call, push, send?, isOpen]
  | _ => cases sends

theorem call_closed (l : Link α) (n : Nat) (c : LinkCall α) :
    (l.call n c).2.closed = (l.closed || c.closes) := by
  cases c with
  | send h a | trySend h a =>
    rw [call_send l n rfl, push_closed]
    exact (Bool.or_false _).symm
  | close h => exact (Bool.or_true _).symm
  | receive => exact (receive_closed l).trans (Bool.or_false _).symm
  | copy h | isOpen h | dropReceiver => exact (Bool.or_false _).symm

theorem call_dropped (l : Link α) (n : Nat) (c : LinkCall α) :
    (l.call n c).2.dropped = (l.dropped || c.drops) := by
  cases c with
  | send h a | trySend h a =>
    rw [call_send l n rfl, push_dropped]
    exact (Bool.or_false _).symm
  | dropReceiver => exact (Bool.or_true _).symm
  | receive => exact (receive_dropped l).trans (Bool.or_false _).symm
  | copy h | isOpen h | close h => exact (Bool.or_false _).symm

/-- An event is sent if the call is to send one and the link is open. -/
theorem sent?_call (l : Link α) (n : Nat) (c : LinkCall α) :
    sent? (c, (l.call n c).1) = if l.isOpen then c.event? else none := by
  cases c with
  | send h a | trySend h a =>
    rw [call_send l n rfl]
    cases l.isOpen <;> rfl
  | _ => exact (ite_self none).symm

/-- An event is received if the call looks for one and there is one. -/
theorem received?_call (l : Link α) (n : Nat) (c : LinkCall α) :
    received? (c, (l.call n c).1) = if c.receives then l.receive.1.value? else none := by
  cases c with
  | send h a | trySend h a =>
    rw [call_send l n rfl]
    rfl
  | _ => rfl

/-- What a call takes from the queue and leaves in it is what was there and what it sends. -/
theorem call_queue (held : (l.call n c).2.dropped = false) :
    (received? (c, (l.call n c).1)).toList ++ (l.call n c).2.queue =
      l.queue ++ (sent? (c, (l.call n c).1)).toList := by
  rw [call_dropped, Bool.or_eq_false_iff] at held
  rw [sent?_call, received?_call]
  cases c with
  | send h a | trySend h a =>
    rw [call_send l n rfl]
    show (l.push a).queue = _
    by_cases isOpen : l.isOpen = true
    · rw [push_of_isOpen isOpen, if_pos isOpen]
      rfl
    · rw [push_of_not_isOpen isOpen, if_neg isOpen]
      exact (List.append_nil _).symm
  | receive => simpa [event?, receives, call] using receive_queue held.1
  | dropReceiver => cases held.2
  | close h | copy h | isOpen h => simp [event?, receives, call, close]

/-- A link after calls that were answered like this. -/
structure Accounts (l : Link α) (calls : List (LinkCall α)) (log : List (LinkEntry α)) : Prop where
  closed : l.closed = closedBy calls
  dropped : l.dropped = droppedBy calls
  received : receivedIn log <+: sentIn log
  /-- What was sent was received or waits, unless it was lost with the receiving end. -/
  kept : l.dropped = false → receivedIn log ++ l.queue = sentIn log

variable {calls : List (LinkCall α)} {log : List (LinkEntry α)}

theorem Accounts.fresh : (Link.fresh : Link α).Accounts [] [] :=
  ⟨rfl, rfl, List.prefix_rfl, fun _ => rfl⟩

namespace Accounts

/-- The accounts are kept call by call. -/
theorem call (h : l.Accounts calls log) (n : Nat) (c : LinkCall α) :
    (l.call n c).2.Accounts (calls ++ [c]) (log ++ [(c, (l.call n c).1)]) := by
  have dropped := l.call_dropped n c
  have kept : (l.call n c).2.dropped = false →
      receivedIn (log ++ [(c, (l.call n c).1)]) ++ (l.call n c).2.queue =
        sentIn (log ++ [(c, (l.call n c).1)]) := by
    intro held
    have before : l.dropped = false := (Bool.or_eq_false_iff.mp (dropped.symm.trans held)).1
    rw [receivedIn_snoc, sentIn_snoc, List.append_assoc, call_queue held, ← List.append_assoc,
      h.kept before]
  refine ⟨?_, ?_, ?_, kept⟩
  · rw [call_closed, h.closed, closedBy_append, closedBy, closedBy, List.any_cons,
      List.any_nil, Bool.or_false]
  · rw [dropped, h.dropped, droppedBy_append, droppedBy, droppedBy, List.any_cons, List.any_nil,
      Bool.or_false]
  · cases held : (l.call n c).2.dropped with
    | false =>
      rw [← kept held]
      exact List.prefix_append _ _
    | true =>
      -- Where there is no receiving end any more, nothing is received.
      have nothing : received? (c, (l.call n c).1) = none := by
        rw [received?_call]
        cases c with
        | receive =>
          rw [dropped] at held
          rw [receive_of_dropped ((Bool.or_false _).symm.trans held)]
          rfl
        | _ => rfl
      rw [receivedIn_snoc, nothing, Option.toList_none, List.append_nil, sentIn_snoc]
      exact h.received.trans (List.prefix_append _ _)

theorem isOpen (h : l.Accounts calls log) : l.isOpen = intact calls := by
  rw [Link.isOpen, h.closed, h.dropped]
  rfl

/-- The next event to be found is the first one that was sent and not received. -/
theorem next (h : l.Accounts calls log) :
    l.receive.1 =
      if droppedBy calls then .dropped
      else
        match (sentIn log).drop (receivedIn log).length with
        | a :: _ => .value a
        | [] => if closedBy calls then .ended else .empty := by
  rw [← h.dropped, ← h.closed]
  exact receive_fst_of_kept h.kept

theorem found (h : l.Accounts calls log) (held : droppedBy calls = false) :
    l.receive.1.value? = (sentIn log)[(receivedIn log).length]? := by
  rw [h.next, held, if_neg Bool.false_ne_true, ← List.head?_drop]
  cases (sentIn log).drop (receivedIn log).length with
  | nil => cases closedBy calls <;> rfl
  | cons a rest => rfl

/-- The end is found once the link was closed and everything that was sent was received. -/
theorem ended_iff (h : l.Accounts calls log) :
    l.receive.1 = .ended ↔
      closedBy calls = true ∧ droppedBy calls = false ∧ receivedIn log = sentIn log := by
  have all : (sentIn log).drop (receivedIn log).length = [] ↔ receivedIn log = sentIn log := by
    rw [List.drop_eq_nil_iff]
    exact ⟨h.received.eq_of_length_le, fun same => same ▸ Nat.le_refl _⟩
  rw [h.next, ← all]
  cases droppedBy calls with
  | true => simp
  | false =>
    cases (sentIn log).drop (receivedIn log).length with
    | nil => cases closedBy calls <;> simp
    | cons a rest => simp

end Accounts

end Link

/-! ## The link behind the handles -/

namespace SharedLink

variable {s : SharedLink α} {n : HandleNumber} {c : LinkCall α}

/-- There is one slot, and all handles say it: only `copy` gives out handles, and the copy says what
the handle says that was copied. -/
structure Unanimous (s : SharedLink α) : Prop where
  only : ∃ filled, s.slots = [filled]
  said : ∀ slot ∈ s.handles, slot = 0

theorem Unanimous.fresh : (SharedLink.fresh : SharedLink α).Unanimous :=
  ⟨⟨true, rfl⟩, fun _ said => List.mem_singleton.mp said⟩

theorem receive_eq (s : SharedLink α) :
    s.receive = (s.view.receive.1, { s with queue := s.view.receive.2.queue }) := by
  rcases s with ⟨queue, dropped, slots, handles⟩
  cases dropped with
  | true => rfl
  | false =>
    cases queue with
    | cons a rest => rfl
    | nil => cases filled : slots.any id <;> simp [receive, Link.receive, view, filled]

theorem receive_view_eq (s : SharedLink α) :
    ({ s with queue := s.view.receive.2.queue } : SharedLink α).view = s.view.receive.2 := by
  rw [view]
  congr 1
  · exact s.view.receive_closed.symm
  · exact s.view.receive_dropped.symm

namespace Unanimous

theorem said_at (h : s.Unanimous) (given : n < s.handles.length) : s.handles[n]? = some 0 := by
  rw [List.getElem?_eq_getElem given, h.said _ (List.getElem_mem given)]

theorem isFilled_eq (h : s.Unanimous) (given : n < s.handles.length) :
    s.isFilled n = !s.view.closed := by
  obtain ⟨filled, only⟩ := h.only
  simp [isFilled, h.said_at given, view, only]

theorem isOpen_eq (h : s.Unanimous) (given : n < s.handles.length) :
    s.isOpen n = s.view.isOpen := by
  rw [isOpen, h.isFilled_eq given]
  rfl

theorem trySend_eq (h : s.Unanimous) (given : n < s.handles.length) (a : α) :
    s.trySend n a =
      if s.view.isOpen then .ok { s with queue := s.queue ++ [a] } else .error .linkLost := by
  rw [← h.isOpen_eq given, trySend, isOpen]
  cases s.isFilled n <;> cases s.dropped <;> rfl

/-- Emptying the slot of one handle empties that of all. -/
theorem close_eq (h : s.Unanimous) (given : n < s.handles.length) :
    s.close n = { s with slots := [false] } := by
  obtain ⟨filled, only⟩ := h.only
  simp [close, h.said_at given, only]

theorem copy_eq (h : s.Unanimous) (given : n < s.handles.length) :
    s.copy n = (s.handles.length, { s with handles := s.handles ++ [0] }) := by
  simp [copy, h.said_at given]

theorem answerSend_eq (h : s.Unanimous) (given : n < s.handles.length) (a : α) :
    ((s.answerSend (s.trySend n a)).1, (s.answerSend (s.trySend n a)).2.view) =
      s.view.call s.handles.length (.trySend n a) := by
  rw [h.trySend_eq given, Link.call_send _ _ rfl]
  cases isOpen : s.view.isOpen with
  | true =>
    rw [Link.push_of_isOpen isOpen]
    rfl
  | false =>
    rw [Link.push_of_not_isOpen (by simp [isOpen])]
    rfl

/-- A call through any handle is a call to the link behind it. -/
theorem call_eq (h : s.Unanimous) (held : ∀ n ∈ c.handle?, n < s.handles.length) :
    ((s.call c).1, (s.call c).2.view) = s.view.call s.handles.length c := by
  cases c with
  | send n a => exact h.answerSend_eq (held n rfl) a
  | trySend n a => exact h.answerSend_eq (held n rfl) a
  | close n =>
    show (LinkAnswer.done, (s.close n).view) = (.done, s.view.close)
    rw [h.close_eq (held n rfl)]
    rfl
  | copy n =>
    show (LinkAnswer.copied (s.copy n).1, (s.copy n).2.view) = (.copied s.handles.length, s.view)
    rw [h.copy_eq (held n rfl)]
    rfl
  | isOpen n =>
    show (LinkAnswer.isOpen (s.isOpen n), s.view) = (.isOpen s.view.isOpen, s.view)
    rw [h.isOpen_eq (held n rfl)]
  | receive =>
    show (LinkAnswer.received s.receive.1, s.receive.2.view) =
      (.received s.view.receive.1, s.view.receive.2)
    rw [receive_eq]
    exact congrArg (Prod.mk _) s.receive_view_eq
  | dropReceiver => rfl

/-- What a call does to the slots and handles. -/
theorem call (h : s.Unanimous) (held : ∀ n ∈ c.handle?, n < s.handles.length) :
    (s.call c).2.Unanimous ∧
      (s.call c).2.handles.length = s.handles.length + if c.copies then 1 else 0 := by
  have sends : ∀ n a, n < s.handles.length → (s.answerSend (s.trySend n a)).2.Unanimous ∧
      (s.answerSend (s.trySend n a)).2.handles.length = s.handles.length := by
    intro n a given
    rw [h.trySend_eq given]
    split
    · exact ⟨⟨h.only, h.said⟩, rfl⟩
    · exact ⟨h, rfl⟩
  cases c with
  | send n a => exact sends n a (held n rfl)
  | trySend n a => exact sends n a (held n rfl)
  | close n =>
    show (s.close n).Unanimous ∧ (s.close n).handles.length = _
    rw [h.close_eq (held n rfl)]
    exact ⟨⟨⟨false, rfl⟩, h.said⟩, rfl⟩
  | copy n =>
    show (s.copy n).2.Unanimous ∧ (s.copy n).2.handles.length = _
    rw [h.copy_eq (held n rfl)]
    refine ⟨⟨h.only, fun slot said => ?_⟩, List.length_append⟩
    rcases List.mem_append.mp said with earlier | last
    · exact h.said slot earlier
    · exact List.mem_singleton.mp last
  | isOpen n => exact ⟨h, rfl⟩
  | receive =>
    show s.receive.2.Unanimous ∧ s.receive.2.handles.length = _
    rw [receive_eq]
    exact ⟨⟨h.only, h.said⟩, rfl⟩
  | dropReceiver => exact ⟨⟨h.only, h.said⟩, rfl⟩

end Unanimous

/-! ## Calls in a row -/

/-- Make one call after another. -/
def run (s : SharedLink α) (calls : List (LinkCall α)) : SharedLink α :=
  calls.foldl (fun s c => (s.call c).2) s

/-- Calls in a row, each with its answer. -/
def log (s : SharedLink α) : List (LinkCall α) → List (LinkEntry α)
  | [] => []
  | c :: rest => (c, (s.call c).1) :: log (s.call c).2 rest

variable {calls more : List (LinkCall α)}

theorem run_snoc (s : SharedLink α) (calls : List (LinkCall α)) (c : LinkCall α) :
    s.run (calls ++ [c]) = ((s.run calls).call c).2 := by
  simp [run]

theorem log_snoc (s : SharedLink α) (calls : List (LinkCall α)) (c : LinkCall α) :
    s.log (calls ++ [c]) = s.log calls ++ [(c, ((s.run calls).call c).1)] := by
  induction calls generalizing s with
  | nil => rfl
  | cons d rest ih => exact congrArg ((d, (s.call d).1) :: ·) (ih (s.call d).2)

/-- A link after calls, with the handles that were given out in the course of them. -/
structure Reached (s : SharedLink α) (calls : List (LinkCall α)) (log : List (LinkEntry α)) :
    Prop where
  unanimous : s.Unanimous
  handles : s.handles.length = givenOut calls
  accounts : s.view.Accounts calls log

theorem reached (possible : Possible calls) :
    ((fresh : SharedLink α).run calls).Reached calls (fresh.log calls) := by
  induction calls using List.reverseRecOn with
  | nil => exact ⟨.fresh, rfl, .fresh⟩
  | append_singleton calls c ih =>
    obtain ⟨possible, held⟩ := possible_snoc.mp possible
    obtain ⟨unanimous, handles, accounts⟩ := ih possible
    rw [← handles] at held
    rw [run_snoc, log_snoc]
    obtain ⟨answer, view⟩ := Prod.mk.inj (unanimous.call_eq held)
    refine ⟨(unanimous.call held).1, ?_, ?_⟩
    · rw [(unanimous.call held).2, handles, givenOut_snoc]
    · rw [answer, view]
      exact accounts.call _ c

/-- What is answered depends on the calls before and not on the handle that is used. -/
theorem answer_eq (possible : Possible (calls ++ [c])) :
    (((fresh : SharedLink α).run calls).call c).1 =
      (((fresh : SharedLink α).run calls).view.call (givenOut calls) c).1 := by
  obtain ⟨possible, held⟩ := possible_snoc.mp possible
  obtain ⟨unanimous, handles, -⟩ := reached possible
  rw [← handles] at held ⊢
  exact congrArg Prod.fst (unanimous.call_eq held)

/-- After a close nothing is added, and whoever looks finds what is left, one after another. -/
theorem received_closed (possible : Possible (calls ++ more)) (shut : closedBy calls = true)
    (held : droppedBy (calls ++ more) = false) :
    sentIn (fresh.log (calls ++ more)) = sentIn (fresh.log calls) ∧
      receivedIn (fresh.log (calls ++ more)) =
        (sentIn (fresh.log calls)).take
          ((receivedIn (fresh.log calls)).length + more.countP receives) := by
  induction more using List.reverseRecOn with
  | nil =>
    rw [List.append_nil] at possible ⊢
    exact ⟨rfl, List.prefix_iff_eq_take.mp (reached possible).accounts.received⟩
  | append_singleton more c ih =>
    rw [← List.append_assoc] at possible held ⊢
    rw [droppedBy_append, Bool.or_eq_false_iff] at held
    have before := (possible_snoc.mp possible).1
    obtain ⟨same, taken⟩ := ih before held.1
    have accounts := (reached before).accounts
    -- A send fails by now through every handle, so there is no more to take than there was.
    have still : closedBy (calls ++ more) = true := by rw [closedBy_append, shut, Bool.true_or]
    have answer := answer_eq possible
    have silent : sent? (c, ((fresh.run (calls ++ more)).call c).1) = none := by
      rw [answer, Link.sent?_call, accounts.isOpen, intact, still]
      rfl
    refine ⟨?_, ?_⟩
    · rw [log_snoc, sentIn_snoc, silent, same]
      exact List.append_nil _
    · rw [log_snoc, receivedIn_snoc, answer, Link.received?_call, accounts.found held.1, same,
        taken, List.countP_append, List.countP_singleton, ← Nat.add_assoc]
      cases c.receives with
      | true => exact take_append_next _ _
      | false => exact List.append_nil _

/-- All handles say alike whether the link is open: as long as nobody closed it and the receiving
end is there. -/
theorem answer_isOpen (possible : Possible calls) (given : n < givenOut calls) :
    ((fresh.run calls).call (.isOpen n : LinkCall α)).1 = .isOpen (intact calls) := by
  have now : Possible (calls ++ [.isOpen n]) :=
    possible_snoc.mpr ⟨possible, fun h used => Option.some.inj used ▸ given⟩
  rw [answer_eq now]
  exact congrArg LinkAnswer.isOpen (reached possible).accounts.isOpen

/-- Through all handles one can send that long and no longer. -/
theorem answer_send (possible : Possible calls) (given : n < givenOut calls) {a : α}
    (used : c.handle? = some n) (sends : c.event? = some a) :
    ((fresh.run calls).call c).1 = .sent (if intact calls then .ok () else .error .linkLost) := by
  have now : Possible (calls ++ [c]) :=
    possible_snoc.mpr ⟨possible, fun h same => Option.some.inj (used.symm.trans same) ▸ given⟩
  rw [answer_eq now, Link.call_send _ _ sends, (reached possible).accounts.isOpen]

theorem answer_receive (possible : Possible calls) :
    ((fresh.run calls).call (.receive : LinkCall α)).1 =
      .received (fresh.run calls).view.receive.1 :=
  answer_eq (possible_snoc.mpr ⟨possible, nofun⟩)

/-- **All handles share one queue and one close.** After any calls, through whichever handles:

* every handle can be sent through, and says so, as long as none of them was closed and the
  receiving end is there, and never again afterwards;
* what was received comes first among what was sent, in the order in which it was sent through all
  the handles, and what is found next is the first event that was not received;
* the end is found only once the link was closed and all that was sent was received. Until then
  every look takes the next of what is left, whatever is done with the handles meanwhile. -/
theorem handles_share (calls : List (LinkCall α)) (possible : Possible calls) :
    let s := fresh.run calls
    let sent := sentIn (fresh.log calls)
    let received := receivedIn (fresh.log calls)
    (∀ h < givenOut calls,
      (s.call (.isOpen h)).1 = .isOpen (intact calls) ∧
      ∀ a, (s.call (.send h a)).1 = .sent (if intact calls then .ok () else .error .linkLost) ∧
        (s.call (.trySend h a)).1 = .sent (if intact calls then .ok () else .error .linkLost)) ∧
    (intact calls = false → ∀ more, Possible (calls ++ more) → ∀ h < givenOut (calls ++ more),
      ((fresh.run (calls ++ more)).call (.isOpen h)).1 = .isOpen false) ∧
    received <+: sent ∧
    (s.call .receive).1 = .received
      (if droppedBy calls then .dropped
      else
        match sent.drop received.length with
        | a :: _ => .value a
        | [] => if closedBy calls then .ended else .empty) ∧
    ((s.call .receive).1 = .received .ended ↔
      closedBy calls = true ∧ droppedBy calls = false ∧ received = sent) ∧
    (closedBy calls = true → ∀ more, Possible (calls ++ more) → droppedBy (calls ++ more) = false →
      sentIn (fresh.log (calls ++ more)) = sent ∧
      receivedIn (fresh.log (calls ++ more)) =
        sent.take (received.length + more.countP receives)) := by
  intro s sent received
  have accounts := (reached possible).accounts
  refine ⟨fun h given => ⟨answer_isOpen possible given, fun a => ⟨?_, ?_⟩⟩, ?_,
    accounts.received, ?_, ?_, fun shut more later held => received_closed later shut held⟩
  · exact answer_send possible given rfl rfl
  · exact answer_send possible given rfl rfl
  · intro harmed more later h given
    rw [answer_isOpen later given, intact_append, harmed, Bool.false_and]
  · rw [answer_receive possible, accounts.next]
  · rw [answer_receive possible, LinkAnswer.received.injEq, accounts.ended_iff]

/-- A link with two handles is closed through the second, while an event waits that was sent through
the first. -/
theorem handles_share_closed :
    let calls : List (LinkCall Nat) := [.copy 0, .send 0 1, .trySend 1 2, .close 1, .receive]
    let more : List (LinkCall Nat) := [.send 0 3, .copy 1, .receive, .isOpen 2]
    Possible calls ∧ Possible (calls ++ more) ∧ givenOut (calls ++ more) = 3 ∧
      ((fresh.run calls).call (.isOpen 0)).1 = .isOpen false ∧
      ((fresh.run calls).call (.send 0 3)).1 = .sent (.error .linkLost) ∧
      ((fresh.run (calls ++ more)).call (.isOpen 2)).1 = .isOpen false ∧
      ((fresh.run calls).call .receive).1 = .received (.value 2) ∧
      receivedIn (fresh.log (calls ++ more)) = [1, 2] ∧
      ((fresh.run (calls ++ more)).call .receive).1 = .received .ended := by
  intro calls more
  have possible : Possible calls := by decide
  have later : Possible (calls ++ more) := by decide
  obtain ⟨through, never, -, next, -, rest⟩ := handles_share calls possible
  obtain ⟨-, -, -, -, ended, -⟩ := handles_share (calls ++ more) later
  exact ⟨possible, later, rfl, (through 0 (by decide)).1, ((through 0 (by decide)).2 3).1,
    never rfl more later 2 (by decide), next, (rest rfl more later rfl).2,
    ended.mpr ⟨rfl, rfl, rfl⟩⟩

end SharedLink

end Parley
