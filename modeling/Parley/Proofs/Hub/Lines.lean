import Parley.Proofs.History
import Parley.Proofs.Link
import Parley.Proofs.Table
import Parley.Switchboard

/-!
# The lines of a switchboard

A switchboard hands out a new line whenever a peer is registered. `Switchboard.run` follows any
calls of a switchboard and of the receiving ends of its lines, and `Switchboard.Carries` says what a
line carries after them: what was emitted to its peer from the registration on, until the peer was
registered again or forgotten, each event once and in this order, and then its end. Nothing that
happens to another peer or to another line shows on it, an earlier line of the same peer included.

A line is followed call by call (`Serves.call`). It leads to its peer as long as the peer is neither
registered again nor forgotten, and to nobody ever after.
-/

namespace Parley

namespace Switchboard

variable {b b' : Switchboard} {p q : PeerId} {k : Nat} {l : Link ServerEvent}

/-! ## Single calls -/

/-- The events on a line. -/
def queue (b : Switchboard) (k : Nat) : List ServerEvent := (b.lines[k]?).elim [] (·.queue)

theorem emit_peers (b : Switchboard) (p : PeerId) (event : ServerEvent) :
    (b.emit p event).peers = b.peers := by
  unfold emit
  split <;> rfl

theorem emit_lines (b : Switchboard) (p : PeerId) (event : ServerEvent) (k : Nat) :
    (b.emit p event).lines[k]? =
      if b.peers.get? p = some k then (b.lines[k]?).map (·.push event) else b.lines[k]? := by
  unfold emit
  split
  case h_1 line found =>
    rw [found]
    simp only [List.getElem?_modify, Option.some.injEq]
    split <;> simp
  case h_2 found => simp [found]

theorem emit_length (b : Switchboard) (p : PeerId) (event : ServerEvent) :
    (b.emit p event).lines.length = b.lines.length := by
  unfold emit
  split
  · exact List.length_modify _ _ _
  · rfl

/-- What nobody listens to is lost, and nothing else happens. -/
theorem emit_lost (p : PeerId) (event : ServerEvent)
    (lost : ∀ k l, b.peers.get? p = some k → b.lines[k]? = some l → l.isOpen = false) :
    b.emit p event = b := by
  unfold emit
  split
  case h_1 k found =>
    have same : b.lines.modify k (·.push event) = b.lines := by
      apply List.ext_getElem?
      intro n
      rw [List.getElem?_modify]
      by_cases here : k = n
      · subst here
        cases there : b.lines[k]? with
        | none => rfl
        | some l =>
          have shut : l.push event = l := Link.push_of_not_isOpen (by simp [lost k l found there]) _
          simp [shut]
      · simp [here]
    rw [same]
  case h_2 => rfl

theorem hangUp_peers (b : Switchboard) (p : PeerId) : (b.hangUp p).peers = b.peers := by
  unfold hangUp
  split <;> rfl

theorem hangUp_length (b : Switchboard) (p : PeerId) :
    (b.hangUp p).lines.length = b.lines.length := by
  unfold hangUp
  split
  · exact List.length_modify _ _ _
  · rfl

theorem hangUp_lines (b : Switchboard) (p : PeerId) (k : Nat) :
    (b.hangUp p).lines[k]? =
      if b.peers.get? p = some k then (b.lines[k]?).map Link.close else b.lines[k]? := by
  unfold hangUp
  split
  case h_1 line found =>
    rw [found]
    simp only [List.getElem?_modify, Option.some.injEq]
    split <;> simp
  case h_2 found => simp [found]

theorem add_fst (b : Switchboard) (p : PeerId) : (b.add p).1 = b.lines.length :=
  b.hangUp_length p

theorem add_peers (b : Switchboard) (p : PeerId) :
    (b.add p).2.peers = b.peers.set p b.lines.length := by
  show (b.hangUp p).peers.set p (b.hangUp p).lines.length = _
  rw [hangUp_peers, hangUp_length]

theorem add_lines (b : Switchboard) (p : PeerId) :
    (b.add p).2.lines = (b.hangUp p).lines ++ [.fresh] :=
  rfl

theorem add_of_fresh (fresh : b.peers.get? p = none) :
    b.add p = (b.lines.length, ⟨b.lines ++ [.fresh], b.peers.set p b.lines.length⟩) := by
  simp [add, hangUp, fresh]

theorem remove_peers (b : Switchboard) (p : PeerId) : (b.remove p).peers = b.peers.erase p := by
  show (b.hangUp p).peers.erase p = _
  rw [hangUp_peers]

theorem remove_of_known (known : b.peers.get? p = some k) :
    b.remove p = ⟨b.lines.modify k Link.close, b.peers.erase p⟩ := by
  simp [remove, hangUp, known]

theorem receive_peers (b : Switchboard) (k : Nat) : (b.receive k).2.peers = b.peers := by
  unfold receive
  split <;> rfl

theorem receive_lines (b : Switchboard) (k n : Nat) :
    (b.receive k).2.lines[n]? =
      if k = n then (b.lines[n]?).map (·.receive.2) else b.lines[n]? := by
  unfold receive
  split
  case h_1 l there =>
    rw [List.getElem?_set]
    by_cases here : k = n
    · subst here
      obtain ⟨lt, here⟩ := List.getElem?_eq_some_iff.mp there
      simp [here, lt]
    · rw [if_neg here, if_neg here]
  case h_2 nowhere =>
    by_cases here : k = n
    · subst here
      simp [nowhere]
    · rw [if_neg here]

theorem receive_length (b : Switchboard) (k : Nat) :
    (b.receive k).2.lines.length = b.lines.length := by
  unfold receive
  split
  · exact List.length_set
  · rfl

theorem receive_fst (there : b.lines[k]? = some l) : (b.receive k).1 = l.receive.1 := by
  simp [receive, there]

/-- What is received is the first event on a line that has a receiving end. -/
theorem receive_value {event : ServerEvent} (there : b.lines[k]? = some l)
    (held : l.dropped = false) (received : b.receive k = (.value event, b')) :
    ∃ rest, l.queue = event :: rest ∧
      b' = { b with lines := b.lines.set k { l with queue := rest } } := by
  simp only [receive, there, Link.receive, held, Bool.false_eq_true, if_false] at received
  cases filled : l.queue with
  | nil =>
    rw [filled] at received
    dsimp only at received
    split at received <;> cases received
  | cons e rest =>
    rw [filled] at received
    cases received
    exact ⟨rest, rfl, by rw [held]⟩

/-! ## Calls in a row -/

/-- What is asked of a switchboard and of the receiving ends of its lines. -/
inductive Call where
  | add (p : PeerId)
  | remove (p : PeerId)
  | emit (p : PeerId) (event : ServerEvent)
  | receive (line : Nat)
  | dropReceiver (line : Nat)

namespace Call

/-- The call hands out a line. -/
def adds : Call → Bool
  | .add _ => true
  | _ => false

/-- The peer is registered or forgotten, so the line that it had is given up. -/
def replaces (p : PeerId) : Call → Bool
  | .add q | .remove q => q = p
  | _ => false

/-- The event that is emitted to the peer. -/
def emits? (p : PeerId) : Call → Option ServerEvent
  | .emit q event => if q = p then some event else none
  | _ => none

/-- The receiving end of the line is given up. -/
def drops (k : Nat) : Call → Bool
  | .dropReceiver n => n = k
  | _ => false

end Call

/-- Do what is asked for. -/
def call (b : Switchboard) : Call → Switchboard
  | .add p => (b.add p).2
  | .remove p => b.remove p
  | .emit p event => b.emit p event
  | .receive k => (b.receive k).2
  | .dropReceiver k => b.dropReceiver k

/-- Do one thing after another. -/
def run (b : Switchboard) (calls : List Call) : Switchboard := calls.foldl call b

/-- What a call takes from a line. -/
def takes? (b : Switchboard) (k : Nat) : Call → Option ServerEvent
  | .receive n => if n = k then (b.receive k).1.value? else none
  | _ => none

/-- What is received on a line in the course of calls. -/
def taken (k : Nat) (b : Switchboard) : List Call → List ServerEvent
  | [] => []
  | c :: rest => (b.takes? k c).toList ++ taken k (b.call c) rest

/-- The peer is registered again or forgotten in the course of calls. -/
def replaced (p : PeerId) (calls : List Call) : Bool := calls.any (·.replaces p)

/-- The receiving end of a line is given up in the course of calls. -/
def abandoned (k : Nat) (calls : List Call) : Bool := calls.any (·.drops k)

/-- What is emitted to the peer before it is registered again or forgotten. -/
def emitted (p : PeerId) (calls : List Call) : List ServerEvent :=
  (calls.takeWhile fun c => !c.replaces p).filterMap (·.emits? p)

/-- The peer was registered, and was not forgotten since. -/
def Added (p : PeerId) (calls : List Call) : Prop :=
  ∃ before since, calls = before ++ .add p :: since ∧ .remove p ∉ since

variable {calls since : List Call} {c : Call} {got : List ServerEvent}

theorem run_snoc (b : Switchboard) (calls : List Call) (c : Call) :
    b.run (calls ++ [c]) = (b.run calls).call c := by
  simp [run]

theorem run_append (b : Switchboard) (calls calls' : List Call) :
    b.run (calls ++ calls') = (b.run calls).run calls' :=
  List.foldl_append

theorem taken_snoc (k : Nat) (b : Switchboard) (calls : List Call) (c : Call) :
    taken k b (calls ++ [c]) = taken k b calls ++ ((b.run calls).takes? k c).toList := by
  induction calls generalizing b with
  | nil => simp [taken, run]
  | cons d rest ih =>
    show (b.takes? k d).toList ++ taken k (b.call d) (rest ++ [c]) = _
    rw [ih, ← List.append_assoc]
    rfl

theorem replaced_snoc (p : PeerId) (calls : List Call) (c : Call) :
    replaced p (calls ++ [c]) = (replaced p calls || c.replaces p) := by
  simp [replaced]

theorem abandoned_snoc (k : Nat) (calls : List Call) (c : Call) :
    abandoned k (calls ++ [c]) = (abandoned k calls || c.drops k) := by
  simp [abandoned]

theorem emitted_snoc (p : PeerId) (calls : List Call) (c : Call) :
    emitted p (calls ++ [c]) =
      emitted p calls ++ if replaced p calls then [] else (c.emits? p).toList := by
  induction calls with
  | nil =>
    cases replaces : c.replaces p with
    | false => cases emits : c.emits? p <;> simp [emitted, replaced, replaces, emits]
    | true =>
      have silent : c.emits? p = none := by
        cases c with
        | emit => cases replaces
        | _ => rfl
      simp [emitted, replaced, replaces, silent]
  | cons d rest ih =>
    cases replaces : d.replaces p with
    | true => simp [emitted, replaced, replaces]
    | false =>
      have now (more : List Call) :
          emitted p (d :: more) = (d.emits? p).toList ++ emitted p more := by
        cases emits : d.emits? p <;> simp [emitted, replaces, emits]
      have later : replaced p (d :: rest) = replaced p rest := by simp [replaced, replaces]
      rw [List.cons_append, now, now, ih, later, List.append_assoc]

theorem added_snoc (p : PeerId) (calls : List Call) (c : Call) :
    Added p (calls ++ [c]) ↔ c = .add p ∨ Added p calls ∧ c ≠ .remove p := by
  constructor
  · rintro ⟨before, since, split, kept⟩
    rcases snoc_eq_split.mp split with ⟨rfl, rfl, rfl⟩ | ⟨since', rfl, rfl⟩
    · exact .inl rfl
    · simp only [List.mem_append, List.mem_singleton, not_or] at kept
      exact .inr ⟨⟨before, since', rfl, kept.1⟩, Ne.symm kept.2⟩
  · rintro (rfl | ⟨⟨before, since, rfl, kept⟩, other⟩)
    · exact ⟨calls, [], rfl, List.not_mem_nil⟩
    · refine ⟨before, since ++ [c], by simp, ?_⟩
      simp only [List.mem_append, List.mem_singleton, not_or]
      exact ⟨kept, Ne.symm other⟩

/-! ## What holds of a switchboard at any time -/

/-- Peers are registered once, on lines that were handed out. -/
structure Laid (b : Switchboard) : Prop where
  unique : b.peers.Unique
  bounded : ∀ p k, b.peers.get? p = some k → k < b.lines.length

theorem Laid.empty : Switchboard.empty.Laid := ⟨.empty, nofun⟩

theorem Laid.call (h : b.Laid) (c : Call) : (b.call c).Laid := by
  cases c with
  | add p =>
    have peers := b.add_peers p
    have lines : (b.add p).2.lines.length = b.lines.length + 1 := by
      rw [add_lines, List.length_append, hangUp_length]
      rfl
    refine ⟨peers ▸ h.unique.set p _, fun q k leads => ?_⟩
    change (b.add p).2.peers.get? q = some k at leads
    show k < (b.add p).2.lines.length
    rw [peers, Table.get?_set] at leads
    rw [lines]
    split at leads
    · cases leads
      exact Nat.lt_succ_self _
    · exact Nat.lt_succ_of_lt (h.bounded q k leads)
  | remove p =>
    have peers := b.remove_peers p
    refine ⟨peers ▸ h.unique.erase p, fun q k leads => ?_⟩
    change (b.remove p).peers.get? q = some k at leads
    show k < (b.hangUp p).lines.length
    rw [peers, Table.get?_erase] at leads
    rw [hangUp_length]
    split at leads
    · cases leads
    · exact h.bounded q k leads
  | emit p event =>
    have peers := b.emit_peers p event
    refine ⟨peers ▸ h.unique, fun q k leads => ?_⟩
    show k < (b.emit p event).lines.length
    rw [emit_length]
    exact h.bounded q k (peers ▸ leads)
  | receive k =>
    have peers := b.receive_peers k
    refine ⟨peers ▸ h.unique, fun q n leads => ?_⟩
    show n < (b.receive k).2.lines.length
    rw [receive_length]
    exact h.bounded q n (peers ▸ leads)
  | dropReceiver k =>
    refine ⟨h.unique, fun q n leads => ?_⟩
    show n < (b.lines.modify k Link.dropReceiver).length
    rw [List.length_modify]
    exact h.bounded q n leads

theorem Laid.run (h : b.Laid) (calls : List Call) : (b.run calls).Laid := by
  induction calls generalizing b with
  | nil => exact h
  | cons c rest ih => exact ih (h.call c)

/-- Lines are numbered in the order in which they were handed out. -/
theorem run_length (calls : List Call) :
    (Switchboard.empty.run calls).lines.length = calls.countP Call.adds := by
  induction calls using List.reverseRecOn with
  | nil => rfl
  | append_singleton calls c ih =>
    rw [run_snoc, List.countP_append, ← ih]
    generalize Switchboard.empty.run calls = b
    cases c with
    | add p =>
      show ((b.hangUp p).lines ++ [Link.fresh]).length = _
      rw [List.length_append, hangUp_length]
      rfl
    | remove p => exact b.hangUp_length p
    | emit p event => exact b.emit_length p event
    | receive k => exact b.receive_length k
    | dropReceiver k => exact List.length_modify _ _ _

/-- A peer is registered as long as it was added and not removed since. -/
theorem isConnected_iff (calls : List Call) (p : PeerId) :
    (Switchboard.empty.run calls).isConnected p = true ↔ Added p calls := by
  induction calls using List.reverseRecOn with
  | nil =>
    constructor
    · intro connected
      cases connected
    · rintro ⟨before, since, split, -⟩
      simp at split
  | append_singleton calls c ih =>
    rw [run_snoc, added_snoc, ← ih]
    generalize Switchboard.empty.run calls = b
    simp only [isConnected, Table.contains]
    cases c with
    | add q =>
      show ((b.add q).2.peers.get? p).isSome = true ↔ _
      rw [add_peers, Table.get?_set]
      by_cases same : p = q
      · simp [same]
      · simp [same, Ne.symm same]
    | remove q =>
      show ((b.remove q).peers.get? p).isSome = true ↔ _
      rw [remove_peers, Table.get?_erase]
      by_cases same : p = q
      · simp [same]
      · simp [same, Ne.symm same]
    | emit q event =>
      show ((b.emit q event).peers.get? p).isSome = true ↔ _
      rw [emit_peers]
      simp
    | receive k =>
      show ((b.receive k).2.peers.get? p).isSome = true ↔ _
      rw [receive_peers]
      simp
    | dropReceiver k =>
      show (b.peers.get? p).isSome = true ↔ _
      simp

/-! ## What holds of a line -/

/-- What holds of the line that was handed out for a peer, after the calls that came since. -/
structure Serves (b : Switchboard) (p : PeerId) (k : Nat) (since : List Call)
    (got : List ServerEvent) (l : Link ServerEvent) : Prop where
  there : b.lines[k]? = some l
  leads : b.peers.get? p = some k ↔ replaced p since = false
  owner : ∀ q, b.peers.get? q = some k → q = p
  closed : l.closed = replaced p since
  dropped : l.dropped = abandoned k since
  /-- What was emitted was received or waits to be received. -/
  kept : l.dropped = false → got ++ l.queue = emitted p since
  received : got <+: emitted p since

namespace Serves

theorem lt (h : b.Serves p k since got l) : k < b.lines.length :=
  (List.getElem?_eq_some_iff.mp h.there).1

/-- A line that was just handed out. -/
theorem fresh (laid : b.Laid) (p : PeerId) :
    (b.add p).2.Serves p (b.add p).1 [] [] Link.fresh := by
  have length := b.hangUp_length p
  have peers := b.add_peers p
  rw [add_fst]
  refine ⟨?_, ?_, fun q leads => ?_, rfl, rfl, fun _ => rfl, List.prefix_rfl⟩
  · rw [add_lines, List.getElem?_append_right (Nat.le_of_eq length), length, Nat.sub_self]
    rfl
  · rw [peers, Table.get?_set_self]
    exact iff_of_true rfl rfl
  · rw [peers, Table.get?_set] at leads
    by_contra other
    rw [if_neg other] at leads
    exact Nat.lt_irrefl _ (laid.bounded q _ leads)

/-- A call by which no line is given up. -/
theorem keep (h : b.Serves p k since got l) {l' : Link ServerEvent} {got' : List ServerEvent}
    (peers : b'.peers = b.peers) (stays : c.replaces p = false) (there : b'.lines[k]? = some l')
    (closed : l'.closed = l.closed) (dropped : l'.dropped = (l.dropped || c.drops k))
    (kept : l'.dropped = false → got' ++ l'.queue = emitted p (since ++ [c]))
    (received : got' <+: emitted p (since ++ [c])) : b'.Serves p k (since ++ [c]) got' l' where
  there
  leads := by
    rw [peers, replaced_snoc, stays, Bool.or_false]
    exact h.leads
  owner q leads := h.owner q (peers ▸ leads)
  closed := by rw [closed, h.closed, replaced_snoc, stays, Bool.or_false]
  dropped := by rw [dropped, h.dropped, abandoned_snoc]
  kept
  received

/-- A peer is registered or forgotten. If it is the peer of the line, the line ends. -/
theorem rewire (h : b.Serves p k since got l) {x : Option Nat} (c : Call)
    (replaces : ∀ r, c.replaces r = decide (q = r)) (silent : c.emits? p = none)
    (still : c.drops k = false) (lines : b'.lines[k]? = (b.hangUp q).lines[k]?)
    (peers : ∀ r, b'.peers.get? r = if r = q then x else b.peers.get? r) (new : x ≠ some k) :
    ∃ l', b'.Serves p k (since ++ [c]) got l' := by
  have lines := lines.trans (b.hangUp_lines q k)
  have emits : emitted p (since ++ [c]) = emitted p since := by simp [emitted_snoc, silent]
  have drops : abandoned k (since ++ [c]) = abandoned k since := by simp [abandoned_snoc, still]
  have received : got <+: emitted p (since ++ [c]) := emits ▸ h.received
  have owner (r : PeerId) (leads : b'.peers.get? r = some k) : r = p := by
    rw [peers] at leads
    by_cases same : r = q
    · rw [if_pos same] at leads
      exact absurd leads new
    · rw [if_neg same] at leads
      exact h.owner r leads
  by_cases same : q = p
  · subst same
    have ends : replaced q (since ++ [c]) = true := by simp [replaced_snoc, replaces]
    have away : ¬ b'.peers.get? q = some k := by simpa [peers] using new
    refine ⟨l.close, ?_, ?_, owner, ends.symm, by rw [drops]; exact h.dropped,
      fun held => by rw [emits]; exact h.kept held, received⟩
    · rw [lines, h.there]
      -- If the line does not lead to the peer any more, it has ended before.
      cases before : replaced q since with
      | false => rw [if_pos (h.leads.mpr before), Option.map_some]
      | true =>
        have ended : l.close = l := by
          have closed := h.closed.trans before
          cases l
          simp_all [Link.close]
        rw [if_neg fun leads => by simp [h.leads.mp leads] at before, ended]
    · rw [ends]
      exact iff_of_false away Bool.false_ne_true.symm
  · have stays : replaced p (since ++ [c]) = replaced p since := by
      simp [replaced_snoc, replaces, same]
    refine ⟨l, ?_, ?_, owner, by rw [stays]; exact h.closed, by rw [drops]; exact h.dropped,
      fun held => by rw [emits]; exact h.kept held, received⟩
    · rw [lines, if_neg fun leads => same (h.owner q leads)]
      exact h.there
    · rw [peers, if_neg (Ne.symm same), stays]
      exact h.leads

theorem add (h : b.Serves p k since got l) (q : PeerId) :
    ∃ l', (b.add q).2.Serves p k (since ++ [.add q]) got l' := by
  refine h.rewire (q := q) (.add q) (fun _ => rfl) rfl rfl ?_ (fun r => ?_)
    (fun same => Nat.ne_of_gt h.lt (Option.some.inj same))
  · rw [add_lines, List.getElem?_append_left (by rw [hangUp_length]; exact h.lt)]
  · rw [add_peers, Table.get?_set]

theorem remove (h : b.Serves p k since got l) (q : PeerId) :
    ∃ l', (b.remove q).Serves p k (since ++ [.remove q]) got l' := by
  refine h.rewire (q := q) (x := none) (.remove q) (fun _ => rfl) rfl rfl rfl (fun r => ?_) nofun
  rw [remove_peers, Table.get?_erase]

theorem emit (h : b.Serves p k since got l) (q : PeerId) (event : ServerEvent) :
    ∃ l', (b.emit q event).Serves p k (since ++ [.emit q event]) got l' := by
  have peers := b.emit_peers q event
  have lines := b.emit_lines q event k
  rw [h.there, Option.map_some] at lines
  have emits := emitted_snoc p since (.emit q event)
  have received : got <+: emitted p (since ++ [.emit q event]) := by
    rw [emits]
    exact h.received.trans (List.prefix_append _ _)
  by_cases leads : b.peers.get? q = some k
  · obtain rfl := h.owner q leads
    have current := h.leads.mp leads
    rw [if_pos leads] at lines
    refine ⟨_, h.keep peers rfl lines (Link.push_closed l event)
      ((Link.push_dropped l event).trans (Bool.or_false _).symm) (fun held => ?_) received⟩
    rw [Link.push_dropped] at held
    have isOpen : l.isOpen = true := by simp [Link.isOpen, h.closed, current, held]
    rw [Link.push_of_isOpen isOpen, emits, ← h.kept held, current]
    simp [Call.emits?]
  · -- The event is for somebody else, or for a later line of the peer.
    have nothing : emitted p (since ++ [.emit q event]) = emitted p since := by
      rw [emits]
      by_cases same : q = p
      · subst same
        have gone : replaced q since = true := by simpa [h.leads] using leads
        rw [if_pos gone, List.append_nil]
      · simp [Call.emits?, same]
    rw [if_neg leads] at lines
    refine ⟨l, h.keep peers rfl lines rfl (Bool.or_false _).symm (fun held => ?_) received⟩
    rw [nothing]
    exact h.kept held

theorem receive (h : b.Serves p k since got l) (n : Nat) :
    ∃ l', (b.receive n).2.Serves p k (since ++ [.receive n])
      (got ++ (b.takes? k (.receive n)).toList) l' := by
  have peers := b.receive_peers n
  have lines := b.receive_lines n k
  have nothing : emitted p (since ++ [.receive n]) = emitted p since := by
    simp [emitted_snoc, Call.emits?]
  rw [h.there, Option.map_some] at lines
  by_cases here : n = k
  · subst here
    have takes : b.takes? n (.receive n) = l.receive.1.value? := by
      rw [takes?, if_pos rfl, receive_fst h.there]
    rw [if_pos rfl] at lines
    rw [takes]
    refine ⟨_, h.keep peers rfl lines (Link.receive_closed l)
      ((Link.receive_dropped l).trans (Bool.or_false _).symm) (fun held => ?_) ?_⟩
    · rw [Link.receive_dropped] at held
      rw [List.append_assoc, Link.receive_queue held, h.kept held, nothing]
    · rw [nothing]
      cases held : l.dropped with
      | true =>
        rw [Link.receive_of_dropped held]
        show got ++ [] <+: _
        rw [List.append_nil]
        exact h.received
      | false =>
        rw [← h.kept held, ← Link.receive_queue held, ← List.append_assoc]
        exact List.prefix_append _ _
  · have takes : b.takes? k (.receive n) = none := by rw [takes?, if_neg here]
    rw [if_neg here] at lines
    rw [takes, Option.toList_none, List.append_nil]
    refine ⟨l, h.keep peers rfl lines rfl (Bool.or_false _).symm (fun held => ?_) ?_⟩
    · rw [nothing]
      exact h.kept held
    · rw [nothing]
      exact h.received

theorem dropReceiver (h : b.Serves p k since got l) (n : Nat) :
    ∃ l', (b.dropReceiver n).Serves p k (since ++ [.dropReceiver n]) got l' := by
  have nothing : emitted p (since ++ [.dropReceiver n]) = emitted p since := by
    simp [emitted_snoc, Call.emits?]
  have lines : (b.dropReceiver n).lines[k]? = some (if n = k then l.dropReceiver else l) := by
    show (b.lines.modify n Link.dropReceiver)[k]? = _
    rw [List.getElem?_modify, h.there]
    split <;> rfl
  have received : got <+: emitted p (since ++ [.dropReceiver n]) := nothing ▸ h.received
  by_cases here : n = k
  · rw [if_pos here] at lines
    refine ⟨_, h.keep rfl rfl lines rfl (by simp [Link.dropReceiver, Call.drops, here])
      (fun held => ?_) received⟩
    cases held
  · rw [if_neg here] at lines
    refine ⟨l, h.keep rfl rfl lines rfl (by simp [Call.drops, here]) (fun held => ?_) received⟩
    rw [nothing]
    exact h.kept held

/-- What a call does to a line. -/
theorem call (h : b.Serves p k since got l) (c : Call) :
    ∃ l', (b.call c).Serves p k (since ++ [c]) (got ++ (b.takes? k c).toList) l' := by
  cases c with
  | receive n => exact h.receive n
  | add q =>
    show ∃ l', (b.add q).2.Serves p k _ (got ++ []) l'
    rw [List.append_nil]
    exact h.add q
  | remove q =>
    show ∃ l', (b.remove q).Serves p k _ (got ++ []) l'
    rw [List.append_nil]
    exact h.remove q
  | emit q event =>
    show ∃ l', (b.emit q event).Serves p k _ (got ++ []) l'
    rw [List.append_nil]
    exact h.emit q event
  | dropReceiver n =>
    show ∃ l', (b.dropReceiver n).Serves p k _ (got ++ []) l'
    rw [List.append_nil]
    exact h.dropReceiver n

theorem run (h : b.Serves p k [] [] l) (calls : List Call) :
    ∃ l', (b.run calls).Serves p k calls (taken k b calls) l' := by
  induction calls using List.reverseRecOn with
  | nil => exact ⟨l, h⟩
  | append_singleton calls c ih =>
    obtain ⟨l', h'⟩ := ih
    rw [run_snoc, taken_snoc]
    exact h'.call c

end Serves

/-! ## Whole histories -/

/-- What the line that was handed out for a peer carries after the calls that came since, when these
events were received on it so far. -/
structure Carries (b : Switchboard) (p : PeerId) (k : Nat) (since : List Call)
    (got : List ServerEvent) : Prop where
  /-- Nothing is received that was not emitted to the peer on this line, or out of order. -/
  received : got <+: emitted p since
  /-- The next thing to be found is the first event that was not received, and behind the last one
  the end, if the line has ended. -/
  next : (b.receive k).1 =
    if abandoned k since then .dropped
    else
      match (emitted p since).drop got.length with
      | event :: _ => .value event
      | [] => if replaced p since then .ended else .empty
  /-- What is emitted to a line without a receiving end is lost without a trace. -/
  lost : replaced p since = false → abandoned k since = true → ∀ event, b.emit p event = b

theorem Serves.carries (h : b.Serves p k since got l) : b.Carries p k since got where
  received := h.received
  next := by
    rw [receive_fst h.there, Link.receive_fst_of_kept h.kept, h.dropped, h.closed]
    cases (emitted p since).drop got.length <;> rfl
  lost current gone event := by
    refine emit_lost p event fun n l' leads there => ?_
    obtain rfl : k = n := Option.some.inj ((h.leads.mpr current).symm.trans leads)
    obtain rfl : l = l' := Option.some.inj (h.there.symm.trans there)
    simp [Link.isOpen, h.dropped, gone]

/-- The line that is handed out for a peer carries what is emitted to the peer from then on. -/
theorem add_carries (laid : b.Laid) (p : PeerId) (since : List Call) :
    ((b.add p).2.run since).Carries p (b.add p).1 since (taken (b.add p).1 (b.add p).2 since) := by
  obtain ⟨l, h⟩ := (Serves.fresh laid p).run since
  exact h.carries

/-- What the line is found to carry is taken from it. -/
theorem Carries.takes (h : b.Carries p k since got) (held : abandoned k since = false) :
    b.takes? k (.receive k) = (emitted p since)[got.length]? := by
  rw [takes?, if_pos rfl, h.next, held, if_neg Bool.false_ne_true, ← List.head?_drop]
  cases (emitted p since).drop got.length with
  | nil => cases replaced p since <;> rfl
  | cons event rest => rfl

/-- Whoever looks for more on a line finds what is left of the emitted events, one after another. -/
theorem taken_draining (laid : b.Laid) (p : PeerId) (since : List Call)
    (held : abandoned (b.add p).1 since = false) (n : Nat) :
    taken (b.add p).1 (b.add p).2 (since ++ List.replicate n (.receive (b.add p).1)) =
      (emitted p since).take ((taken (b.add p).1 (b.add p).2 since).length + n) := by
  have carries := b.add_carries laid p
  generalize (b.add p).1 = k, (b.add p).2 = b' at held carries
  have quiet (n : Nat) : emitted p (since ++ List.replicate n (.receive k)) = emitted p since ∧
      abandoned k (since ++ List.replicate n (.receive k)) = false := by
    induction n with
    | zero => simpa using held
    | succ n ih =>
      rw [List.replicate_succ', ← List.append_assoc, emitted_snoc, abandoned_snoc, ih.1, ih.2]
      simp [Call.emits?, Call.drops]
  induction n with
  | zero =>
    rw [List.replicate_zero, List.append_nil, Nat.add_zero]
    exact List.prefix_iff_eq_take.mp (carries since).received
  | succ n ih =>
    have next := (carries (since ++ List.replicate n (.receive k))).takes (quiet n).2
    rw [(quiet n).1, ih] at next
    rw [List.replicate_succ', ← List.append_assoc, taken_snoc, ih, next, ← Nat.add_assoc]
    exact take_append_next _ _

/-- **What a switchboard does with its lines.** After any calls, each line that was handed out has a
number of its own, and was and will be found to carry exactly the events that were emitted to its
peer from then on, until the peer was registered again or forgotten, and then its end. The
registered peers are those that were added and not removed since, and what is emitted to anybody
else is lost without a trace. -/
theorem lines_carry (calls : List Call) :
    let b := Switchboard.empty.run calls
    (∀ before p since, calls = before ++ .add p :: since →
      let added := (Switchboard.empty.run before).add p
      let got := taken added.1 added.2 since
      added.1 = before.countP Call.adds ∧ b.Carries p added.1 since got ∧
        (abandoned added.1 since = false →
          ∀ n, taken added.1 added.2 (since ++ List.replicate n (.receive added.1)) =
            (emitted p since).take (got.length + n))) ∧
    (∀ p, b.isConnected p = true ↔ Added p calls) ∧
    b.peerCount = {p | Added p calls}.ncard ∧
    ∀ p event, ¬ Added p calls → b.emit p event = b := by
  intro b
  refine ⟨fun before p since split => ?_, isConnected_iff calls, ?_, fun p event away => ?_⟩
  · intro added got
    have laid : (Switchboard.empty.run before).Laid := Laid.empty.run before
    have reached : b = added.2.run since := by
      show Switchboard.empty.run calls = _
      rw [split, run_append]
      rfl
    refine ⟨?_, ?_, taken_draining laid p since⟩
    · exact (add_fst _ p).trans (run_length before)
    · rw [reached]
      exact add_carries laid p since
  · have laid : b.Laid := Laid.empty.run calls
    rw [peerCount, laid.unique.size_eq_ncard]
    congr 1
    ext p
    exact isConnected_iff calls p
  · refine emit_lost p event fun k l leads there => ?_
    refine absurd ((isConnected_iff calls p).mp ?_) away
    show (b.peers.get? p).isSome = true
    rw [leads]
    rfl

end Switchboard

end Parley
