import Parley.Network
import Parley.Proofs.Hub.Lines
import Parley.Proofs.Relay.Emissions
import Parley.Proofs.Session.Onward
import Parley.Proofs.Session.Sound

/-!
# What a move does to a network

`Network.Wf` collects what holds in every state: names and lines are not shared, the switchboard
knows the lines of the connected peers and no others, who is in a room is connected, and a session
asks for its own room only. `Network.Moved` says what a move does, as far as the participants, the
registry and the queues are concerned; the switchboard is not looked into any more after that.
-/

namespace Parley

/-! ## Lines -/

namespace Switchboard

variable {b : Switchboard} {p : PeerId} {k : Nat} {l : Link ServerEvent}

theorem emitAll_peers (b : Switchboard) (es : List Emission) :
    (Hub.emitAll b es).peers = b.peers := by
  unfold Hub.emitAll
  induction es generalizing b with
  | nil => rfl
  | cons e es ih => rw [List.foldl_cons, ih, emit_peers]

/-- The line of a peer gets the events for the peer. -/
theorem emitAll_lines (leads : b.peers.get? p = some k)
    (owner : ∀ q, b.peers.get? q = some k → q = p) (there : b.lines[k]? = some l)
    (isOpen : l.isOpen = true) (es : List Emission) :
    (Hub.emitAll b es).lines[k]? = some { l with queue := l.queue ++ heard es p } := by
  unfold Hub.emitAll
  induction es generalizing b l with
  | nil => simp [there, heard]
  | cons e es ih =>
    rw [List.foldl_cons]
    have peers := emit_peers b e.recipient e.event
    have lines := emit_lines b e.recipient e.event k
    have leads' : (b.emit e.recipient e.event).peers.get? p = some k := by rw [peers, leads]
    have owner' : ∀ q, (b.emit e.recipient e.event).peers.get? q = some k → q = p := by
      rw [peers]
      exact owner
    by_cases own : e.recipient = p
    · rw [own, leads, if_pos rfl, there, Option.map_some, Link.push_of_isOpen isOpen] at lines
      rw [← own] at lines
      rw [ih leads' owner' lines isOpen]
      simp [heard, own]
    · have elsewhere : b.peers.get? e.recipient ≠ some k := fun found => own (owner _ found)
      rw [if_neg elsewhere, there] at lines
      rw [ih leads' owner' lines isOpen]
      simp [heard, own]

/-- A line that leads to nobody gets nothing. -/
theorem emitAll_lines_of_nobody (nobody : ∀ q, b.peers.get? q ≠ some k) (es : List Emission) :
    (Hub.emitAll b es).lines[k]? = b.lines[k]? := by
  unfold Hub.emitAll
  induction es generalizing b with
  | nil => rfl
  | cons e es ih =>
    rw [List.foldl_cons, ih (by rw [emit_peers]; exact nobody), emit_lines, if_neg (nobody _)]

end Switchboard

/-- Names and lines are not shared, and a switchboard knows the lines of those that are connected.
What a line carries can be received, and only the line of a connected peer can still be sent to. -/
structure Switchboard.Wired (b : Switchboard) (ps : List Participant) : Prop where
  distinct : ps.Pairwise fun x y => x.peer ≠ y.peer ∧ x.line ≠ y.line
  laid : ∀ x ∈ ps, b.lines[x.line]? = some ⟨b.queue x.line, !x.connected, false⟩
  listed : ∀ p k, b.peers.get? p = some k ↔ ∃ x ∈ ps, x.connected = true ∧ x.peer = p ∧ x.line = k

section Wired

variable {b b' : Switchboard} {ps : List Participant} {x x' y : Participant} {n : Network}
  {p : PeerId}

/-- Who takes part after a participant was replaced. -/
theorem Network.mem_update (mem : x ∈ n.participants) (same : x'.peer = x.peer) :
    y ∈ (n.update x').participants ↔ y = x' ∨ y ∈ n.participants ∧ y.peer ≠ x.peer := by
  simp only [update, List.mem_map]
  constructor
  · rintro ⟨z, there, rfl⟩
    by_cases own : z.peer = x'.peer
    · simp [own]
    · rw [if_neg own]
      exact .inr ⟨there, fun e => own (e.trans same.symm)⟩
  · rintro (rfl | ⟨there, other⟩)
    · exact ⟨x, mem, if_pos same.symm⟩
    · exact ⟨y, there, if_neg fun e => other (e.trans same)⟩

namespace Switchboard.Wired

/-- Two participants of one name or with one line are the same. -/
theorem eq_of_peer_or_line (h : b.Wired ps) (mem : x ∈ ps) (mem' : y ∈ ps)
    (same : x.peer = y.peer ∨ x.line = y.line) : x = y := by
  have distinct : ps.Pairwise fun x y => x.peer = y.peer ∨ x.line = y.line → x = y :=
    h.distinct.imp fun apart same => (same.elim apart.1 apart.2).elim
  refine List.Pairwise.forall_of_forall_of_flip (fun _ _ _ => rfl) distinct ?_ mem mem' same
  exact distinct.imp fun eq same => (eq (same.imp Eq.symm Eq.symm)).symm

/-- A participant can be replaced by one of the same name and with the same line. -/
theorem distinct_update (h : b.Wired n.participants) (mem : x ∈ n.participants)
    (peer : x'.peer = x.peer) (line : x'.line = x.line) :
    (n.update x').participants.Pairwise fun x y => x.peer ≠ y.peer ∧ x.line ≠ y.line := by
  have same (y : Participant) (there : y ∈ n.participants) :
      (if y.peer = x'.peer then x' else y).peer = y.peer ∧
        (if y.peer = x'.peer then x' else y).line = y.line := by
    split
    case isTrue own =>
      have own : y = x := h.eq_of_peer_or_line there mem (.inl (own.trans peer))
      rw [own]
      exact ⟨peer, line⟩
    case isFalse => exact ⟨rfl, rfl⟩
  unfold Network.update
  rw [List.pairwise_map]
  refine h.distinct.imp_of_mem fun {y z} there there' apart => ?_
  rw [(same y there).1, (same y there).2, (same z there').1, (same z there').2]
  exact apart

/-- What a participant does to its session and its link is nothing to the switchboard. -/
theorem update (h : b.Wired n.participants) (mem : x ∈ n.participants) (peer : x'.peer = x.peer)
    (line : x'.line = x.line) (connected : x'.connected = x.connected) :
    b.Wired (n.update x').participants where
  distinct := h.distinct_update mem peer line
  laid y there := by
    rcases (Network.mem_update mem peer).mp there with rfl | ⟨there, -⟩
    · rw [line, connected]
      exact h.laid x mem
    · exact h.laid y there
  listed p k := by
    rw [h.listed p k]
    constructor
    · rintro ⟨y, there, on, name, number⟩
      by_cases own : y.peer = x.peer
      · have own := h.eq_of_peer_or_line there mem (.inl own)
        subst own
        exact ⟨x', (Network.mem_update mem peer).mpr (.inl rfl), connected ▸ on, peer.trans name,
          line.trans number⟩
      · exact ⟨y, (Network.mem_update mem peer).mpr (.inr ⟨there, own⟩), on, name, number⟩
    · rintro ⟨y, there, on, name, number⟩
      rcases (Network.mem_update mem peer).mp there with rfl | ⟨there, -⟩
      · exact ⟨x, mem, connected ▸ on, peer ▸ name, line ▸ number⟩
      · exact ⟨y, there, on, name, number⟩

/-- What the relay emits comes to the lines of those it is for. -/
theorem emitAll (h : b.Wired ps) (es : List Emission) :
    (Hub.emitAll b es).Wired ps ∧ ∀ x ∈ ps, (Hub.emitAll b es).queue x.line =
      if x.connected then b.queue x.line ++ heard es x.peer else b.queue x.line := by
  have lines (x : Participant) (mem : x ∈ ps) : (Hub.emitAll b es).lines[x.line]? =
      some ⟨if x.connected then b.queue x.line ++ heard es x.peer else b.queue x.line,
        !x.connected, false⟩ := by
    have there := h.laid x mem
    -- The line of a connected participant leads to it alone, any other line to nobody.
    cases on : x.connected with
    | true =>
      have leads := (h.listed x.peer x.line).mpr ⟨x, mem, on, rfl, rfl⟩
      have owner (q : PeerId) (found : b.peers.get? q = some x.line) : q = x.peer := by
        obtain ⟨y, mem', -, rfl, same⟩ := (h.listed q x.line).mp found
        rw [h.eq_of_peer_or_line mem' mem (.inr same)]
      rw [emitAll_lines leads owner there (by simp [Link.isOpen, on])]
      simp [on]
    | false =>
      have nobody (q : PeerId) : b.peers.get? q ≠ some x.line := by
        intro found
        obtain ⟨y, mem', on', -, same⟩ := (h.listed q x.line).mp found
        rw [h.eq_of_peer_or_line mem' mem (.inr same), on] at on'
        cases on'
      rw [emitAll_lines_of_nobody nobody, there]
      simp [on]
  have queues (x : Participant) (mem : x ∈ ps) : (Hub.emitAll b es).queue x.line =
      if x.connected then b.queue x.line ++ heard es x.peer else b.queue x.line := by
    rw [queue, lines x mem]
    rfl
  refine ⟨⟨h.distinct, fun x mem => ?_, ?_⟩, queues⟩
  · rw [lines x mem, queues x mem]
  · rw [emitAll_peers]
    exact h.listed

theorem emitAll_queue (h : b.Wired ps) (mem : x ∈ ps) {es : List Emission}
    (silent : x.connected = false → heard es x.peer = []) :
    (Hub.emitAll b es).queue x.line = b.queue x.line ++ heard es x.peer := by
  rw [(h.emitAll es).2 x mem]
  cases on : x.connected with
  | true => rfl
  | false => simp [silent on]

/-- A new peer gets a line of its own. -/
theorem add (h : b.Wired ps) (fresh : ∀ x ∈ ps, x.peer ≠ p) (runner : Runner) :
    (b.add p).2.Wired (ps ++ [⟨p, runner, (b.add p).1, true⟩]) ∧ (b.add p).2.queue (b.add p).1 = [] ∧
      ∀ x ∈ ps, (b.add p).2.queue x.line = b.queue x.line := by
  have unknown : b.peers.get? p = none := by
    cases found : b.peers.get? p with
    | none => rfl
    | some k =>
      obtain ⟨x, mem, -, same, -⟩ := (h.listed p k).mp found
      exact absurd same (fresh x mem)
  rw [add_of_fresh unknown]
  have laid (x : Participant) (mem : x ∈ ps) : x.line < b.lines.length := by
    have there := h.laid x mem
    exact (List.getElem?_eq_some_iff.mp there).1
  have old (x : Participant) (mem : x ∈ ps) :
      (b.lines ++ [Link.fresh])[x.line]? = b.lines[x.line]? :=
    List.getElem?_append_left (laid x mem)
  have queues (x : Participant) (mem : x ∈ ps) :
      (⟨b.lines ++ [.fresh], b.peers.set p b.lines.length⟩ : Switchboard).queue x.line =
        b.queue x.line := by
    unfold queue
    rw [old x mem]
  have empty : (⟨b.lines ++ [.fresh], b.peers.set p b.lines.length⟩ : Switchboard).queue
      b.lines.length = [] := by
    simp [queue, Link.fresh]
  refine ⟨⟨?_, fun x mem => ?_, fun q k => ?_⟩, empty, queues⟩
  · rw [List.pairwise_append]
    refine ⟨h.distinct, List.pairwise_singleton _ _, fun x mem y new => ?_⟩
    rw [List.mem_singleton.mp new]
    have := laid x mem
    exact ⟨fresh x mem, by dsimp only; omega⟩
  · rcases List.mem_append.mp mem with mem | new
    · rw [queues x mem]
      exact (old x mem).trans (h.laid x mem)
    · rw [List.mem_singleton.mp new, empty]
      simp [Link.fresh]
  · show (b.peers.set p b.lines.length).get? q = some k ↔ _
    rw [Table.get?_set]
    constructor
    · intro found
      split at found
      case isTrue own =>
        cases found
        exact ⟨_, List.mem_append_right _ (List.mem_singleton.mpr rfl), rfl, own.symm, rfl⟩
      case isFalse =>
        obtain ⟨x, mem, rest⟩ := (h.listed q k).mp found
        exact ⟨x, List.mem_append_left _ mem, rest⟩
    · rintro ⟨x, mem, on, rfl, rfl⟩
      rcases List.mem_append.mp mem with mem | new
      · rw [if_neg (fresh x mem)]
        exact (h.listed _ _).mpr ⟨x, mem, on, rfl, rfl⟩
      · rw [List.mem_singleton.mp new]
        simp

/-- The line of a peer that is gone keeps what is on it. -/
theorem remove (h : b.Wired n.participants) (mem : x ∈ n.participants) (on : x.connected = true)
    (peer : x'.peer = x.peer) (line : x'.line = x.line) (off : x'.connected = false) :
    (b.remove x.peer).Wired (n.update x').participants ∧
      ∀ k, (b.remove x.peer).queue k = b.queue k := by
  have known := (h.listed x.peer x.line).mpr ⟨x, mem, on, rfl, rfl⟩
  rw [remove_of_known known]
  have lines (k : Nat) : (b.lines.modify x.line Link.close)[k]? =
      if x.line = k then (b.lines[k]?).map Link.close else b.lines[k]? := by
    rw [List.getElem?_modify]
    split <;> simp
  have queues (k : Nat) :
      (⟨b.lines.modify x.line Link.close, b.peers.erase x.peer⟩ : Switchboard).queue k =
        b.queue k := by
    unfold queue
    rw [lines]
    split
    · cases b.lines[k]? <;> rfl
    · rfl
  refine ⟨⟨h.distinct_update mem peer line, fun y there => ?_, fun q k => ?_⟩, queues⟩
  · rw [queues]
    show (b.lines.modify x.line Link.close)[y.line]? = _
    rw [lines]
    rcases (Network.mem_update mem peer).mp there with rfl | ⟨there, other⟩
    · rw [if_pos line.symm, line, h.laid x mem, off]
      rfl
    · rw [if_neg, h.laid y there]
      intro same
      exact other (by rw [h.eq_of_peer_or_line mem there (.inr same)])
  · show (b.peers.erase x.peer).get? q = some k ↔ _
    rw [Table.get?_erase]
    constructor
    · intro found
      split at found
      · cases found
      case isFalse other =>
        obtain ⟨y, there, on', rfl, number⟩ := (h.listed q k).mp found
        exact ⟨y, (Network.mem_update mem peer).mpr (.inr ⟨there, other⟩), on', rfl, number⟩
    · rintro ⟨y, there, on', rfl, number⟩
      rcases (Network.mem_update mem peer).mp there with rfl | ⟨there, other⟩
      · rw [off] at on'
        cases on'
      · rw [if_neg other]
        exact (h.listed _ _).mpr ⟨y, there, on', rfl, number⟩

/-- What is handed over is the first event on the line. -/
theorem receive {event : ServerEvent} (h : b.Wired ps) (mem : x ∈ ps)
    (received : b.receive x.line = (.value event, b')) :
    b'.Wired ps ∧ ∃ rest, b.queue x.line = event :: rest ∧ b'.queue x.line = rest ∧
      ∀ y ∈ ps, y.peer ≠ x.peer → b'.queue y.line = b.queue y.line := by
  have there := h.laid x mem
  obtain ⟨rest, filled, rfl⟩ := receive_value there rfl received
  have bound := (List.getElem?_eq_some_iff.mp there).1
  have own : (b.lines.set x.line ⟨rest, !x.connected, false⟩)[x.line]? =
      some ⟨rest, !x.connected, false⟩ := by
    simp [bound]
  have others (y : Participant) (mem' : y ∈ ps) (other : y.peer ≠ x.peer) :
      (b.lines.set x.line ⟨rest, !x.connected, false⟩)[y.line]? = b.lines[y.line]? := by
    rw [List.getElem?_set_ne]
    intro same
    exact other (by rw [h.eq_of_peer_or_line mem mem' (.inr same)])
  refine ⟨⟨h.distinct, fun y mem' => ?_, h.listed⟩, rest, filled, ?_, fun y mem' other => ?_⟩
  · by_cases same : y.peer = x.peer
    · rw [h.eq_of_peer_or_line mem' mem (.inl same)]
      simp only [queue, own]
      rfl
    · simp only [queue, others y mem' same]
      exact h.laid y mem'
  · simp only [queue, own]
    rfl
  · simp only [queue, others y mem' other]

/-- If there is nothing to be handed over, the line is empty. -/
theorem queue_eq_nil (h : b.Wired ps) (mem : x ∈ ps)
    (nothing : ∀ event board, b.receive x.line ≠ (.value event, board)) :
    b.queue x.line = [] := by
  have there := h.laid x mem
  cases filled : b.queue x.line with
  | nil => rfl
  | cons event rest =>
    refine absurd ?_ (nothing event { b with lines := b.lines.set x.line ⟨rest, !x.connected, false⟩ })
    simp [Switchboard.receive, there, Link.receive, filled]

end Switchboard.Wired

end Wired

/-! ## Networks -/

/-- The room of a session. -/
abbrev Participant.room (x : Participant) : RoomId := x.runner.actor.room

namespace Network

/-- The events on the line of a participant. -/
def line (n : Network) (x : Participant) : List ServerEvent := n.hub.board.queue x.line

/-- What holds of a network in every state. -/
structure Wf (n : Network) : Prop where
  wired : n.hub.board.Wired n.participants
  registry : n.hub.registry.Wf
  members : ∀ p r, p ∈ n.hub.registry.members r →
    ∃ x ∈ n.participants, x.connected = true ∧ x.peer = p ∧ x.room = r
  uttered : ∀ x ∈ n.participants, ∀ e ∈ x.runner.actor.link.queue, x.runner.actor.Utters e
  attached : ∀ x ∈ n.participants, x.runner.actor.link.dropped = false
  sound : ∀ x ∈ n.participants, x.runner.Sound

/-- What a move does to a network. -/
inductive Moved (a : PeerId → Answers) (n : Network) : Move → Network → Prop
  /-- There is nobody or nothing to move. -/
  | idle {m : Move} (empty : ∀ x ∈ n.participants, m = .down x.peer → n.line x = []) :
      Moved a n m n
  | connected {p : PeerId} {r : RoomId} {x : Participant} {n' : Network}
      (fresh : ∀ y ∈ n.participants, y.peer ≠ p) (peer : x.peer = p)
      (runner : x.runner = .start (a p) r .fresh) (on : x.connected = true)
      (participants : n'.participants = n.participants ++ [x])
      (registry : n'.hub.registry = n.hub.registry) (silent : n'.line x = [])
      (lines : ∀ y ∈ n.participants, n'.line y = n.line y) : Moved a n (.connect p r) n'
  /-- The hub handles what a session has sent. -/
  | relayed {x x' : Participant} {e : ClientEvent} {rest : List ClientEvent} {n' : Network}
      {es : List Emission} (mem : x ∈ n.participants) (on : x.connected = true)
      (next : x.runner.actor.link.queue = e :: rest)
      (popped : x' = { x with runner := x.runner.onLink fun l => { l with queue := rest } })
      (relayed : Relayed n.hub.registry (.signal x.peer e) n'.hub.registry es)
      (participants : n'.participants = (n.update x').participants)
      (lines : ∀ y ∈ n.participants, n'.line y = n.line y ++ heard es y.peer) :
      Moved a n (.up x.peer) n'
  /-- A connection ends, broken off or because its session has closed the link. -/
  | ended {x x' : Participant} {m : Move} {n' : Network} {es : List Emission}
      (mem : x ∈ n.participants) (on : x.connected = true)
      (cause : m = .disconnect x.peer ∨ m = .up x.peer ∧ x.runner.actor.link.queue = [] ∧
        x.runner.actor.link.closed = true)
      (lost : x' = { x.push .linkLost with connected := false })
      (relayed : Relayed n.hub.registry (.disconnected x.peer) n'.hub.registry es)
      (participants : n'.participants = (n.update x').participants)
      (lines : ∀ y ∈ n.participants, n'.line y = n.line y ++ heard es y.peer) : Moved a n m n'
  | delivered {x x' : Participant} {event : ServerEvent} {rest : List ServerEvent} {n' : Network}
      (mem : x ∈ n.participants) (next : n.line x = event :: rest)
      (pushed : x' = x.push (.server event)) (registry : n'.hub.registry = n.hub.registry)
      (participants : n'.participants = (n.update x').participants) (own : n'.line x = rest)
      (lines : ∀ y ∈ n.participants, y.peer ≠ x.peer → n'.line y = n.line y) :
      Moved a n (.down x.peer) n'
  | acted {x : Participant} {act : Runner.Act} {q : Runner} (mem : x ∈ n.participants)
      (done : Runner.Acted (a x.peer) x.runner act q) :
      Moved a n (.act x.peer act) (n.update { x with runner := q })

variable {a : PeerId → Answers} {n n' : Network} {x x' y : Participant} {p : PeerId}

/-- Nothing is done, and nothing was to be handed down. -/
theorem Moved.still {m : Move} (other : ∀ q, m ≠ .down q) : Moved a n m n :=
  .idle fun x _ same => absurd same (other x.peer)

theorem Wf.empty (capacity : Nat) : (Network.empty capacity).Wf := by
  have nobody {P : Participant → Prop} : ∀ x ∈ (Network.empty capacity).participants, P x := by
    intro x mem
    cases mem
  refine ⟨⟨.nil, nobody, ?_⟩, .empty capacity, ?_, nobody, nobody, nobody⟩
  · intro p k
    simp [Network.empty, Hub.empty, Switchboard.empty]
  · intro p r mem
    simp [Network.empty, Hub.empty, Registry.empty, Registry.members] at mem

theorem find?_some (found : n.find? p = some x) : x ∈ n.participants ∧ x.peer = p :=
  ⟨List.mem_of_find?_eq_some found, by simpa using List.find?_some found⟩

theorem find?_none (found : n.find? p = none) : ∀ x ∈ n.participants, x.peer ≠ p := by
  intro x mem
  have := List.find?_eq_none.mp found x mem
  simpa using this

namespace Wf

/-- Two participants of one name are the same. -/
theorem eq_of_peer (h : n.Wf) (mem : x ∈ n.participants) (mem' : y ∈ n.participants)
    (same : x.peer = y.peer) : x = y :=
  h.wired.eq_of_peer_or_line mem mem' (.inl same)

theorem find?_eq (h : n.Wf) (mem : x ∈ n.participants) : n.find? x.peer = some x := by
  cases found : n.find? x.peer with
  | none => exact absurd rfl (find?_none found x mem)
  | some y =>
    obtain ⟨there, same⟩ := find?_some found
    rw [h.eq_of_peer there mem same]

/-- A member of a room is a participant of that room. -/
theorem of_members (h : n.Wf) (mem : x ∈ n.participants) {r : RoomId}
    (inside : x.peer ∈ n.hub.registry.members r) : x.connected = true ∧ x.room = r := by
  obtain ⟨y, there, on, same, room⟩ := h.members x.peer r inside
  rw [h.eq_of_peer there mem same] at on room
  exact ⟨on, room⟩

/-- What a participant asks the relay is about its own room, and it is in no other. -/
theorem single (h : n.Wf) (mem : x ∈ n.participants) {e : ClientEvent}
    (uttered : x.runner.actor.Utters e) :
    TransportEvent.Single n.hub.registry (.signal x.peer e) := by
  cases uttered with
  | join => exact fun r inside => (h.of_members mem inside).2.symm
  | _ => trivial

/-- Nothing is emitted for a participant that is not connected. -/
theorem heard_off (h : n.Wf) {e : TransportEvent} {g' : Registry} {es : List Emission}
    (relayed : Relayed n.hub.registry e g' es) (mem : y ∈ n.participants)
    (off : y.connected = false) (other : y.peer ≠ e.peer) : heard es y.peer = [] := by
  refine List.eq_nil_iff_forall_not_mem.mpr fun event there => ?_
  have inside := ((relayed.heard_other other).1 event there).2
  rw [(h.of_members mem inside).1] at off
  cases off

/-- A participant changes, and with it who is in which room. -/
theorem update (h : n.Wf) (mem : x ∈ n.participants) (n' : Network)
    (participants : n'.participants = (n.update x').participants) (peer : x'.peer = x.peer)
    (wired : n'.hub.board.Wired n'.participants) (registry : n'.hub.registry.Wf)
    (others : ∀ p r, p ≠ x.peer → p ∈ n'.hub.registry.members r → p ∈ n.hub.registry.members r)
    (own : ∀ r, x.peer ∈ n'.hub.registry.members r → x'.connected = true ∧ x'.room = r)
    (uttered : ∀ e ∈ x'.runner.actor.link.queue, x'.runner.actor.Utters e)
    (attached : x'.runner.actor.link.dropped = false) (sound : x'.runner.Sound) : n'.Wf := by
  have each {P : Participant → Prop} (new : P x') (old : ∀ y ∈ n.participants, P y) :
      ∀ y ∈ n'.participants, P y := by
    intro y there
    rw [participants] at there
    rcases (mem_update mem peer).mp there with rfl | ⟨there, -⟩
    · exact new
    · exact old y there
  refine ⟨wired, registry, fun p r inside => ?_, each uttered h.uttered, each attached h.attached,
    each sound h.sound⟩
  rw [participants]
  by_cases same : p = x.peer
  · subst same
    obtain ⟨on, room⟩ := own r inside
    exact ⟨x', (mem_update mem peer).mpr (.inl rfl), on, peer, room⟩
  · obtain ⟨y, there, on, rfl, room⟩ := h.members p r (others p r same inside)
    exact ⟨y, (mem_update mem peer).mpr (.inr ⟨there, same⟩), on, rfl, room⟩

theorem connect (h : n.Wf) (a : PeerId → Answers) (fresh : ∀ y ∈ n.participants, y.peer ≠ p)
    (r : RoomId) : (n.connect p (.start (a p) r .fresh)).Wf ∧
      Moved a n (.connect p r) (n.connect p (.start (a p) r .fresh)) := by
  obtain ⟨wired, silent, lines⟩ := h.wired.add fresh (.start (a p) r .fresh)
  have onward := Actor.enterRoom_onward (a p) (.new r .fresh)
  refine ⟨⟨wired, h.registry, fun q r inside => ?_, ?_, ?_, ?_⟩,
    .connected fresh rfl rfl rfl rfl rfl silent lines⟩
  · obtain ⟨y, there, rest⟩ := h.members q r inside
    exact ⟨y, List.mem_append_left _ there, rest⟩
  · intro y there e waiting
    rcases List.mem_append.mp there with there | new
    · exact h.uttered y there e waiting
    · rw [List.mem_singleton.mp new] at waiting ⊢
      rcases onward.queue e waiting with old | own
      · cases old
      · exact own
  · intro y there
    rcases List.mem_append.mp there with there | new
    · exact h.attached y there
    · rw [List.mem_singleton.mp new]
      exact onward.dropped
  · intro y there
    rcases List.mem_append.mp there with there | new
    · exact h.sound y there
    · rw [List.mem_singleton.mp new]
      exact .start (a p) r .fresh

/-- The hub handles the next event of a session. -/
theorem relay (h : n.Wf) (a : PeerId → Answers) (mem : x ∈ n.participants)
    (on : x.connected = true) {e : ClientEvent} {rest : List ClientEvent}
    (next : x.runner.actor.link.queue = e :: rest)
    (popped : x' = { x with runner := x.runner.onLink fun l => { l with queue := rest } }) :
    let n' : Network := { n.update x' with hub := n.hub.handle (.signal x.peer e) }
    n'.Wf ∧ Moved a n (.up x.peer) n' := by
  intro n'
  have uttered := h.uttered x mem
  have own := uttered e (by simp [next])
  obtain ⟨registry, relayed⟩ := h.registry.handle_relayed (h.single mem own)
  have lines : ∀ y ∈ n.participants, n'.line y =
      n.line y ++ heard (n.hub.registry.handle (.signal x.peer e)).2 y.peer := by
    -- Who is not connected is in no room, so nothing is emitted for it that could get lost.
    intro y there
    refine h.wired.emitAll_queue there fun off => ?_
    refine h.heard_off relayed there off fun same => ?_
    rw [h.eq_of_peer there mem same, on] at off
    cases off
  have peer : x'.peer = x.peer := by rw [popped]
  have number : x'.line = x.line := by rw [popped]
  have wired := h.wired.update mem peer number (by rw [popped])
  refine ⟨?_, .relayed mem on next popped relayed rfl lines⟩
  refine h.update mem n' rfl peer (wired.emitAll _).1 registry ?_ ?_ ?_ ?_ ?_
  · exact fun p r other inside => ((relayed.heard_other other).2 r).mp inside
  · intro r inside
    rw [popped]
    rcases relayed.members_self inside with inside | asked
    · exact h.of_members mem inside
    · cases asked
      exact ⟨on, own.room.symm⟩
  · intro e' waiting
    rw [popped] at waiting ⊢
    exact (uttered e' (by rw [next]; exact List.mem_cons_of_mem _ waiting)).onward rfl
      List.prefix_rfl
  · rw [popped]
    exact h.attached x mem
  · rw [popped]
    exact (h.sound x mem).onLink (f := fun l => { l with queue := rest }) id

/-- A connection ends. -/
theorem disconnect (h : n.Wf) (a : PeerId → Answers) (mem : x ∈ n.participants)
    (on : x.connected = true) {m : Move}
    (cause : m = .disconnect x.peer ∨ m = .up x.peer ∧ x.runner.actor.link.queue = [] ∧
      x.runner.actor.link.closed = true) :
    (n.disconnect x).Wf ∧ Moved a n m (n.disconnect x) := by
  obtain ⟨registry, relayed⟩ :=
    h.registry.handle_relayed (e := .disconnected x.peer) trivial
  obtain ⟨quiet, outside⟩ := relayed.heard_gone h.registry
  let x' : Participant := { x.push .linkLost with connected := false }
  let n' : Network := { n with hub := n.hub.disconnect x.peer }.update x'
  have same : n.disconnect x = n' := if_pos on
  have participants : n'.participants = (n.update x').participants := rfl
  have peer : x'.peer = x.peer := rfl
  have number : x'.line = x.line := rfl
  obtain ⟨wired, queues⟩ := h.wired.remove mem on peer number rfl
  have lines : ∀ y ∈ n.participants, n'.line y =
      n.line y ++ heard (n.hub.registry.handle (.disconnected x.peer)).2 y.peer := by
    intro y there
    show _ = n.hub.board.queue y.line ++ _
    rw [← queues y.line]
    by_cases own : y.peer = x.peer
    · -- The peer itself is forgotten before anything is emitted.
      rw [h.eq_of_peer there mem own]
      exact wired.emitAll_queue ((mem_update mem peer).mpr (.inl rfl)) fun _ => quiet
    · refine wired.emitAll_queue ((mem_update mem peer).mpr (.inr ⟨there, own⟩)) fun off => ?_
      exact h.heard_off relayed there off own
  have actor : x'.runner.actor = x.runner.actor := Runner.push_actor _ _
  rw [same]
  refine ⟨?_, .ended mem on cause rfl relayed participants lines⟩
  refine h.update mem n' rfl rfl (wired.emitAll _).1 registry ?_ ?_ ?_ ?_ ?_
  · exact fun p r other inside => ((relayed.heard_other other).2 r).mp inside
  · exact fun r inside => absurd inside (outside r)
  · rw [actor]
    exact h.uttered x mem
  · rw [actor]
    exact h.attached x mem
  · exact (h.sound x mem).push .linkLost

/-- The next event of a line comes to its session. -/
theorem receive (h : n.Wf) (a : PeerId → Answers) (mem : x ∈ n.participants)
    {event : ServerEvent} {board : Switchboard}
    (received : n.hub.board.receive x.line = (.value event, board)) :
    let n' : Network := { n with hub := { n.hub with board } }.update (x.push (.server event))
    n'.Wf ∧ Moved a n (.down x.peer) n' := by
  intro n'
  obtain ⟨wired, rest, next, own, lines⟩ := h.wired.receive mem received
  have wired' : board.Wired n'.participants :=
    Switchboard.Wired.update (n := { n with hub := { n.hub with board } }) wired mem rfl rfl rfl
  have actor : (x.push (.server event)).runner.actor = x.runner.actor := Runner.push_actor _ _
  refine ⟨?_, .delivered mem next rfl rfl rfl own lines⟩
  refine h.update mem n' rfl rfl wired' h.registry (fun _ _ _ => id) ?_ ?_ ?_ ?_
  · intro r inside
    have := h.of_members mem inside
    exact ⟨this.1, (congrArg (·.room) actor).trans this.2⟩
  · rw [actor]
    exact h.uttered x mem
  · rw [actor]
    exact h.attached x mem
  · exact (h.sound x mem).push _

/-- A session or its user does something. -/
theorem act (h : n.Wf) (mem : x ∈ n.participants) {act : Runner.Act} {q : Runner}
    (done : Runner.Acted (a x.peer) x.runner act q) : (n.update { x with runner := q }).Wf := by
  have onward := done.onward
  let x' : Participant := { x with runner := q }
  have peer : x'.peer = x.peer := rfl
  have number : x'.line = x.line := rfl
  have wired := h.wired.update mem peer number rfl
  refine h.update mem _ rfl rfl wired h.registry (fun _ _ _ => id) ?_ ?_ ?_ ?_
  · intro r inside
    have := h.of_members mem inside
    exact ⟨this.1, onward.room.trans this.2⟩
  · intro e waiting
    rcases onward.queue e waiting with old | own
    · exact (h.uttered x mem e old).onward onward.room onward.record
    · exact own
  · exact onward.dropped.trans (h.attached x mem)
  · exact done.sound (h.sound x mem)

/-- Whatever moves, it is one of the things named above. -/
theorem move (h : n.Wf) (a : PeerId → Answers) (m : Move) :
    (n.move a m).Wf ∧ Moved a n m (n.move a m) := by
  cases m with
  | connect p r =>
    show (if (n.find? p).isSome then n else _).Wf ∧ Moved a n _ (if (n.find? p).isSome then n else _)
    cases found : n.find? p with
    | some x => exact ⟨h, .still (by simp)⟩
    | none => exact h.connect a (find?_none found) r
  | up p =>
    show (n.up p).2.Wf ∧ Moved a n _ (n.up p).2
    unfold up
    cases found : n.find? p with
    | none => exact ⟨h, .still (by simp)⟩
    | some x =>
      obtain ⟨mem, rfl⟩ := find?_some found
      have held := h.attached x mem
      dsimp only
      by_cases on : x.connected = true
      · rw [if_neg (by simp [on])]
        cases next : x.runner.actor.link.queue with
        | cons e rest =>
          have received : x.runner.actor.link.receive =
              (.value e, { x.runner.actor.link with queue := rest }) := by
            simp [Link.receive, held, next]
          simp only [received]
          exact h.relay a mem on next rfl
        | nil =>
          cases closed : x.runner.actor.link.closed with
          | false =>
            have received : x.runner.actor.link.receive = (.empty, x.runner.actor.link) := by
              simp [Link.receive, held, next, closed]
            simp only [received]
            exact ⟨h, .still (by simp)⟩
          | true =>
            have received : x.runner.actor.link.receive = (.ended, x.runner.actor.link) := by
              simp [Link.receive, held, next, closed]
            simp only [received]
            exact h.disconnect a mem on (.inr ⟨rfl, next, closed⟩)
      · rw [if_pos (by simp [on])]
        exact ⟨h, .still (by simp)⟩
  | down p =>
    show (n.down p).2.Wf ∧ Moved a n _ (n.down p).2
    unfold down
    cases found : n.find? p with
    | none =>
      refine ⟨h, .idle fun y mem same => ?_⟩
      exact absurd (Move.down.inj same).symm (find?_none found y mem)
    | some x =>
      obtain ⟨mem, rfl⟩ := find?_some found
      dsimp only
      split
      case h_1 event board received => exact h.receive a mem received
      case h_2 nothing =>
        refine ⟨h, .idle fun y there same => ?_⟩
        rw [h.eq_of_peer there mem (Move.down.inj same).symm]
        exact h.wired.queue_eq_nil mem nothing
  | disconnect p =>
    show ((n.find? p).elim n n.disconnect).Wf ∧ Moved a n _ ((n.find? p).elim n n.disconnect)
    cases found : n.find? p with
    | none => exact ⟨h, .still (by simp)⟩
    | some x =>
      obtain ⟨mem, rfl⟩ := find?_some found
      cases on : x.connected with
      | true => exact h.disconnect a mem on (.inl rfl)
      | false =>
        have same : n.disconnect x = n := if_neg (by simp [on])
        simp only [Option.elim_some, same]
        exact ⟨h, .still (by simp)⟩
  | act p m =>
    show ((n.find? p).elim n _).Wf ∧ Moved a n _ ((n.find? p).elim n _)
    cases found : n.find? p with
    | none => exact ⟨h, .still (by simp)⟩
    | some x =>
      obtain ⟨mem, rfl⟩ := find?_some found
      have done := Runner.act_acted (a x.peer) x.runner m
      exact ⟨h.act mem done, .acted mem done⟩

end Wf

/-- What is reachable is well-formed. -/
theorem Reachable.wf {capacity : Nat} (h : Reachable a capacity n) : n.Wf := by
  induction h with
  | empty => exact .empty capacity
  | move m _ ih => exact (ih.move a m).1

/-! ## Sessions go on -/

/-- All sessions go on from one network to another. -/
def Onward (n n' : Network) : Prop :=
  ∀ y ∈ n.participants, ∃ y' ∈ n'.participants, y'.peer = y.peer ∧
    y.runner.actor.Onward y'.runner.actor

/-- A participant is replaced by one that comes after it. -/
theorem onward_update (mem : x ∈ n.participants) (peer : x'.peer = x.peer) (wf : n.Wf)
    (participants : n'.participants = (n.update x').participants)
    (onward : x.runner.actor.Onward x'.runner.actor) : n.Onward n' := by
  intro y there
  rw [participants]
  by_cases same : y.peer = x.peer
  · rw [wf.eq_of_peer there mem same]
    exact ⟨x', (mem_update mem peer).mpr (.inl rfl), peer, onward⟩
  · exact ⟨y, (mem_update mem peer).mpr (.inr ⟨there, same⟩), rfl, .refl _⟩

/-- Whatever moves, all sessions go on. -/
theorem Moved.onward {m : Move} (moved : Moved a n m n') (wf : n.Wf) : n.Onward n' := by
  cases moved with
  | idle => exact fun y mem => ⟨y, mem, rfl, .refl _⟩
  | connected _ _ _ _ participants =>
    intro y mem
    rw [participants]
    exact ⟨y, List.mem_append_left _ mem, rfl, .refl _⟩
  | @relayed x _ _ rest _ _ mem on next popped relayed participants =>
    subst popped
    refine onward_update mem (by rfl) wf participants
      ⟨rfl, List.prefix_rfl, List.prefix_rfl, rfl, id, fun e waiting => .inl ?_⟩
    rw [next]
    exact List.mem_cons_of_mem _ waiting
  | @ended x _ _ _ _ mem on cause lost relayed participants =>
    subst lost
    refine onward_update mem (by rfl) wf participants ?_
    show x.runner.actor.Onward (x.runner.push .linkLost).actor
    rw [Runner.push_actor]
    exact .refl _
  | @delivered x _ event _ _ mem next pushed registry participants =>
    subst pushed
    refine onward_update mem (by rfl) wf participants ?_
    show x.runner.actor.Onward (x.runner.push (.server event)).actor
    rw [Runner.push_actor]
    exact .refl _
  | acted mem done => exact onward_update mem (by rfl) wf rfl done.onward

/-! ## Runs -/

theorem run_append (a : PeerId → Answers) (n : Network) (moves more : List Move) :
    n.run a (moves ++ more) = (n.run a moves).run a more :=
  List.foldl_append

theorem run_snoc (a : PeerId → Answers) (n : Network) (moves : List Move) (m : Move) :
    n.run a (moves ++ [m]) = (n.run a moves).move a m :=
  run_append a n moves [m]

/-! ## Runs of certain moves -/

/-- The networks that runs of allowed moves lead to. -/
inductive Along (allowed : Network → Move → Prop) (a : PeerId → Answers) (capacity : Nat) :
    Network → Prop
  | empty : Along allowed a capacity (empty capacity)
  | move {n : Network} (m : Move) (before : Along allowed a capacity n) (ok : allowed n m) :
      Along allowed a capacity (n.move a m)

/-- Each move of a list is allowed when its time comes. -/
def Each (allowed : Network → Move → Prop) (a : PeerId → Answers) : Network → List Move → Prop
  | _, [] => True
  | n, m :: rest => allowed n m ∧ Each allowed a (n.move a m) rest

namespace Along

variable {allowed : Network → Move → Prop} {capacity : Nat}

theorem reachable (h : Along allowed a capacity n) : Reachable a capacity n := by
  induction h with
  | empty => exact .empty
  | move m _ _ ih => exact ih.move m

theorem wf (h : Along allowed a capacity n) : n.Wf := h.reachable.wf

theorem run (h : Along allowed a capacity n) {moves : List Move} (each : Each allowed a n moves) :
    Along allowed a capacity (n.run a moves) := by
  induction moves generalizing n with
  | nil => exact h
  | cons m rest ih => exact ih (h.move m each.1) each.2

end Along

end Network

end Parley
