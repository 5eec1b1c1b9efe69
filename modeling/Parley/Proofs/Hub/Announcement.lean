import Parley.Proofs.Hub.Chronicle
import Parley.Proofs.Network.Moves

/-!
# Who hears of a join first

A hub puts a peer into a room in one action and tells it so in the next one of the same attendant, and
between the two the other attendants may act. One that finds the peer in the room then may tell it of a
newcomer, or pass a message on to it, before the peer hears that it is in the room itself
(`Staff.heard_before_joined`). That is the only way: such an event comes after the `joined` exactly if
the attendant of the peer has acted since it put the peer into the room (`Staff.joined_first_iff`).

The lines are followed along: a line carries what the chronicle says was emitted to its peer, as long
as the hub knows the peer (`Staff.Sent`).
-/

namespace Parley

/-! ## Lines -/

namespace Switchboard

variable {b : Switchboard} {known : List (PeerId × Bool)} {p q : PeerId} {k : Nat} {on : Bool}

/-- A switchboard has a line for each of these peers, in order, and leads to those that it still
knows. -/
structure Staffed (b : Switchboard) (known : List (PeerId × Bool)) : Prop where
  count : b.lines.length = known.length
  distinct : (known.map (·.1)).Nodup
  leads : ∀ (p : PeerId) (k : Nat), b.peers.get? p = some k ↔ known[k]? = some (p, true)
  laid : ∀ (k : Nat) (p : PeerId) (on : Bool), known[k]? = some (p, on) →
    b.lines[k]? = some ⟨b.queue k, !on, false⟩

theorem Staffed.index_unique (h : b.Staffed known) {k k' : Nat} {on' : Bool}
    (there : known[k]? = some (p, on)) (there' : known[k']? = some (p, on')) : k = k' := by
  have first : (known.map (·.1))[k]? = some p := by simp [there]
  have second : (known.map (·.1))[k']? = some p := by simp [there']
  obtain ⟨lt, -⟩ := List.getElem?_eq_some_iff.mp first
  exact (List.getElem?_inj lt h.distinct).mp (first.trans second.symm)

/-- An emission goes to the line of its peer, if the peer is known. -/
theorem Staffed.emit (h : b.Staffed known) (q : PeerId) (event : ServerEvent) :
    (b.emit q event).Staffed known ∧ ∀ k p (on : Bool), known[k]? = some (p, on) →
      (b.emit q event).queue k = b.queue k ++ if on ∧ q = p then [event] else [] := by
  have lines (k : Nat) (p : PeerId) (on : Bool) (there : known[k]? = some (p, on)) :
      (b.emit q event).lines[k]? =
        some ⟨b.queue k ++ if on ∧ q = p then [event] else [], !on, false⟩ := by
    rw [emit_lines, h.laid k p on there]
    by_cases found : b.peers.get? q = some k
    · have own := (h.leads q k).mp found
      rw [there] at own
      cases own
      rw [if_pos found, Option.map_some, Link.push_of_isOpen rfl]
      simp
    · rw [if_neg found, if_neg, List.append_nil]
      rintro ⟨rfl, rfl⟩
      exact found ((h.leads q k).mpr there)
  have queues (k : Nat) (p : PeerId) (on : Bool) (there : known[k]? = some (p, on)) :
      (b.emit q event).queue k = b.queue k ++ if on ∧ q = p then [event] else [] := by
    rw [queue, lines k p on there]
    rfl
  refine ⟨⟨?_, h.distinct, ?_, fun k p on there => ?_⟩, queues⟩
  · rw [← h.count]
    unfold Switchboard.emit
    split
    · exact List.length_modify ..
    · rfl
  · rw [emit_peers]
    exact h.leads
  · rw [lines k p on there, queues k p on there]

/-- A new peer gets a new line. -/
theorem Staffed.add (h : b.Staffed known) (fresh : p ∉ known.map (·.1)) :
    (b.add p).1 = known.length ∧ (b.add p).2.Staffed (known ++ [(p, true)]) ∧
      (b.add p).2.queue known.length = [] ∧
      ∀ k, k < known.length → (b.add p).2.queue k = b.queue k := by
  have unlisted {k : Nat} {on : Bool} : known[k]? ≠ some (p, on) := fun there =>
    fresh (List.mem_map.mpr ⟨_, List.mem_of_getElem? there, rfl⟩)
  have unknown : b.peers.get? p = none := by
    cases found : b.peers.get? p with
    | none => rfl
    | some k => exact absurd ((h.leads p k).mp found) unlisted
  rw [add_of_fresh unknown, h.count]
  have old (k : Nat) (lt : k < known.length) :
      (⟨b.lines ++ [.fresh], b.peers.set p known.length⟩ : Switchboard).queue k = b.queue k := by
    unfold queue
    rw [List.getElem?_append_left (by rw [h.count]; exact lt)]
  have new : (⟨b.lines ++ [.fresh], b.peers.set p known.length⟩ : Switchboard).queue
      known.length = [] := by
    unfold queue
    rw [← h.count, List.getElem?_concat_length]
    rfl
  refine ⟨rfl, ⟨?_, ?_, fun q k => ?_, fun k q on there => ?_⟩, new, old⟩
  · simp [h.count]
  · rw [List.map_append, List.nodup_append]
    refine ⟨h.distinct, List.nodup_singleton _, fun q mem q' mem' => ?_⟩
    rw [List.mem_singleton.mp mem']
    rintro rfl
    exact fresh mem
  · show (b.peers.set p known.length).get? q = some k ↔ _
    rw [Table.get?_set]
    by_cases own : q = p
    · subst own
      rw [if_pos rfl]
      constructor
      · intro last
        cases last
        exact List.getElem?_concat_length
      · intro there
        rcases Staff.getElem?_concat_cases there with ⟨-, there⟩ | ⟨rfl, -⟩
        · exact absurd there unlisted
        · rfl
    · rw [if_neg own, h.leads]
      constructor
      · intro there
        obtain ⟨lt, -⟩ := List.getElem?_eq_some_iff.mp there
        exact (List.getElem?_append_left lt).trans there
      · intro there
        rcases Staff.getElem?_concat_cases there with ⟨-, there⟩ | ⟨-, same⟩
        · exact there
        · cases same
          exact absurd rfl own
  · rcases Staff.getElem?_concat_cases there with ⟨lt, there⟩ | ⟨rfl, same⟩
    · rw [old k lt, List.getElem?_append_left (by rw [h.count]; exact lt)]
      exact h.laid k q on there
    · cases same
      rw [new, ← h.count, List.getElem?_concat_length]
      rfl

/-- The line of a peer that is forgotten keeps what is on it. -/
theorem Staffed.remove (h : b.Staffed known) (there : known[k]? = some (p, true)) :
    (b.remove p).Staffed (known.set k (p, false)) ∧ ∀ k, (b.remove p).queue k = b.queue k := by
  rw [remove_of_known ((h.leads p k).mpr there)]
  have lines (k' : Nat) : (b.lines.modify k Link.close)[k']? =
      if k = k' then (b.lines[k']?).map Link.close else b.lines[k']? := by
    rw [List.getElem?_modify]
    split <;> simp
  have queues (k' : Nat) :
      (⟨b.lines.modify k Link.close, b.peers.erase p⟩ : Switchboard).queue k' = b.queue k' := by
    unfold queue
    rw [lines]
    split
    · cases b.lines[k']? <;> rfl
    · rfl
  have names : (known.set k (p, false)).map (·.1) = known.map (·.1) := by
    rw [List.map_set]
    exact Staff.set_same (by simp [there])
  refine ⟨⟨?_, ?_, fun q k' => ?_, fun k' q on there' => ?_⟩, queues⟩
  · rw [List.length_set, ← h.count]
    exact List.length_modify ..
  · rw [names]
    exact h.distinct
  · show (b.peers.erase p).get? q = some k' ↔ _
    rw [Table.get?_erase]
    constructor
    · intro found
      split at found
      case isTrue => cases found
      case isFalse other =>
        have there' := (h.leads q k').mp found
        rw [List.getElem?_set_ne, there']
        rintro rfl
        rw [there] at there'
        cases there'
        exact other rfl
    · intro there'
      rcases Staff.getElem?_set_cases there' with ⟨-, same⟩ | ⟨other, kept⟩
      · cases same
      · rw [if_neg, (h.leads q k').mpr kept]
        rintro rfl
        exact other (h.index_unique kept there)
  · rw [queues]
    show (b.lines.modify k Link.close)[k']? = _
    rw [lines]
    rcases Staff.getElem?_set_cases there' with ⟨rfl, same⟩ | ⟨other, there'⟩
    · cases same
      rw [if_pos rfl, h.laid _ p true there]
      rfl
    · rw [if_neg (Ne.symm other), h.laid k' q on there']

end Switchboard

/-- The hub knows the peer of the attendant. -/
def Attendant.known (x : Attendant) : Bool :=
  match x.farewell with
  | .departing _ => false
  | _ => true

namespace Staff

variable {s s' : Staff} {entry : Option Entry} {h : Hand} {x : Attendant} {i : Nat}
  {log : List Entry} {p : PeerId} {r : RoomId}

/-- What the actions emit. -/
def emissions (log : List Entry) : List Emission := log.filterMap (·.action.emission?)

/-- The peers of the attendants, and whether the hub knows them. -/
def peers (s : Staff) : List (PeerId × Bool) := s.attendants.map fun x => (x.peer, x.known)

theorem getElem?_peers (attends : s.attendants[i]? = some x) :
    s.peers[i]? = some (x.peer, x.known) := by
  simp [peers, attends]

/-- A line carries what was emitted to its peer while the hub knew the peer. -/
structure Sent (s : Staff) (log : List Entry) : Prop where
  staffed : s.hub.board.Staffed s.peers
  lines : ∀ (i : Nat) (x : Attendant), s.attendants[i]? = some x → x.line = i
  queues : ∀ (i : Nat) (p : PeerId) (known : Bool), s.peers[i]? = some (p, known) →
    ∃ lost, heard (emissions log) p = s.hub.board.queue i ++ lost ∧ (known = true → lost = [])

/-- No two attendants attend to one peer. -/
theorem Sent.index_unique (sent : s.Sent log) {k : Nat} {y : Attendant}
    (attends : s.attendants[i]? = some x) (attends' : s.attendants[k]? = some y)
    (same : y.peer = x.peer) : i = k := by
  have there := getElem?_peers attends'
  rw [same] at there
  exact sent.staffed.index_unique (getElem?_peers attends) there

theorem emissions_append (log more : List Entry) :
    emissions (log ++ more) = emissions log ++ emissions more := List.filterMap_append

/-- Whoever was emitted something has an attendant. -/
theorem Chronicled.recipient (chronicled : s.Chronicled log) {e : Emission}
    (mem : e ∈ emissions log) : ∃ x ∈ s.attendants, x.peer = e.recipient := by
  obtain ⟨⟨h, action⟩, there, emits⟩ := List.mem_filterMap.mp mem
  obtain rfl := Action.eq_emitted emits
  obtain ⟨before, after, split⟩ := List.append_of_mem there
  obtain ⟨cause, found, -, allows⟩ := chronicled.loyal.allowed before h e after split
  have own {entry : Entry} (mem : entry ∈ log)
      (subject : entry.action.subject? = some e.recipient) :
      ∃ x ∈ s.attendants, x.peer = e.recipient := by
    obtain ⟨x, attends, own⟩ := chronicled.loyal.own entry mem
    exact ⟨x, List.mem_of_getElem? attends, (own _ subject).symm⟩
  rcases Action.recipient_of_allows allows with subject | names
  · exact own (by rw [split]; exact List.mem_append_left _ found) subject
  · -- It was found in a room, and somebody has put it there.
    obtain ⟨first, rest, rfl⟩ := List.append_of_mem found
    obtain ⟨earlier, h', n, existing, since, inserted, -⟩ := chronicled.traced.named first cause
      (rest ++ ⟨h, .emitted e⟩ :: after) _ _ (by rw [split]; simp) names
    have put : ⟨h', .joined e.event.room e.recipient (.joined n existing)⟩ ∈ log := by
      rw [split, inserted]
      simp
    exact own put rfl

theorem known_put {j j' : Job} (job : x.job? h.farewell = some j) :
    (x.put j' h.farewell).known = x.known := by
  cases side : h.farewell with
  | false => rfl
  | true =>
    rw [side] at job
    unfold Attendant.job? at job
    unfold Attendant.known
    cases farewell : x.farewell with
    | departing => rfl
    | notYet | begun => simp [farewell] at job

/-- An attendant that keeps its peer, known or unknown, keeps the list of peers as it is. -/
theorem peers_set {k : Nat} {x x' : Attendant} (attends : s.attendants[k]? = some x)
    (peer : x'.peer = x.peer) (known : x'.known = x.known) :
    (s.attendants.set k x').map (fun x => (x.peer, x.known)) = s.peers := by
  rw [List.map_set, peer, known]
  exact set_same (getElem?_peers attends)

theorem Sent.lines_set (sent : s.Sent log) {k : Nat} {x x' y : Attendant}
    (attends : s.attendants[k]? = some x) (same : x'.line = x.line)
    (there : (s.attendants.set k x')[i]? = some y) : y.line = i := by
  rcases getElem?_set_cases there with ⟨rfl, rfl⟩ | ⟨-, there⟩
  · exact same.trans (sent.lines _ x attends)
  · exact sent.lines i y there

/-- An attendant that goes on by itself changes no line. -/
theorem Sent.keep (sent : s.Sent log) {k : Nat} {x x' : Attendant}
    (attends : s.attendants[k]? = some x) (peer : x'.peer = x.peer) (known : x'.known = x.known)
    (line : x'.line = x.line) : Sent ⟨s.hub, s.attendants.set k x'⟩ log := by
  have peers : Staff.peers ⟨s.hub, s.attendants.set k x'⟩ = s.peers := peers_set attends peer known
  refine ⟨?_, fun i y => sent.lines_set attends line, ?_⟩
  · rw [peers]
    exact sent.staffed
  · rw [peers]
    exact sent.queues

/-- The line of a peer that comes in is empty, and nothing was emitted to it yet. -/
theorem Sent.accept (sent : s.Sent log) (chronicled : s.Chronicled log)
    (fresh : ∀ x ∈ s.attendants, x.peer ≠ p) (events : List ClientEvent) :
    (s.accept p events).Sent log := by
  have new : p ∉ s.peers.map (·.1) := by
    intro mem
    obtain ⟨_, listed, rfl⟩ := List.mem_map.mp mem
    obtain ⟨x, attends, rfl⟩ := List.mem_map.mp listed
    exact fresh x attends rfl
  have silent : heard (emissions log) p = [] := by
    unfold heard
    rw [List.map_eq_nil_iff, List.filter_eq_nil_iff]
    intro e mem same
    obtain ⟨x, there, peer⟩ := chronicled.recipient mem
    exact fresh x there (peer.trans (by simpa using same))
  obtain ⟨number, staffed, empty, queues⟩ := sent.staffed.add new
  have peers : (s.accept p events).peers = s.peers ++ [(p, true)] := by
    simp [Staff.peers, Staff.accept, Attendant.known]
  refine ⟨?_, fun i x attends => ?_, fun i q known there => ?_⟩
  · rw [peers]
    exact staffed
  · rcases getElem?_concat_cases attends with ⟨-, there⟩ | ⟨rfl, rfl⟩
    · exact sent.lines i x there
    · exact number.trans (List.length_map ..)
  · rw [peers] at there
    show ∃ lost, heard (emissions log) q = (s.hub.board.add p).2.queue i ++ lost ∧ _
    rcases getElem?_concat_cases there with ⟨lt, there⟩ | ⟨rfl, same⟩
    · rw [queues i lt]
      exact sent.queues i q known there
    · cases same
      exact ⟨[], by rw [silent, empty]; rfl, fun _ => rfl⟩

/-- What an action emits is what goes over the lines. -/
theorem Sent.act (sent : s.Sent log) {j : Job} (attends : s.attendants[h.attendant]? = some x)
    (job : x.job? h.farewell = some j) (action : Action) (registry : Registry) (j' : Job) :
    Sent ⟨⟨registry, Hub.emitAll s.hub.board action.emission?.toList⟩,
      s.attendants.set h.attendant (x.put j' h.farewell)⟩ (log ++ [⟨h, action⟩]) := by
  have peers : Staff.peers ⟨⟨registry, Hub.emitAll s.hub.board action.emission?.toList⟩,
      s.attendants.set h.attendant (x.put j' h.farewell)⟩ = s.peers :=
    peers_set attends (put_peer ..) (known_put job)
  cases emits : action.emission? with
  | none =>
    rw [emits] at peers
    have same : emissions (log ++ [⟨h, action⟩]) = emissions log := by
      simp [emissions, emits]
    refine ⟨?_, fun i y => sent.lines_set attends (put_line ..), ?_⟩
    · rw [peers]
      exact sent.staffed
    · rw [peers, same]
      exact sent.queues
  | some e =>
    rw [emits] at peers
    obtain ⟨staffed, queues⟩ := sent.staffed.emit e.recipient e.event
    refine ⟨?_, fun i y => sent.lines_set attends (put_line ..), fun i p known there => ?_⟩
    · rw [peers]
      exact staffed
    · rw [peers] at there
      obtain ⟨lost, before, nothing⟩ := sent.queues i p known there
      have told : heard (emissions [⟨h, action⟩]) p =
          if e.recipient = p then [e.event] else [] := by
        by_cases own : e.recipient = p <;> simp [emissions, emits, heard, own]
      show ∃ lost', _ = (s.hub.board.emit e.recipient e.event).queue i ++ lost' ∧ _
      rw [emissions_append, heard_append, before, told, queues i p known there]
      cases known with
      | true =>
        rw [nothing rfl]
        exact ⟨[], by simp, fun _ => rfl⟩
      | false =>
        exact ⟨lost ++ if e.recipient = p then [e.event] else [], by simp,
          fun same => absurd same Bool.false_ne_true⟩

/-- The line of a peer that is forgotten stays as it is. -/
theorem Sent.forget (sent : s.Sent log) {k : Nat} (attends : s.attendants[k]? = some x)
    (begun : x.farewell = .begun) (job : Job) :
    Sent ⟨{ s.hub with board := s.hub.board.remove x.peer },
      s.attendants.set k { x with farewell := .departing job }⟩ log := by
  have there := getElem?_peers attends
  rw [show x.known = true by simp [Attendant.known, begun]] at there
  obtain ⟨staffed, queues⟩ := sent.staffed.remove there
  have peers : Staff.peers ⟨{ s.hub with board := s.hub.board.remove x.peer },
      s.attendants.set k { x with farewell := .departing job }⟩ =
        s.peers.set k (x.peer, false) := List.map_set
  refine ⟨?_, fun i y => sent.lines_set attends rfl, fun i p known there' => ?_⟩
  · rw [peers]
    exact staffed
  · rw [peers] at there'
    show ∃ lost, heard (emissions log) p = (s.hub.board.remove x.peer).queue i ++ lost ∧ _
    rw [queues]
    rcases getElem?_set_cases there' with ⟨rfl, same⟩ | ⟨-, there'⟩
    · cases same
      obtain ⟨lost, told, -⟩ := sent.queues _ _ true there
      exact ⟨lost, told, fun same => absurd same Bool.false_ne_true⟩
    · exact sent.queues i p known there'

theorem Moved.sent (moved : s.Moved entry s') (chronicled : s.Chronicled log)
    (sent : s.Sent log) : s'.Sent (log ++ entry.toList) := by
  cases moved with
  | acted attends job => exact sent.act attends job ..
  | idle =>
    rw [Option.toList_none, List.append_nil]
    exact sent
  | accepted fresh =>
    rw [Option.toList_none, List.append_nil]
    exact sent.accept chronicled fresh _
  | began attends =>
    rw [Option.toList_none, List.append_nil]
    exact sent.keep attends rfl rfl rfl
  | hungUp attends stands =>
    rw [Option.toList_none, List.append_nil]
    exact sent.keep attends rfl (by simp [Attendant.known, stands]) rfl
  | forgotten attends begun =>
    rw [Option.toList_none, List.append_nil]
    exact sent.forget attends begun _

/-- In every run, lines carry what was emitted. -/
theorem sent_run (capacity : Nat) (moves : List Move) :
    ((empty capacity).run moves).Sent ((empty capacity).chronicle moves) := by
  induction moves using List.reverseRecOn with
  | nil =>
    refine ⟨⟨rfl, List.nodup_nil, fun p k => ?_, nofun⟩, nofun, nofun⟩
    exact ⟨nofun, nofun⟩
  | append_singleton moves m ih =>
    rw [run_snoc, chronicle_snoc]
    exact (move_moved _ m).sent (chronicled_run capacity moves) ih

/-! ## Order -/

/-- Where a peer hears of something is where it was emitted. -/
theorem split_of_heard {front back : List ServerEvent} {event : ServerEvent}
    (told : heard (emissions log) p = front ++ event :: back) :
    ∃ before h after, log = before ++ ⟨h, .emitted ⟨p, event⟩⟩ :: after ∧
      heard (emissions before) p = front ∧ heard (emissions after) p = back := by
  induction log generalizing front with
  | nil => simp [emissions, heard] at told
  | cons entry log ih =>
    obtain ⟨h, action⟩ := entry
    rw [← List.singleton_append, emissions_append, heard_append] at told
    by_cases own : action.emission?.map (·.recipient) = some p
    · obtain ⟨e, emits, rfl⟩ := Option.map_eq_some_iff.mp own
      obtain rfl := Action.eq_emitted emits
      have first : heard (emissions [⟨h, .emitted e⟩]) e.recipient = [e.event] := by
        simp [emissions, Action.emission?, heard]
      rw [first, List.singleton_append] at told
      cases front with
      | nil =>
        obtain ⟨rfl, rfl⟩ := List.cons.inj told
        exact ⟨[], h, log, rfl, rfl, rfl⟩
      | cons event' front =>
        rw [List.cons_append, List.cons.injEq] at told
        obtain ⟨rfl, rest⟩ := told
        obtain ⟨before, h', after, rfl, rfl, rfl⟩ := ih rest
        refine ⟨⟨h, .emitted e⟩ :: before, h', after, rfl, ?_, rfl⟩
        rw [← List.singleton_append, emissions_append, heard_append, first]
        rfl
    · have silent : heard (emissions [⟨h, action⟩]) p = [] := by
        cases emits : action.emission? with
        | none => simp [emissions, emits, heard]
        | some e => simpa [emissions, emits, heard] using own
      rw [silent] at told
      obtain ⟨before, h', after, rfl, rfl, rfl⟩ := ih told
      refine ⟨⟨h, action⟩ :: before, h', after, rfl, ?_, rfl⟩
      rw [← List.singleton_append, emissions_append, heard_append, silent]
      rfl

/-- The peer was found in the room by this hand, and up to then it did not leave. -/
def Found (h : Hand) (p : PeerId) (r : RoomId) (entries : List Entry) : Prop :=
  ∃ lasting finding rest, entries = lasting ++ finding :: rest ∧ finding.hand = h ∧
    finding.action.names r p ∧ ∀ entry ∈ lasting, ∀ outcome, entry.action ≠ .left r p outcome

/-- Only the attendant of a peer puts it into a room, while it works on an event. -/
theorem Chronicled.hand_eq (chronicled : s.Chronicled log) (sent : s.Sent log)
    (attends : s.attendants[i]? = some x) {entry : Entry} (mem : entry ∈ log)
    {outcome : JoinOutcome} (joined : entry.action = .joined r x.peer outcome) :
    entry.hand = ⟨i, false⟩ := by
  obtain ⟨y, attends', own⟩ := chronicled.loyal.own entry mem
  have same : x.peer = y.peer := own x.peer (by rw [joined]; rfl)
  have index := sent.index_unique attends' attends same
  have hand := chronicled.loyal.joins entry mem r x.peer outcome joined
  rw [← index, ← hand]

/-- Someone who is told that it is in a room is told so by its attendant. -/
theorem Chronicled.joined_hand (chronicled : s.Chronicled log) (sent : s.Sent log)
    (attends : s.attendants[i]? = some x)
    (mem : ⟨h, .emitted ⟨x.peer, .joined r x.peer⟩⟩ ∈ log) : h = ⟨i, false⟩ := by
  obtain ⟨before, after, split⟩ := List.append_of_mem mem
  obtain ⟨cause, found, rfl, allows⟩ := chronicled.loyal.allowed before h _ after split
  obtain ⟨outcome, joined⟩ := Action.joined_of_allows allows
  have found : cause ∈ log := by
    rw [split]
    exact List.mem_append_left _ found
  exact chronicled.hand_eq sent attends found joined

theorem Announces.heard {entries : List Entry} (announces : Announces h p r entries) :
    .joined r p ∈ heard (emissions entries) p := by
  obtain ⟨idle, rest, rfl, -⟩ := announces
  simp [emissions, Action.emission?, Parley.heard]

section Told

variable {event : ServerEvent} {earlier since after : List Entry} {n : Nat} {existing : List PeerId}

/-- Someone who is told of what others do in a room was put there by its attendant and found there. -/
theorem Chronicled.found (chronicled : s.Chronicled log) (sent : s.Sent log)
    (attends : s.attendants[i]? = some x) {before : List Entry}
    (split : log = before ++ ⟨h, .emitted ⟨x.peer, event⟩⟩ :: after) (tells : event.Tells r) :
    ∃ earlier n existing since,
      before = earlier ++ ⟨⟨i, false⟩, .joined r x.peer (.joined n existing)⟩ :: since ∧
        Found h x.peer r since := by
  obtain ⟨finding, mem, hand, allows⟩ := chronicled.loyal.allowed before h _ after split
  have names := Action.names_of_allows allows tells
  obtain ⟨first, rest, rfl⟩ := List.append_of_mem mem
  obtain ⟨earlier, h', n, existing, lasting, rfl, lasts⟩ := chronicled.traced.named first finding
    (rest ++ ⟨h, .emitted ⟨x.peer, event⟩⟩ :: after) x.peer r (by rw [split]; simp) names
  have put : ⟨h', .joined r x.peer (.joined n existing)⟩ ∈ log := by
    rw [split]
    simp
  obtain rfl : h' = ⟨i, false⟩ := chronicled.hand_eq sent attends put rfl
  exact ⟨earlier, n, existing, lasting ++ finding :: rest, by simp, lasting, finding, rest, rfl, hand,
    names, lasts⟩

/-- The attendant tells its peer that it has put it into a room before it does anything else. -/
theorem Chronicled.heard_iff (chronicled : s.Chronicled log) (sent : s.Sent log)
    (attends : s.attendants[i]? = some x)
    (split : log = earlier ++ ⟨⟨i, false⟩, .joined r x.peer (.joined n existing)⟩ :: since ++ after) :
    .joined r x.peer ∈ heard (emissions since) x.peer ↔ ∃ entry ∈ since, entry.hand = ⟨i, false⟩ := by
  constructor
  · intro mem
    obtain ⟨front, back, told⟩ := List.append_of_mem mem
    obtain ⟨sooner, h', later, rfl, -⟩ := split_of_heard told
    refine ⟨_, List.mem_append_right _ List.mem_cons_self, ?_⟩
    exact chronicled.joined_hand (r := r) sent attends (by rw [split]; simp)
  · rintro ⟨entry, mem, own⟩
    rcases chronicled.prompt earlier ⟨i, false⟩ r x.peer n existing (since ++ after)
      (by rw [split]; simp) with told | ⟨absent, -⟩
    · rcases announces_append.mp told with told | ⟨absent, -⟩
      · exact told.heard
      · exact absurd own (absent entry mem)
    · exact absurd own (absent entry (List.mem_append_left _ mem))

/-- If it has not done anything yet, then it does this next. -/
theorem Chronicled.announces (chronicled : s.Chronicled log)
    (split : log = earlier ++ ⟨⟨i, false⟩, .joined r p (.joined n existing)⟩ :: since ++
      ⟨h, .emitted ⟨p, event⟩⟩ :: after)
    (tells : event.Tells r) (absent : Absent ⟨i, false⟩ since) :
    Absent ⟨i, false⟩ after ∨ Announces ⟨i, false⟩ p r after := by
  rcases chronicled.prompt earlier ⟨i, false⟩ r p n existing
    (since ++ ⟨h, .emitted ⟨p, event⟩⟩ :: after) (by rw [split]; simp) with told | ⟨absent, -⟩
  · rcases announces_append.mp told with ⟨idle, rest, rfl, -⟩ | ⟨-, told⟩
    · exact absurd rfl (absent _ (List.mem_append_right _ List.mem_cons_self))
    · obtain ⟨idle, rest, split, absent⟩ := told
      cases idle with
      | nil =>
        cases split
        cases tells
      | cons first idle =>
        cases split
        exact .inr ⟨idle, rest, rfl, (List.forall_mem_cons.mp absent).2⟩
  · exact .inl fun entry mem => absent entry (by simp [mem])

end Told

/-- An event that tells a peer of what others do in a room comes after the peer was put into the room
and found there. It comes after the `joined` that tells the peer of this if and only if the attendant
has acted in between; if it has not, then this `joined` is the next thing that it does. -/
theorem joined_first_iff {capacity : Nat} {moves : List Move} {front back : List ServerEvent}
    {event : ServerEvent} (attends : ((empty capacity).run moves).attendants[i]? = some x)
    (queue : ((empty capacity).run moves).hub.board.queue x.line = front ++ event :: back)
    (tells : event.Tells r) :
    ∃ earlier n existing since h after,
      (empty capacity).chronicle moves =
        earlier ++ ⟨⟨i, false⟩, .joined r x.peer (.joined n existing)⟩ :: since ++
          ⟨h, .emitted ⟨x.peer, event⟩⟩ :: after ∧
      front = heard (emissions earlier) x.peer ++ heard (emissions since) x.peer ∧
      back <+: heard (emissions after) x.peer ∧
      Found h x.peer r since ∧
      (.joined r x.peer ∈ heard (emissions since) x.peer ↔
        ∃ entry ∈ since, entry.hand = ⟨i, false⟩) ∧
      (Absent ⟨i, false⟩ since → Absent ⟨i, false⟩ after ∨ Announces ⟨i, false⟩ x.peer r after) := by
  have chronicled := chronicled_run capacity moves
  have sent := sent_run capacity moves
  obtain ⟨lost, told, -⟩ := sent.queues i x.peer x.known (getElem?_peers attends)
  rw [← sent.lines i x attends, queue, List.append_assoc, List.cons_append] at told
  obtain ⟨before, h, after, split, rfl, rest⟩ := split_of_heard told
  obtain ⟨earlier, n, existing, since, rfl, found⟩ := chronicled.found sent attends split tells
  refine ⟨earlier, n, existing, since, h, after, split, ?_, ?_, found,
    chronicled.heard_iff sent attends split, chronicled.announces split tells⟩
  · rw [emissions_append, heard_append]
    rfl
  · rw [rest]
    exact List.prefix_append ..

/-- Two peers come to the same room. The second one does all its work after the first one was put into
the room and before it is told so. -/
def overtaking : List Move :=
  [.accept ⟨"a"⟩ [.join ⟨"r"⟩], .accept ⟨"b"⟩ [.join ⟨"r"⟩], .work 0, .work 0, .work 0] ++
    .replicate 5 (.work 1) ++ [.work 0]

/-- The first one hears of the second one before it hears that it is in the room. -/
theorem heard_before_joined :
    ((empty 2).run overtaking).attendants[0]? = some ⟨⟨"a"⟩, 0, [], .done, .notYet⟩ ∧
      ((empty 2).run overtaking).hub.board.queue 0 =
        [.otherJoin ⟨"r"⟩ ⟨"b"⟩, .joined ⟨"r"⟩ ⟨"a"⟩] :=
  ⟨rfl, rfl⟩

/-- Nothing but the announcement was still to come from the attendant of the first one. -/
theorem overtaken_announced :
    ∃ since h after,
      since ++ ⟨h, .emitted ⟨⟨"a"⟩, .otherJoin ⟨"r"⟩ ⟨"b"⟩⟩⟩ :: after <:+
        (empty 2).chronicle overtaking ∧
      Absent ⟨0, false⟩ since ∧
      (Absent ⟨0, false⟩ after ∨ Announces ⟨0, false⟩ ⟨"a"⟩ ⟨"r"⟩ after) := by
  have attends : ((empty 2).run overtaking).attendants[0]? = some ⟨⟨"a"⟩, 0, [], .done, .notYet⟩ := rfl
  have queue : ((empty 2).run overtaking).hub.board.queue 0 =
    [] ++ .otherJoin ⟨"r"⟩ ⟨"b"⟩ :: [.joined ⟨"r"⟩ ⟨"a"⟩] := rfl
  obtain ⟨earlier, n, existing, since, h, after, split, front, -, -, told, next⟩ :=
    joined_first_iff (r := ⟨"r"⟩) attends queue rfl
  have absent : Absent ⟨0, false⟩ since := by
    intro entry mem own
    have heard := told.mpr ⟨entry, mem, own⟩
    rw [(List.append_eq_nil_iff.mp front.symm).2] at heard
    cases heard
  refine ⟨since, h, after, ?_, absent, next absent⟩
  rw [split, List.append_assoc, List.cons_append]
  exact (List.suffix_cons _ _).trans (List.suffix_append _ _)

end Staff

end Parley
