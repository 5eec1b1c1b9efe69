import Parley.Proofs.Relay.Membership

/-!
# Single actions

What the single actions of a job are, with what each of them finds. A job emits only what follows from
what it has found before: it announces a join to those who were listed as members then, passes a
message on to those who were listed when it asked, and so on (`Job.Sanctioned`). Right after it has put
its peer into a room it says so to that peer. Whoever an action finds in a room is a member at that
moment, even if others act between the actions of the job (`Job.step_members`).
-/

namespace Parley

/-- An action of a job, with what the registry answers. -/
inductive Action where
  | looked (peer : PeerId) (room : Option RoomId)
  | joined (room : RoomId) (peer : PeerId) (outcome : JoinOutcome)
  | left (room : RoomId) (peer : PeerId) (outcome : LeaveOutcome)
  | asked (room : RoomId) (peer : PeerId) (member : Bool)
  | listed (room : RoomId) (peers : List PeerId)
  | emitted (emission : Emission)

/-- The event tells a member of a room of another one's join, or passes a message on to it. -/
def ServerEvent.Tells (r : RoomId) : ServerEvent → Prop
  | .otherJoin r' _ | .message r' _ _ => r' = r
  | _ => False

namespace Action

/-- The action finds the peer in the room, besides the one that it is about. -/
def names (r : RoomId) (q : PeerId) : Action → Prop
  | .joined r' _ (.joined _ existing) => r' = r ∧ q ∈ existing
  | .left r' _ outcome => r' = r ∧ q ∈ outcome.remaining
  | .listed r' peers => r' = r ∧ q ∈ peers
  | _ => False

/-- The emission follows from what the action has found. -/
def allows (e : Emission) : Action → Prop
  | .joined r p (.joined _ existing) =>
    e = ⟨p, .joined r p⟩ ∨ ∃ q ∈ existing, e = ⟨q, .otherJoin r p⟩
  | .joined r p (.alreadyMember _) => e = ⟨p, .joined r p⟩
  | .joined r p .full => e = ⟨p, .full r p⟩
  | .left r p outcome => e = ⟨p, .leaved r p⟩ ∨ ∃ q ∈ outcome.remaining, e = ⟨q, .bye r p⟩
  | .listed r peers => ∃ q ∈ peers, ∃ p data, e = ⟨q, .message r p data⟩
  | _ => False

/-- The peer that an action moves. -/
def subject? : Action → Option PeerId
  | .joined _ p _ | .left _ p _ => some p
  | _ => none

/-- What an action emits. -/
def emission? : Action → Option Emission
  | .emitted e => some e
  | _ => none

variable {action : Action} {e : Emission} {q : PeerId} {r : RoomId} {event : ServerEvent}

theorem eq_emitted (h : action.emission? = some e) : action = .emitted e := by
  cases action with
  | emitted e' => exact congrArg _ (Option.some.inj h)
  | looked | joined | left | asked | listed => cases h

/-- Whoever gets an event is the peer itself or was found in the room. -/
theorem recipient_of_allows (h : action.allows e) :
    action.subject? = some e.recipient ∨ action.names e.event.room e.recipient := by
  cases action with
  | joined r p outcome =>
    cases outcome with
    | joined n existing =>
      rcases h with rfl | ⟨q, mem, rfl⟩
      · exact .inl rfl
      · exact .inr ⟨rfl, mem⟩
    | alreadyMember n | full =>
      cases h
      exact .inl rfl
  | left r p outcome =>
    rcases h with rfl | ⟨q, mem, rfl⟩
    · exact .inl rfl
    · exact .inr ⟨rfl, mem⟩
  | listed r peers =>
    obtain ⟨q, mem, p, data, rfl⟩ := h
    exact .inr ⟨rfl, mem⟩
  | looked | asked | emitted => cases h

/-- Whoever is told something was found in the room. -/
theorem names_of_allows (h : action.allows ⟨q, event⟩) (told : event.Tells r) :
    action.names r q := by
  cases action with
  | joined r p outcome =>
    cases outcome with
    | joined n existing =>
      rcases h with same | ⟨q, mem, same⟩
      · cases same
        cases told
      · cases same
        exact ⟨told, mem⟩
    | alreadyMember n | full =>
      cases h
      cases told
  | left r p outcome =>
    rcases h with same | ⟨q, mem, same⟩ <;>
    · cases same
      cases told
  | listed r peers =>
    obtain ⟨q, mem, p, data, same⟩ := h
    cases same
    exact ⟨told, mem⟩
  | looked | asked | emitted => cases h

/-- Who is told that it is in a room has asked to be put there. -/
theorem joined_of_allows {p : PeerId} (h : action.allows ⟨q, .joined r p⟩) :
    ∃ outcome, action = .joined r p outcome := by
  cases action with
  | joined r' p' outcome =>
    cases outcome with
    | joined n existing =>
      rcases h with same | ⟨q, -, same⟩ <;> cases same
      exact ⟨_, rfl⟩
    | alreadyMember n =>
      cases h
      exact ⟨_, rfl⟩
    | full => cases h
  | left r p outcome => rcases h with same | ⟨q, -, same⟩ <;> cases same
  | listed r peers =>
    obtain ⟨q, -, p, data, same⟩ := h
    cases same
  | looked | asked | emitted => cases h

end Action

namespace Job

/-- The next action of a job. -/
def action? (g : Registry) : Job → Option Action
  | .done => none
  | .roomOf p _ => some (.looked p (g.roomOf? p))
  | .join r p _ => some (.joined r p (g.join r p).1)
  | .leave r p _ => some (.left r p (g.leave r p).1)
  | .isMember r p _ => some (.asked r p (g.isMember r p))
  | .members r _ => some (.listed r (g.members r))
  | .emit e _ => some (.emitted e)

/-- A job for a peer that moves nobody else, puts it into a room only if it `joins`, and emits only
what it may, or what follows from what it finds. When it has put the peer into a room, it says so
next. -/
def Sanctioned (p : PeerId) (joins : Bool) (may : Emission → Prop) : Job → Prop
  | .done => True
  | .roomOf _ next => ∀ room, (next room).Sanctioned p joins may
  | .join r q next => joins = true ∧ q = p ∧ ∀ outcome,
    (next outcome).Sanctioned p joins (fun e => may e ∨ (Action.joined r q outcome).allows e) ∧
      ∀ n existing, outcome = .joined n existing →
        ∃ rest, next outcome = .emit ⟨p, .joined r p⟩ rest
  | .leave r q next => q = p ∧ ∀ outcome,
    (next outcome).Sanctioned p joins fun e => may e ∨ (Action.left r q outcome).allows e
  | .isMember _ _ next => ∀ member, (next member).Sanctioned p joins may
  | .members r next =>
    ∀ peers, (next peers).Sanctioned p joins fun e => may e ∨ (Action.listed r peers).allows e
  | .emit e next => may e ∧ next.Sanctioned p joins may

variable {p : PeerId} {r : RoomId} {joins : Bool} {may may' : Emission → Prop} {j j' next : Job}
  {g g' : Registry} {action : Action} {emitted : Option Emission}

theorem Sanctioned.mono (h : j.Sanctioned p joins may) (more : ∀ e, may e → may' e) :
    j.Sanctioned p joins may' := by
  induction j generalizing may may' with
  | done => trivial
  | roomOf q next ih | isMember r q next ih => exact fun found => ih found (h found) more
  | join r q next ih =>
    obtain ⟨joins, own, next⟩ := h
    refine ⟨joins, own, fun outcome => ⟨ih outcome (next outcome).1 fun e => ?_, (next outcome).2⟩⟩
    exact Or.imp_left (more e)
  | leave r q next ih =>
    exact ⟨h.1, fun outcome => ih outcome (h.2 outcome) fun e => Or.imp_left (more e)⟩
  | members r next ih => exact fun peers => ih peers (h peers) fun e => Or.imp_left (more e)
  | emit e next ih => exact ⟨more e h.1, ih h.2 more⟩

/-! ## The work on an event -/

theorem Sanctioned.fanOut {recipients : List PeerId} {event : ServerEvent}
    (allowed : ∀ q ∈ recipients, may ⟨q, event⟩) (rest : next.Sanctioned p joins may) :
    (Job.fanOut recipients p event next).Sanctioned p joins may := by
  have allowed : ∀ q ∈ recipients.filter (· ≠ p), may ⟨q, event⟩ := fun q mem =>
    allowed q (List.mem_filter.mp mem).1
  unfold Job.fanOut
  generalize recipients.filter (· ≠ p) = others at allowed
  induction others with
  | nil => exact rest
  | cons q others ih =>
    exact ⟨allowed q List.mem_cons_self, ih fun q mem => allowed q (List.mem_cons_of_mem _ mem)⟩

theorem depart_sanctioned (asked : Bool) (rest : ∀ may, next.Sanctioned p joins may) :
    (depart p r asked next).Sanctioned p joins may := by
  refine ⟨rfl, fun outcome => ?_⟩
  have last : (if asked then .emit ⟨p, .leaved r p⟩ next else next : Job).Sanctioned p joins
      fun e => may e ∨ (Action.left r p outcome).allows e := by
    split
    · exact ⟨.inr (.inl rfl), rest _⟩
    · exact rest _
  dsimp only
  split
  · exact .fanOut (fun q mem => .inr (.inr ⟨q, mem, rfl⟩)) last
  · exact last

theorem enter_sanctioned : (enter p r).Sanctioned p true may := by
  refine ⟨rfl, rfl, fun outcome => ?_⟩
  cases outcome with
  | full => exact ⟨⟨.inr rfl, trivial⟩, nofun⟩
  | alreadyMember n => exact ⟨⟨.inr rfl, trivial⟩, nofun⟩
  | joined n existing =>
    refine ⟨⟨.inr (.inl rfl), ?_⟩, fun _ _ _ => ⟨_, rfl⟩⟩
    exact .fanOut (fun q mem => .inr (.inr ⟨q, mem, rfl⟩)) trivial

theorem ofMessage_sanctioned (data : Json) : (ofMessage p r data).Sanctioned p joins may := by
  intro member
  dsimp only
  split
  · split
    · exact fun peers => .fanOut (fun q mem => .inr ⟨q, mem, p, data, rfl⟩) trivial
    · trivial
  · trivial

/-- The work on what a peer asks for is for that peer. -/
theorem ofSignal_sanctioned (p : PeerId) (e : ClientEvent) :
    (ofEvent (.signal p e)).Sanctioned p true may := by
  cases e with
  | join r =>
    intro room
    cases room with
    | none => exact enter_sanctioned
    | some c =>
      show (if c ≠ r then depart p c true (enter p r) else enter p r).Sanctioned p true may
      split
      · exact depart_sanctioned true fun _ => enter_sanctioned
      · exact enter_sanctioned
  | leave r => exact depart_sanctioned true fun _ => trivial
  | message r data => exact ofMessage_sanctioned data

/-- So is the work on its disconnect, which puts it into no room. -/
theorem ofDisconnect_sanctioned (p : PeerId) :
    (ofEvent (.disconnected p)).Sanctioned p false may := by
  intro room
  cases room with
  | none => trivial
  | some c => exact depart_sanctioned false fun _ => trivial

/-! ## One action -/

theorem step?_of_action? (does : j.action? g = some action) :
    ∃ j' g', j.step? g = some (j', g', action.emission?) := by
  cases j <;> cases does <;> exact ⟨_, _, rfl⟩

theorem action?_eq_none (h : j.action? g = none) : j = .done := by
  cases j with
  | done => rfl
  | _ => cases h

/-- What a sanctioned job does, and what it goes on with. -/
theorem Sanctioned.step (h : j.Sanctioned p joins may) (does : j.action? g = some action)
    (step : j.step? g = some (j', g', emitted)) :
    (j'.Sanctioned p joins fun e => may e ∨ action.allows e) ∧
      (∀ e, action = .emitted e → may e) ∧ (∀ q, action.subject? = some q → q = p) ∧
      ∀ r q outcome, action = .joined r q outcome → joins = true ∧
        ∀ n existing, outcome = .joined n existing → ∃ rest, j' = .emit ⟨p, .joined r p⟩ rest := by
  have weaken {j : Job} (h : j.Sanctioned p joins may) :
      j.Sanctioned p joins fun e => may e ∨ action.allows e := h.mono fun _ => .inl
  cases j with
  | done => cases does
  | roomOf q next =>
    cases does
    cases step
    exact ⟨weaken (h _), nofun, nofun, nofun⟩
  | isMember r q next =>
    cases does
    cases step
    exact ⟨weaken (h _), nofun, nofun, nofun⟩
  | join r q next =>
    cases does
    cases step
    obtain ⟨joins, rfl, next⟩ := h
    refine ⟨(next _).1, nofun, fun q own => by cases own; rfl, fun r' q' outcome same => ?_⟩
    cases same
    exact ⟨joins, (next _).2⟩
  | leave r q next =>
    cases does
    cases step
    obtain ⟨rfl, next⟩ := h
    exact ⟨next _, nofun, fun q own => by cases own; rfl, nofun⟩
  | members r next =>
    cases does
    cases step
    exact ⟨h _, nofun, nofun, nofun⟩
  | emit e next =>
    cases does
    cases step
    exact ⟨weaken h.2, fun e' same => by cases same; exact h.1, nofun, nofun⟩

open Registry in
/-- Who is in a room after an action was there before, unless the action has put it in; and whoever
the action finds in a room is there before. -/
theorem step_members (tidy : g.Tidy) (does : j.action? g = some action)
    (step : j.step? g = some (j', g', emitted)) :
    g'.Tidy ∧ (∀ q r, q ∈ g'.members r →
        (q ∈ g.members r ∧ ∀ outcome, action ≠ .left r q outcome) ∨
          ∃ n existing, action = .joined r q (.joined n existing)) ∧
      ∀ q r, action.names r q → q ∈ g.members r := by
  cases j with
  | done => cases does
  | roomOf | isMember | emit =>
    cases does
    cases step
    exact ⟨tidy, fun q r mem => .inl ⟨mem, nofun⟩, nofun⟩
  | members r next =>
    cases does
    cases step
    exact ⟨tidy, fun q r mem => .inl ⟨mem, nofun⟩, fun q r' ⟨here, mem⟩ => here ▸ mem⟩
  | leave r p next =>
    cases does
    cases step
    refine ⟨tidy.leave r p, fun q r' mem => .inl ?_, fun q r' ⟨here, mem⟩ => ?_⟩
    · rw [members_leave] at mem
      split at mem
      case isTrue here =>
        obtain ⟨mem, other⟩ := List.mem_filter.mp mem
        refine ⟨here ▸ mem, fun outcome same => ?_⟩
        cases same
        simp at other
      case isFalse elsewhere =>
        exact ⟨mem, fun outcome same => by cases same; exact elsewhere rfl⟩
    · subst here
      rw [leave_outcome] at mem
      exact (List.mem_filter.mp mem).1
  | join r p next =>
    cases does
    cases step
    have members := tidy.members_roomOrNew r
    cases inside : (g.roomOrNew r).contains p with
    | true =>
      rw [join_of_contains inside]
      exact ⟨tidy, fun q r' mem => .inl ⟨mem, nofun⟩, nofun⟩
    | false =>
      cases full : (g.roomOrNew r).isFull with
      | true =>
        rw [join_of_isFull inside full]
        exact ⟨tidy, fun q r' mem => .inl ⟨mem, nofun⟩, nofun⟩
      | false =>
        have tidy' := tidy.join r p
        rw [join_of_space inside full] at tidy' ⊢
        refine ⟨tidy', fun q r' mem => ?_, fun q r' ⟨here, mem⟩ => ?_⟩
        · rw [members_set] at mem
          split at mem
          case isTrue here =>
            subst here
            rcases List.mem_append.mp mem with mem | new
            · exact .inl ⟨members ▸ mem, nofun⟩
            · rw [List.mem_singleton.mp new]
              exact .inr ⟨_, _, rfl⟩
          case isFalse => exact .inl ⟨mem, nofun⟩
        · exact here ▸ members ▸ mem

end Job

end Parley
