import Parley.Proofs.Relay.Routing

/-!
# Events that have nothing to do with each other

An event touches the room that it names and the room that its peer is in. What the relay does about
it depends on those rooms only and changes no other (`SameFor.membersAfter_eq`, `SameFor.hears_eq`,
`membersAfter_of_untouched`), and whoever hears of it is its peer or in one of those rooms
(`hears_of_apart`). So after two events of different peers that touch no room in common it makes no
difference which of them came first (`Registry.relay_commutes`).

That the two events have no listener in common needs more than this: a peer that hears of another
one's event is a member of a room that this event touches, and being in only one room, it touches that
room with every event of its own.
-/

namespace Parley

/-- The room that an event names. -/
def TransportEvent.target? : TransportEvent → Option RoomId
  | .signal _ (.join r) | .signal _ (.leave r) | .signal _ (.message r _) => some r
  | .disconnected _ => none

namespace Registry

variable {g g' : Registry} {e e₁ e₂ : TransportEvent} {p q : PeerId} {r : RoomId}

/-- The event names the room, or its peer is in it. -/
def Touches (g : Registry) (e : TransportEvent) (r : RoomId) : Prop :=
  e.target? = some r ∨ g.roomOf? e.peer = some r

/-! ## What an event depends on -/

/-- The registries do not differ in anything that an event of the first one depends on. -/
structure SameFor (e : TransportEvent) (g g' : Registry) : Prop where
  capacity : g'.capacity = g.capacity
  roomOf : g'.roomOf? e.peer = g.roomOf? e.peer
  members : ∀ r, g.Touches e r → g'.members r = g.members r

theorem SameFor.hasSpace_iff (same : SameFor e g g') (touched : g.Touches e r) :
    g'.HasSpace r ↔ g.HasSpace r := by
  unfold HasSpace
  rw [same.capacity, same.members r touched]

/-- What becomes of the rooms that an event touches depends on nothing else. -/
theorem SameFor.membersAfter_eq (same : SameFor e g g') (touched : g.Touches e r) :
    g'.membersAfter e r = g.membersAfter e r := by
  have members := same.members r touched
  have space := same.hasSpace_iff touched
  have roomOf := same.roomOf
  match e with
  | .signal p (.join r') =>
    have target : g'.members r' = g.members r' := same.members r' (.inl rfl)
    have roomOf : g'.roomOf? p = g.roomOf? p := roomOf
    simp only [membersAfter, members, target, space, roomOf]
  | .signal p (.leave r') | .signal p (.message r' data) => simp only [membersAfter, members]
  | .disconnected p =>
    have roomOf : g'.roomOf? p = g.roomOf? p := roomOf
    simp only [membersAfter, members, roomOf]

/-- Whom the others hear of that are in the room of a peer depends on that room. -/
theorem SameFor.hearsOff_eq (same : SameFor e g g') (q : PeerId) :
    g'.hearsOff e.peer q = g.hearsOff e.peer q := by
  unfold hearsOff
  rw [same.roomOf]
  cases current : g.roomOf? e.peer with
  | none => rfl
  | some c => simp only [same.members c (.inr current)]

/-- What a peer hears of an event depends on nothing else. -/
theorem SameFor.hears_eq (same : SameFor e g g') (q : PeerId) : g'.hears q e = g.hears q e := by
  have off := same.hearsOff_eq q
  match e with
  | .signal p (.join r) =>
    have touched : g.Touches (.signal p (.join r)) r := .inl rfl
    have off : g'.hearsOff p q = g.hearsOff p q := off
    have roomOf : g'.roomOf? p = g.roomOf? p := same.roomOf
    simp only [hears, same.members r touched, same.hasSpace_iff touched, roomOf, off]
  | .signal p (.leave r) | .signal p (.message r data) =>
    simp only [hears, same.members r (.inl rfl)]
  | .disconnected p =>
    have off : g'.hearsOff p q = g.hearsOff p q := off
    simp only [hears, off]

/-! ## What an event leaves alone -/

/-- A room that an event does not touch keeps its members. -/
theorem membersAfter_of_untouched (untouched : ¬ g.Touches e r) :
    g.membersAfter e r = g.members r := by
  obtain ⟨other, elsewhere⟩ := not_or.mp untouched
  match e with
  | .signal p (.join r') =>
    have other : r ≠ r' := fun same => other (congrArg some same.symm)
    have elsewhere : g.roomOf? p ≠ some r := elsewhere
    simp [membersAfter, other, elsewhere]
  | .signal p (.leave r') =>
    have other : r ≠ r' := fun same => other (congrArg some same.symm)
    simp [membersAfter, other]
  | .signal p (.message r' data) => rfl
  | .disconnected p => exact if_neg elsewhere

/-- Nobody but the peer of an event gets into a room or out of it. -/
theorem mem_membersAfter_iff (other : q ≠ e.peer) (r : RoomId) :
    q ∈ g.membersAfter e r ↔ q ∈ g.members r := by
  have kept (p : PeerId) (other : q ≠ p) :
      q ∈ (g.members r).filter (· ≠ p) ↔ q ∈ g.members r := by simp [other]
  match e with
  | .signal p (.join r') =>
    have new (other : q ≠ p) : q ∈ g.members r ++ [p] ↔ q ∈ g.members r := by simp [other]
    unfold membersAfter
    dsimp only
    split
    · rfl
    · split
      · split
        · exact new other
        · rfl
      · split
        · exact kept p other
        · rfl
  | .signal p (.leave r') | .disconnected p =>
    unfold membersAfter
    dsimp only
    split
    · exact kept p other
    · rfl
  | .signal p (.message r' data) => rfl

/-- Whoever is in none of the rooms that another one's event touches hears nothing of it. -/
theorem hears_of_apart (other : q ≠ e.peer) (outside : ∀ r, g.Touches e r → q ∉ g.members r) :
    g.hears q e = [] := by
  have off (p : PeerId) (own : e.peer = p) : g.hearsOff p q = [] := by
    unfold hearsOff
    split
    case h_1 c current => exact if_neg (outside c (.inr (own ▸ current)))
    case h_2 => rfl
  match e with
  | .signal p (.join r) =>
    have outside : q ∉ g.members r := outside r (.inl rfl)
    have other : q ≠ p := other
    simp [hears, off p rfl, outside, other]
  | .signal p (.leave r) | .signal p (.message r data) =>
    have outside : q ∉ g.members r := outside r (.inl rfl)
    have other : q ≠ p := other
    simp [hears, outside, other]
  | .disconnected p => simp [hears, off p rfl]

/-! ## Two events -/

/-- The relay does about an event what has to be done. -/
theorem Wf.routed (wf : g.Wf) (tidy : g.Tidy) (e : TransportEvent) :
    g.Routed e (g.handle e).1 (g.handle e).2 := by
  obtain ⟨members, heard⟩ : (∀ r, (g.handle e).1.members r = g.membersAfter e r) ∧
      ∀ q, heard (g.handle e).2 q = g.hears q e := by
    match e with
    | .signal p (.join r) =>
      by_cases moves : ∃ c, p ∈ g.members c ∧ c ≠ r
      · obtain ⟨c, inside, other⟩ := moves
        exact routed_move wf tidy inside other
      · exact routed_enter wf tidy (by simpa using moves)
    | .signal p (.leave r) => exact routed_leave tidy p r
    | .signal p (.message r data) =>
      obtain ⟨same, heard⟩ := routed_message tidy p r data
      exact ⟨fun r' => by rw [same]; rfl, heard⟩
    | .disconnected p => exact routed_disconnected wf tidy p
  have after := (wf.handle e).consistent (tidy.handle e)
  refine ⟨members, fun p r => ?_, ?_, heard⟩
  · rw [← members, after.whereabouts]
  · rw [after.count]
    simp only [members]

/-- An event of another peer that touches none of the same rooms makes no difference to an event. -/
theorem Wf.sameFor_handle (wf : g.Wf) (tidy : g.Tidy) (other : e₂.peer ≠ e₁.peer)
    (disjoint : ∀ r, g.Touches e₂ r → ¬ g.Touches e₁ r) : SameFor e₂ g (g.handle e₁).1 := by
  have routed := wf.routed tidy e₁
  refine ⟨g.capacity_handle e₁, Option.ext fun r => ?_, fun r touched => ?_⟩
  · rw [routed.roomOf, mem_membersAfter_iff other]
    exact wf.whereabouts.symm
  · rw [routed.members, membersAfter_of_untouched (disjoint r touched)]

/-- After two such events a room is as the one leaves it that touches it. -/
theorem Wf.members_pair (wf : g.Wf) (tidy : g.Tidy) (other : e₂.peer ≠ e₁.peer)
    (disjoint : ∀ r, g.Touches e₂ r → ¬ g.Touches e₁ r) (r : RoomId) :
    (g.Touches e₁ r → (g.relay [e₁, e₂]).1.members r = g.membersAfter e₁ r) ∧
      (¬ g.Touches e₁ r → (g.relay [e₁, e₂]).1.members r = g.membersAfter e₂ r) := by
  have same := wf.sameFor_handle tidy other disjoint
  have first : (g.handle e₁).1.members r = g.membersAfter e₁ r := (wf.routed tidy e₁).members r
  have second : (g.relay [e₁, e₂]).1.members r = (g.handle e₁).1.membersAfter e₂ r :=
    ((wf.handle e₁).routed (tidy.handle e₁) e₂).members r
  have aside (untouched : ¬ g.Touches e₂ r) :
      (g.relay [e₁, e₂]).1.members r = g.membersAfter e₁ r := by
    have untouched : ¬ (g.handle e₁).1.Touches e₂ r := by
      unfold Touches
      rwa [same.roomOf]
    rw [second, membersAfter_of_untouched untouched, first]
  refine ⟨fun touched => aside fun touched' => disjoint r touched' touched, fun untouched => ?_⟩
  by_cases touched' : g.Touches e₂ r
  · rw [second, same.membersAfter_eq touched']
  · rw [aside touched', membersAfter_of_untouched untouched, membersAfter_of_untouched touched']

/-- Of two such events a peer hears what it hears of either. -/
theorem Wf.heard_pair (wf : g.Wf) (tidy : g.Tidy) (other : e₂.peer ≠ e₁.peer)
    (disjoint : ∀ r, g.Touches e₂ r → ¬ g.Touches e₁ r) (q : PeerId) :
    heard (g.relay [e₁, e₂]).2 q = g.hears q e₁ ++ g.hears q e₂ := by
  have second := (wf.handle e₁).routed (tidy.handle e₁) e₂
  have emitted : (g.relay [e₁, e₂]).2 = (g.handle e₁).2 ++ ((g.handle e₁).1.handle e₂).2 := by
    simp [Registry.relay]
  rw [emitted, heard_append, (wf.routed tidy e₁).heard, second.heard,
    (wf.sameFor_handle tidy other disjoint).hears_eq]

/-- Nobody hears of both of two such events. -/
theorem Wf.hears_apart (wf : g.Wf) (other : e₂.peer ≠ e₁.peer)
    (disjoint : ∀ r, g.Touches e₂ r → ¬ g.Touches e₁ r) (q : PeerId) :
    g.hears q e₁ = [] ∨ g.hears q e₂ = [] := by
  -- A peer that is in a room touches that room with its own events.
  have own {e : TransportEvent} {r : RoomId} (mem : e.peer ∈ g.members r) : g.Touches e r :=
    .inr (wf.whereabouts.mpr mem)
  by_cases first : q = e₁.peer
  · subst first
    refine .inr (hears_of_apart (Ne.symm other) fun r touched mem => ?_)
    exact disjoint r touched (own mem)
  · by_cases outside : ∀ r, g.Touches e₁ r → q ∉ g.members r
    · exact .inl (hears_of_apart first outside)
    · obtain ⟨r, touched, mem⟩ : ∃ r, g.Touches e₁ r ∧ q ∈ g.members r := by simpa using outside
      by_cases second : q = e₂.peer
      · subst second
        exact absurd touched (disjoint r (own mem))
      · refine .inr (hears_of_apart second fun r' touched' mem' => ?_)
        exact disjoint r' touched' (wf.one_room mem mem' ▸ touched)

/-- Two events of different peers that touch no room in common can be handled in either order: every
room has the same members in the same order, every peer is known to be in the same room, there are as
many rooms, and every peer hears the same. -/
theorem relay_commutes (capacity : Nat) (events : List TransportEvent) (e₁ e₂ : TransportEvent)
    (other : e₁.peer ≠ e₂.peer)
    (disjoint : ∀ r, ((Registry.empty capacity).relay events).1.Touches e₁ r →
      ¬ ((Registry.empty capacity).relay events).1.Touches e₂ r) :
    let g := ((Registry.empty capacity).relay events).1
    let one := g.relay [e₁, e₂]
    let two := g.relay [e₂, e₁]
    (∀ r, one.1.members r = two.1.members r) ∧ (∀ p, one.1.roomOf? p = two.1.roomOf? p) ∧
      one.1.roomCount = two.1.roomCount ∧ ∀ q, heard one.2 q = heard two.2 q := by
  intro g one two
  have wf : g.Wf := (Wf.empty capacity).relay events
  have tidy : g.Tidy := (Tidy.empty capacity).relay events
  have apart : ∀ r, g.Touches e₂ r → ¬ g.Touches e₁ r := fun r touched touched' =>
    disjoint r touched' touched
  have members (r : RoomId) : one.1.members r = two.1.members r := by
    obtain ⟨first, second⟩ := wf.members_pair tidy (Ne.symm other) apart r
    obtain ⟨first', second'⟩ := wf.members_pair tidy other disjoint r
    by_cases touched : g.Touches e₁ r
    · exact (first touched).trans (second' (disjoint r touched)).symm
    · refine (second touched).trans ?_
      by_cases touched' : g.Touches e₂ r
      · exact (first' touched').symm
      · rw [membersAfter_of_untouched touched']
        exact ((second' touched').trans (membersAfter_of_untouched touched)).symm
  have after := (wf.relay [e₁, e₂]).consistent (tidy.relay [e₁, e₂])
  have after' := (wf.relay [e₂, e₁]).consistent (tidy.relay [e₂, e₁])
  refine ⟨members, fun p => Option.ext fun r => ?_, ?_, fun q => ?_⟩
  · rw [← after.whereabouts, ← after'.whereabouts]
    exact Iff.of_eq (congrArg (p ∈ ·) (members r))
  · rw [after.count, after'.count]
    simp only [one, two] at members
    simp only [members]
  · show heard (g.relay [e₁, e₂]).2 q = heard (g.relay [e₂, e₁]).2 q
    rw [wf.heard_pair tidy (Ne.symm other) apart, wf.heard_pair tidy other disjoint]
    rcases wf.hears_apart (Ne.symm other) apart q with nothing | nothing <;> simp [nothing]

/-- A peer moves to a new room, and another one that is alone in its room is gone. -/
theorem relay_commutes_move :
    let join (p r : String) : TransportEvent := .signal ⟨p⟩ (.join ⟨r⟩)
    let gone : TransportEvent := .disconnected ⟨"x"⟩
    let g := ((Registry.empty 2).relay [join "a" "r", join "b" "r", join "x" "s"]).1
    let one := g.relay [join "a" "t", gone]
    let two := g.relay [gone, join "a" "t"]
    (join "a" "t").peer ≠ gone.peer ∧
      (∀ r, g.Touches (join "a" "t") r → ¬ g.Touches gone r) ∧
      g.roomOf? ⟨"a"⟩ = some ⟨"r"⟩ ∧ g.roomOf? ⟨"x"⟩ = some ⟨"s"⟩ ∧ one.1.roomCount = 2 ∧
      (∀ r, one.1.members r = two.1.members r) ∧ (∀ p, one.1.roomOf? p = two.1.roomOf? p) ∧
      two.1.roomCount = 2 ∧ ∀ q, heard one.2 q = heard two.2 q := by
  intro join gone g one two
  have apart : (join "a" "t").peer ≠ gone.peer := by decide
  have here : g.roomOf? ⟨"a"⟩ = some ⟨"r"⟩ := by decide +kernel
  have there : g.roomOf? ⟨"x"⟩ = some ⟨"s"⟩ := by decide +kernel
  have two_rooms : one.1.roomCount = 2 := by decide +kernel
  have disjoint : ∀ r, g.Touches (join "a" "t") r → ¬ g.Touches gone r := by
    rintro r touched (target | inside)
    · cases target
    · obtain rfl : ⟨"s"⟩ = r := Option.some.inj (there.symm.trans inside)
      rcases touched with target | inside'
      · exact absurd target (by decide)
      · exact absurd (here.symm.trans inside') (by decide)
  obtain ⟨members, roomOf, count, heard⟩ :=
    relay_commutes 2 [join "a" "r", join "b" "r", join "x" "s"] (join "a" "t") gone apart disjoint
  exact ⟨apart, disjoint, here, there, two_rooms, members, roomOf, count.symm.trans two_rooms, heard⟩

end Registry

end Parley
