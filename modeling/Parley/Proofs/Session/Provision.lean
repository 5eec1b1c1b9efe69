import Parley.Proofs.History
import Parley.Proofs.Session.Discipline

/-!
# Media, and the tracks of an engine

A session acquires media when it asks to join and releases them when it leaves the room. What the
source of the media has given away is told by the record and the answers alone: `Answers.supply`
lists the tracks of the acquisitions that were not released.

A session holds media as long as it waits for the reply to a join or is in the room (`Supplied`),
and every engine gets the tracks that were acquired last. But a session that is told to join again
while it waits acquires media again without a release (`Deed.Repeats`), and there is no other way to
hold more than one acquisition.
-/

namespace Parley

variable {a : Answers}

/-! ## What a record says about media -/

/-- Media were acquired, and not released since. -/
def Holding (a : Answers) (record : List Request) : Prop :=
  ∃ before since, record = before ++ .acquireMedia :: since ∧
    a.grants before .acquireMedia = true ∧ .releaseMedia ∉ since

/-- Media were acquired twice without a release. -/
def Doubled (a : Answers) (record : List Request) : Prop :=
  ∃ before after, record = before ++ .acquireMedia :: after ∧
    a.grants before .acquireMedia = true ∧ Holding a before

/-- What a source of media has given away. -/
structure Supply where
  /-- The tracks of each acquisition that was not released, the oldest first. -/
  held : List (List TrackId)
  /-- How many tracks were acquired so far. -/
  total : Nat

/-- What a request changes, given the requests before it. -/
def Supply.after (a : Answers) (before : List Request) (s : Supply) : Request → Supply
  | .acquireMedia =>
    if a.grants before .acquireMedia then
      let count := a.trackCount before
      ⟨s.held ++ [(List.range count).map (s.total + ·)], s.total + count⟩
    else s
  | .releaseMedia => { s with held := [] }
  | _ => s

/-- What requests change that come after others. -/
def Answers.supplyAfter (a : Answers) (before : List Request) (s : Supply) :
    List Request → Supply
  | [] => s
  | r :: rest => a.supplyAfter (before ++ [r]) (s.after a before r) rest

/-- What was given away in the course of a record. -/
def Answers.supply (a : Answers) (record : List Request) : Supply := a.supplyAfter [] ⟨[], 0⟩ record

namespace Request

/-- The request is about media. -/
def supplies : Request → Bool
  | .acquireMedia | .releaseMedia => true
  | _ => false

/-- The request is about a new engine or its tracks. -/
def outfits : Request → Bool
  | .acquireEngine _ | .addTrack _ _ => true
  | _ => false

/-- The track that is attached to an engine. -/
def attached? (e : EngineId) : Request → Option TrackId
  | .addTrack e' track => if e' = e then some track else none
  | _ => none

theorem attached?_of_outfits {r : Request} (none : r.outfits = false) (e : EngineId) :
    r.attached? e = .none := by
  cases r <;> first | rfl | cases none

end Request

variable {l rs : List Request} {r : Request}

theorem Answers.supplyAfter_append (a : Answers) (before : List Request) (s : Supply)
    (l rs : List Request) : a.supplyAfter before s (l ++ rs) =
      a.supplyAfter (before ++ l) (a.supplyAfter before s l) rs := by
  induction l generalizing before s with
  | nil => simp [supplyAfter]
  | cons r rest ih =>
    show a.supplyAfter (before ++ [r]) (s.after a before r) (rest ++ rs) = _
    rw [ih, List.append_assoc]
    rfl

theorem Answers.supply_append (a : Answers) (l rs : List Request) :
    a.supply (l ++ rs) = a.supplyAfter l (a.supply l) rs :=
  a.supplyAfter_append [] _ l rs

theorem Answers.supply_snoc (a : Answers) (l : List Request) (r : Request) :
    a.supply (l ++ [r]) = (a.supply l).after a l r :=
  a.supply_append l [r]

theorem Supply.after_of_other (s : Supply) (other : r.supplies = false) : s.after a l r = s := by
  cases r <;> first | rfl | cases other

/-- Only what is about media changes what was given away. -/
theorem Answers.supplyAfter_of_others (before : List Request) (s : Supply)
    (others : ∀ r ∈ rs, r.supplies = false) : a.supplyAfter before s rs = s := by
  induction rs generalizing before with
  | nil => rfl
  | cons r rest ih =>
    rw [supplyAfter, s.after_of_other (others r List.mem_cons_self)]
    exact ih _ fun r' mem => others r' (List.mem_cons_of_mem r mem)

/-! ### Holding media -/

theorem not_holding_nil : ¬ Holding a [] := by
  rintro ⟨before, since, split, -⟩
  simp at split

theorem not_doubled_nil : ¬ Doubled a [] := by
  rintro ⟨before, after, split, -⟩
  simp at split

theorem holding_snoc : Holding a (l ++ [r]) ↔
    (r = .acquireMedia ∧ a.grants l .acquireMedia = true) ∨ (Holding a l ∧ r ≠ .releaseMedia) := by
  constructor
  · rintro ⟨before, since, split, granted, kept⟩
    rcases snoc_eq_split.mp split with ⟨rfl, rfl, rfl⟩ | ⟨since, rfl, rfl⟩
    · exact .inl ⟨rfl, granted⟩
    · simp only [List.mem_append, List.mem_singleton, not_or] at kept
      exact .inr ⟨⟨before, since, rfl, granted, kept.1⟩, Ne.symm kept.2⟩
  · rintro (⟨rfl, granted⟩ | ⟨⟨before, since, rfl, granted, kept⟩, stays⟩)
    · exact ⟨l, [], rfl, granted, List.not_mem_nil⟩
    · exact ⟨before, since ++ [r], by simp, granted, by simp [kept, Ne.symm stays]⟩

theorem doubled_snoc : Doubled a (l ++ [r]) ↔
    Doubled a l ∨ (r = .acquireMedia ∧ a.grants l .acquireMedia = true ∧ Holding a l) := by
  constructor
  · rintro ⟨before, after, split, granted, holding⟩
    rcases snoc_eq_split.mp split with ⟨rfl, rfl, rfl⟩ | ⟨after, rfl, rfl⟩
    · exact .inr ⟨rfl, granted, holding⟩
    · exact .inl ⟨before, after, rfl, granted, holding⟩
  · rintro (⟨before, after, rfl, granted, holding⟩ | ⟨rfl, granted, holding⟩)
    · exact ⟨before, after ++ [r], by simp, granted, holding⟩
    · exact ⟨l, [], rfl, granted, holding⟩

/-- Media are held if an acquisition was not released. -/
theorem held_ne_nil_iff (l : List Request) : (a.supply l).held ≠ [] ↔ Holding a l := by
  induction l using List.reverseRecOn with
  | nil => exact iff_of_false (fun held => held rfl) not_holding_nil
  | append_singleton l r ih =>
    rw [a.supply_snoc, holding_snoc, ← ih]
    cases r with
    | acquireMedia => cases granted : a.grants l .acquireMedia <;> simp [Supply.after, granted]
    | releaseMedia => simp [Supply.after]
    | _ => simp [Supply.after]

/-- One acquisition at most is held, as long as none was doubled. -/
theorem not_doubled_iff (l : List Request) :
    ¬ Doubled a l ↔ ∀ l', l' <+: l → (a.supply l').held.length ≤ 1 := by
  induction l using List.reverseRecOn with
  | nil =>
    refine iff_of_true not_doubled_nil fun l' before => ?_
    rw [List.prefix_nil.mp before]
    exact Nat.zero_le 1
  | append_singleton l r ih =>
    rw [doubled_snoc, not_or]
    constructor
    · rintro ⟨single, new⟩ l' before
      rcases List.prefix_concat_iff.mp before with rfl | earlier
      · have now := ih.mp single l List.prefix_rfl
        rw [a.supply_snoc]
        cases r with
        | acquireMedia =>
          cases granted : a.grants l .acquireMedia with
          | false => simpa [Supply.after, granted] using now
          | true =>
            have none : (a.supply l).held = [] := by
              by_contra held
              exact new ⟨rfl, granted, (held_ne_nil_iff l).mp held⟩
            simp [Supply.after, granted, none]
        | releaseMedia => exact Nat.zero_le 1
        | _ => exact now
      · exact ih.mp single l' earlier
    · intro single
      refine ⟨ih.mpr fun l' before => single l' (before.trans (List.prefix_append _ _)), ?_⟩
      rintro ⟨rfl, granted, holding⟩
      have two := single _ List.prefix_rfl
      rw [a.supply_snoc] at two
      simp only [Supply.after, granted, if_true, List.length_append, List.length_singleton] at two
      have none : (a.supply l).held = [] := List.eq_nil_of_length_eq_zero (by omega)
      exact (held_ne_nil_iff l).mpr holding none

/-! ### The tracks of engines -/

/-- To every engine those tracks were attached that had been acquired last. -/
def Outfitted (a : Answers) (record : List Request) : Prop :=
  ∀ l g rest, record = l ++ .acquireEngine g :: rest → a.grants l (.acquireEngine g) = true →
    (a.supply l).held.getLast? = some (rest.filterMap (Request.attached? (a.acquired l)))

theorem filterMap_attached?_of_others (e : EngineId) (others : ∀ r ∈ rs, r.outfits = false) :
    rs.filterMap (Request.attached? e) = [] :=
  List.filterMap_eq_nil_iff.mpr fun r mem => Request.attached?_of_outfits (others r mem) e

theorem Answers.acquired_lt {g : Nat} (granted : a.grants l (.acquireEngine g) = true) :
    a.acquired l < a.acquired (l ++ .acquireEngine g :: rs) := by
  rw [acquired, acquired, a.acquiredAfter_append, List.nil_append, acquiredAfter,
    if_pos ⟨rfl, granted⟩]
  omega

namespace Outfitted

theorem others (h : Outfitted a l) (others : ∀ r ∈ rs, r.outfits = false) :
    Outfitted a (l ++ rs) := by
  intro l' g rest split granted
  rcases append_eq_split.mp split with ⟨front, rfl, here⟩ | ⟨back, rfl, rfl⟩
  · have engine := others (.acquireEngine g) (by simp [here])
    cases engine
  · rw [List.filterMap_append, filterMap_attached?_of_others _ others, List.append_nil]
    exact h l' g back rfl granted

theorem refused (h : Outfitted a l) {g : Nat} (refused : a.grants l (.acquireEngine g) = false) :
    Outfitted a (l ++ [.acquireEngine g]) := by
  intro l' g' rest split granted
  rcases snoc_eq_split.mp split with ⟨rfl, rfl, same⟩ | ⟨back, rfl, rfl⟩
  · rw [same, refused] at granted
    cases granted
  · rw [List.filterMap_append]
    exact (h l' g' back rfl granted).trans (by simp [Request.attached?])

theorem acquired (h : Outfitted a l) {g : Nat} {tracks : List TrackId}
    (granted : a.grants l (.acquireEngine g) = true)
    (latest : (a.supply l).held.getLast? = some tracks) :
    Outfitted a (l ++ .acquireEngine g :: tracks.map (.addTrack (a.acquired l))) := by
  intro l' g' rest split granted'
  rcases append_eq_split.mp split with ⟨front, rfl, here⟩ | ⟨back, rfl, rfl⟩
  · cases front with
    | nil =>
      obtain ⟨-, rfl⟩ := List.cons.inj here
      rw [List.append_nil, latest, List.filterMap_map]
      have whole : Request.attached? (a.acquired l) ∘ Request.addTrack (a.acquired l) = some := by
        funext track
        simp [Request.attached?]
      rw [whole, List.filterMap_some]
    | cons first front =>
      have engine : Request.acquireEngine g' ∈ tracks.map (.addTrack (a.acquired l)) := by
        rw [(List.cons.inj here).2]
        simp
      simp at engine
  · -- The tracks of a later engine are no tracks of an earlier one.
    have later : a.acquired (l' ++ .acquireEngine g' :: back) ≠ a.acquired l' :=
      Nat.ne_of_gt (Answers.acquired_lt granted')
    have none : (tracks.map (.addTrack (a.acquired (l' ++ .acquireEngine g' :: back)))).filterMap
        (Request.attached? (a.acquired l')) = [] := by
      simp [List.filterMap_map, Function.comp_def, Request.attached?, later]
    rw [List.filterMap_append, List.filterMap_cons, none]
    exact (h l' g' back rfl granted').trans (by simp [Request.attached?])

end Outfitted

/-! ## Sessions -/

/-- What a session has of media: it holds some as long as it waits for the reply to a join or is in
the room, its tracks are those that were acquired last, and its engines got them. -/
structure Supplied (a : Answers) (s : Actor) : Prop where
  total : s.trackTotal = (a.supply s.record).total
  held : (a.supply s.record).held ≠ [] ↔ s.joinRequested = true ∨ s.state.inRoom = true
  tracks : ∀ tracks, (a.supply s.record).held.getLast? = some tracks → s.tracks = tracks
  outfitted : Outfitted a s.record

namespace Supplied

variable {s t : Actor}

/-- Nothing is acquired or released. -/
theorem unchanged (h : Supplied a s) (record : t.record = s.record ++ rs)
    (others : ∀ r ∈ rs, r.supplies = false) (outfitted : Outfitted a (s.record ++ rs))
    (tracks : t.tracks = s.tracks) (total : t.trackTotal = s.trackTotal)
    (still : (t.joinRequested = true ∨ t.state.inRoom = true) ↔
      (s.joinRequested = true ∨ s.state.inRoom = true)) : Supplied a t := by
  have supply : a.supply t.record = a.supply s.record := by
    rw [record, a.supply_append, Answers.supplyAfter_of_others _ _ others]
  refine ⟨?_, ?_, fun latest now => ?_, record ▸ outfitted⟩
  · rw [supply, total, h.total]
  · rw [supply, still, h.held]
  · rw [supply] at now
    rw [tracks, h.tracks latest now]

/-- What is requested has nothing to do with media or new engines. -/
theorem quiet (h : Supplied a s) (record : t.record = s.record ++ rs)
    (others : ∀ r ∈ rs, r.supplies = false ∧ r.outfits = false) (tracks : t.tracks = s.tracks)
    (total : t.trackTotal = s.trackTotal)
    (still : (t.joinRequested = true ∨ t.state.inRoom = true) ↔
      (s.joinRequested = true ∨ s.state.inRoom = true)) : Supplied a t :=
  h.unchanged record (fun r mem => (others r mem).1)
    (h.outfitted.others fun r mem => (others r mem).2) tracks total still

/-- A session that holds media gets an engine, and attaches its tracks. -/
theorem engine (h : Supplied a s) (orderly : s.Orderly a)
    (active : s.joinRequested = true ∨ s.state.inRoom = true)
    (granted : s.grantsEngine a = true) (record : t.record = s.equipped.record)
    (tracks : t.tracks = s.tracks) (total : t.trackTotal = s.trackTotal)
    (still : t.joinRequested = true ∨ t.state.inRoom = true) : Supplied a t := by
  obtain ⟨latest, now⟩ : ∃ latest, (a.supply s.record).held.getLast? = some latest :=
    Option.ne_none_iff_exists'.mp fun none => h.held.mpr active (List.getLast?_eq_none_iff.mp none)
  have number : a.acquired s.record = s.engines.length := Orderly.acquired_eq orderly
  have outfitted := h.outfitted.acquired granted now
  rw [number, ← h.tracks latest now] at outfitted
  refine h.unchanged record (fun r mem => ?_) outfitted tracks total (iff_of_true still active)
  rcases List.mem_cons.mp mem with rfl | mem
  · rfl
  · obtain ⟨track, -, rfl⟩ := List.mem_map.mp mem
    rfl

theorem noEngine (h : Supplied a s) (refused : s.grantsEngine a = false)
    (record : t.record = s.denied.record) (tracks : t.tracks = s.tracks)
    (total : t.trackTotal = s.trackTotal)
    (still : (t.joinRequested = true ∨ t.state.inRoom = true) ↔
      (s.joinRequested = true ∨ s.state.inRoom = true)) : Supplied a t :=
  h.unchanged record (by simp [Request.supplies]) (h.outfitted.refused refused) tracks total still

/-- Media are released, and the session is out of the room. -/
theorem released (h : Supplied a s) (front back : List Request)
    (record : t.record = s.record ++ (front ++ .releaseMedia :: back))
    (others : ∀ r ∈ front ++ back, r.supplies = false ∧ r.outfits = false)
    (total : t.trackTotal = s.trackTotal)
    (left : t.joinRequested = false ∧ t.state.inRoom = false) : Supplied a t := by
  have before : ∀ r ∈ front, r.supplies = false := fun r mem => (others r (by simp [mem])).1
  have after : ∀ r ∈ back, r.supplies = false := fun r mem => (others r (by simp [mem])).1
  have supply : a.supply t.record = { a.supply s.record with held := [] } := by
    rw [record, a.supply_append, a.supplyAfter_append, Answers.supplyAfter_of_others _ _ before,
      Answers.supplyAfter, Answers.supplyAfter_of_others _ _ after]
    rfl
  refine ⟨?_, ?_, fun latest now => ?_, ?_⟩
  · rw [supply, total]
    exact h.total
  · rw [supply, left.1, left.2]
    simp
  · rw [supply] at now
    cases now
  · rw [record]
    refine h.outfitted.others fun r mem => ?_
    rcases List.mem_append.mp mem with mem | mem
    · exact (others r (by simp [mem])).2
    · rcases List.mem_cons.mp mem with rfl | mem
      · rfl
      · exact (others r (by simp [mem])).2

/-- There are no media to be had. -/
theorem unprovided (h : Supplied a s) (refused : a.grants s.record .acquireMedia = false) :
    Supplied a (s.note .acquireMedia) := by
  have supply : a.supply (s.note .acquireMedia).record = a.supply s.record := by
    show a.supply (s.record ++ [.acquireMedia]) = _
    rw [a.supply_snoc]
    simp [Supply.after, refused]
  refine ⟨?_, ?_, fun latest now => ?_, ?_⟩
  · rw [supply]
    exact h.total
  · rw [supply]
    exact h.held
  · rw [supply] at now
    exact h.tracks latest now
  · exact h.outfitted.others (by simp [Request.outfits])

/-- The session gets media and asks to join. -/
theorem joining (h : Supplied a s) (granted : a.grants s.record .acquireMedia = true) :
    Supplied a (s.joining (a.trackCount s.record)) := by
  have supply : a.supply (s.joining (a.trackCount s.record)).record =
      ⟨(a.supply s.record).held ++
        [(List.range (a.trackCount s.record)).map ((a.supply s.record).total + ·)],
        (a.supply s.record).total + a.trackCount s.record⟩ := by
    show a.supply (s.record ++ [.acquireMedia, .send (.join s.room)]) = _
    rw [a.supply_append]
    simp [Answers.supplyAfter, Supply.after, granted]
  refine ⟨?_, ?_, fun latest now => ?_, ?_⟩
  · rw [supply]
    show s.trackTotal + _ = _
    rw [h.total]
  · rw [supply]
    exact iff_of_true (by simp) (.inl rfl)
  · rw [supply, List.getLast?_concat] at now
    obtain rfl := Option.some.inj now
    show (List.range _).map (s.trackTotal + ·) = _
    rw [h.total]
  · exact h.outfitted.others (by simp [Request.outfits])

theorem start (a : Answers) (room : RoomId) (link : Link ClientEvent) :
    Supplied a (Runner.start a room link).actor := by
  have new : Supplied a (Actor.new room link) := by
    refine ⟨rfl, ?_, fun _ now => ?_, fun l g rest split => ?_⟩
    · refine iff_of_false (fun held => held rfl) ?_
      simp [Actor.new, Session.new, SessionState.inRoom]
    · cases now
    · simp [Actor.new] at split
  show Supplied a ((Actor.new room link).enterRoom a)
  cases answer : a.grants (Actor.new room link).record .acquireMedia with
  | true =>
    rw [Actor.enterRoom_of_granted answer]
    exact new.joining answer
  | false =>
    rw [Actor.enterRoom_of_refused answer]
    exact new.unprovided answer

theorem alike (h : Supplied a s) (same : s.Alike t) : Supplied a t := by
  obtain ⟨_, _, _, rfl⟩ := same
  exact ⟨h.total, h.held, h.tracks, h.outfitted⟩

end Supplied

namespace Actor

variable {s t : Actor} {i : SessionInput}

theorem Handled.supplied (turn : Handled a s i t) (orderly : s.Orderly a) (h : Supplied a s) :
    Supplied a t := by
  have closing : ∀ r ∈ s.engine.toList.map Request.closeEngine,
      r.supplies = false ∧ r.outfits = false := by
    intro r mem
    obtain ⟨e, -, rfl⟩ := List.mem_map.mp mem
    exact ⟨rfl, rfl⟩
  cases turn with
  | ignored => exact h
  | staleReply => exact h.quiet (List.append_nil _).symm (by simp) rfl rfl Iff.rfl
  | admitted _ _ asked engine answer =>
    rcases engine with rfl | rfl
    · have granted : s.grantsEngine a = true := by simpa [equipped] using answer
      exact h.engine orderly (.inl asked) granted rfl rfl rfl (.inr rfl)
    · have refused : s.grantsEngine a = false := by simpa [denied] using answer
      exact h.noEngine refused rfl rfl rfl (iff_of_true (.inr rfl) (.inl asked))
  | offered member _ engine answer =>
    cases engine with
    | held =>
      exact h.quiet rfl (by simp [Request.supplies, Request.outfits]) rfl rfl
        (iff_of_true (.inr rfl) (.inr member))
    | acquired free =>
      have equipped : Supplied a s.equipped :=
        h.engine orderly (.inr member) (answer free) rfl rfl rfl (.inr member)
      exact equipped.quiet rfl (by simp [Request.supplies, Request.outfits]) rfl rfl
        (iff_of_true (.inr rfl) (.inr member))
  | unequipped _ _ refused => exact h.noEngine refused rfl rfl rfl Iff.rfl
  | unbound member => exact h.quiet rfl closing rfl rfl (iff_of_true (.inr rfl) (.inr member))
  | dismissed | lost =>
    refine h.released (s.engine.toList.map .closeEngine) [.closeLink] (List.append_assoc _ _ _) ?_
      rfl ⟨rfl, rfl⟩
    intro r mem
    rcases List.mem_append.mp mem with mem | mem
    · exact closing r mem
    · rw [List.mem_singleton.mp mem]
      exact ⟨rfl, rfl⟩
  | @left exit =>
    refine h.released (.send (.leave s.room) :: s.engine.toList.map .closeEngine)
      (if exit then [.closeLink] else []) ?_ ?_ rfl ?_
    · simp [departed]
    · intro r mem
      rcases List.mem_append.mp mem with mem | mem
      · rcases List.mem_cons.mp mem with rfl | mem
        · exact ⟨rfl, rfl⟩
        · exact closing r mem
      · cases exit with
        | false => cases mem
        | true =>
          rw [List.mem_singleton.mp mem]
          exact ⟨rfl, rfl⟩
    · cases exit <;> exact ⟨rfl, rfl⟩
  | unprovided _ _ answer => exact h.unprovided answer
  | rejoined _ _ answer => exact h.joining answer
  | _ => exact h.quiet rfl (by simp [Request.supplies, Request.outfits]) rfl rfl Iff.rfl

theorem Concluded.supplied {c : Completion} (done : Concluded a s c t) (h : Supplied a s) :
    Supplied a t := by
  cases done with
  | nothing => exact h.quiet (List.append_nil _).symm (by simp) rfl rfl Iff.rfl
  | refused | sent =>
    exact h.quiet rfl (by simp [Request.supplies, Request.outfits]) rfl rfl Iff.rfl

/-- Media are acquired when the session is told to join, before anything else. -/
theorem Handled.acquires (turn : Handled a s i t)
    (mem : .acquireMedia ∈ t.record.drop s.record.length) :
    i = .rejoin ∧ s.state = .init ∧ s.link.isOpen = true ∧
      ∃ rest, t.record.drop s.record.length = .acquireMedia :: rest ∧ .acquireMedia ∉ rest := by
  cases turn with
  | unprovided waiting reachable =>
    refine ⟨rfl, waiting, reachable, [], ?_, List.not_mem_nil⟩
    rw [note, List.drop_left]
  | rejoined waiting reachable =>
    refine ⟨rfl, waiting, reachable, [.send (.join s.room)], ?_, by simp⟩
    rw [joining, List.drop_left]
  | admitted _ _ _ engine => rcases engine with rfl | rfl <;> simp [equipped, denied] at mem
  | offered _ _ engine => cases engine <;> simp [offering, equipped] at mem
  | @left exit => cases exit <;> simp [departed] at mem
  | unequipped | unbound | dismissed | lost => simp [denied, released, tornDown] at mem
  | tookOffer | tookAnswer | refused | remoteCandidate => simp [answering, answered, note] at mem
  | ignored | staleReply => simp at mem
  | localCandidate | remoteTrack => simp [sendMessage, send, note] at mem

theorem Concluded.acquires_nothing {c : Completion} (done : Concluded a s c t) :
    .acquireMedia ∉ t.record.drop s.record.length := by
  cases done <;> simp [note, published]

/-- A session in no room that is told to join gets media, if there are any. -/
theorem rejoin_of_granted (waiting : s.state = .init) (reachable : s.link.isOpen = true)
    (granted : a.grants s.record .acquireMedia = true) :
    s.rejoin a = s.joining (a.trackCount s.record) := by
  unfold rejoin
  rw [if_neg (by simp [waiting]), if_neg (by simp [reachable]), enterRoom_of_granted granted]

end Actor

namespace Deed

variable {d : Deed}

/-- The session is told to join while it waits for the reply to a join, and gets media. -/
structure Repeats (a : Answers) (d : Deed) : Prop where
  told : d = .turn ⟨d.before, .rejoin⟩
  waiting : d.before.state = .init
  asked : d.before.joinRequested = true
  reachable : d.before.link.isOpen = true
  granted : a.grants d.before.record .acquireMedia = true

theorem Timely.supplied (timely : d.Timely) (orderly : d.before.Orderly a)
    (h : Supplied a d.before) : (d.after a).Orderly a ∧ Supplied a (d.after a) := by
  cases timely with
  | @turn t sound =>
    have turn := Actor.dispatch_handled a t.session t.input
    exact ⟨turn.orderly sound orderly, turn.supplied orderly h⟩
  | @finish s c =>
    have done := Actor.applied_concluded a s c
    exact ⟨done.orderly orderly, done.supplied h⟩

/-- Who acquires media while it holds some repeats a join. -/
theorem repeats {front back : List Request} (h : Supplied a d.before)
    (requests : d.requests a = front ++ .acquireMedia :: back)
    (granted : a.grants (d.before.record ++ front) .acquireMedia = true)
    (holding : Holding a (d.before.record ++ front)) : d.Repeats a := by
  have mem : .acquireMedia ∈ d.requests a := by simp [requests]
  cases d with
  | turn t =>
    obtain ⟨told, waiting, reachable, rest, first, only⟩ :=
      (Actor.dispatch_handled a t.session t.input).acquires mem
    have split : front ++ .acquireMedia :: back = .acquireMedia :: rest := requests.symm.trans first
    rcases front with _ | ⟨r, front⟩
    · rw [List.append_nil] at granted holding
      have asked : t.session.joinRequested = true := by
        refine (h.held.mp ((held_ne_nil_iff _).mpr holding)).resolve_right fun inside => ?_
        change t.session.state.inRoom = true at inside
        rw [waiting] at inside
        cases inside
      exact ⟨congrArg (fun i => Deed.turn ⟨t.session, i⟩) told, waiting, asked, reachable, granted⟩
    · rw [← (List.cons.inj split).2] at only
      simp at only
  | finish s c => exact absurd mem (Actor.applied_concluded a s c).acquires_nothing

/-- Who repeats a join acquires media while it holds some. -/
theorem Repeats.doubles (h : d.Repeats a) (supplied : Supplied a d.before) {record : List Request}
    (goes : (d.after a).record <+: record) : Doubled a record := by
  have after : d.after a = d.before.joining (a.trackCount d.before.record) := by
    have turn : d.after a = d.before.rejoin a := congrArg (·.after a) h.told
    rw [turn, Actor.rejoin_of_granted h.waiting h.reachable h.granted]
  obtain ⟨rest, rfl⟩ := goes
  refine ⟨d.before.record, .send (.join d.before.room) :: rest, ?_, h.granted, ?_⟩
  · rw [after]
    simp [Actor.joining]
  · exact (held_ne_nil_iff _).mp (supplied.held.mpr (.inl h.asked))

end Deed

/-! ## Running sessions -/

namespace Runner

theorem start_not_doubled (a : Answers) (room : RoomId) (link : Link ClientEvent) :
    ¬ Doubled a (start a room link).actor.record := by
  have once : ¬ Doubled a ([] ++ [.acquireMedia]) := by
    rw [doubled_snoc]
    rintro (earlier | ⟨-, -, holding⟩)
    · exact not_doubled_nil earlier
    · exact not_holding_nil holding
  show ¬ Doubled a ((Actor.new room link).enterRoom a).record
  rcases Actor.enterRoom_cases a (.new room link) with entered | entered
  · rw [entered]
    exact once
  · rw [entered]
    show ¬ Doubled a (([] ++ [.acquireMedia]) ++ [.send (.join room)])
    rw [doubled_snoc]
    rintro (earlier | ⟨other, -⟩)
    · exact once earlier
    · cases other

/-- **Media and the tracks of engines.** In every run, media are held just as long as the session
waits for the reply to a join or is in the room. They are acquired twice without a release just if
the session is told to join while it waits, and one acquisition at most is held otherwise. In any
case the tracks that are attached to an engine are those that were acquired last when the engine was
acquired, and they are still held then. -/
theorem media_doubled_iff (a : Answers) (room : RoomId) (link : Link ClientEvent)
    (moves : List Move) :
    let p := start a room link
    let record := (p.run a moves).actor.record
    (∀ d ∈ p.course a moves, Holding a d.before.record ↔
      d.before.joinRequested = true ∨ d.before.state.inRoom = true) ∧
    (Doubled a record ↔ ∃ d ∈ p.course a moves, d.Repeats a) ∧
    (¬ Doubled a record ↔ ∀ l, l <+: record → (a.supply l).held.length ≤ 1) ∧
    Outfitted a record := by
  intro p record
  have sound : p.Sound := Sound.start a room link
  have linked := course_linked a p moves
  obtain ⟨before, final⟩ := sound.course_induction
    (P := fun _ s => s.Orderly a ∧ Supplied a s) moves
    (fun _ _ _ same h => ⟨h.1.alike same, h.2.alike same⟩)
    (fun _ _ timely h => timely.supplied h.1 h.2)
    ⟨(Reachable.start link).orderly, .start a room link⟩
  have supplied (d : Deed) (mem : d ∈ p.course a moves) : Supplied a d.before := by
    obtain ⟨past, future, split⟩ := List.append_of_mem mem
    exact (before past d future split).2
  refine ⟨fun d mem => ?_, ⟨?_, ?_⟩, not_doubled_iff record, final.2.outfitted⟩
  · rw [← held_ne_nil_iff]
    exact (supplied d mem).held
  · rintro ⟨l, after, split, granted, holding⟩
    rcases linked.requested split with ⟨back, first⟩ | ⟨d, mem, front, back, requests, rfl⟩
    · exact absurd ⟨l, back, first, granted, holding⟩ (start_not_doubled a room link)
    · exact ⟨d, mem, Deed.repeats (supplied d mem) requests granted holding⟩
  · rintro ⟨d, mem, again⟩
    exact again.doubles (supplied d mem) (linked.record_prefix mem)

/-- A session that is told to join again while it waits holds media twice. -/
theorem repeated_join_doubles :
    let p := start .obliging ⟨"r"⟩ .fresh
    Doubled .obliging (p.run .obliging [.act .rejoin, .act .takeInput]).actor.record :=
  ⟨[.acquireMedia, .send (.join ⟨"r"⟩)], [.send (.join ⟨"r"⟩)], rfl, rfl, [],
    [.send (.join ⟨"r"⟩)], rfl, rfl, by simp⟩

end Runner

end Parley
