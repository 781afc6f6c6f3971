import LiveQuery.Feed.Tasks
import LiveQuery.Proofs.Feed.Run

/-!
# No subscriber is left behind

The streamer looks at the slots, finds none taken and leaves, and before it has ended and the keeper
has noticed somebody may have subscribed. Two things can restart the stream then: the subscribing
finds that the streamer has ended, or the keeper notices and finds a slot taken. Whatever the order,
one of the two happens. `Sound` says what holds in every interleaving, `Attended` what holds as long
as dials are accepted and the server closes nothing, and `pending` counts what the tasks still have
to do by themselves.
-/

namespace LiveQuery.Feed

/-- A move of a run in which every dial is accepted and the server closes nothing. -/
def Move.Calm : Move → Prop
  | .dial accepted => accepted = true
  | .hangUp => False
  | _ => True

/-- A move with which a task goes on with what it has begun. -/
def Move.Advances : Move → Prop
  | .dial accepted => accepted = true
  | .ensure | .notice | .look | .deliver | .close | .finish => True
  | _ => False

/-- Why the streamer takes no more events. -/
def Phase.exit? : Phase → Option Exit
  | .leaving exit | .closed exit | .ended exit => some exit
  | _ => none

/-- How many moves the streamer makes, at most, before it reads again or is gone. -/
def Phase.pending : Phase → Nat
  | .reading => 0
  | .ended _ => 2
  | .closed _ => 3
  | .leaving _ => 4
  | .delivering _ _ => 5
  | .decoded _ => 6

/-- How many moves the keeper makes before it waits. -/
def Keeper.pending : Keeper → Nat
  | .waiting => 0
  | .dialing _ => 1
  | .placing _ => 2

theorem live_unsubscribe_eq_nil {f : Feed} (h : f.live = []) (slot : Nat) :
    (f.unsubscribe slot).1.live = [] := by
  unfold unsubscribe
  split
  · rename_i ticket hslot
    have hfree := List.filterMap_eq_nil_iff.1 h _ (List.mem_of_getElem? hslot)
    cases hfree
  · exact h

theorem connected_unsubscribe (f : Feed) (slot : Nat) :
    (f.unsubscribe slot).1.connected = f.connected := by
  unfold unsubscribe
  split <;> rfl

/-- What a move needs, and what it does. -/
def Move.Law (t u : Tasks) : Move → Prop
  | .place capacity => t.keeper = .waiting ∧ u = t.place capacity
  | .ensure => ∃ slot, t.keeper = .placing slot ∧
      u = if t.streamer.any Phase.alive then { t with keeper := .waiting }
        else { t with streamer := none, keeper := .dialing (some slot) }
  | .dial accepted => ∃ placed, t.keeper = .dialing placed ∧
      u = if accepted then t.start else t.giveUp placed
  | .dismiss slot => t.keeper = .waiting ∧ (u = t.publish (t.feed.unsubscribe slot).1 ∨ u = t)
  | .notice => t.keeper = .waiting ∧ ∃ exit, t.streamer = some (.ended exit) ∧
      u = { t with
        streamer := none
        keeper := if exit = .noSubscribers ∧ t.feed.live ≠ [] then .dialing none else .waiting }
  | .skip => t.streamer = some .reading ∧ u = t
  | .decode event => t.streamer = some .reading ∧
      u = { t with feed := t.feed.remember event, streamer := some (.decoded event) }
  | .look => ∃ event, t.streamer = some (.decoded event) ∧
      u = { t with streamer := some (.delivering event t.published) }
  | .deliver => ∃ event seen, t.streamer = some (.delivering event seen) ∧
      u = { t with
        feed := t.feed.deliverTo seen event
        streamer := some (if seen.any Option.isSome then .reading else .leaving .noSubscribers) }
  | .hangUp => t.streamer = some .reading ∧
      u = { t with streamer := some (.leaving .serverClosed) }
  | .close => ∃ exit, t.streamer = some (.leaving exit) ∧
      u = { t with streamer := some (.closed exit), connections := t.connections - 1 }
  | .finish => ∃ exit, t.streamer = some (.closed exit) ∧
      u = { t with feed := { t.feed with connected := false }, streamer := some (.ended exit) }
  | .drainInbox ticket => u = { t with feed := (t.feed.drainInbox ticket).1 }
  | .dropInbox ticket => u = { t with feed := t.feed.dropInbox ticket }

namespace Tasks

/-- The streamer takes events. -/
def Streaming (t : Tasks) : Prop := ∃ phase, t.streamer = some phase ∧ phase.running = true

/-- No request is under way, and there is no streamer that takes no more events. -/
def Settled (t : Tasks) : Prop :=
  t.keeper = .waiting ∧ ∀ phase, t.streamer = some phase → phase.running = true

/-- How many moves the tasks can still make, at most, before they wait for something to happen. -/
def pending (t : Tasks) : Nat := t.keeper.pending + t.streamer.elim 0 Phase.pending

/-- What holds between any two moves. -/
structure Sound (t : Tasks) : Prop where
  published : t.published = t.feed.slots
  connected : t.feed.connected = t.streamer.any Phase.alive
  connections : t.connections = if t.streamer.any Phase.connected then 1 else 0
  dialing : ∀ placed, t.keeper = .dialing placed → t.streamer = none

/-- What holds as long as every dial is accepted and the server closes nothing. -/
structure Attended (t : Tasks) : Prop where
  exits : ∀ phase, t.streamer = some phase → phase.exit? ≠ some .serverClosed
  resting : t.keeper = .waiting → t.streamer = none → t.feed.live = []

/-! ### One move -/

variable {t u : Tasks}

theorem law_of_next {m : Move} (h : t.next m = some u) : m.Law t u := by
  cases m with
  | place capacity =>
    simp only [next] at h
    split at h
    · rename_i hkeeper
      exact ⟨hkeeper, (Option.some.inj h).symm⟩
    · cases h
  | ensure =>
    simp only [next] at h
    split at h
    · rename_i slot hkeeper hstreamer
      refine ⟨slot, hkeeper, ?_⟩
      rw [hstreamer]
      exact (Option.some.inj h).symm
    · rename_i slot exit hkeeper hstreamer
      refine ⟨slot, hkeeper, ?_⟩
      rw [hstreamer]
      exact (Option.some.inj h).symm
    · rename_i slot phase hended hkeeper hstreamer
      have halive : t.streamer.any Phase.alive = true := by
        rw [hstreamer]
        cases phase with
        | ended exit => exact (hended exit rfl).elim
        | _ => rfl
      refine ⟨slot, hkeeper, ?_⟩
      rw [if_pos halive]
      exact (Option.some.inj h).symm
    · cases h
  | dial accepted =>
    simp only [next] at h
    split at h
    · rename_i placed hkeeper
      exact ⟨placed, hkeeper, (Option.some.inj h).symm⟩
    · cases h
  | dismiss slot =>
    simp only [next] at h
    split at h
    · rename_i f _ hkeeper hresult
      refine ⟨hkeeper, .inl ?_⟩
      rw [hresult]
      exact (Option.some.inj h).symm
    · rename_i hkeeper hresult
      exact ⟨hkeeper, .inr (Option.some.inj h).symm⟩
    · cases h
  | notice =>
    simp only [next] at h
    split at h
    · rename_i exit hkeeper hstreamer
      exact ⟨hkeeper, exit, hstreamer, (Option.some.inj h).symm⟩
    · cases h
  | drainInbox ticket => exact (Option.some.inj h).symm
  | dropInbox ticket => exact (Option.some.inj h).symm
  | deliver =>
    simp only [next] at h
    split at h
    · rename_i event seen hstreamer
      exact ⟨event, seen, hstreamer, (Option.some.inj h).symm⟩
    · cases h
  | skip | decode event | hangUp =>
    simp only [next] at h
    split at h
    · rename_i hstreamer
      exact ⟨hstreamer, (Option.some.inj h).symm⟩
    · cases h
  | look | close | finish =>
    simp only [next] at h
    split at h
    · rename_i hstreamer
      exact ⟨_, hstreamer, (Option.some.inj h).symm⟩
    · cases h

theorem Sound.ofFeed (f : Feed) : Sound (ofFeed f) where
  published := rfl
  connected := by
    unfold Tasks.ofFeed
    cases f.connected <;> rfl
  connections := by
    unfold Tasks.ofFeed
    cases f.connected <;> rfl
  dialing := by
    intro placed h
    cases h

/-- A streamer that goes on leaves the keeper alone, which does not dial meanwhile. -/
theorem Sound.streamed (h : Sound t) {before after : Phase} (hbefore : t.streamer = some before)
    {f : Feed} {connections : Nat} (slots : f.slots = t.feed.slots)
    (connected : f.connected = after.alive)
    (hconnections : connections = if after.connected then 1 else 0) :
    Sound { t with feed := f, streamer := some after, connections := connections } where
  published := h.published.trans slots.symm
  connected := connected
  connections := hconnections
  dialing := by
    intro placed hkeeper
    have hnone := h.dialing placed hkeeper
    rw [hbefore] at hnone
    cases hnone

theorem Sound.next (h : Sound t) {m : Move} (hm : t.next m = some u) : Sound u := by
  have hlaw := law_of_next hm
  have ⟨hpublished, hconnected, hconnections, hdialing⟩ := h
  cases m with
  | place capacity =>
    obtain ⟨-, rfl⟩ := hlaw
    exact ⟨rfl, hconnected, hconnections, nofun⟩
  | ensure =>
    obtain ⟨slot, -, rfl⟩ := hlaw
    split
    · exact ⟨hpublished, hconnected, hconnections, nofun⟩
    · rename_i hgone
      have hclosed : t.streamer.any Phase.connected = false := by
        cases hstreamer : t.streamer with
        | none => rfl
        | some phase =>
          rw [hstreamer] at hgone
          cases phase with
          | ended exit => rfl
          | _ => exact (hgone rfl).elim
      rw [hclosed] at hconnections
      exact ⟨hpublished, hconnected.trans (Bool.eq_false_iff.2 hgone), hconnections,
        fun _ _ => rfl⟩
  | dial accepted =>
    obtain ⟨placed, hkeeper, rfl⟩ := hlaw
    have hnone := hdialing placed hkeeper
    rw [hnone] at hconnections
    split
    · refine ⟨hpublished, rfl, ?_, nofun⟩
      show t.connections + 1 = 1
      rw [hconnections]
      rfl
    · rw [← hnone] at hconnections
      cases placed with
      | none => exact ⟨hpublished, hconnected, hconnections, nofun⟩
      | some slot => exact ⟨rfl, hconnected, hconnections, nofun⟩
  | dismiss slot =>
    obtain ⟨hkeeper, rfl | rfl⟩ := hlaw
    · exact ⟨rfl, (connected_unsubscribe t.feed slot).trans hconnected, hconnections, hdialing⟩
    · exact h
  | notice =>
    obtain ⟨hkeeper, exit, hstreamer, rfl⟩ := hlaw
    rw [hstreamer] at hconnected hconnections
    exact ⟨hpublished, hconnected, hconnections, fun _ _ => rfl⟩
  | skip =>
    obtain ⟨-, rfl⟩ := hlaw
    exact h
  | decode event | hangUp =>
    obtain ⟨hstreamer, rfl⟩ := hlaw
    rw [hstreamer] at hconnected hconnections
    exact h.streamed hstreamer rfl hconnected hconnections
  | look =>
    obtain ⟨event, hstreamer, rfl⟩ := hlaw
    rw [hstreamer] at hconnected hconnections
    exact h.streamed hstreamer rfl hconnected hconnections
  | deliver =>
    obtain ⟨event, seen, hstreamer, rfl⟩ := hlaw
    rw [hstreamer] at hconnected hconnections
    split
    · exact h.streamed hstreamer rfl hconnected hconnections
    · exact h.streamed hstreamer rfl hconnected hconnections
  | close =>
    obtain ⟨exit, hstreamer, rfl⟩ := hlaw
    rw [hstreamer] at hconnected hconnections
    refine h.streamed hstreamer rfl hconnected ?_
    rw [hconnections]
    rfl
  | finish =>
    obtain ⟨exit, hstreamer, rfl⟩ := hlaw
    rw [hstreamer] at hconnections
    exact h.streamed hstreamer rfl rfl hconnections
  | drainInbox ticket | dropInbox ticket =>
    obtain rfl := hlaw
    exact ⟨hpublished, hconnected, hconnections, hdialing⟩

theorem Attended.create (settings : FeedSettings) (name : String) :
    Attended (ofFeed (create settings name)) where
  exits := nofun
  resting _ _ := rfl

theorem attended_of_streamer {phase : Phase} (hstreamer : u.streamer = some phase)
    (hexit : phase.exit? ≠ some .serverClosed) : Attended u where
  exits := by
    intro other hother
    rw [hstreamer] at hother
    rwa [← Option.some.inj hother]
  resting := by
    intro _ hnone
    rw [hstreamer] at hnone
    cases hnone

theorem Attended.next (h : Attended t) {m : Move} (calm : m.Calm) (hm : t.next m = some u) :
    Attended u := by
  have hlaw := law_of_next hm
  have ⟨hexits, hresting⟩ := h
  cases m with
  | place capacity =>
    obtain ⟨-, rfl⟩ := hlaw
    exact ⟨hexits, nofun⟩
  | ensure =>
    obtain ⟨slot, -, rfl⟩ := hlaw
    split
    · rename_i halive
      refine ⟨hexits, fun _ hnone => ?_⟩
      have hnone : t.streamer = none := hnone
      rw [hnone] at halive
      cases halive
    · exact ⟨nofun, nofun⟩
  | dial accepted =>
    obtain ⟨placed, hkeeper, rfl⟩ := hlaw
    have haccepted : accepted = true := calm
    rw [if_pos haccepted]
    exact attended_of_streamer rfl nofun
  | dismiss slot =>
    obtain ⟨hkeeper, rfl | rfl⟩ := hlaw
    · exact ⟨hexits, fun hwaiting hnone => live_unsubscribe_eq_nil (hresting hwaiting hnone) slot⟩
    · exact h
  | notice =>
    obtain ⟨hkeeper, exit, hstreamer, rfl⟩ := hlaw
    have hexit : exit = .noSubscribers := by
      cases exit with
      | noSubscribers => rfl
      | serverClosed => exact (hexits _ hstreamer rfl).elim
    refine ⟨nofun, fun hwaiting _ => ?_⟩
    by_contra hlive
    have hdials : exit = .noSubscribers ∧ t.feed.live ≠ [] := ⟨hexit, hlive⟩
    rw [if_pos hdials] at hwaiting
    cases hwaiting
  | skip =>
    obtain ⟨-, rfl⟩ := hlaw
    exact h
  | hangUp => exact calm.elim
  | decode event =>
    obtain ⟨-, rfl⟩ := hlaw
    exact attended_of_streamer rfl nofun
  | look =>
    obtain ⟨event, -, rfl⟩ := hlaw
    exact attended_of_streamer rfl nofun
  | deliver =>
    obtain ⟨event, seen, -, rfl⟩ := hlaw
    split
    · exact attended_of_streamer rfl nofun
    · exact attended_of_streamer rfl nofun
  | close | finish =>
    obtain ⟨exit, hstreamer, rfl⟩ := hlaw
    have hexit := hexits _ hstreamer
    exact attended_of_streamer rfl hexit
  | drainInbox ticket | dropInbox ticket =>
    obtain rfl := hlaw
    exact ⟨hexits, hresting⟩

/-- A move with which a task goes on leaves fewer of them to make. -/
theorem pending_next {m : Move} (advances : m.Advances) (hm : t.next m = some u) :
    u.pending < t.pending := by
  have hlaw := law_of_next hm
  cases m with
  | ensure =>
    obtain ⟨slot, hkeeper, rfl⟩ := hlaw
    split
    · show 0 + t.streamer.elim 0 Phase.pending < t.keeper.pending + _
      rw [hkeeper, Keeper.pending]
      omega
    · show 1 + 0 < t.keeper.pending + _
      rw [hkeeper, Keeper.pending]
      omega
  | dial accepted =>
    obtain ⟨placed, hkeeper, rfl⟩ := hlaw
    have haccepted : accepted = true := advances
    rw [if_pos haccepted]
    show 0 + 0 < t.keeper.pending + _
    rw [hkeeper, Keeper.pending]
    omega
  | notice =>
    obtain ⟨hkeeper, exit, hstreamer, rfl⟩ := hlaw
    unfold pending
    rw [hkeeper, hstreamer]
    split
    · exact Nat.lt_succ_self 1
    · exact Nat.zero_lt_succ 1
  | look =>
    obtain ⟨event, hstreamer, rfl⟩ := hlaw
    unfold pending
    rw [hstreamer]
    exact Nat.lt_succ_self _
  | deliver =>
    obtain ⟨event, seen, hstreamer, rfl⟩ := hlaw
    unfold pending
    rw [hstreamer]
    refine Nat.add_lt_add_left ?_ _
    split
    · exact Nat.zero_lt_succ 4
    · exact Nat.lt_succ_self 4
  | close | finish =>
    obtain ⟨exit, hstreamer, rfl⟩ := hlaw
    unfold pending
    rw [hstreamer]
    exact Nat.lt_succ_self _
  | _ => exact advances.elim

theorem pending_le (t : Tasks) : t.pending ≤ 8 := by
  have hkeeper : t.keeper.pending ≤ 2 := by
    cases t.keeper with
    | waiting => exact Nat.zero_le 2
    | dialing placed => exact Nat.le_succ 1
    | placing slot => exact Nat.le_refl 2
  have hstreamer : t.streamer.elim 0 Phase.pending ≤ 6 := by
    cases t.streamer with
    | none => exact Nat.zero_le 6
    | some phase => cases phase <;> simp [Phase.pending]
  exact Nat.add_le_add hkeeper hstreamer

/-- Where the tasks cannot go on, the keeper waits and the streamer reads or is gone. -/
theorem waiting_of_blocked (h : ∀ m : Move, m.Advances → t.next m = none) :
    t.keeper = .waiting ∧ (t.streamer = none ∨ t.streamer = some .reading) := by
  obtain ⟨feed, published, streamer, keeper, connections⟩ := t
  have hensure := h .ensure trivial
  have hdial := h (.dial true) rfl
  have hnotice := h .notice trivial
  have hlook := h .look trivial
  have hdeliver := h .deliver trivial
  have hclose := h .close trivial
  have hfinish := h .finish trivial
  cases keeper with
  | placing slot =>
    cases streamer with
    | none => cases hensure
    | some phase => cases phase <;> cases hensure
  | dialing placed => cases hdial
  | waiting =>
    refine ⟨rfl, ?_⟩
    cases streamer with
    | none => exact .inl rfl
    | some phase =>
      cases phase with
      | reading => exact .inr rfl
      | decoded event => cases hlook
      | delivering event seen => cases hdeliver
      | leaving exit => cases hclose
      | closed exit => cases hfinish
      | ended exit => cases hnotice

/-! ### A run -/

theorem after_cons (m : Move) (moves : List Move) (t : Tasks) :
    t.after (m :: moves) = (t.next m).bind (after moves) := rfl

/-- What every move of a run preserves, the run preserves. -/
theorem after_preserves {motive : Tasks → Prop} {moves : List Move}
    (step : ∀ m ∈ moves, ∀ t u, motive t → t.next m = some u → motive u) (start : motive t)
    (run : t.after moves = some u) : motive u := by
  induction moves generalizing t with
  | nil =>
    cases run
    exact start
  | cons m rest ih =>
    rw [after_cons] at run
    obtain ⟨v, hnext, hrest⟩ := Option.bind_eq_some_iff.1 run
    refine ih (fun x hx => step x (List.mem_cons_of_mem m hx)) ?_ hrest
    exact step m List.mem_cons_self t v start hnext

theorem Sound.after (h : Sound t) {moves : List Move} (run : t.after moves = some u) : Sound u :=
  after_preserves (fun _ _ _ _ ht hm => ht.next hm) h run

theorem Attended.after (h : Attended t) {moves : List Move} (calm : ∀ m ∈ moves, m.Calm)
    (run : t.after moves = some u) : Attended u :=
  after_preserves (fun m hm _ _ ht hnext => ht.next (calm m hm) hnext) h run

theorem length_le_pending {moves : List Move} (advances : ∀ m ∈ moves, m.Advances)
    (run : t.after moves = some u) : moves.length + u.pending ≤ t.pending := by
  induction moves generalizing t with
  | nil =>
    cases run
    exact Nat.le_of_eq (Nat.zero_add _)
  | cons m rest ih =>
    rw [after_cons] at run
    obtain ⟨v, hnext, hrest⟩ := Option.bind_eq_some_iff.1 run
    have hstep := pending_next (advances m List.mem_cons_self) hnext
    have hrun := ih (fun x hx => advances x (List.mem_cons_of_mem m hx)) hrest
    rw [List.length_cons]
    omega

theorem Sound.connections_le (h : Sound t) : t.connections ≤ 1 := by
  rw [h.connections]
  split
  · exact Nat.le_refl 1
  · exact Nat.zero_le 1

theorem Attended.streaming (h : Attended t) (settled : t.Settled) (live : t.feed.live ≠ []) :
    t.Streaming := by
  obtain ⟨hkeeper, hrunning⟩ := settled
  cases hstreamer : t.streamer with
  | none => exact (live (h.resting hkeeper hstreamer)).elim
  | some phase => exact ⟨phase, hstreamer, hrunning phase hstreamer⟩

theorem calm_of_advances {m : Move} (h : m.Advances) : m.Calm := by
  cases m with
  | dial accepted => exact h
  | hangUp => exact h.elim
  | _ => trivial

/-- In every interleaving in which dials are accepted and the server closes nothing, there is never
more than one connection, and whenever the keeper is not at a request and no streamer is on its way
out, a slot that is taken means that a streamer takes events. Wherever the tasks are, they are done
by themselves with what they are at after eight moves at most, and then a slot that is taken means
that a streamer waits for the next line. -/
theorem no_subscriber_stranded (settings : FeedSettings) (name : String) {moves : List Move}
    {t : Tasks} (calm : ∀ m ∈ moves, m.Calm)
    (run : (ofFeed (create settings name)).after moves = some t) :
    t.connections ≤ 1 ∧
    (t.Settled → t.feed.live ≠ [] → t.Streaming) ∧
    ∀ further u, (∀ m ∈ further, m.Advances) → t.after further = some u →
      further.length ≤ 8 ∧
      ((∀ m : Move, m.Advances → u.next m = none) →
        u.Settled ∧ (u.feed.live ≠ [] → u.streamer = some .reading)) := by
  have hsound := (Sound.ofFeed (create settings name)).after run
  have hattended := (Attended.create settings name).after calm run
  refine ⟨hsound.connections_le, hattended.streaming, ?_⟩
  intro further u advances hrun
  refine ⟨?_, ?_⟩
  · have hlength := length_le_pending advances hrun
    have hbound := pending_le t
    omega
  · intro blocked
    obtain ⟨hkeeper, hstreamer⟩ := waiting_of_blocked blocked
    have hcalm : ∀ m ∈ further, m.Calm := fun m hm => calm_of_advances (advances m hm)
    refine ⟨⟨hkeeper, ?_⟩, ?_⟩
    · intro phase hphase
      rcases hstreamer with hnone | hreading
      · rw [hnone] at hphase
        cases hphase
      · rw [hreading] at hphase
        cases hphase
        rfl
    · intro live
      rcases hstreamer with hnone | hreading
      · exact (live ((hattended.after hcalm hrun).resting hkeeper hnone)).elim
      · exact hreading

/-- The only subscriber is replaced by another one while the streamer is on its way out. -/
def replacement : List Move :=
  [.place 1, .ensure, .dial true, .dismiss 0, .decode .null, .look, .place 1, .ensure, .deliver,
    .close, .finish, .notice, .dial true]

theorem no_subscriber_stranded_of_replacement :
    ∃ t, (ofFeed (create .standard "ticks")).after replacement = some t ∧ t.feed.live = [1] ∧
      t.connections ≤ 1 ∧ t.Streaming := by
  have hcalm : ∀ m ∈ replacement, m.Calm := by
    simp [replacement, Move.Calm]
  refine ⟨_, rfl, rfl, ?_⟩
  have hresult := no_subscriber_stranded .standard "ticks" hcalm rfl
  refine ⟨hresult.1, hresult.2.1 ⟨rfl, ?_⟩ (by decide)⟩
  intro phase hphase
  cases hphase
  rfl

end Tasks

end LiveQuery.Feed
