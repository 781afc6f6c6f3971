import LiveQuery.Proofs.Feed.Connections
import LiveQuery.Proofs.Feed.Recency

/-!
# What a feed can look up

The cache of a feed outlives its connections. Every event that is decoded on any of them is recorded
in it, once and in order, whether or not anybody gets to see the event. Which lines are decoded is
said here without the feed: `decoded` reads the lines of one connection one after the other, each by
itself, and stops behind an event that comes while no slot is taken. A `Link` is a connection
together with the lines that came on it, and what was delivered on it is what `decoded` makes of
these lines alone.
-/

namespace LiveQuery.Feed

/-! ### The lines of a connection -/

/-- A line that the server sends on a connection. -/
structure Arrival where
  line : List UInt8
  /-- Whether a slot is taken when the line comes. -/
  watched : Bool

/-- The event that a line holds, if it is one and not too long. -/
def Arrival.event? (limit : Nat) (a : Arrival) : Option Json :=
  match readLine decodeLine limit a.line.length a.line with
  | some (.value event) => some event
  | _ => none

/-- The events that are decoded from the lines of a connection. Nothing is read behind an event for
which no slot is taken. -/
def decoded (limit : Nat) : List Arrival → List Json
  | [] => []
  | a :: rest =>
    match a.event? limit with
    | some event => event :: if a.watched then decoded limit rest else []
    | none => decoded limit rest

/-- The lines of a text that comes all at once. -/
def arrivalsOf (watched : Bool) (text : List UInt8) : List Arrival :=
  (linesOf text).map fun line => ⟨line, watched⟩

/-- The text that the server sends in a turn. -/
def Turn.text? : Turn → Option (List UInt8)
  | .request _ (.send data) => some (data ++ [lineFeed])
  | .request _ (.close tail) => some tail
  | _ => none

/-- The lines that come in a turn. Without a connection nothing does. -/
def Turn.arrivals (f : Feed) (x : Turn) : List Arrival :=
  if f.connected then x.text?.elim [] (arrivalsOf !f.live.isEmpty) else []

/-- A connection with the lines that came on it. -/
structure Link where
  connection : Connection
  arrivals : List Arrival

namespace Link

/-- The bytes that came on the connection. -/
def received (l : Link) : List UInt8 := l.arrivals.flatMap Arrival.line

def after (f : Feed) (x : Turn) (l : Link) : Link where
  connection := l.connection.after f x
  arrivals := if l.connection.isOpen then l.arrivals ++ x.arrivals f else l.arrivals

end Link

/-- The links after a turn, in the order in which they were opened. -/
def linked (f : Feed) (x : Turn) (links : List Link) : List Link :=
  links.map (·.after f x) ++ (x.opening? f).toList.map fun line => ⟨⟨line, [], none⟩, []⟩

/-- The links after a run that began with these. -/
def linksFrom (links : List Link) : List Turn → Feed → List Link
  | [], _ => links
  | x :: turns, f => linksFrom (linked f x links) turns (f.turn x)

theorem connection_linked (f : Feed) (x : Turn) (links : List Link) :
    (linked f x links).map Link.connection = noted f x (links.map Link.connection) := by
  simp only [linked, noted, List.map_append, List.map_map]
  rfl

/-- The connections of the links are those of the ledger. -/
theorem connection_linksFrom (turns : List Turn) (links : List Link) (f : Feed) :
    (linksFrom links turns f).map Link.connection =
      ledgerFrom (links.map Link.connection) turns f := by
  induction turns generalizing links f with
  | nil => rfl
  | cons x turns ih => rw [linksFrom, ih, connection_linked, ledgerFrom]

/-! ### Reading lines -/

section Lines

variable {limit : Nat}

theorem decoded_append {first : List Arrival}
    (h : ∀ a ∈ first, a.watched = true ∨ a.event? limit = none) (second : List Arrival) :
    decoded limit (first ++ second) = decoded limit first ++ decoded limit second := by
  induction first with
  | nil => rfl
  | cons a rest ih =>
    have hrest := ih fun b hb => h b (List.mem_cons_of_mem a hb)
    rw [List.cons_append, decoded, decoded]
    rcases h a List.mem_cons_self with hwatched | hnone
    · cases a.event? limit with
      | none => exact hrest
      | some event =>
        simp only [hwatched, if_true, hrest]
        rfl
    · simp only [hnone]
      exact hrest

theorem event?_of_decoded_eq_nil {arrivals : List Arrival} (h : decoded limit arrivals = []) :
    ∀ a ∈ arrivals, a.event? limit = none := by
  induction arrivals with
  | nil => exact nofun
  | cons a rest ih =>
    rw [decoded] at h
    cases hevent : a.event? limit with
    | some event =>
      rw [hevent] at h
      cases h
    | none =>
      rw [hevent] at h
      exact List.forall_mem_cons.2 ⟨hevent, ih h⟩

theorem decoded_arrivalsOf (watched : Bool) (text : List UInt8) :
    decoded limit (arrivalsOf watched text) =
      if watched then eventsOf (readings decodeLine limit text)
      else (eventsOf (readings decodeLine limit text)).take 1 := by
  rw [arrivalsOf, readings]
  induction linesOf text with
  | nil => cases watched <;> rfl
  | cons line rest ih =>
    rw [List.map_cons, decoded, Arrival.event?, List.filterMap_cons]
    cases readLine decodeLine limit line.length line with
    | none => exact ih
    | some reading =>
      cases reading with
      | value event =>
        cases watched with
        | true => exact congrArg (event :: ·) ih
        | false => rfl
      | undecodable => exact ih
      | tooLong length max => exact ih

theorem line_arrivalsOf (watched : Bool) (text : List UInt8) :
    (arrivalsOf watched text).map Arrival.line = linesOf text := by
  rw [arrivalsOf, List.map_map]
  exact List.map_id _

end Lines

/-! ### What a turn reads -/

theorem sent_eq (f : Feed) (x : Turn) :
    x.sent f = if f.connected then
      x.text?.elim [] fun text => eventsOf (readings decodeLine f.settings.maxLineBytes text)
    else [] := by
  cases x with
  | request server r => cases r <;> simp [Turn.sent, Turn.text?]
  | _ => simp [Turn.sent, Turn.text?]

theorem event_passes_arrivals (f : Feed) (x : Turn) :
    (x.passes f).map Pass.event = decoded f.settings.maxLineBytes (x.arrivals f) := by
  rw [event_passes_turn, sent_eq, Turn.arrivals]
  cases f.connected with
  | false => exact ite_self _
  | true =>
    cases x.text? with
    | none => exact ite_self _
    | some text =>
      rw [if_pos rfl, if_pos rfl, Option.elim_some, Option.elim_some, decoded_arrivalsOf]
      cases f.live.isEmpty <;> rfl

/-- If no delivery of a turn found all slots free, the lines behind it are read as well. -/
theorem continues_of_watched {f : Feed} {x : Turn}
    (h : (x.passes f).any Pass.isUnwatched = false) :
    ∀ a ∈ x.arrivals f, a.watched = true ∨ a.event? f.settings.maxLineBytes = none := by
  intro a ha
  cases hlive : f.live.isEmpty with
  | true =>
    have hnone : x.passes f = [] := by
      rcases unwatched_passes (List.isEmpty_iff.1 hlive) x with hnone | ⟨p, hp, hunwatched⟩
      · exact hnone
      · simp [hp, Pass.isUnwatched, hunwatched] at h
    have hdecoded := event_passes_arrivals f x
    rw [hnone] at hdecoded
    exact .inr (event?_of_decoded_eq_nil hdecoded.symm a ha)
  | false =>
    rw [Turn.arrivals, hlive] at ha
    split at ha
    · cases htext : x.text? with
      | none =>
        rw [htext] at ha
        cases ha
      | some text =>
        rw [htext] at ha
        obtain ⟨line, -, rfl⟩ := List.mem_map.1 ha
        exact .inl rfl
    · cases ha

/-- What comes in a turn is lines, and the last of them has its line feed unless the server closes
the connection with it. -/
theorem lines_arrivals (f : Feed) (x : Turn) :
    (x.arrivals f).map Arrival.line = linesOf ((x.arrivals f).flatMap Arrival.line) ∧
      (x.closes = false → ∀ more, linesOf ((x.arrivals f).flatMap Arrival.line ++ more) =
        linesOf ((x.arrivals f).flatMap Arrival.line) ++ linesOf more) := by
  have htext : ∀ watched text, (arrivalsOf watched text).flatMap Arrival.line = text := by
    intro watched text
    rw [List.flatMap_def, line_arrivalsOf, flatten_linesOf]
  have hterminated : ∀ text, x.text? = some text → x.closes = false →
      ∃ data, text = data ++ [lineFeed] := by
    intro text hx hcloses
    unfold Turn.text? at hx
    split at hx
    · exact ⟨_, (Option.some.inj hx).symm⟩
    · cases hcloses
    · cases hx
  unfold Turn.arrivals
  split
  · cases hx : x.text? with
    | none => exact ⟨rfl, fun _ _ => rfl⟩
    | some text =>
      rw [Option.elim_some, htext, line_arrivalsOf]
      refine ⟨rfl, fun hcloses more => ?_⟩
      obtain ⟨data, rfl⟩ := hterminated text hx hcloses
      exact linesOf_append data more
  · exact ⟨rfl, fun _ _ => rfl⟩

/-- What is delivered on a connection is what is decoded from its own lines, and these are the lines
of the bytes that came on it. An open connection can be read on. -/
structure Link.Sound (limit : Nat) (l : Link) : Prop where
  decoded : l.connection.deliveries.map Pass.event = decoded limit l.arrivals
  lines : l.arrivals.map Arrival.line = linesOf l.received
  continues (h : l.connection.isOpen = true) :
    ∀ a ∈ l.arrivals, a.watched = true ∨ a.event? limit = none
  complete (h : l.connection.isOpen = true) (more : List UInt8) :
    linesOf (l.received ++ more) = linesOf l.received ++ linesOf more

theorem Link.sound_opened (limit : Nat) (line : String) :
    Link.Sound limit ⟨⟨line, [], none⟩, []⟩ :=
  ⟨rfl, rfl, fun _ => nofun, fun _ _ => rfl⟩

theorem Link.Sound.after {f : Feed} {l : Link} (h : l.Sound f.settings.maxLineBytes) (x : Turn) :
    (l.after f x).Sound f.settings.maxLineBytes := by
  cases hopen : l.connection.isOpen with
  | false =>
    have hsame : l.after f x = l := by
      simp only [Link.after, Connection.after_of_not_isOpen hopen, hopen, Bool.false_eq_true,
        if_false]
    rwa [hsame]
  | true =>
    obtain ⟨hlines, hcomplete⟩ := lines_arrivals f x
    have hconnection := Connection.isOpen_after hopen f x
    have harrivals : (l.after f x).arrivals = l.arrivals ++ x.arrivals f := by
      simp only [Link.after, hopen, if_true]
    have hreceived : (l.after f x).received =
        l.received ++ (x.arrivals f).flatMap Arrival.line := by
      rw [received, harrivals, List.flatMap_append]
      rfl
    refine ⟨?_, ?_, fun hstays => ?_, fun hstays more => ?_⟩
    · rw [harrivals, decoded_append (h.continues hopen), ← h.decoded, ← event_passes_arrivals,
        ← List.map_append]
      simp only [Link.after, Connection.after_of_isOpen hopen]
    · rw [harrivals, hreceived, List.map_append, h.lines, hlines, h.complete hopen]
    · -- The connection is still open, so every event of this turn found a slot taken.
      have hstays' : (l.connection.after f x).isOpen = true := hstays
      rw [hconnection, Bool.and_eq_true, Bool.not_eq_true', Bool.not_eq_true'] at hstays'
      rw [harrivals]
      exact List.forall_mem_append.2 ⟨h.continues hopen, continues_of_watched hstays'.1⟩
    · have hstays' : (l.connection.after f x).isOpen = true := hstays
      rw [hconnection, Bool.and_eq_true, Bool.not_eq_true', Bool.not_eq_true'] at hstays'
      rw [hreceived, List.append_assoc, h.complete hopen, hcomplete hstays'.2, h.complete hopen,
        List.append_assoc]

/-! ### What a feed remembers -/

/-- The settings of a feed and its cache after these events. -/
structure Remembers (f : Feed) (events : List Json) (g : Feed) : Prop where
  settings : g.settings = f.settings
  cache : g.cache = f.cache.map (·.afterRecords events)

theorem Remembers.of_same {f g : Feed} (hsettings : g.settings = f.settings)
    (hcache : g.cache = f.cache) : Remembers f [] g :=
  ⟨hsettings, hcache.trans (Option.map_id_apply).symm⟩

theorem Remembers.trans {f g k : Feed} {events more : List Json} (first : Remembers f events g)
    (second : Remembers g more k) : Remembers f (events ++ more) k where
  settings := second.settings.trans first.settings
  cache := by
    rw [second.cache, first.cache, Option.map_map]
    congr 1
    funext c
    exact List.foldl_append.symm

theorem remembers_take (f : Feed) (event : Json) : Remembers f [event] (f.take event) :=
  ⟨rfl, rfl⟩

theorem remembers_absorb (found : List (Reading Json)) (f : Feed) :
    Remembers f ((absorbPasses found f).map Pass.event) (absorb found f) := by
  induction found generalizing f with
  | nil => exact .of_same rfl rfl
  | cons reading rest ih =>
    cases reading with
    | value event =>
      simp only [absorb, absorbPasses]
      split
      · exact (remembers_take f event).trans (ih (f.take event))
      · exact remembers_take f event
    | undecodable => exact ih f
    | tooLong length limit => exact ih f

theorem remembers_subscribe (server : Server) (capacity : Nat) (f : Feed) :
    Remembers f [] (f.subscribe server capacity).1 := by
  simp only [subscribe, connect]
  split
  · rename_i g opening hconnect
    split at hconnect
    · cases hconnect
      exact .of_same rfl rfl
    · split at hconnect
      · cases hconnect
        exact .of_same rfl rfl
      · cases hconnect
  · exact .of_same rfl rfl

theorem remembers_turn (f : Feed) (x : Turn) :
    Remembers f ((x.passes f).map Pass.event) (f.turn x) := by
  cases x with
  | drainInbox ticket => exact .of_same rfl rfl
  | dropInbox ticket => exact .of_same rfl rfl
  | request server r =>
    cases r with
    | subscribe capacity =>
      rw [turn_subscribe]
      exact remembers_subscribe server capacity f
    | unsubscribe slot =>
      rw [turn_unsubscribe]
      unfold unsubscribe
      split <;> exact .of_same rfl rfl
    | send data =>
      simp only [turn, step, receive, Turn.passes]
      split
      · exact remembers_absorb _ f
      · exact .of_same rfl rfl
    | close tail =>
      simp only [turn, step, close, Turn.passes]
      split
      · have habsorb := remembers_absorb (f.readingsOf tail) f
        exact ⟨habsorb.settings, habsorb.cache⟩
      · exact .of_same rfl rfl
    | drain slot =>
      rw [turn_drain]
      cases f.ticketOf? slot <;> exact .of_same rfl rfl
    | _ => exact .of_same rfl rfl

/-! ### Runs -/

theorem remembers_afterTurns (turns : List Turn) (f : Feed) :
    Remembers f ((passes turns f).map Pass.event) (f.afterTurns turns) := by
  induction turns generalizing f with
  | nil => exact .of_same rfl rfl
  | cons x turns ih =>
    rw [passes, List.map_append]
    exact (remembers_turn f x).trans (ih (f.turn x))

theorem sound_linksFrom (turns : List Turn) {f : Feed} {links : List Link}
    (h : ∀ l ∈ links, l.Sound f.settings.maxLineBytes) :
    ∀ l ∈ linksFrom links turns f, l.Sound f.settings.maxLineBytes := by
  induction turns generalizing f links with
  | nil => exact h
  | cons x turns ih =>
    rw [← (remembers_turn f x).settings]
    apply ih
    rw [(remembers_turn f x).settings]
    intro l hl
    rcases List.mem_append.1 hl with hl | hl
    · obtain ⟨before, hbefore, rfl⟩ := List.mem_map.1 hl
      exact (h before hbefore).after x
    · obtain ⟨line, -, rfl⟩ := List.mem_map.1 hl
      exact Link.sound_opened _ line

/-- A look-up anywhere in a run of a feed finds what a fresh cache holds to which the events decoded
so far on all connections were recorded, in order. The links are the connections of the run, each
with its lines, which are the lines of the bytes that came on it; the events decoded on a connection
are determined by its own lines, and they are all that is delivered. Without a key nothing is found.
-/
theorem lookup_of_run (settings : FeedSettings) (name : String) (turns : List Turn) :
    let f := (create settings name).afterTurns turns
    let links := linksFrom [] turns (create settings name)
    let events := links.flatMap fun l => decoded settings.maxLineBytes l.arrivals
    (∀ server key, f.step server (.lookup key) = (f, .found (settings.cacheKey.bind fun field =>
        ((RecencyCache.empty field settings.cacheCapacity).afterRecords events).find? key))) ∧
      links.map Link.connection = ledgerFrom [] turns (create settings name) ∧
      (∀ l ∈ links, l.arrivals.map Arrival.line = linesOf l.received ∧
        l.connection.deliveries.map Pass.event = decoded settings.maxLineBytes l.arrivals) ∧
      events = (passes turns (create settings name)).map Pass.event ∧
      (settings.cacheKey = none → ∀ key, f.lookup key = none) := by
  intro f links events
  have hconnections := connection_linksFrom turns [] (create settings name)
  have hsound : ∀ l ∈ links, l.Sound settings.maxLineBytes :=
    sound_linksFrom turns (f := create settings name) nofun
  have hevents : events = (passes turns (create settings name)).map Pass.event := by
    have hdeliveries := (kept_create settings name).deliveries turns
    rw [List.flatMap_nil, List.nil_append] at hdeliveries
    calc
      events = links.flatMap fun l => l.connection.deliveries.map Pass.event :=
        List.flatMap_congr fun l hl => (hsound l hl).decoded.symm
      _ = ((links.map Link.connection).flatMap Connection.deliveries).map Pass.event := by
        rw [List.flatMap_map, List.map_flatMap]
      _ = (passes turns (create settings name)).map Pass.event := by
        rw [hconnections, List.map_nil, hdeliveries]
  have hcache : ∀ key, f.lookup key = settings.cacheKey.bind fun field =>
      ((RecencyCache.empty field settings.cacheCapacity).afterRecords events).find? key := by
    intro key
    have hstart : (create settings name).cache =
        settings.cacheKey.map fun field => .empty field settings.cacheCapacity := rfl
    rw [lookup, (remembers_afterTurns turns (create settings name)).cache, ← hevents, hstart,
      Option.map_map, Option.bind_map]
    rfl
  refine ⟨fun server key => ?_, hconnections,
    fun l hl => ⟨(hsound l hl).lines, (hsound l hl).decoded⟩, hevents, fun hkey key => ?_⟩
  · rw [← hcache]
    rfl
  · rw [hcache, hkey]
    rfl

end LiveQuery.Feed
