import Mathlib.Data.List.Dedup
import LiveQuery.Proofs.Keyed
import LiveQuery.Proofs.Feed.Independence
import LiveQuery.Proofs.Text.ByteOrder

/-!
# Feeds do not influence each other

A directory holds many feeds, and each of them behaves as if it were alone: what concerns it are the
requests and subscribers that name it, the server, and the end of all feeds. `Action.on` is what an
action does to the feed of one name; it looks neither at the other feeds nor at the directory. A run
of the directory answers to the actions that name a feed what this one feed answers to them, so all
actions that name another feed can be left out of the run.
-/

namespace LiveQuery.Feed

/-! ### Runs of a directory -/

/-- What happens to a directory: a step, or a subscriber of a feed at its own inbox. -/
inductive Action where
  | step (x : Step)
  | drainInbox (feed : String) (ticket : Ticket)
  | dropInbox (feed : String) (ticket : Ticket)

namespace Action

def feed? : Action → Option String
  | step (.request name _) | drainInbox name _ | dropInbox name _ => some name
  | step _ => none

/-- The feed that an action names, and what the action makes it do. -/
def visit? (server : Server) : Action → Option (String × Turn)
  | step (.request name r) => some (name, .request server r)
  | drainInbox name ticket => some (name, .drainInbox ticket)
  | dropInbox name ticket => some (name, .dropInbox ticket)
  | step _ => none

/-- The feed that an action asks for, so that it comes into being. -/
def asked? : Action → Option String
  | step (.request name r) => if r.creates then some name else none
  | _ => none

end Action

/-- Whether a turn brings its feed into being. -/
def Turn.creates : Turn → Bool
  | .request _ r => r.creates
  | .drainInbox _ | .dropInbox _ => false

def asked (actions : List Action) : List String := actions.filterMap Action.asked?

namespace Directory

/-- A feed takes a turn, unless there is no such feed and the turn does not bring it into being. -/
def visit (d : Directory) (name : String) (y : Turn) : Directory × Reply :=
  (if y.creates || (Keyed.find? name d.feeds).isSome then
    { d with feeds := Keyed.insert name ((d.get name).turn y) d.feeds }
  else d, y.reply (d.get name))

def act (d : Directory) : Action → Directory × Reply
  | .step x => d.step x
  | .drainInbox name ticket => d.visit name (.drainInbox ticket)
  | .dropInbox name ticket => d.visit name (.dropInbox ticket)

def afterActions (actions : List Action) (d : Directory) : Directory :=
  actions.foldl (fun d a => (d.act a).1) d

/-- The answers to the actions of a run that name a feed. -/
def replies (name : String) : List Action → Directory → List Reply
  | [], _ => []
  | a :: actions, d =>
    (if a.feed? = some name then [(d.act a).2] else []) ++ replies name actions (d.act a).1

end Directory

/-! ### A feed by itself

The server and one feed as they go through the actions of a run. Only the actions that name the feed
make it take a turn, and the end of all feeds ends its connection. -/

def Action.atServer (server : Server) : Action → Server
  | step .serverDown => { server with listening := false }
  | step .serverUp => { server with listening := true }
  | _ => server

def Action.turn? (name : String) (server : Server) (a : Action) : Option Turn :=
  (a.visit? server).bind fun (other, y) => if other = name then some y else none

def Action.on (name : String) (server : Server) (f : Feed) : Action → Feed
  | step .shutdown => { f with connected := false }
  | a => (a.turn? name server).elim f f.turn

/-- The feed of a name after a run, which begins with the server as it is. -/
def afterActions (name : String) : List Action → Server → Feed → Feed
  | [], _, f => f
  | a :: actions, server, f => afterActions name actions (a.atServer server) (a.on name server f)

def replies (name : String) : List Action → Server → Feed → List Reply
  | [], _, _ => []
  | a :: actions, server, f =>
    ((a.turn? name server).toList.map (Turn.reply f)) ++
      replies name actions (a.atServer server) (a.on name server f)

theorem Action.turn?_of_visit? {server : Server} {a : Action} {other : String} {y : Turn}
    (h : a.visit? server = some (other, y)) (name : String) :
    a.turn? name server = if other = name then some y else none := by
  rw [turn?, h, Option.bind_some]

theorem Action.cases (server : Server) (a : Action) :
    (∃ name y, a.visit? server = some (name, y) ∧ a.feed? = some name ∧
        a.asked? = (if y.creates then some name else none) ∧ a.atServer server = server ∧
        ∀ other f, a.on other server f = (a.turn? other server).elim f f.turn) ∨
      a.visit? server = none ∧ a.feed? = none ∧ a.asked? = none := by
  cases a with
  | drainInbox name ticket =>
    exact .inl ⟨name, .drainInbox ticket, rfl, rfl, rfl, rfl, fun _ _ => rfl⟩
  | dropInbox name ticket =>
    exact .inl ⟨name, .dropInbox ticket, rfl, rfl, rfl, rfl, fun _ _ => rfl⟩
  | step x =>
    cases x with
    | request name r =>
      exact .inl ⟨name, .request server r, rfl, rfl, rfl, rfl, fun _ _ => rfl⟩
    | _ => exact .inr ⟨rfl, rfl, rfl⟩

/-- An action that names another feed leaves this one and the server alone. -/
theorem on_of_feed? {name : String} {a : Action} (h : a.feed?.all (· == name) = false)
    (server : Server) (f : Feed) :
    a.atServer server = server ∧ a.turn? name server = none ∧ a.on name server f = f := by
  rcases a.cases server with ⟨other, y, hvisit, hfeed, -, hserver, hon⟩ | ⟨-, hfeed, -⟩
  · rw [hfeed, Option.all_some, beq_eq_false_iff_ne] at h
    have hturn : a.turn? name server = none := (Action.turn?_of_visit? hvisit name).trans (if_neg h)
    refine ⟨hserver, hturn, ?_⟩
    rw [hon, hturn, Option.elim_none]
  · rw [hfeed] at h
    cases h

theorem alone_eq (name : String) (actions : List Action) (server : Server) (f : Feed) :
    let alone := actions.filter fun a => a.feed?.all (· == name)
    f.replies name alone server = f.replies name actions server ∧
      f.afterActions name alone server = f.afterActions name actions server := by
  intro alone
  induction actions generalizing server f with
  | nil => exact ⟨rfl, rfl⟩
  | cons a actions ih =>
    cases ha : a.feed?.all (· == name) with
    | true =>
      obtain ⟨hreplies, hafter⟩ := ih (a.atServer server) (a.on name server f)
      simp only [alone, List.filter_cons, ha, if_true, replies, afterActions]
      exact ⟨congrArg _ hreplies, hafter⟩
    | false =>
      obtain ⟨hserver, hturn, hon⟩ := on_of_feed? ha server f
      simp only [alone, List.filter_cons, ha, Bool.false_eq_true, if_false, replies, afterActions,
        hserver, hturn, hon, Option.toList_none, List.map_nil, List.nil_append]
      exact ih server f

/-! ### One action of a directory -/

/-- A feed that nobody has asked for has neither a connection nor an inbox. -/
theorem turn_create (settings : FeedSettings) (name : String) {y : Turn} (h : y.creates = false) :
    (create settings name).turn y = create settings name := by
  cases y with
  | drainInbox ticket => simp only [turn, drainInbox, create, List.modify_nil]
  | dropInbox ticket => simp only [turn, dropInbox, create, List.modify_nil]
  | request server r =>
    cases r with
    | send data => rfl
    | close tail => rfl
    | drain slot => rfl
    | dropInboxes slot => rfl
    | _ => cases h

namespace Directory

variable (d : Directory) (name other : String)

theorem act_of_visit? {a : Action} {y : Turn} (h : a.visit? d.server = some (name, y)) :
    d.act a = d.visit name y := by
  cases a with
  | drainInbox | dropInbox =>
    cases h
    rfl
  | step x =>
    cases x with
    | request feed r =>
      cases h
      have hcreates : (Turn.request d.server r).creates = r.creates := rfl
      simp only [act, Directory.step, request, visit, hcreates]
      split
      · rfl
      · rfl
    | _ => cases h

/-- The other actions concern the server, or the connections of all feeds. -/
theorem act_of_visit?_eq_none {a : Action} (h : a.visit? d.server = none) :
    (d.act a).1.settings = d.settings ∧
      (d.act a).1.server = a.atServer d.server ∧
      (d.act a).1.names = d.names ∧
      (d.act a).1.get name = a.on name d.server (d.get name) := by
  have hnames : d.shutdown.1.names = d.names := by
    simp only [names, shutdown, Keyed.keys, List.map_map]
    rfl
  cases a with
  | drainInbox | dropInbox => cases h
  | step x =>
    cases x with
    | request feed r => cases h
    | shutdown => exact ⟨rfl, rfl, hnames, get_shutdown d name⟩
    | _ => exact ⟨rfl, rfl, rfl, rfl⟩

theorem settings_visit (y : Turn) : (d.visit name y).1.settings = d.settings := by
  unfold visit
  split <;> rfl

theorem server_visit (y : Turn) : (d.visit name y).1.server = d.server := by
  unfold visit
  split <;> rfl

theorem get_visit (y : Turn) : (d.visit name y).1.get other =
    if name = other then (d.get name).turn y else d.get other := by
  have hget : ∀ e : Directory, e.get other =
      (Keyed.find? other e.feeds).getD (create e.settings other) := fun _ => rfl
  rw [hget, settings_visit, visit]
  split
  · rw [Keyed.find?_insert]
    by_cases hname : name = other
    · rw [if_pos hname, if_pos hname.symm, Option.getD_some]
    · rw [if_neg hname, if_neg (Ne.symm hname), hget]
  · rename_i hthere
    rw [Bool.not_eq_true, Bool.or_eq_false_iff, Option.isSome_eq_false_iff,
      Option.isNone_iff_eq_none] at hthere
    obtain ⟨hcreates, hnone⟩ := hthere
    -- the feed is not there and stays away: nothing happens to it as it would begin
    by_cases hname : name = other
    · rw [if_pos hname, ← hname, get, hnone, Option.getD_none,
        turn_create d.settings name hcreates]
    · rw [if_neg hname, hget]

theorem mem_names_visit (y : Turn) : other ∈ (d.visit name y).1.names ↔
    (y.creates = true ∧ name = other) ∨ other ∈ d.names := by
  have hthere : (Keyed.find? name d.feeds).isSome = true → name ∈ d.names := Keyed.mem_keys_iff.2
  unfold visit
  split
  · rename_i hvisits
    rw [Bool.or_eq_true] at hvisits
    rw [names, Keyed.mem_keys_insert, ← names]
    constructor
    · rintro (rfl | hother)
      · exact hvisits.imp (fun hcreates => ⟨hcreates, rfl⟩) hthere
      · exact .inr hother
    · exact Or.imp_left fun hname => hname.2.symm
  · rename_i hvisits
    rw [Bool.or_eq_true, not_or] at hvisits
    exact ⟨.inr, fun h => h.resolve_left fun hname => hvisits.1 hname.1⟩

theorem ascending_visit (h : Keyed.Ascending d.feeds) (y : Turn) :
    Keyed.Ascending (d.visit name y).1.feeds := by
  unfold visit
  split
  · exact h.insert name _
  · exact h

/-- An action does to the feed of a name, and makes it answer, what it does to this feed by itself.
-/
theorem get_act (a : Action) :
    (d.act a).1.settings = d.settings ∧
      (d.act a).1.server = a.atServer d.server ∧
      (d.act a).1.get name = a.on name d.server (d.get name) ∧
      (if a.feed? = some name then [(d.act a).2] else []) =
        (a.turn? name d.server).toList.map (Turn.reply (d.get name)) := by
  rcases a.cases d.server with ⟨other, y, hvisit, hfeed, -, hserver, hon⟩ | ⟨hvisit, hfeed, -⟩
  · rw [act_of_visit? d other hvisit, settings_visit, server_visit, get_visit, hserver, hon, hfeed,
      Action.turn?_of_visit? hvisit]
    refine ⟨rfl, rfl, ?_⟩
    by_cases h : other = name
    · subst h
      simp only [if_true, Option.elim_some, Option.toList_some, List.map_singleton, visit, and_self]
    · simp only [h, Option.some.injEq, if_false, Option.elim_none, Option.toList_none,
        List.map_nil, and_self]
  · obtain ⟨hsettings, hserver, -, hget⟩ := act_of_visit?_eq_none d name hvisit
    refine ⟨hsettings, hserver, hget, ?_⟩
    rw [hfeed, if_neg nofun, Action.turn?, hvisit]
    rfl

theorem mem_names_act (a : Action) :
    other ∈ (d.act a).1.names ↔ a.asked? = some other ∨ other ∈ d.names := by
  rcases a.cases d.server with ⟨name, y, hvisit, -, hasked, -⟩ | ⟨hvisit, -, hasked⟩
  · rw [act_of_visit? d name hvisit, mem_names_visit, hasked, Option.ite_none_right_eq_some,
      Option.some.injEq]
  · rw [(act_of_visit?_eq_none d other hvisit).2.2.1, hasked]
    exact (or_iff_right nofun).symm

theorem ascending_act (h : Keyed.Ascending d.feeds) (a : Action) :
    Keyed.Ascending (d.act a).1.feeds := by
  rcases a.cases d.server with ⟨name, y, hvisit, -⟩ | ⟨hvisit, -⟩
  · rw [act_of_visit? d name hvisit]
    exact ascending_visit d name h y
  · have hnames := (act_of_visit?_eq_none d "" hvisit).2.2.1
    rw [Keyed.Ascending, ← names, hnames]
    exact h

/-! ### Runs -/

/-- The feed of a name answers in a run of the directory as it does by itself, and is left the same.
-/
theorem get_afterActions (actions : List Action) :
    d.replies name actions = (d.get name).replies name actions d.server ∧
      (d.afterActions actions).get name = (d.get name).afterActions name actions d.server := by
  induction actions generalizing d with
  | nil => exact ⟨rfl, rfl⟩
  | cons a actions ih =>
    obtain ⟨-, hserver, hget, hreply⟩ := get_act d name a
    obtain ⟨hreplies, hafter⟩ := ih (d.act a).1
    rw [hserver, hget] at hreplies hafter
    exact ⟨congrArg₂ _ hreply hreplies, hafter⟩

theorem mem_names_afterActions (actions : List Action) :
    other ∈ (d.afterActions actions).names ↔ other ∈ asked actions ∨ other ∈ d.names := by
  induction actions generalizing d with
  | nil => exact (or_iff_right List.not_mem_nil).symm
  | cons a actions ih =>
    have hcons : other ∈ asked (a :: actions) ↔ a.asked? = some other ∨ other ∈ asked actions := by
      simp only [asked, List.mem_filterMap, List.exists_mem_cons_iff]
    rw [hcons, or_assoc, or_left_comm, ← mem_names_act]
    exact ih (d.act a).1

theorem ascending_afterActions (h : Keyed.Ascending d.feeds) (actions : List Action) :
    Keyed.Ascending (d.afterActions actions).feeds := by
  induction actions generalizing d with
  | nil => exact h
  | cons a actions ih => exact ih _ (ascending_act d h a)

end Directory

/-- Whatever happens in a directory, the answers to the actions that name one feed, and the feed
itself at the end, are the same if all actions that name other feeds are left out. They are the
answers of one feed, which goes through all these actions, and of nothing else. The feeds are listed
by their names, each name that was ever asked for once and no other, in the order of their bytes. -/
theorem feeds_isolated (settings : FeedSettings) (server : Server) (actions : List Action)
    (name : String) :
    let start := Directory.empty settings server
    let d := start.afterActions actions
    let alone := actions.filter fun a => a.feed?.all (· == name)
    start.replies name actions = start.replies name alone ∧
      d.get name = (start.afterActions alone).get name ∧
      start.replies name actions = (create settings name).replies name actions server ∧
      d.get name = (create settings name).afterActions name actions server ∧
      (d.act (.step .names)).2 = .names d.names ∧
      (d.names.map bytesOf).Pairwise (· < ·) ∧
      (∀ other, other ∈ d.names ↔ other ∈ asked actions) ∧
      d.feeds.length = (asked actions).dedup.length := by
  intro start d alone
  obtain ⟨hreplies, hget⟩ := Directory.get_afterActions start name actions
  obtain ⟨hrepliesAlone, hgetAlone⟩ := Directory.get_afterActions start name alone
  obtain ⟨hsame, hend⟩ := alone_eq name actions server (create settings name)
  have hascending : Keyed.Ascending d.feeds :=
    Directory.ascending_afterActions start Keyed.ascending_nil actions
  have hmem : ∀ other, other ∈ d.names ↔ other ∈ asked actions := by
    intro other
    rw [Directory.mem_names_afterActions]
    exact or_iff_left List.not_mem_nil
  refine ⟨?_, ?_, hreplies, hget, rfl, ?_, hmem, ?_⟩
  · rw [hreplies, hrepliesAlone]
    exact hsame.symm
  · rw [hget, hgetAlone]
    exact hend.symm
  · exact List.Pairwise.map bytesOf (fun _ _ => bytesOf_lt) hascending
  · have hperm : d.names.Perm (asked actions).dedup := by
      refine (List.perm_ext_iff_of_nodup hascending.nodup (List.nodup_dedup _)).2 fun other => ?_
      rw [List.mem_dedup]
      exact hmem other
    rw [← hperm.length_eq]
    exact (List.length_map _).symm

end LiveQuery.Feed
