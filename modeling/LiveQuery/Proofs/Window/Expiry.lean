import Mathlib.Data.List.Basic
import LiveQuery.Proofs.Window.Notices

/-!
# Which elements of a timed window go, and when

A timed window lets elements go from its oldest end for as long as the oldest is older than the
length allows (`Expired`), announces each of them, and never looks behind an element that may stay.
`ExpiryLaw` says this of one call, whatever the times of the elements are. If the readings of the
clock do not decrease the elements stand in the order of their times, and then nothing that has
expired hides behind another element: after a run the window holds the elements that were accepted
and that every call since has allowed.
-/

namespace LiveQuery.Window.Timed

variable {σ : Type}

/-- The element is older than the length allows at this time. Nothing is if the length reaches back
beyond the origin of the clock. -/
def Expired (length now : Nat) (x : Stamped) : Prop := length ≤ now ∧ x.time < now - length

instance (length now : Nat) (x : Stamped) : Decidable (Expired length now x) :=
  inferInstanceAs (Decidable (_ ∧ _))

/-! ### One call -/

/-- What a call to expire does, given the exchanges with the listener during the call. -/
structure ExpiryLaw (l : Listener σ) (s : σ) (held : List Stamped) (length now : Nat)
    (new : List Exchange) : Prop where
  /-- The longest run of expired elements at the oldest end goes, and the others stay in order. -/
  stays : (expireAt l s held length now).held = held.dropWhile (Expired length now)
  /-- Each element of that run is announced, the oldest first. -/
  announced : new.map Prod.fst =
    ((held.takeWhile (Expired length now)).map Stamped.value).map Notice.popped
  /-- These are the exchanges that a record of the call shows, whatever it held before. -/
  recorded (log : List Exchange) : expireAt l.recorded (s, log) held length now =
    ⟨((expireAt l s held length now).state, log ++ new), (expireAt l s held length now).held,
      (expireAt l s held length now).result⟩
  answers : l.Answers s new (expireAt l s held length now).state
  result : (expireAt l s held length now).result = firstRefusal new

theorem expireAt_of_lt (l : Listener σ) (s : σ) (held : List Stamped) {length now : Nat}
    (h : now < length) : expireAt l s held length now = ⟨s, held, .ok ()⟩ := if_pos h

theorem expireAt_of_le (l : Listener σ) (s : σ) (held : List Stamped) {length now : Nat}
    (h : length ≤ now) : expireAt l s held length now =
      evict l Stamped.value (oldestBefore (now - length)) s held := if_neg (Nat.not_lt.2 h)

theorem not_expired_of_lt {length now : Nat} (h : now < length) (x : Stamped) :
    ¬ Expired length now x := fun hx => absurd hx.1 (Nat.not_le.2 h)

theorem held_evict_oldestBefore (l : Listener σ) (s : σ) (start : Nat) (held : List Stamped) :
    (evict l Stamped.value (oldestBefore start) s held).held = held.dropWhile (·.time < start) := by
  induction held generalizing s with
  | nil => rfl
  | cons oldest rest ih =>
    by_cases hdue : oldest.time < start
    · simp only [evict, oldestBefore, hdue, decide_true, if_true, List.dropWhile_cons]
      exact ih _
    · simp only [evict, oldestBefore, hdue, decide_false, Bool.false_eq_true, if_false,
        List.dropWhile_cons]

theorem held_expireAt (l : Listener σ) (s : σ) (held : List Stamped) (length now : Nat) :
    (expireAt l s held length now).held = held.dropWhile (Expired length now) := by
  rcases Nat.lt_or_ge now length with h | h
  · rw [expireAt_of_lt l s held h]
    cases held with
    | nil => rfl
    | cons oldest rest => rw [List.dropWhile_cons_of_neg (by simp [not_expired_of_lt h])]
  · rw [expireAt_of_le l s held h, held_evict_oldestBefore]
    simp only [Expired, h, true_and]

theorem exists_expiryLaw (l : Listener σ) (s : σ) (held : List Stamped) (length now : Nat) :
    ∃ new, ExpiryLaw l s held length now new := by
  have hstays := held_expireAt l s held length now
  have hwhole := List.takeWhile_append_dropWhile (p := fun x => decide (Expired length now x))
    (l := held)
  rcases Nat.lt_or_ge now length with h | h
  · have hnone : held.takeWhile (Expired length now) = [] := by
      rw [← hstays, expireAt_of_lt l s held h] at hwhole
      exact List.append_left_eq_self.1 hwhole
    refine ⟨[], hstays, ?_, fun log => ?_, ?_, ?_⟩
    · rw [hnone]
      rfl
    · rw [expireAt_of_lt l s held h, expireAt_of_lt l.recorded (s, log) held h, List.append_nil]
    · rw [expireAt_of_lt l s held h]
      rfl
    · rw [expireAt_of_lt l s held h]
      rfl
  · obtain ⟨gone, new, hheld, hrecorded, hnotices, hanswers, hresult⟩ :=
      evict_announces l Stamped.value s (oldestBefore (now - length)) held
    rw [← expireAt_of_le l s held h] at hheld hanswers hresult
    have hgone : gone = held.takeWhile (Expired length now) := by
      rw [hstays] at hheld
      exact List.append_cancel_right (hheld.symm.trans hwhole.symm)
    refine ⟨new, hstays, hgone ▸ hnotices, fun log => ?_, hanswers, hresult⟩
    rw [expireAt_of_le l.recorded (s, log) held h, hrecorded, expireAt_of_le l s held h]

/-! ### Runs of calls -/

inductive Call where
  | push (element : Value) (length now : Nat)
  | expire (length now : Nat)

namespace Call

def length : Call → Nat
  | .push _ length _ | .expire length _ => length

/-- The reading of the clock that the call is made with. -/
def now : Call → Nat
  | .push _ _ now | .expire _ now => now

/-- The element arrived within the length of the call. A length that reaches back beyond the origin
of the clock allows every element. -/
def Allows (c : Call) (x : Stamped) : Prop := c.length ≤ c.now → c.now - c.length ≤ x.time

instance (c : Call) (x : Stamped) : Decidable (c.Allows x) := inferInstanceAs (Decidable (_ → _))

/-- The element that a call brings in: the one that it offers, unless the listener refuses it. -/
def accepted? (l : Listener σ) (s : σ) : Call → Option Stamped
  | .push element _ now =>
    match (l.hear s (.pushed element)).2 with
    | .ok _ => some ⟨element, now⟩
    | .error _ => none
  | .expire _ _ => none

end Call

def perform (l : Listener σ) (s : σ) (held : List Stamped) : Call → Outcome σ (List Stamped)
  | .push element length now => pushAt l s held element length now
  | .expire length now => expireAt l s held length now

/-- The listener's state and the elements after a run of calls. -/
def after (l : Listener σ) : List Call → σ → List Stamped → σ × List Stamped
  | [], s, held => (s, held)
  | c :: calls, s, held => after l calls (perform l s held c).state (perform l s held c).held

/-- The elements that a run of calls brings in, each with the calls since, its own first. -/
def acceptances (l : Listener σ) : List Call → σ → List Stamped → List (Stamped × List Call)
  | [], _, _ => []
  | c :: calls, s, held =>
    ((c.accepted? l s).map (·, c :: calls)).toList ++
      acceptances l calls (perform l s held c).state (perform l s held c).held

/-- The elements among them that all calls since have allowed. -/
def allowed (found : List (Stamped × List Call)) : List Stamped :=
  (found.filter fun (x, since) => ∀ c ∈ since, c.Allows x).map Prod.fst

theorem Call.allows_iff {c : Call} {x : Stamped} :
    c.Allows x ↔ ¬ Expired c.length c.now x := by
  rw [Call.Allows, Expired, not_and, Nat.not_lt]

/-- Of elements in the order of their times the oldest are the ones that have expired. -/
theorem dropWhile_expired {held : List Stamped} (h : held.Pairwise (·.time ≤ ·.time))
    (c : Call) : held.dropWhile (Expired c.length c.now) = held.filter (c.Allows ·) := by
  induction held with
  | nil => rfl
  | cons oldest rest ih =>
    obtain ⟨holdest, hrest⟩ := List.pairwise_cons.1 h
    by_cases hexpired : Expired c.length c.now oldest
    · rw [List.dropWhile_cons_of_pos (by simpa using hexpired), ih hrest,
        List.filter_cons_of_neg (by simpa [Call.allows_iff] using hexpired)]
    · have hall : ∀ x ∈ oldest :: rest, c.Allows x := by
        intro x hx
        rw [Call.allows_iff]
        rintro ⟨hlength, htime⟩
        rcases List.mem_cons.1 hx with rfl | hx
        · exact hexpired ⟨hlength, htime⟩
        · exact hexpired ⟨hlength, Nat.lt_of_le_of_lt (holdest x hx) htime⟩
      rw [List.dropWhile_cons_of_neg (by simpa using hexpired),
        List.filter_eq_self.2 fun x hx => decide_eq_true (hall x hx)]

/-- A call brings its element in and then expires what is there. -/
theorem held_perform (l : Listener σ) (s : σ) (held : List Stamped) (c : Call) :
    (perform l s held c).held =
      (held ++ (c.accepted? l s).toList).dropWhile (Expired c.length c.now) := by
  cases c with
  | push element length now =>
    simp only [perform, pushAt, held_expireAt, receive, Call.accepted?, Call.length, Call.now]
    cases (l.hear s (.pushed element)).2 with
    | ok _ => rfl
    | error e =>
      simp only [Option.toList_none, List.append_nil]
      rfl
  | expire length now =>
    rw [Call.accepted?, Option.toList_none, List.append_nil]
    exact held_expireAt l s held length now

theorem time_of_accepted? {l : Listener σ} {s : σ} {c : Call} {x : Stamped}
    (h : c.accepted? l s = some x) : x.time = c.now := by
  cases c with
  | push element length now =>
    simp only [Call.accepted?] at h
    split at h
    · exact (congrArg Stamped.time (Option.some.inj h)).symm
    · cases h
  | expire length now => cases h

/-- The elements stand in the order of their times, and no call of the run is made earlier. -/
structure Ordered (held : List Stamped) (calls : List Call) : Prop where
  sorted : held.Pairwise (·.time ≤ ·.time)
  clock : calls.Pairwise (·.now ≤ ·.now)
  before : ∀ x ∈ held, ∀ c ∈ calls, x.time ≤ c.now

theorem Ordered.accept {held : List Stamped} {c : Call} {calls : List Call}
    (h : Ordered held (c :: calls)) (l : Listener σ) (s : σ) :
    Ordered (held ++ (c.accepted? l s).toList) calls := by
  obtain ⟨hfirst, hcalls⟩ := List.pairwise_cons.1 h.clock
  have hnew : ∀ x ∈ (c.accepted? l s).toList, x.time = c.now := fun x hx =>
    time_of_accepted? (Option.mem_toList.1 hx)
  refine ⟨List.pairwise_append.2 ⟨h.sorted, ?_, fun x hx y hy => ?_⟩, hcalls, fun x hx d hd => ?_⟩
  · cases c.accepted? l s with
    | none => exact List.Pairwise.nil
    | some x => exact List.pairwise_singleton _ x
  · rw [hnew y hy]
    exact h.before x hx c List.mem_cons_self
  · rcases List.mem_append.1 hx with hx | hx
    · exact h.before x hx d (List.mem_cons_of_mem c hd)
    · rw [hnew x hx]
      exact hfirst d hd

theorem Ordered.filter {held : List Stamped} {calls : List Call} (h : Ordered held calls)
    (p : Stamped → Bool) : Ordered (held.filter p) calls :=
  ⟨h.sorted.filter p, h.clock, fun x hx => h.before x (List.mem_of_mem_filter hx)⟩

/-- One call keeps those that it allows, of the elements that were there and its own. -/
theorem Ordered.held_perform {held : List Stamped} {c : Call} {calls : List Call}
    (h : Ordered held (c :: calls)) (l : Listener σ) (s : σ) :
    (perform l s held c).held = (held ++ (c.accepted? l s).toList).filter (c.Allows ·) := by
  rw [Timed.held_perform, dropWhile_expired (h.accept l s).sorted]

@[simp] theorem allowed_append (found more : List (Stamped × List Call)) :
    allowed (found ++ more) = allowed found ++ allowed more := by
  rw [allowed, List.filter_append, List.map_append, allowed, allowed]

theorem allowed_toList (x : Option Stamped) (since : List Call) :
    allowed (x.map (·, since)).toList = x.toList.filter fun x => ∀ c ∈ since, c.Allows x := by
  cases x with
  | none => rfl
  | some x =>
    simp only [allowed, Option.map_some, Option.toList_some]
    by_cases hx : ∀ c ∈ since, c.Allows x
    · rw [List.filter_cons_of_pos (by simpa using hx), List.filter_cons_of_pos (by simpa using hx)]
      rfl
    · rw [List.filter_cons_of_neg (by simpa using hx), List.filter_cons_of_neg (by simpa using hx)]
      rfl

/-- A run keeps those that each of its calls allows, of the elements that were there, and of the
elements that it brings in those that all calls since have allowed. -/
theorem Ordered.held_after {held : List Stamped} {calls : List Call} (h : Ordered held calls)
    (l : Listener σ) (s : σ) : (after l calls s held).2 =
      (held.filter fun x => ∀ c ∈ calls, c.Allows x) ++ allowed (acceptances l calls s held) := by
  induction calls generalizing s held with
  | nil => simp [after, acceptances, allowed]
  | cons c calls ih =>
    have hperform := h.held_perform l s
    have hnext : Ordered (perform l s held c).held calls := by
      rw [hperform]
      exact (h.accept l s).filter _
    have hboth : ∀ xs : List Stamped,
        (xs.filter (c.Allows ·)).filter (fun x => ∀ d ∈ calls, d.Allows x) =
          xs.filter fun x => ∀ d ∈ c :: calls, d.Allows x := by
      intro xs
      simp only [List.filter_filter, List.forall_mem_cons, Bool.decide_and, Bool.and_comm]
    rw [after, ih hnext, acceptances, allowed_append, allowed_toList, ← List.append_assoc,
      ← List.filter_append, ← hboth, ← hperform]

/-- The calls since an element was brought in go on to the end of the run. -/
theorem getLast?_of_mem_acceptances {l : Listener σ} {calls since : List Call} {s : σ}
    {held : List Stamped} {x : Stamped} (h : (x, since) ∈ acceptances l calls s held) :
    since.getLast? = calls.getLast? := by
  induction calls generalizing s held with
  | nil => cases h
  | cons c calls ih =>
    rw [acceptances, List.mem_append, Option.mem_toList, Option.map_eq_some_iff] at h
    rcases h with ⟨_, -, h⟩ | h
    · rw [(Prod.mk.inj h).2]
    · cases calls with
      | nil => cases h
      | cons d calls => rw [ih h, List.getLast?_cons_cons]

/-- A listener that lets no negative number in and nothing go. -/
def stern : Listener Unit where
  hear _
    | .pushed (.int (.negSucc _)) => ((), .error (.listener "not below zero"))
    | .pushed _ => ((), .ok ())
    | .popped _ => ((), .error (.listener "not yet"))

/-- A timed window lets go exactly the longest run of expired elements at its oldest end, announces
them oldest first and gives the first refusal, whatever the elements and their times are. After a
run of calls whose readings of the clock do not decrease, it holds the elements that were accepted
and that all calls since have allowed, and so none that has expired. -/
theorem holds_unexpired (l : Listener σ) :
    (∀ s held length now, ∃ new, ExpiryLaw l s held length now new) ∧
      ∀ (calls : List Call) (s : σ), (calls.map Call.now).Pairwise (· ≤ ·) →
        let held := (after l calls s []).2
        let expected := allowed (acceptances l calls s [])
        held = expected ∧
          (Retained.timed held).contents = (expected.map Stamped.value).reverse ∧
          ∀ last ∈ calls.getLast?, ∀ x ∈ held, ¬ Expired last.length last.now x := by
  refine ⟨exists_expiryLaw l, ?_⟩
  intro calls s hclock held expected
  have hordered : Ordered [] calls :=
    ⟨List.Pairwise.nil, List.pairwise_map.1 hclock, fun _ hx => absurd hx List.not_mem_nil⟩
  have hheld : held = expected := hordered.held_after l s
  refine ⟨hheld, by rw [hheld]; rfl, fun last hlast x hx => ?_⟩
  rw [hheld] at hx
  obtain ⟨⟨y, since⟩, hfound, rfl⟩ := List.mem_map.1 hx
  obtain ⟨hmem, hallowed⟩ := List.mem_filter.1 hfound
  rw [← getLast?_of_mem_acceptances hmem] at hlast
  exact Call.allows_iff.1 (of_decide_eq_true hallowed last (List.mem_of_getLast? hlast))

/-- The second element is refused, the third comes with a length beyond the origin of the clock, and
at ten the first is just young enough to stay. Then the length shrinks. -/
theorem holds_unexpired_of_stern :
    let calls : List Call := [.push (.int 1) 10 0, .push (.int (-1)) 10 3, .push (.int 2) 20 4,
      .push (.int 3) 10 10, .expire 5 12, .expire 100 13]
    (calls.map Call.now).Pairwise (· ≤ ·) ∧
      (after stern calls () []).2 = allowed (acceptances stern calls () []) ∧
      (after stern (calls.take 4) () []).2 = [⟨.int 1, 0⟩, ⟨.int 2, 4⟩, ⟨.int 3, 10⟩] ∧
      (after stern calls () []).2 = [⟨.int 3, 10⟩] := by
  intro calls
  have hclock : (calls.map Call.now).Pairwise (· ≤ ·) := by decide
  exact ⟨hclock, ((holds_unexpired stern).2 calls () hclock).1, rfl, rfl⟩

end LiveQuery.Window.Timed
