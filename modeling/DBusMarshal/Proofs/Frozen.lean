import DBusMarshal.Proofs.Bookkeeping

/-!
What stays as it is once a container is closed.

A call is refused when the one container that it goes to is closed. So a closed container keeps its
own items and stays closed, but a container inside it that was left open goes on to take items. What
lies inside a closed container is settled for good exactly when everything in it is closed, too.
-/

set_option autoImplicit false

namespace DBusMarshal

namespace Writer

/-! ### What lies inside a container -/

/-- A container is another one, or lies inside it at some depth. -/
inductive Inside (w : Writer) (sub : Nat) : Nat → Prop where
  | itself : Inside w sub sub
  | deeper {outer inner : Nat} (inside : Inside w sub outer)
      (holds : Slot.container inner ∈ w.itemsOf outer) : Inside w sub inner

/-- All that lies inside a container is as before: what the containers there hold, and which of
them are open. -/
structure Unchanged (sub : Nat) (before after : Writer) : Prop where
  items : ∀ handle, before.Inside sub handle → after.itemsOf handle = before.itemsOf handle
  isOpen : ∀ handle, before.Inside sub handle → (after.IsOpen handle ↔ before.IsOpen handle)

namespace Unchanged

variable {sub : Nat} {before between after : Writer}

theorem refl (sub : Nat) (w : Writer) : Unchanged sub w w where
  items := fun _ _ => rfl
  isOpen := fun _ _ => Iff.rfl

theorem inside (unchanged : Unchanged sub before after) {handle : Nat}
    (inside : before.Inside sub handle) : after.Inside sub handle := by
  induction inside with
  | itself => exact .itself
  | @deeper outer inner inside holds ih =>
      rw [← unchanged.items outer inside] at holds
      exact .deeper ih holds

theorem inside_of_after (unchanged : Unchanged sub before after) {handle : Nat}
    (inside : after.Inside sub handle) : before.Inside sub handle := by
  induction inside with
  | itself => exact .itself
  | @deeper outer inner _ holds ih =>
      rw [unchanged.items outer ih] at holds
      exact .deeper ih holds

theorem trans (first : Unchanged sub before between) (second : Unchanged sub between after) :
    Unchanged sub before after where
  items := fun handle inside =>
    (second.items handle (first.inside inside)).trans (first.items handle inside)
  isOpen := fun handle inside =>
    (second.isOpen handle (first.inside inside)).trans (first.isOpen handle inside)

end Unchanged

/-! ### One call -/

section Calls

variable {w : Writer} {call : Call} {sub handle : Nat}

theorem attempt_of_closed (known : call.Known w) (closed : ¬ w.IsOpen call.needs) :
    w.attempt call = (.error (.breach call.breach), w) := by
  rcases attempt_cases known with ⟨_, refused⟩ | ⟨isOpen, _⟩ | ⟨isOpen, _⟩
  · exact refused
  · exact absurd isOpen closed
  · exact absurd isOpen closed

theorem Event.needs_of_closed {event : Event} (closed : event.closed? = some handle) :
    event.call.needs = handle := by
  unfold Event.closed? at closed
  split at closed
  · next made _ =>
      rw [made]
      exact Option.some.inj closed
  · cases closed

/-- A call leaves every container as it is but the one that it goes to. -/
theorem attempt_elsewhere (known : call.Known w) (below : handle < w.containers.length)
    (elsewhere : call.needs ≠ handle) :
    (w.attempt call).2.itemsOf handle = w.itemsOf handle ∧
      ((w.attempt call).2.IsOpen handle ↔ w.IsOpen handle) := by
  have log := Log.of_attempt known
  have old : handle ∉ openedIn [w.event call] := fun opened =>
    Nat.not_lt.2 (log.opened_ge opened) below
  have kept : handle ∉ closedIn [w.event call] := by
    intro closed
    obtain ⟨event, listed, same⟩ := List.mem_filterMap.1 closed
    rw [List.mem_singleton.1 listed] at same
    exact elsewhere (Event.needs_of_closed same)
  constructor
  · rw [log.items, List.flatMap_singleton, Event.added_elsewhere elsewhere, List.append_nil]
  · rw [log.isOpen, or_iff_left old, and_iff_left kept]

/-- A closed container keeps its items and stays closed. -/
theorem attempt_keeps_closed (known : call.Known w) (below : handle < w.containers.length)
    (closed : ¬ w.IsOpen handle) :
    (w.attempt call).2.itemsOf handle = w.itemsOf handle ∧ ¬ (w.attempt call).2.IsOpen handle := by
  by_cases here : call.needs = handle
  · rw [attempt_of_closed known (here ▸ closed)]
    exact ⟨rfl, closed⟩
  · obtain ⟨items, isOpen⟩ := attempt_elsewhere known below here
    exact ⟨items, fun opened => closed (isOpen.1 opened)⟩

/-- The containers that a container holds are there. -/
def HoldsKnown (w : Writer) : Prop :=
  ∀ outer inner, Slot.container inner ∈ w.itemsOf outer → inner < w.containers.length

theorem Log.holdsKnown {failAt : Option Int} {events : List Event}
    (log : Log (start failAt) events w) : w.HoldsKnown := by
  intro outer inner holds
  rw [log.itemsOf_eq] at holds
  exact (log.mem_openedIn.1 (log.older outer inner holds).2).2

theorem Inside.lt (holdsKnown : w.HoldsKnown) (below : sub < w.containers.length)
    (inside : w.Inside sub handle) : handle < w.containers.length := by
  cases inside with
  | itself => exact below
  | deeper _ holds => exact holdsKnown _ _ holds

/-- Only a call to an open container changes what it lies inside. -/
theorem unchanged_of_attempt (holdsKnown : w.HoldsKnown) (below : sub < w.containers.length)
    (known : call.Known w) (shut : w.Inside sub call.needs → ¬ w.IsOpen call.needs) :
    Unchanged sub w (w.attempt call).2 := by
  by_cases inside : w.Inside sub call.needs
  · rw [attempt_of_closed known (shut inside)]
    exact .refl sub w
  · have elsewhere : ∀ handle, w.Inside sub handle → call.needs ≠ handle :=
      fun handle other same => inside (same ▸ other)
    exact
      { items := fun handle other =>
          (attempt_elsewhere known (other.lt holdsKnown below) (elsewhere handle other)).1
        isOpen := fun handle other =>
          (attempt_elsewhere known (other.lt holdsKnown below) (elsewhere handle other)).2 }

end Calls

/-! ### Any calls -/

theorem afterCalls_append (w : Writer) (first second : List Call) :
    w.afterCalls (first ++ second) = (w.afterCalls first).afterCalls second :=
  List.foldl_append

section Runs

variable {w : Writer} {calls : List Call} {sub handle : Nat}

theorem length_le_attempt {call : Call} (known : call.Known w) :
    w.containers.length ≤ (w.attempt call).2.containers.length := by
  rw [(Log.of_attempt known).length]
  exact Nat.le_add_right _ _

theorem afterCalls_keeps_closed (known : w.AllKnown calls) (below : handle < w.containers.length)
    (closed : ¬ w.IsOpen handle) :
    (w.afterCalls calls).itemsOf handle = w.itemsOf handle ∧
      ¬ (w.afterCalls calls).IsOpen handle := by
  induction calls generalizing w with
  | nil => exact ⟨rfl, closed⟩
  | cons call rest ih =>
      obtain ⟨items, kept⟩ := attempt_keeps_closed known.1 below closed
      obtain ⟨itemsLater, keptLater⟩ :=
        ih known.2 (Nat.lt_of_lt_of_le below (length_le_attempt known.1)) kept
      exact ⟨itemsLater.trans items, keptLater⟩

theorem HoldsKnown.attempt {call : Call} (holdsKnown : w.HoldsKnown) (known : call.Known w) :
    (w.attempt call).2.HoldsKnown := by
  have log := Log.of_attempt known
  intro outer inner holds
  rw [log.items, List.mem_append] at holds
  rcases holds with old | new
  · exact Nat.lt_of_lt_of_le (holdsKnown outer inner old) (length_le_attempt known)
  · have opened := (log.older outer inner new).2
    rw [log.opened, List.mem_range'_1] at opened
    rw [log.length]
    exact opened.2

/-- What lies inside a container with everything in it closed stays as it is. -/
theorem unchanged_afterCalls (holdsKnown : w.HoldsKnown) (below : sub < w.containers.length)
    (known : w.AllKnown calls) (shut : ∀ handle, w.Inside sub handle → ¬ w.IsOpen handle) :
    Unchanged sub w (w.afterCalls calls) := by
  induction calls generalizing w with
  | nil => exact .refl sub w
  | cons call rest ih =>
      have first := unchanged_of_attempt holdsKnown below known.1 (shut call.needs)
      -- What lies inside is the same as before, so it is still closed.
      have shutLater : ∀ handle, (w.attempt call).2.Inside sub handle →
          ¬ (w.attempt call).2.IsOpen handle := by
        intro handle inside isOpen
        have before := first.inside_of_after inside
        exact shut handle before ((first.isOpen handle before).1 isOpen)
      exact first.trans (ih (holdsKnown.attempt known.1)
        (Nat.lt_of_lt_of_le below (length_le_attempt known.1)) known.2 shutLater)

end Runs

/-! ### Containers left open -/

section Grows

variable {w : Writer} {handle : Nat}

theorem itemsOf_attempt_append (isOpen : w.IsOpen handle) (supplied : w.failsNext = false)
    (typeConst : String) (value : Value) :
    (w.attempt (.append handle typeConst (.value value))).2.itemsOf handle =
      w.itemsOf handle ++ [.value value] := by
  have known : (Call.append handle typeConst (.value value)).Known w := ⟨isOpen.lt, value, rfl⟩
  rcases attempt_cases known with ⟨closed, _⟩ | ⟨_, fails, _⟩ | ⟨_, _, done⟩
  · exact absurd isOpen closed
  · rw [supplied] at fails
    cases fails
  · rw [done]
    change (w.count.push handle (.value value)).itemsOf handle = _
    rw [itemsOf_push (w := w.count) isOpen.lt, if_pos rfl]
    rfl

theorem failsNext_count (fails : w.failsNext = true) : w.count.failsNext = false := by
  rw [failsNext, beq_iff_eq] at fails
  rw [failsNext, beq_eq_false_iff_ne]
  intro again
  have same : ((w.ops + 1 : Nat) : Int) = ((w.ops + 1 + 1 : Nat) : Int) :=
    Option.some.inj (fails.symm.trans again)
  omega

/-- An open container takes another item: by the next call or, where this one has no memory, by the
one after it. -/
theorem exists_calls_of_isOpen (isOpen : w.IsOpen handle) :
    ∃ calls, w.AllKnown calls ∧ (w.afterCalls calls).itemsOf handle ≠ w.itemsOf handle := by
  have known : (Call.append handle "" (.value .null)).Known w := ⟨isOpen.lt, .null, rfl⟩
  cases fails : w.failsNext with
  | false =>
      refine ⟨[.append handle "" (.value .null)], ⟨known, trivial⟩, ?_⟩
      change (w.attempt _).2.itemsOf handle ≠ _
      rw [itemsOf_attempt_append isOpen fails]
      simp
  | true =>
      have short : (w.attempt (.append handle "" (.value .null))).2 = w.count := by
        rcases attempt_cases known with ⟨closed, _⟩ | ⟨_, _, ended⟩ | ⟨_, supplied, _⟩
        · exact absurd isOpen closed
        · rw [ended]
        · rw [supplied] at fails
          cases fails
      refine ⟨[.append handle "" (.value .null), .append handle "" (.value .null)],
        ⟨known, short ▸ known, trivial⟩, ?_⟩
      change ((w.attempt _).2.attempt _).2.itemsOf handle ≠ _
      rw [short, itemsOf_attempt_append (w := w.count) isOpen (failsNext_count fails)]
      change w.itemsOf handle ++ _ ≠ _
      simp

end Grows

/-! ### After a close -/

/-- What holds of a container from its close on: its own items are settled, calls to it are
refused, and only a call to a container that was left open changes what lies inside. -/
structure ClosedSince (sub : Nat) (w later : Writer) : Prop where
  items : later.itemsOf sub = w.itemsOf sub
  closed : ¬ later.IsOpen sub
  refused : ∀ call, call.Known later → call.needs = sub →
    later.attempt call = (.error (.breach call.breach), later)
  changed : ∀ call, call.Known later → ¬ Unchanged sub later (later.attempt call).2 →
    later.Inside sub call.needs ∧ later.IsOpen call.needs

section Closed

variable {failAt : Option Int} {front : List Call} {around : Slot} {sub : Nat} {w : Writer}

/-- A close that is done leaves its container closed. -/
theorem not_isOpen_of_closed {call : Call} (known : call.Known w)
    (closed : (w.event call).closed? = some sub) : ¬ (w.attempt call).2.IsOpen sub := by
  rw [(Log.of_attempt known).isOpen]
  intro isOpen
  exact isOpen.2 (List.mem_filterMap.2 ⟨_, List.mem_singleton_self _, closed⟩)

/-- Once a container is closed, it keeps its items and refuses all calls. What lies inside it stays
as it is, whatever calls follow, if and only if everything there is closed. -/
theorem frozen_iff_closed
    (known : (start failAt).AllKnown (front ++ [.closeContainer around sub]))
    (closed : (((start failAt).afterCalls front).event (.closeContainer around sub)).closed? =
      some sub)
    (now : (start failAt).afterCalls (front ++ [.closeContainer around sub]) = w) :
    (∀ later, w.AllKnown later → ClosedSince sub w (w.afterCalls later)) ∧
      ((∀ later, w.AllKnown later → Unchanged sub w (w.afterCalls later)) ↔
        ∀ handle, w.Inside sub handle → ¬ w.IsOpen handle) := by
  obtain ⟨_, knownClose, _⟩ := allKnown_append.1 known
  have log := log_history _ _ known
  have ended : (((start failAt).afterCalls front).attempt (.closeContainer around sub)).2 = w :=
    (afterCalls_append _ _ _).symm.trans now
  have below : sub < w.containers.length :=
    ended ▸ Nat.lt_of_lt_of_le knownClose.2 (length_le_attempt knownClose)
  have shut : ¬ w.IsOpen sub := ended ▸ not_isOpen_of_closed knownClose closed
  rw [now] at log
  refine ⟨fun later knownLater => ?_, fun frozen handle inside isOpen => ?_, fun shutInside later
    knownLater => unchanged_afterCalls log.holdsKnown below knownLater shutInside⟩
  · have logLater := log.trans (log_history w later knownLater)
    obtain ⟨items, kept⟩ := afterCalls_keeps_closed knownLater below shut
    have belowLater : sub < (w.afterCalls later).containers.length := by
      rw [(log_history w later knownLater).length]
      exact Nat.lt_of_lt_of_le below (Nat.le_add_right _ _)
    refine ⟨items, kept, fun call knownCall here => ?_, fun call knownCall differs => ?_⟩
    · exact attempt_of_closed knownCall (here ▸ kept)
    · by_contra neither
      exact differs (unchanged_of_attempt logLater.holdsKnown belowLater knownCall
        fun inside isOpen => neither ⟨inside, isOpen⟩)
  · obtain ⟨later, knownLater, grown⟩ := exists_calls_of_isOpen isOpen
    exact grown ((frozen later knownLater).items handle inside)

end Closed

/-- A struct that holds a list. The list is closed first, and the operation that would close the
struct has no memory, so that it is closed by the next one. -/
def innerFirst : List Call :=
  [.openContainer 0 "DBUS_TYPE_STRUCT" none, .openContainer 1 "DBUS_TYPE_ARRAY" (some "i"),
    .append 2 "DBUS_TYPE_INT32" (.value (.int 7)), .closeContainer (.container 1) 2,
    .closeContainer (.container 0) 1]

def innerFirstClosed : Writer :=
  (start (some 5)).afterCalls (innerFirst ++ [.closeContainer (.container 0) 1])

theorem inside_innerFirst {handle : Nat} (inside : innerFirstClosed.Inside 1 handle) :
    handle = 1 ∨ handle = 2 := by
  induction inside with
  | itself => exact Or.inl rfl
  | @deeper outer inner _ holds ih =>
      rcases ih with same | same <;> subst same
      · exact Or.inr (Slot.container.inj (List.mem_singleton.1 holds))
      · cases List.mem_singleton.1 holds

theorem frozen_iff_closed_innerFirst :
    (start (some 5)).AllKnown (innerFirst ++ [.closeContainer (.container 0) 1]) ∧
      (((start (some 5)).afterCalls innerFirst).event
        (.closeContainer (.container 0) 1)).closed? = some 1 ∧
      (∀ later, innerFirstClosed.AllKnown later →
        ClosedSince 1 innerFirstClosed (innerFirstClosed.afterCalls later)) ∧
      ∀ later, innerFirstClosed.AllKnown later →
        Unchanged 1 innerFirstClosed (innerFirstClosed.afterCalls later) := by
  have known : (start (some 5)).AllKnown (innerFirst ++ [.closeContainer (.container 0) 1]) :=
    ⟨Nat.zero_lt_one, Nat.one_lt_two, ⟨by decide, _, rfl⟩, ⟨⟨1, by decide, rfl⟩, by decide⟩,
      ⟨⟨0, by decide, rfl⟩, by decide⟩, ⟨⟨0, by decide, rfl⟩, by decide⟩, trivial⟩
  obtain ⟨since, frozen⟩ := frozen_iff_closed known rfl (rfl : _ = innerFirstClosed)
  refine ⟨known, rfl, since, frozen.2 ?_⟩
  intro handle inside
  rcases inside_innerFirst inside with same | same <;> subst same
  · rintro ⟨container, found, isOpen⟩
    cases found
    cases isOpen
  · rintro ⟨container, found, isOpen⟩
    cases found
    cases isOpen

/-- A struct that holds a list. The struct is closed while the list is open. -/
def outerFirst : List Call :=
  [.openContainer 0 "DBUS_TYPE_STRUCT" none, .openContainer 1 "DBUS_TYPE_ARRAY" (some "i"),
    .closeContainer (.container 0) 1]

/-- Behind the close of the struct, the list inside it takes an item and a container. -/
def outerFirstLater : List Call :=
  [.append 2 "DBUS_TYPE_INT32" (.value (.int 7)), .openContainer 2 "DBUS_TYPE_STRUCT" none]

theorem nested_stays_writable :
    (start none).AllKnown (outerFirst ++ outerFirstLater) ∧
      ((start none).history (outerFirst ++ outerFirstLater)).map Event.outcome =
        [.ok (.opened 1), .ok (.opened 2), .ok .done, .ok .done, .ok (.opened 3)] ∧
      ((start none).afterCalls outerFirst).Inside 1 2 ∧
      ¬ Unchanged 1 ((start none).afterCalls outerFirst)
        ((start none).afterCalls (outerFirst ++ outerFirstLater)) := by
  have inside : ((start none).afterCalls outerFirst).Inside 1 2 :=
    .deeper .itself (List.mem_singleton_self _)
  refine ⟨?_, rfl, inside, fun unchanged => ?_⟩
  · exact ⟨Nat.zero_lt_one, Nat.one_lt_two, ⟨⟨0, by decide, rfl⟩, by decide⟩,
      ⟨by decide, _, rfl⟩, Nat.lt_succ_self 2, trivial⟩
  · cases unchanged.items 2 inside

end Writer

end DBusMarshal
