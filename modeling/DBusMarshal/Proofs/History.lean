import Mathlib.Data.List.Count
import DBusMarshal.Proofs.Steps

/-!
Any sequence of calls on a writer.

The calls may go to any containers in any order, and some of them may be refused or run out of
memory. A call together with what came of it is an event. The events tell what every container
holds, which containers are open, and how many operations were done. Every container that was opened
is held once, by a container that is older than itself.
-/

set_option autoImplicit false

namespace DBusMarshal

def Slot.handle? : Slot → Option Nat
  | .value _ => none
  | .container handle => some handle

namespace Writer

/-! ### Events -/

/-- Make a call, whatever comes of it. A breach leaves the writer as it was. -/
def attempt (w : Writer) (call : Call) : Except Fault Reply × Writer :=
  match w.perform call with
  | .ok (reply, next) => (.ok reply, next)
  | .error fault => (.error fault, w)

/-- A call that was made, and what came of it. -/
structure Event where
  call : Call
  outcome : Except Fault Reply

namespace Event

/-- The call is no breach. -/
def counted (event : Event) : Bool :=
  match event.outcome with
  | .ok _ => true
  | .error _ => false

/-- The call runs out of memory. -/
def short (event : Event) : Bool :=
  match event.outcome with
  | .ok .noMemory => true
  | _ => false

/-- The container that is opened. -/
def opened? (event : Event) : Option Nat :=
  match event.outcome with
  | .ok (.opened handle) => some handle
  | _ => none

/-- The container that is closed. -/
def closed? (event : Event) : Option Nat :=
  match event.call, event.outcome with
  | .closeContainer _ inner, .ok .done => some inner
  | _, _ => none

/-- What a container receives: an item that is appended to it, or a container that is opened in
it. -/
def added (handle : Nat) (event : Event) : List Slot :=
  match event.call, event.outcome with
  | .append target _ item, .ok .done => if target = handle then [item] else []
  | .openContainer target _ _, .ok (.opened inner) =>
    if target = handle then [.container inner] else []
  | _, _ => []

end Event

/-- The event of a call. -/
def event (w : Writer) (call : Call) : Event := ⟨call, (w.attempt call).1⟩

/-- The events of calls that are made one after the other. -/
def history (w : Writer) : List Call → List Event
  | [] => []
  | call :: rest => w.event call :: history (w.attempt call).2 rest

/-- The writer after calls that were made one after the other. -/
def afterCalls (w : Writer) (calls : List Call) : Writer :=
  calls.foldl (fun w call => (w.attempt call).2) w

def openedIn (events : List Event) : List Nat := events.filterMap Event.opened?

def closedIn (events : List Event) : List Nat := events.filterMap Event.closed?

/-! ### Calls on known containers -/

/-- The containers of a call are there, and an item that is appended is no container. -/
def Call.Known (w : Writer) : Call → Prop
  | .append target _ item => target < w.containers.length ∧ ∃ value, item = .value value
  | .openContainer target _ _ => target < w.containers.length
  | .closeContainer around inner =>
    (∃ outer < w.containers.length, around = .container outer) ∧ inner < w.containers.length

/-- Every call goes to containers that are there when it is made. -/
def AllKnown (w : Writer) : List Call → Prop
  | [] => True
  | call :: rest => call.Known w ∧ AllKnown (w.attempt call).2 rest

variable {w : Writer} {call : Call}

theorem Call.Known.lt (known : call.Known w) : call.needs < w.containers.length := by
  cases call with
  | append target typeConst item => exact known.1
  | openContainer target typeConst signature => exact known
  | closeContainer around inner => exact known.2

/-- How a call ends: refused on a closed container, out of memory, or carried out. -/
theorem attempt_cases (known : call.Known w) :
    (¬ w.IsOpen call.needs ∧ w.attempt call = (.error (.breach call.breach), w)) ∨
      (w.IsOpen call.needs ∧ w.failsNext = true ∧ w.attempt call = (.ok .noMemory, w.count)) ∨
      (w.IsOpen call.needs ∧ w.failsNext = false ∧
        w.attempt call = (.ok (w.count.carryOut call).1, (w.count.carryOut call).2)) := by
  obtain ⟨container, found⟩ : ∃ container, w.containers[call.needs]? = some container :=
    ⟨_, List.getElem?_eq_getElem known.lt⟩
  have reached : w.container call.needs = .ok container := by
    rw [Writer.container, found]
  have performed : w.perform call =
      if (!container.isOpen) = true then .error (.breach call.breach)
      else if w.failsNext = true then .ok (.noMemory, w.count)
      else .ok (w.count.carryOut call) := by
    rw [perform, reached]
  have isOpen_iff : w.IsOpen call.needs ↔ container.isOpen = true := by
    simp [IsOpen, found]
  rw [isOpen_iff, attempt, performed]
  cases container.isOpen with
  | false => exact Or.inl ⟨Bool.false_ne_true, rfl⟩
  | true =>
      cases w.failsNext with
      | true => exact Or.inr (Or.inl ⟨rfl, rfl, rfl⟩)
      | false => exact Or.inr (Or.inr ⟨rfl, rfl, rfl⟩)

/-- A call runs out of memory when it is counted as the operation that fails. -/
theorem short_iff (known : call.Known w) : (w.event call).short = true ↔
    (w.event call).counted = true ∧ w.failAt = some ((w.ops + 1 : Nat) : Int) := by
  have fails_iff : w.failsNext = true ↔ w.failAt = some ((w.ops + 1 : Nat) : Int) := by
    rw [failsNext, beq_iff_eq]
  rw [← fails_iff]
  rcases attempt_cases known with ⟨_, ended⟩ | ⟨_, fails, ended⟩ | ⟨_, enough, ended⟩
  · rw [event, ended]
    simp [Event.short, Event.counted]
  · rw [event, ended]
    simp [Event.short, Event.counted, fails]
  · rw [event, ended, enough]
    cases call <;> simp [Event.short, carryOut]

/-- A call that is refused or runs out of memory leaves all containers as they were. -/
theorem containers_of_failed (known : call.Known w)
    (failed : (w.event call).counted = false ∨ (w.event call).short = true) :
    (w.attempt call).2.containers = w.containers := by
  rcases attempt_cases known with ⟨_, ended⟩ | ⟨_, _, ended⟩ | ⟨_, _, ended⟩
  · rw [ended]
  · rw [ended]
    rfl
  · rw [event, ended] at failed
    cases call <;> simp [Event.counted, Event.short, carryOut] at failed

/-! ### What containers hold -/

def itemsOf (w : Writer) (handle : Nat) : List Slot :=
  match w.containers[handle]? with
  | some container => container.items
  | none => []

/-- The containers that are items of some container, one after the other. -/
def held (w : Writer) : List Nat :=
  (w.containers.flatMap (·.items)).filterMap Slot.handle?

section Holding

variable {w : Writer} {target : Nat}

theorem itemsOf_of_found {handle : Nat} {container : Container}
    (found : w.containers[handle]? = some container) : w.itemsOf handle = container.items := by
  rw [itemsOf, found]

theorem itemsOf_beyond {handle : Nat} (beyond : w.containers.length ≤ handle) :
    w.itemsOf handle = [] := by
  rw [itemsOf, List.getElem?_eq_none beyond]

theorem itemsOf_push (below : target < w.containers.length) (item : Slot) (handle : Nat) :
    (w.push target item).itemsOf handle =
      w.itemsOf handle ++ if target = handle then [item] else [] := by
  by_cases same : target = handle
  · subst same
    have found := List.getElem?_eq_getElem below
    rw [if_pos rfl, itemsOf, push, modify_at, itemsOf, found]
    rfl
  · rw [if_neg same, List.append_nil, itemsOf, push, modify_elsewhere w _ (Ne.symm same), itemsOf]

theorem itemsOf_close (handle : Nat) : (w.close target).itemsOf handle = w.itemsOf handle := by
  by_cases same : handle = target
  · subst same
    rw [itemsOf, close, modify_at, itemsOf]
    cases w.containers[handle]? <;> rfl
  · rw [itemsOf, close, modify_elsewhere w _ same, itemsOf]

/-- A change to one container that puts items at its end adds them to what all containers hold. -/
theorem flatMap_modify_perm (change : Container → Container) {more : List Slot}
    (grows : ∀ container : Container, (change container).items = container.items ++ more) :
    ∀ {containers : List Container} {target : Nat}, target < containers.length →
      ((containers.modify target change).flatMap (·.items)).Perm
        (containers.flatMap (·.items) ++ more)
  | container :: rest, 0, _ => by
      rw [List.modify_zero_cons, List.flatMap_cons, List.flatMap_cons, grows, List.append_assoc,
        List.append_assoc]
      exact (List.perm_append_comm).append_left _
  | container :: rest, target + 1, below => by
      rw [List.modify_succ_cons, List.flatMap_cons, List.flatMap_cons, List.append_assoc]
      exact (flatMap_modify_perm change grows (Nat.lt_of_succ_lt_succ below)).append_left _

theorem held_push (below : target < w.containers.length) (item : Slot) :
    (w.push target item).held.Perm (w.held ++ item.handle?.toList) := by
  have grown := flatMap_modify_perm
    (fun container => { container with items := container.items ++ [item] }) (fun _ => rfl) below
  have kept := grown.filterMap Slot.handle?
  rw [List.filterMap_append] at kept
  cases item <;> exact kept

theorem held_close (below : target < w.containers.length) : (w.close target).held.Perm w.held := by
  have same := flatMap_modify_perm (fun container => { container with isOpen := false })
    (fun _ => (List.append_nil _).symm) below
  rw [List.append_nil] at same
  exact same.filterMap Slot.handle?

theorem isOpen_push (item : Slot) (handle : Nat) :
    (w.push target item).IsOpen handle ↔ w.IsOpen handle := by
  by_cases same : handle = target
  · subst same
    simp [IsOpen, push, modify_at]
  · simp [IsOpen, push, modify_elsewhere w _ same]

theorem isOpen_close (handle : Nat) :
    (w.close target).IsOpen handle ↔ w.IsOpen handle ∧ target ≠ handle := by
  by_cases same : handle = target
  · subst same
    simp [IsOpen, close, modify_at]
  · simp [IsOpen, close, modify_elsewhere w _ same, Ne.symm same]

section Appended

variable {next : Writer} {container : Container}

theorem itemsOf_appended (grown : next.containers = w.containers ++ [container])
    (empty : container.items = []) (handle : Nat) : next.itemsOf handle = w.itemsOf handle := by
  rcases Nat.lt_trichotomy handle w.containers.length with old | rfl | beyond
  · rw [itemsOf, grown, List.getElem?_append_left old, itemsOf]
  · rw [itemsOf, grown, List.getElem?_concat_length, itemsOf_beyond (Nat.le_refl _)]
    exact empty
  · rw [itemsOf_beyond (Nat.le_of_lt beyond), itemsOf_beyond]
    rw [grown, List.length_append]
    exact beyond

theorem isOpen_appended (grown : next.containers = w.containers ++ [container])
    (opened : container.isOpen = true) (handle : Nat) :
    next.IsOpen handle ↔ w.IsOpen handle ∨ handle = w.containers.length := by
  rcases Nat.lt_trichotomy handle w.containers.length with old | rfl | beyond
  · rw [IsOpen, grown, List.getElem?_append_left old]
    exact ⟨Or.inl, fun cases => cases.resolve_right (Nat.ne_of_lt old)⟩
  · simp [IsOpen, grown, opened]
  · constructor
    · intro isOpen
      have below := isOpen.lt
      rw [grown, List.length_append, List.length_singleton] at below
      omega
    · rintro (isOpen | same)
      · exact absurd isOpen.lt (Nat.not_lt.2 (Nat.le_of_lt beyond))
      · exact absurd same (Nat.ne_of_gt beyond)

theorem held_appended (grown : next.containers = w.containers ++ [container])
    (empty : container.items = []) : next.held = w.held := by
  rw [held, grown, List.flatMap_append, List.flatMap_singleton, empty, List.append_nil, held]

end Appended

end Holding

/-! ### What events tell -/

theorem openedIn_append (first second : List Event) :
    openedIn (first ++ second) = openedIn first ++ openedIn second :=
  List.filterMap_append

theorem closedIn_append (first second : List Event) :
    closedIn (first ++ second) = closedIn first ++ closedIn second :=
  List.filterMap_append

/-- What events tell about the writer before them and the writer after them. -/
structure Log (before : Writer) (events : List Event) (after : Writer) : Prop where
  ops : after.ops = before.ops + events.countP Event.counted
  failAt : after.failAt = before.failAt
  length : after.containers.length = before.containers.length + (openedIn events).length
  opened : openedIn events = List.range' before.containers.length (openedIn events).length
  closed : ∀ handle ∈ closedIn events, handle < after.containers.length
  items : ∀ handle,
    after.itemsOf handle = before.itemsOf handle ++ events.flatMap (Event.added handle)
  isOpen : ∀ handle, after.IsOpen handle ↔
    (before.IsOpen handle ∨ handle ∈ openedIn events) ∧ handle ∉ closedIn events
  held : after.held.Perm (before.held ++ openedIn events)
  older : ∀ outer inner, Slot.container inner ∈ events.flatMap (Event.added outer) →
    outer < inner ∧ inner ∈ openedIn events

namespace Log

variable {before between after : Writer} {events first second : List Event}

theorem opened_ge (log : Log before events after) {handle : Nat}
    (opened : handle ∈ openedIn events) : before.containers.length ≤ handle := by
  rw [log.opened] at opened
  exact (List.mem_range'_1.1 opened).1

theorem refl (w : Writer) : Log w [] w where
  ops := rfl
  failAt := rfl
  length := rfl
  opened := rfl
  closed := fun _ closed => absurd closed List.not_mem_nil
  items := fun _ => (List.append_nil _).symm
  isOpen := fun _ => by simp [openedIn, closedIn]
  held := by simp [openedIn]
  older := fun _ _ added => absurd added List.not_mem_nil

theorem trans (left : Log before first between) (right : Log between second after) :
    Log before (first ++ second) after where
  ops := by rw [right.ops, left.ops, List.countP_append, Nat.add_assoc]
  failAt := right.failAt.trans left.failAt
  length := by
    rw [right.length, left.length, openedIn_append, List.length_append, Nat.add_assoc]
  opened := by
    have beyond := right.opened
    rw [left.length] at beyond
    rw [openedIn_append, List.length_append, ← List.range'_append_1, ← left.opened, ← beyond]
  closed := by
    intro handle closed
    rw [closedIn_append, List.mem_append] at closed
    rcases closed with early | late
    · have below := left.closed handle early
      have longer := right.length
      omega
    · exact right.closed handle late
  items := by
    intro handle
    rw [right.items, left.items, List.flatMap_append, List.append_assoc]
  isOpen := by
    intro handle
    -- A container that is opened later is too young to have been closed before.
    have fresh : handle ∈ openedIn second → handle ∉ closedIn first := fun opened closed =>
      Nat.not_lt.2 (right.opened_ge opened) (left.closed handle closed)
    rw [right.isOpen, left.isOpen, openedIn_append, closedIn_append, List.mem_append,
      List.mem_append]
    tauto
  held := by
    rw [openedIn_append, ← List.append_assoc]
    exact right.held.trans (left.held.append_right _)
  older := by
    intro outer inner added
    rw [List.flatMap_append, List.mem_append] at added
    rw [openedIn_append, List.mem_append]
    rcases added with early | late
    · exact (left.older outer inner early).imp_right Or.inl
    · exact (right.older outer inner late).imp_right Or.inr

/-! ### One call -/

section Steps

variable {w next : Writer} {event : Event} {target : Nat}

/-- An event that leaves all containers as they were. -/
theorem of_idle (opened : event.opened? = none) (closed : event.closed? = none)
    (added : ∀ handle, event.added handle = []) (same : next.containers = w.containers)
    (failAt : next.failAt = w.failAt) (ops : next.ops = w.ops + event.counted.toNat) :
    Log w [event] next where
  ops := by rw [ops, List.countP_singleton]; cases event.counted <;> rfl
  failAt := failAt
  length := by simp [openedIn, opened, same]
  opened := by simp [openedIn, opened]
  closed := by simp [closedIn, closed]
  items := fun handle => by simp [itemsOf, same, added]
  isOpen := fun handle => by simp [IsOpen, same, openedIn, closedIn, opened, closed]
  held := by simp [openedIn, opened, Writer.held, same]
  older := fun outer inner => by simp [added]

theorem of_append (below : target < w.containers.length) (typeConst : String) (value : Value) :
    Log w [⟨.append target typeConst (.value value), .ok .done⟩]
      (w.count.push target (.value value)) where
  ops := rfl
  failAt := rfl
  length := length_modify _ _ _
  opened := rfl
  closed := fun _ closed => absurd closed List.not_mem_nil
  items := fun handle => by
    rw [itemsOf_push (w := w.count) below, List.flatMap_singleton]
    rfl
  isOpen := fun handle => by
    rw [isOpen_push]
    simp [openedIn, closedIn, Event.opened?, Event.closed?, IsOpen, count]
  held := held_push (w := w.count) below _
  older := fun outer inner added => by
    rw [List.flatMap_singleton] at added
    change Slot.container inner ∈ if target = outer then [Slot.value value] else [] at added
    split at added <;> simp at added

theorem of_open (below : target < w.containers.length) (typeConst : String)
    (signature : Option String) :
    Log w [⟨.openContainer target typeConst signature, .ok (.opened w.containers.length)⟩]
      (w.count.carryOut (.openContainer target typeConst signature)).2 where
  ops := rfl
  failAt := rfl
  length := length_open w target typeConst signature
  opened := rfl
  closed := fun _ closed => absurd closed List.not_mem_nil
  items := fun handle => by
    refine (itemsOf_appended (containers_open w target typeConst signature) rfl handle).trans ?_
    rw [itemsOf_push (w := w.count) below, List.flatMap_singleton]
    rfl
  isOpen := fun handle => by
    refine (isOpen_appended (containers_open w target typeConst signature) rfl handle).trans ?_
    rw [isOpen_push, length_push]
    change w.IsOpen handle ∨ _ ↔ (w.IsOpen handle ∨ handle ∈ [_]) ∧ handle ∉ []
    rw [List.mem_singleton, and_iff_left List.not_mem_nil]
  held := by
    have same := held_appended (containers_open w target typeConst signature) rfl
    exact same ▸ held_push (w := w.count) below _
  older := fun outer inner added => by
    rw [List.flatMap_singleton] at added
    change Slot.container inner ∈
      if target = outer then [Slot.container w.containers.length] else [] at added
    split at added
    · next same =>
        obtain rfl : inner = w.containers.length := by simpa using added
        exact ⟨same ▸ below, List.mem_singleton_self _⟩
    · exact absurd added List.not_mem_nil

theorem of_close (below : target < w.containers.length) (around : Slot) :
    Log w [⟨.closeContainer around target, .ok .done⟩] (w.count.close target) where
  ops := rfl
  failAt := rfl
  length := length_modify _ _ _
  opened := rfl
  closed := fun handle closed => by
    obtain rfl : handle = target := List.mem_singleton.1 closed
    rw [close, length_modify]
    exact below
  items := fun handle => by
    rw [itemsOf_close]
    exact (List.append_nil _).symm
  isOpen := fun handle => by
    rw [isOpen_close]
    change w.IsOpen handle ∧ target ≠ handle ↔ (_ ∨ handle ∈ []) ∧ handle ∉ [target]
    rw [List.mem_singleton, or_iff_left List.not_mem_nil, ne_comm]
  held := by
    change (w.count.close target).held.Perm (w.held ++ [])
    rw [List.append_nil]
    exact held_close (w := w.count) below
  older := fun outer inner added => absurd added List.not_mem_nil

end Steps

/-- Every call on known containers tells what it does. -/
theorem of_attempt {w : Writer} {call : Call} (known : call.Known w) :
    Log w [w.event call] (w.attempt call).2 := by
  rcases attempt_cases known with ⟨_, ended⟩ | ⟨_, _, ended⟩ | ⟨_, _, ended⟩
  · rw [event, ended]
    exact of_idle rfl (by cases call <;> rfl) (by cases call <;> exact fun _ => rfl) rfl rfl rfl
  · rw [event, ended]
    exact of_idle rfl (by cases call <;> rfl) (by cases call <;> exact fun _ => rfl) rfl rfl rfl
  · rw [event, ended]
    cases call with
    | append target typeConst item =>
        obtain ⟨below, value, rfl⟩ := known
        exact of_append below typeConst value
    | openContainer target typeConst signature => exact of_open known typeConst signature
    | closeContainer around inner => exact of_close known.2 around

end Log

theorem log_history (w : Writer) (calls : List Call) (known : w.AllKnown calls) :
    Log w (w.history calls) (w.afterCalls calls) := by
  induction calls generalizing w with
  | nil => exact Log.refl w
  | cons call rest ih => exact (Log.of_attempt known.1).trans (ih _ known.2)

theorem allKnown_append {first second : List Call} :
    w.AllKnown (first ++ second) ↔ w.AllKnown first ∧ (w.afterCalls first).AllKnown second := by
  induction first generalizing w with
  | nil => exact ⟨fun known => ⟨trivial, known⟩, And.right⟩
  | cons call rest ih =>
      change _ ∧ AllKnown _ (rest ++ second) ↔ (_ ∧ AllKnown _ rest) ∧ _
      rw [ih, and_assoc]
      rfl

/-- Once the operation that fails is done, every call has memory. -/
theorem countP_short_of_past {calls : List Call} (known : w.AllKnown calls)
    (past : ∀ later : Nat, w.ops < later → w.failAt ≠ some (later : Int)) :
    (w.history calls).countP Event.short = 0 := by
  induction calls generalizing w with
  | nil => rfl
  | cons call rest ih =>
      have log := Log.of_attempt known.1
      have supplied : ¬ (w.event call).short = true := by
        intro short
        exact past _ (Nat.lt_succ_self _) ((short_iff known.1).1 short).2
      rw [history, List.countP_cons_of_neg supplied]
      refine ih known.2 fun later above => ?_
      rw [log.failAt]
      exact past later (by have grown := log.ops; omega)

/-- At most one call runs out of memory. -/
theorem countP_short_le {calls : List Call} (known : w.AllKnown calls) :
    (w.history calls).countP Event.short ≤ 1 := by
  induction calls generalizing w with
  | nil => exact Nat.zero_le 1
  | cons call rest ih =>
      by_cases short : (w.event call).short = true
      · obtain ⟨counted, fails⟩ := (short_iff known.1).1 short
        have log := Log.of_attempt known.1
        have grown := log.ops
        rw [List.countP_singleton, if_pos counted] at grown
        have past : ∀ later : Nat, (w.attempt call).2.ops < later →
            (w.attempt call).2.failAt ≠ some (later : Int) := by
          intro later above same
          rw [log.failAt, fails] at same
          have reached : w.ops + 1 = later := Int.ofNat_inj.1 (Option.some.inj same)
          omega
        have supplied := countP_short_of_past known.2 past
        rw [history, List.countP_cons_of_pos short]
        omega
      · rw [history, List.countP_cons_of_neg short]
        exact ih known.2

end Writer

end DBusMarshal
