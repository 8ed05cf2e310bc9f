import Mathlib.Data.List.Nodup
import DBusMarshal.Proofs.Code
import DBusMarshal.Proofs.History

/-!
The message that any calls leave behind.

A container only ever holds younger ones, so the containers form a tree below the root. Reading a
message walks this tree: it ends, it comes to every container, and it finds the values that the
events tell of.
-/

set_option autoImplicit false

namespace DBusMarshal

/-- What an item is read as, given what containers are read as. -/
def Slot.readWith (contents : Nat → List Value) : Slot → Value
  | .value item => item
  | .container handle => .list (contents handle)

section Reading

variable {ε α β : Type} {read : α → Except ε β}

/-- Reading items one after the other ends with the first fault, if there is one. -/
theorem mapM_cases (result : α → β) {Bad : ε → Prop} {items : List α}
    (each : ∀ item ∈ items,
      read item = .ok (result item) ∨ ∃ fault, Bad fault ∧ read item = .error fault) :
    items.mapM read = .ok (items.map result) ∨
      ∃ fault, Bad fault ∧ items.mapM read = .error fault := by
  induction items with
  | nil => exact Or.inl rfl
  | cons item rest ih =>
      rw [List.mapM_cons]
      rcases each item List.mem_cons_self with done | ⟨fault, bad, failed⟩
      · rw [done]
        rcases ih fun other inside => each other (List.mem_cons_of_mem item inside) with
          finished | ⟨fault, bad, failed⟩
        · exact Or.inl (by rw [finished]; rfl)
        · exact Or.inr ⟨fault, bad, by rw [failed]; rfl⟩
      · exact Or.inr ⟨fault, bad, by rw [failed]; rfl⟩

theorem each_of_mapM {items : List α} {results : List β} (done : items.mapM read = .ok results) :
    ∀ item ∈ items, ∃ result, read item = .ok result := by
  induction items generalizing results with
  | nil => exact fun item inside => absurd inside List.not_mem_nil
  | cons first rest ih =>
      rw [List.mapM_cons] at done
      cases head : read first with
      | error fault =>
          rw [head] at done
          cases done
      | ok result =>
          rw [head] at done
          cases tail : rest.mapM read with
          | error fault =>
              change (rest.mapM read >>= _) = _ at done
              rw [tail] at done
              cases done
          | ok others => exact List.forall_mem_cons.2 ⟨⟨result, head⟩, ih tail⟩

end Reading

namespace Writer

/-- The values that a container receives: each value that is appended to it, and for each container
that is opened in it the list of the values that this one receives. -/
def content : List Event → Nat → List Value
  | [], _ => []
  | event :: rest, handle =>
    (event.added handle).map (Slot.readWith fun inner => content rest inner) ++ content rest handle

theorem Event.added_elsewhere {event : Event} {handle : Nat}
    (different : event.call.needs ≠ handle) : event.added handle = [] := by
  unfold Event.added
  split
  · next made _ =>
      rw [made] at different
      exact if_neg different
  · next made _ =>
      rw [made] at different
      exact if_neg different
  · rfl

/-- No container receives anything before it is opened: its values are those of its items, each
read by all of the events. -/
def Settled (events : List Event) : Prop :=
  ∀ handle, content events handle =
    (events.flatMap (Event.added handle)).map (Slot.readWith (content events))

theorem settled_history {w : Writer} {calls : List Call} (known : w.AllKnown calls) :
    Settled (w.history calls) := by
  induction calls generalizing w with
  | nil => exact fun _ => rfl
  | cons call rest ih =>
      intro handle
      have log := log_history w (call :: rest) known
      change content (w.event call :: (w.attempt call).2.history rest) handle = _
      have unchanged : ∀ item ∈ (w.history (call :: rest)).flatMap (Event.added handle),
          item.readWith (content ((w.attempt call).2.history rest)) =
            item.readWith (content (w.history (call :: rest))) := by
        intro item added
        cases item with
        | value item => rfl
        | container inner =>
            -- The container is opened here or later, so this call does not go to it.
            have beyond := log.opened_ge (log.older handle inner added).2
            have none : (w.event call).added inner = [] :=
              Event.added_elsewhere (Nat.ne_of_lt (Nat.lt_of_lt_of_le known.1.lt beyond))
            change Value.list _ = Value.list (content (_ :: _) inner)
            rw [content, none]
            rfl
      rw [← List.map_congr_left unchanged, content, ih known.2 handle, history, List.flatMap_cons,
        List.map_append]

/-! ### The tree of containers -/

section Tree

variable {w : Writer} {failAt : Option Int} {events : List Event}

theorem itemsOf_start (handle : Nat) : (start failAt).itemsOf handle = [] := by
  cases handle with
  | zero => rfl
  | succ later => exact itemsOf_beyond (Nat.succ_le_succ (Nat.zero_le later))

theorem Log.itemsOf_eq (log : Log (start failAt) events w) (handle : Nat) :
    w.itemsOf handle = events.flatMap (Event.added handle) := by
  rw [log.items, itemsOf_start, List.nil_append]

/-- The containers that were opened are all but the root. -/
theorem Log.mem_openedIn (log : Log (start failAt) events w) {handle : Nat} :
    handle ∈ openedIn events ↔ 0 < handle ∧ handle < w.containers.length := by
  have longer : w.containers.length = 1 + (openedIn events).length := log.length
  rw [log.opened, List.mem_range'_1, longer]
  rfl

theorem Log.held_perm (log : Log (start failAt) events w) : w.held.Perm (openedIn events) :=
  log.held

theorem Log.count_held (log : Log (start failAt) events w) {handle : Nat}
    (opened : handle ∈ openedIn events) : w.held.count handle = 1 := by
  have distinct : (openedIn events).Nodup := by
    rw [log.opened]
    exact List.nodup_range'
  rw [log.held_perm.count_eq, List.count_eq_one_of_mem distinct opened]

theorem mem_held {handle : Nat} :
    handle ∈ w.held ↔ ∃ outer, Slot.container handle ∈ w.itemsOf outer := by
  have names : ∀ item : Slot, item.handle? = some handle ↔ item = .container handle := by
    intro item
    cases item <;> simp [Slot.handle?]
  simp only [held, List.mem_filterMap, names, exists_eq_right, List.mem_flatMap]
  constructor
  · rintro ⟨container, listed, inside⟩
    obtain ⟨outer, found⟩ := List.mem_iff_getElem?.1 listed
    exact ⟨outer, by rw [itemsOf_of_found found]; exact inside⟩
  · rintro ⟨outer, inside⟩
    rw [itemsOf] at inside
    split at inside
    · next container found => exact ⟨container, List.mem_of_getElem? found, inside⟩
    · exact absurd inside List.not_mem_nil

/-- A container that was opened lies in an older one. -/
theorem Log.exists_around (log : Log (start failAt) events w) {handle : Nat}
    (opened : handle ∈ openedIn events) :
    ∃ outer < handle, Slot.container handle ∈ w.itemsOf outer := by
  obtain ⟨outer, inside⟩ := mem_held.1 (log.held_perm.mem_iff.2 opened)
  have added := inside
  rw [log.itemsOf_eq] at added
  exact ⟨outer, (log.older outer handle added).1, inside⟩

theorem Log.isOpen_iff (log : Log (start failAt) events w) {handle : Nat}
    (opened : handle ∈ openedIn events) : w.IsOpen handle ↔ handle ∉ closedIn events := by
  rw [log.isOpen, and_iff_right (Or.inr opened)]

end Tree

/-! ### Reading a message -/

section Values

variable {w : Writer} {failAt : Option Int} {events : List Event}

/-- The fault of reading a message in which a container is left open. -/
def LeftOpen (w : Writer) (events : List Event) (fault : Fault) : Prop :=
  ∃ handle container, handle ∈ openedIn events ∧ handle ∉ closedIn events ∧
    w.containers[handle]? = some container ∧ fault = .breach (.neverClosed container.typeConst)

theorem plain_of_open {handle depth : Nat} {container : Container}
    (found : w.containers[handle]? = some container) (isOpen : container.isOpen = true) :
    w.plain (depth + 1) (.container handle) =
      .error (.breach (.neverClosed container.typeConst)) := by
  have known : w.container handle = .ok container := by
    rw [Writer.container, found]
  rw [plain, known]
  change (if container.isOpen = true then _ else _) = _
  rw [if_pos isOpen]
  rfl

theorem plain_of_closed {handle depth : Nat} {container : Container}
    (found : w.containers[handle]? = some container) (closed : container.isOpen = false) :
    w.plain (depth + 1) (.container handle) =
      Value.list <$> (w.itemsOf handle).mapM (w.plain depth) := by
  have known : w.container handle = .ok container := by
    rw [Writer.container, found]
  rw [plain, known, itemsOf_of_found found]
  change (if container.isOpen = true then _ else _) = _
  rw [closed, if_neg Bool.false_ne_true]
  rfl

/-- The items of a container are read as what it received, unless a container is left open. The
depth that is left is enough, since every container that is read is younger than the last. -/
theorem Log.mapM_plain (log : Log (start failAt) events w) (settled : Settled events) :
    ∀ depth handle : Nat, w.containers.length ≤ depth + handle →
      (w.itemsOf handle).mapM (w.plain depth) = .ok (content events handle) ∨
        ∃ fault, LeftOpen w events fault ∧
          (w.itemsOf handle).mapM (w.plain depth) = .error fault := by
  intro depth
  induction depth with
  | zero =>
      intro handle enough
      rw [Nat.zero_add] at enough
      rw [settled handle, ← log.itemsOf_eq, itemsOf_beyond enough]
      exact Or.inl rfl
  | succ depth ih =>
      intro handle enough
      rw [settled handle, ← log.itemsOf_eq]
      refine mapM_cases _ fun item inside => ?_
      cases item with
      | value item => exact Or.inl rfl
      | container inner =>
          rw [log.itemsOf_eq] at inside
          obtain ⟨younger, opened⟩ := log.older handle inner inside
          obtain ⟨container, found⟩ : ∃ container, w.containers[inner]? = some container :=
            ⟨_, List.getElem?_eq_getElem (log.mem_openedIn.1 opened).2⟩
          cases state : container.isOpen with
          | true =>
              have kept := (log.isOpen_iff opened).1 ⟨container, found, state⟩
              exact Or.inr ⟨_, ⟨inner, container, opened, kept, found, rfl⟩,
                plain_of_open found state⟩
          | false =>
              rw [plain_of_closed found state]
              rcases ih inner (by omega) with read | ⟨fault, left, failed⟩
              · exact Or.inl (by rw [read]; rfl)
              · exact Or.inr ⟨fault, left, by rw [failed]; rfl⟩

/-- A container that can be read is closed, and so can its items be read. -/
theorem closed_of_plain {handle depth : Nat} {value : Value}
    (read : w.plain depth (.container handle) = .ok value) :
    ¬ w.IsOpen handle ∧ ∃ less values, (w.itemsOf handle).mapM (w.plain less) = .ok values := by
  cases depth with
  | zero => cases read
  | succ less =>
      cases found : w.containers[handle]? with
      | none =>
          rw [plain, Writer.container, found] at read
          cases read
      | some container =>
          cases state : container.isOpen with
          | true =>
              rw [plain_of_open found state] at read
              cases read
          | false =>
              refine ⟨by simp [IsOpen, found, state], less, ?_⟩
              rw [plain_of_closed found state] at read
              cases items : (w.itemsOf handle).mapM (w.plain less) with
              | error fault =>
                  rw [items] at read
                  cases read
              | ok values => exact ⟨values, rfl⟩

/-- Reading a message comes to every container. -/
theorem Log.reached (log : Log (start failAt) events w) {values : List Value}
    (read : w.values = .ok values) :
    ∀ handle < w.containers.length,
      (handle ∈ openedIn events → ¬ w.IsOpen handle) ∧
        ∃ depth inner, (w.itemsOf handle).mapM (w.plain depth) = .ok inner := by
  intro handle
  induction handle using Nat.strongRecOn with
  | _ handle ih =>
      intro below
      by_cases opened : handle ∈ openedIn events
      · -- The container lies in an older one, which has been read.
        obtain ⟨outer, older, inside⟩ := log.exists_around opened
        obtain ⟨_, depth, items, each⟩ := ih outer older (Nat.lt_trans older below)
        obtain ⟨value, one⟩ := each_of_mapM each _ inside
        obtain ⟨closed, further⟩ := closed_of_plain one
        exact ⟨fun _ => closed, further⟩
      · have isRoot : handle = root := by
          rw [log.mem_openedIn] at opened
          change handle = 0
          omega
        subst isRoot
        exact ⟨fun inside => absurd inside opened, _, _, read⟩

/-- Reading a message either meets a container that is left open, or all are closed and the message
is what the root received. -/
theorem Log.values_cases (log : Log (start failAt) events w) (settled : Settled events) :
    ((∀ handle ∈ openedIn events, handle ∈ closedIn events) ∧
        w.values = .ok (content events root)) ∨
      ∃ fault, LeftOpen w events fault ∧ w.values = .error fault := by
  rcases log.mapM_plain settled w.containers.length root (Nat.le_add_right _ _) with
    read | ⟨fault, left, failed⟩
  · refine Or.inl ⟨fun handle opened => ?_, read⟩
    have closed := (log.reached read handle (log.mem_openedIn.1 opened).2).1 opened
    rw [log.isOpen_iff opened] at closed
    exact not_not.1 closed
  · exact Or.inr ⟨fault, left, failed⟩

end Values

/-! ### The books -/

/-- What the next call does after some events. -/
structure Entry (failAt : Option Int) (events : List Event) (w : Writer) (call : Call) : Prop where
  short : (w.event call).short = true ↔ (w.event call).counted = true ∧
    failAt = some ((events.countP Event.counted + 1 : Nat) : Int)
  failed : (w.event call).counted = false ∨ (w.event call).short = true →
    (w.attempt call).2.containers = w.containers
  items : ∀ handle, (w.attempt call).2.itemsOf handle =
    w.itemsOf handle ++ (w.event call).added handle
  isOpen : ∀ handle, (w.attempt call).2.IsOpen handle ↔
    (w.IsOpen handle ∨ (w.event call).opened? = some handle) ∧
      (w.event call).closed? ≠ some handle

/-- What events tell about the writer after them. -/
structure Books (events : List Event) (w : Writer) : Prop where
  ops : w.ops = events.countP Event.counted
  short : events.countP Event.short ≤ 1
  held : ∀ handle ∈ openedIn events, w.held.count handle = 1
  readable : (∃ values, w.values = .ok values) ↔
    ∀ handle ∈ openedIn events, handle ∈ closedIn events
  values : (∀ handle ∈ openedIn events, handle ∈ closedIn events) →
    w.values = .ok (content events root)
  leftOpen : (∃ handle ∈ openedIn events, handle ∉ closedIn events) →
    ∃ fault, LeftOpen w events fault ∧ w.values = .error fault

theorem Log.entry {failAt : Option Int} {events : List Event} {w : Writer} {call : Call}
    (log : Log (start failAt) events w) (known : call.Known w) : Entry failAt events w call where
  short := by
    have done : w.ops = events.countP Event.counted := log.ops.trans (Nat.zero_add _)
    rw [short_iff known, log.failAt, done]
    rfl
  failed := containers_of_failed known
  items := fun handle => by
    rw [(of_attempt known).items, List.flatMap_singleton]
  isOpen := fun handle => by
    simp only [(of_attempt known).isOpen, openedIn, closedIn, List.mem_filterMap,
      List.mem_singleton, exists_eq_left]

theorem Log.books {failAt : Option Int} {events : List Event} {w : Writer}
    (log : Log (start failAt) events w) (settled : Settled events)
    (short : events.countP Event.short ≤ 1) : Books events w where
  ops := log.ops.trans (Nat.zero_add _)
  short := short
  held := fun _ opened => log.count_held opened
  readable := by
    rcases log.values_cases settled with
      ⟨closed, read⟩ | ⟨fault, ⟨handle, _, opened, kept, _⟩, failed⟩
    · exact ⟨fun _ => closed, fun _ => ⟨_, read⟩⟩
    · constructor
      · rintro ⟨values, read⟩
        rw [failed] at read
        cases read
      · exact fun closed => absurd (closed handle opened) kept
  values := fun closed => by
    rcases log.values_cases settled with ⟨_, read⟩ | ⟨fault, ⟨handle, _, opened, kept, _⟩, _⟩
    · exact read
    · exact absurd (closed handle opened) kept
  leftOpen := by
    rintro ⟨handle, opened, kept⟩
    rcases log.values_cases settled with ⟨closed, _⟩ | unread
    · exact absurd (closed handle opened) kept
    · exact unread

/-- The books of a message after any calls on known containers, and the entry of each of them. -/
theorem calls_accounted (failAt : Option Int) {calls : List Call}
    (known : (start failAt).AllKnown calls) :
    Books ((start failAt).history calls) ((start failAt).afterCalls calls) ∧
      ∀ front call back, calls = front ++ call :: back →
        Entry failAt ((start failAt).history front) ((start failAt).afterCalls front) call := by
  refine ⟨(log_history _ calls known).books (settled_history known) (countP_short_le known), ?_⟩
  intro front call back split
  subst split
  obtain ⟨before, later⟩ := allKnown_append.1 known
  exact (log_history _ front before).entry later.1

/-- Calls that close the root under another container and write to it again. Their fifth operation
has no memory, and the outer container is closed before the inner one. -/
def unruly : List Call :=
  [.openContainer 0 "DBUS_TYPE_STRUCT" none, .append 1 "DBUS_TYPE_INT32" (.value (.int 5)),
    .closeContainer (.container 1) 0, .append 0 "DBUS_TYPE_INT32" (.value (.int 6)),
    .openContainer 1 "DBUS_TYPE_ARRAY" (some "i"), .append 1 "DBUS_TYPE_INT32" (.value (.int 7)),
    .append 2 "DBUS_TYPE_INT32" (.value (.int 8)), .closeContainer (.container 0) 1,
    .closeContainer (.container 1) 2]

theorem calls_accounted_unruly :
    (start (some 5)).AllKnown unruly ∧
      Books ((start (some 5)).history unruly) ((start (some 5)).afterCalls unruly) ∧
      (∀ front call back, unruly = front ++ call :: back →
        Entry (some 5) ((start (some 5)).history front) ((start (some 5)).afterCalls front) call) ∧
      ((start (some 5)).history unruly).map Event.counted =
        [true, true, true, false, true, true, true, true, true] ∧
      ((start (some 5)).history unruly).map Event.short =
        [false, false, false, false, false, true, false, false, false] ∧
      ((start (some 5)).afterCalls unruly).values =
        .ok [.list [.int 5, .list [.int 8]]] := by
  have known : (start (some 5)).AllKnown unruly :=
    ⟨Nat.zero_lt_one, ⟨Nat.one_lt_two, _, rfl⟩, ⟨⟨1, Nat.one_lt_two, rfl⟩, Nat.zero_lt_two⟩,
      ⟨Nat.zero_lt_two, _, rfl⟩, Nat.one_lt_two, ⟨by decide, _, rfl⟩, ⟨by decide, _, rfl⟩,
      ⟨⟨0, by decide, rfl⟩, by decide⟩, ⟨⟨1, by decide, rfl⟩, by decide⟩, trivial⟩
  obtain ⟨books, entries⟩ := calls_accounted (some 5) known
  exact ⟨known, books, entries, rfl, rfl, rfl⟩

end Writer

end DBusMarshal
