import DBusMarshal.Writer

/-!
Messages as trees, and the calls that write them.

The calls for a message follow its tree: a leaf is appended, and a container is opened, filled with
its items in order, and closed under the container that it was opened in. Containers are numbered
in the order in which they are opened. Carried out on any writer, the calls add one item to their
target, leave every other container alone, and close whatever they open; read back, the item is the
value that the message stands for.
-/

set_option autoImplicit false

namespace DBusMarshal

open Writer (Call)

inductive Message where
  | leaf (typeConst : String) (value : Value)
  | container (typeConst : String) (signature : Option String) (items : List Message)

namespace Message

mutual

/-- The number of containers in a message. -/
def containers : Message → Nat
  | leaf _ _ => 0
  | container _ _ items => containersAll items + 1

def containersAll : List Message → Nat
  | [] => 0
  | item :: rest => item.containers + containersAll rest

end

mutual

/-- The number of values in a message that are no containers. -/
def leaves : Message → Nat
  | leaf _ _ => 1
  | container _ _ items => leavesAll items

def leavesAll : List Message → Nat
  | [] => 0
  | item :: rest => item.leaves + leavesAll rest

end

mutual

/-- What a message is read back as: a container is the list of its items. -/
def plain : Message → Value
  | leaf _ value => value
  | container _ _ items => .list (plainAll items)

def plainAll : List Message → List Value
  | [] => []
  | item :: rest => item.plain :: plainAll rest

end

theorem plainAll_eq (items : List Message) : plainAll items = items.map plain := by
  induction items with
  | nil => rfl
  | cons item rest ih => rw [plainAll, ih, List.map_cons]

mutual

/-- The calls that write a message into a container, where `next` is the number that the next
container gets. -/
def calls (message : Message) (target next : Nat) : List Call :=
  match message with
  | leaf typeConst value => [.append target typeConst (.value value)]
  | container typeConst signature items =>
    .openContainer target typeConst signature ::
      (callsAll items next (next + 1) ++ [.closeContainer (.container target) next])

def callsAll (items : List Message) (target next : Nat) : List Call :=
  match items with
  | [] => []
  | item :: rest => item.calls target next ++ callsAll rest target (next + item.containers)

end

/-! ### The shape of the calls -/

mutual

theorem length_calls (message : Message) (target next : Nat) :
    (message.calls target next).length = message.leaves + 2 * message.containers := by
  cases message with
  | leaf typeConst value => rfl
  | container typeConst signature items =>
      have inner := length_callsAll items next (next + 1)
      simp only [calls, leaves, containers, List.length_cons, List.length_append,
        List.length_nil, inner]
      omega

theorem length_callsAll (items : List Message) (target next : Nat) :
    (callsAll items target next).length = leavesAll items + 2 * containersAll items := by
  cases items with
  | nil => rfl
  | cons item rest =>
      have first := length_calls item target next
      have others := length_callsAll rest target (next + item.containers)
      simp only [callsAll, leavesAll, containersAll, List.length_append, first, others]
      omega

end

end Message

/-- Follow calls with the numbers of the open containers, the innermost first, and the number of
the next one. A call has to go to the innermost container, and a container is closed under the one
around it; otherwise there is no result. -/
def Writer.nesting : (opened : List Nat) → (next : Nat) → List Call → Option (List Nat × Nat)
  | opened, next, [] => some (opened, next)
  | inner :: outer, next, .append target _ _ :: rest =>
    if target = inner then nesting (inner :: outer) next rest else none
  | inner :: outer, next, .openContainer target _ _ :: rest =>
    if target = inner then nesting (next :: inner :: outer) (next + 1) rest else none
  | inner :: around :: outer, next, .closeContainer (.container under) closed :: rest =>
    if closed = inner ∧ under = around then nesting (around :: outer) next rest else none
  | _, _, _ => none

namespace Message

mutual

theorem nesting_calls (message : Message) (target next : Nat) (outer : List Nat)
    (rest : List Call) :
    Writer.nesting (target :: outer) next (message.calls target next ++ rest) =
      Writer.nesting (target :: outer) (next + message.containers) rest := by
  cases message with
  | leaf typeConst value => simp [calls, containers, Writer.nesting]
  | container typeConst signature items =>
      have inner := nesting_callsAll items next (next + 1) (target :: outer)
        (.closeContainer (.container target) next :: rest)
      rw [calls, List.cons_append, Writer.nesting, if_pos rfl, List.append_assoc,
        List.singleton_append, inner, Writer.nesting, if_pos ⟨rfl, rfl⟩, containers]
      congr 1
      omega

theorem nesting_callsAll (items : List Message) (target next : Nat) (outer : List Nat)
    (rest : List Call) :
    Writer.nesting (target :: outer) next (callsAll items target next ++ rest) =
      Writer.nesting (target :: outer) (next + containersAll items) rest := by
  cases items with
  | nil => rfl
  | cons item others =>
      have first := nesting_calls item target next outer
        (callsAll others target (next + item.containers) ++ rest)
      have later := nesting_callsAll others target (next + item.containers) outer rest
      rw [callsAll, List.append_assoc, first, later, containersAll, Nat.add_assoc]

end

end Message

end DBusMarshal
