import DBusMarshal.Value

/-!
A message under construction.

A message is built in containers. The root container is there from the start; every other one is
opened inside a container and closed later. A container is known by its number. The writer counts
the calls it performs and can be told which of them runs out of memory: that call is counted and
changes nothing else. A call on a closed container is a breach and is not counted.
-/

set_option autoImplicit false

namespace DBusMarshal

/-- What a variable or a container may hold: a value, which is plain data and has no containers in
it, or a container by its number. -/
inductive Slot where
  | value (value : Value)
  | container (handle : Nat)
deriving Repr

/-- A container: its D-Bus constant and element signature, what it holds, and whether it is open. -/
structure Container where
  typeConst : Option String
  signature : Option String
  items : List Slot := []
  isOpen : Bool := true
deriving Repr

/-- All containers by their number, the operations done so far, and the operation that fails. -/
structure Writer where
  containers : List Container
  ops : Nat := 0
  failAt : Option Int := none
deriving Repr

namespace Writer

def root : Nat := 0

def start (failAt : Option Int) : Writer :=
  { containers := [{ typeConst := none, signature := none }], failAt }

def rootItems (w : Writer) : List Slot :=
  match w.containers[root]? with
  | some container => container.items
  | none => []

/-! ### Calls -/

inductive Call where
  /-- Append an item to a container. -/
  | append (target : Nat) (typeConst : String) (item : Slot)
  /-- Open a container inside another one. -/
  | openContainer (target : Nat) (typeConst : String) (signature : Option String)
  /-- Close a container. What it is closed under plays no part. -/
  | closeContainer (around : Slot) (inner : Nat)
deriving Repr

inductive Reply where
  | noMemory
  | done
  | opened (handle : Nat)
deriving DecidableEq, Repr

def failsNext (w : Writer) : Bool := w.failAt == some ((w.ops + 1 : Nat) : Int)

def count (w : Writer) : Writer := { w with ops := w.ops + 1 }

def modify (w : Writer) (handle : Nat) (change : Container → Container) : Writer :=
  { w with containers := w.containers.modify handle change }

/-- Put an item at the end of a container. -/
def push (w : Writer) (handle : Nat) (item : Slot) : Writer :=
  w.modify handle fun container => { container with items := container.items ++ [item] }

def close (w : Writer) (handle : Nat) : Writer :=
  w.modify handle fun container => { container with isOpen := false }

def container (w : Writer) (handle : Nat) : Except Fault Container :=
  match w.containers[handle]? with
  | some container => .ok container
  | none => .error .outOfRange

/-- The container that has to be open for a call. -/
def Call.needs : Call → Nat
  | .append target _ _ => target
  | .openContainer target _ _ => target
  | .closeContainer _ inner => inner

/-- The breach of making a call when that container is closed. -/
def Call.breach : Call → Breach
  | .append _ _ _ => .appendToClosed
  | .openContainer _ _ _ => .openInsideClosed
  | .closeContainer _ _ => .closedTwice

/-- Carry out a call for which there is memory. -/
def carryOut (w : Writer) : Call → Reply × Writer
  | .append target _ item => (.done, w.push target item)
  | .openContainer target typeConst signature =>
    let inner := w.containers.length
    let grown := w.push target (.container inner)
    (.opened inner,
      { grown with containers := grown.containers ++ [{ typeConst := some typeConst, signature }] })
  | .closeContainer _ inner => (.done, w.close inner)

/-- Perform a call: it is a breach when its container is closed, and is counted otherwise. -/
def perform (w : Writer) (call : Call) : Except Fault (Reply × Writer) :=
  match w.container call.needs with
  | .error fault => .error fault
  | .ok container =>
    if !container.isOpen then .error (.breach call.breach)
    else if w.failsNext then .ok (.noMemory, w.count)
    else .ok (w.count.carryOut call)

@[simp]
theorem ops_carryOut (w : Writer) (call : Call) : (w.carryOut call).2.ops = w.ops := by
  cases call <;> rfl

/-- Every call that is no breach is counted. -/
theorem ops_perform {w next : Writer} {call : Call} {reply : Reply}
    (performed : w.perform call = .ok (reply, next)) : next.ops = w.ops + 1 := by
  unfold perform at performed
  split at performed
  · contradiction
  · split at performed
    · contradiction
    · split at performed
      · cases performed
        rfl
      · have same := congrArg (fun result => result.2.ops) (Except.ok.inj performed)
        rw [← same, ops_carryOut]
        rfl

/-! ### The finished message -/

/-- What an item stands for once every container is closed: a container is the list of its items.
A chain of containers longer than `depth` holds one of them twice. That the interpreter limits how
deep it recurses is left out. -/
def plain (w : Writer) : (depth : Nat) → Slot → Except Fault Value
  | _, .value value => .ok value
  | 0, .container _ => .error .endless
  | depth + 1, .container handle => do
    let container ← w.container handle
    if container.isOpen then throw (.breach (.neverClosed container.typeConst))
    return .list (← container.items.mapM (w.plain depth))

def values (w : Writer) : Except Fault (List Value) :=
  w.rootItems.mapM (w.plain w.containers.length)

/-! ### The state of a message -/

/-- A container with everything in it, as far as that is finite. -/
inductive Picture where
  | value (value : Value)
  | container (container : Container) (items : List Picture)
  /-- A container inside itself. -/
  | cycle

/-- A picture of an item that lies inside the given containers, at most `depth` deep. -/
def picture (w : Writer) : (depth : Nat) → (around : List Nat) → Slot → Picture
  | _, _, .value value => .value value
  | 0, _, .container _ => .cycle
  | depth + 1, around, .container handle =>
    if around.contains handle then .cycle
    else
      match w.containers[handle]? with
      | some container =>
        .container container (container.items.map (w.picture depth (handle :: around)))
      | none => .cycle

def pictures (w : Writer) : List Picture :=
  w.rootItems.map (w.picture w.containers.length [root])

end Writer

end DBusMarshal
