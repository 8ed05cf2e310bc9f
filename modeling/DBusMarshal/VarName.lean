import DBusMarshal.Fault

/-!
Structured names of variables.

A name is a base and a path of segments; `foo_element_len` is `foo` followed by an element segment
and a length segment. A name is moved from one origin to another by exchanging the front of its
path, never by editing its text.
-/

set_option autoImplicit false

namespace DBusMarshal

/-! ### Segments -/

/-- One step from a variable to a variable that belongs to it: a kind, with a number where the
kind counts. -/
structure Segment where
  kind : String
  number : Option Int := none
deriving DecidableEq, Repr

namespace Segment

/-- From an array to the element at hand. -/
def element : Segment := { kind := "element" }

/-- From an array to its length. -/
def len : Segment := { kind := "len" }

/-- From a container to the iterator that fills it. -/
def iter : Segment := { kind := "iter" }

/-- From an array to the index of a loop over it. -/
def index : Segment := { kind := "index" }

/-- From a struct to one of its members. -/
def item (position : Nat) : Segment := { kind := "item", number := some position }

def text (segment : Segment) : String :=
  if segment.kind = "item" then
    "_item" ++ match segment.number with
      | some number => toString number
      | none => "None"
  else if segment.kind = "index" then "_i"
  else "_" ++ segment.kind

end Segment

/-- The spelling of a path: the spellings of its segments, one after the other. -/
def pathText : List Segment → String
  | [] => ""
  | segment :: rest => segment.text ++ pathText rest

/-! ### Names -/

structure VarName where
  base : String
  path : List Segment := []
deriving DecidableEq, Repr

namespace VarName

def text (name : VarName) : String := name.base ++ pathText name.path

instance : ToString VarName := ⟨text⟩

/-- The name of a variable that belongs to another one. -/
def child (name : VarName) (segment : Segment) : VarName :=
  { name with path := name.path ++ [segment] }

/-- The name at the end of a path that starts at a name. -/
def append (name : VarName) (path : List Segment) : VarName :=
  { name with path := name.path ++ path }

/-- A name starts with another one of the same base whose path is the front of its own. -/
def startsWith (name origin : VarName) : Bool :=
  name.base == origin.base && origin.path.isPrefixOf name.path

/-- The path from an origin to a name that starts with it. -/
def pathFrom (name origin : VarName) : Except Fault (List Segment) :=
  if name.startsWith origin then .ok (name.path.drop origin.path.length)
  else .error (.breach (.notDerived name.text origin.text))

/-- The name that stands to a new origin as this name stands to an old one. -/
def rebase (name old new : VarName) : Except Fault VarName :=
  (name.pathFrom old).map new.append

/-- The field of an aggregate that a name stands for: the spelling of the path between them,
without the leading underscore. -/
def fieldOf (name aggregate : VarName) : Except Fault String :=
  match name.pathFrom aggregate with
  | .error fault => .error fault
  | .ok [] => .error (.breach (.aggregateItself name.text))
  | .ok path => .ok (.ofList ((pathText path).toList.drop 1))

/-! ### Moving names -/

theorem child_eq_append (name : VarName) (segment : Segment) :
    name.child segment = name.append [segment] := rfl

theorem append_append (name : VarName) (front back : List Segment) :
    (name.append front).append back = name.append (front ++ back) := by
  unfold append
  rw [List.append_assoc]

/-- A name starts with every name that it is built on. -/
theorem startsWith_append (name : VarName) (path : List Segment) :
    (name.append path).startsWith name = true := by
  simp [startsWith, append]

/-- The path from a name to a name built on it is what was added. -/
theorem pathFrom_append (name : VarName) (path : List Segment) :
    (name.append path).pathFrom name = .ok path := by
  rw [pathFrom, if_pos (startsWith_append name path)]
  simp [append]

/-- A name built on an old origin is rebuilt on the new one. -/
theorem rebase_append (old new : VarName) (path : List Segment) :
    (old.append path).rebase old new = .ok (new.append path) := by
  rw [rebase, pathFrom_append]
  rfl

end VarName

/-! ### Typed variables -/

structure TypedVar where
  type : String
  name : VarName
deriving DecidableEq, Repr

end DBusMarshal
