import DBusMarshal.Scope
import DBusMarshal.VarList

/-!
The variables and lists at hand while code is generated.

A pool is a registry that tells how many of its variables and of its lists are in use, so that new
ones can be taken. Code is generated onto two lists of a pool. While it is, a new variable is given
to a list, and variables go from one list to another; every such change is one of the registry, with
all its demands.
-/

set_option autoImplicit false

namespace DBusMarshal

structure Pool extends Registry where
  varCount : Nat
  listCount : Nat

/-- The two lists that code is generated onto. -/
structure Lists where
  inputs : Nat
  locals : Nat
deriving DecidableEq, Repr

/-- An action on a pool. When it fails, the pool keeps the changes that were made before. -/
abbrev Emit := EStateM Fault Pool

namespace Pool

/-- The pool with one more list, which holds nothing. -/
def withList (pool : Pool) : Pool :=
  { pool with
    members := exchangeAt pool.members pool.listCount []
    listCount := pool.listCount + 1 }

/-- The pool with one more variable, which has no owner. -/
def withVar (pool : Pool) (entry : TypedVar) : Pool :=
  { pool with
    vars := exchangeAt pool.vars pool.varCount entry
    owner := exchangeAt pool.owner pool.varCount none
    varCount := pool.varCount + 1 }

/-- Take two new lists. -/
def newLists : Emit Lists := fun pool =>
  .ok { inputs := pool.listCount, locals := pool.listCount + 1 } pool.withList.withList

def newVar (entry : TypedVar) : Emit Nat := fun pool => .ok pool.varCount (pool.withVar entry)

/-- Change the registry of a pool. -/
def change (action : EStateM Fault Registry Unit) : Emit Unit := fun pool =>
  match action pool.toRegistry with
  | .ok _ registry => .ok () { pool with toRegistry := registry }
  | .error fault registry => .error fault { pool with toRegistry := registry }

/-- Give a new variable to a list. -/
def declare (list : Nat) (entry : TypedVar) : Emit Unit := do
  let var ← newVar entry
  change (Registry.add list var)

/-- What two lists of a pool hold. -/
def scope (pool : Pool) (lists : Lists) : Scope :=
  { inputs := pool.listed lists.inputs, locals := pool.listed lists.locals }

/-! ### Pools for a scope -/

/-- The pool with a new variable at the end of a list. -/
def put (list : Nat) (pool : Pool) (entry : TypedVar) : Pool :=
  { pool.withVar entry with
    toRegistry := (pool.withVar entry).append list pool.varCount }

/-- The lists of a pool that is made for a scope. -/
def firstLists : Lists := { inputs := 0, locals := 1 }

/-- Two lists that hold nothing. -/
def start : Pool :=
  { Registry.start fun _ => { type := "", name := { base := "" } } with
    varCount := 0
    listCount := 2 }

/-- Two lists that hold the variables of a scope. -/
def holding (scope : Scope) : Pool :=
  scope.locals.foldl (put firstLists.locals) (scope.inputs.foldl (put firstLists.inputs) start)

end Pool

end DBusMarshal
