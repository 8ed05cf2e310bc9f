import DBusMarshal.CType
import DBusMarshal.Text.Quoted
import DBusMarshal.VarName

/-!
Lists of variables in which every variable has at most one owner.

A registry holds a family of variables and a family of lists. A variable joins a list
when it has no owner and no variable of the list has its name. A transfer takes a variable out of
its list before the target accepts it, so a refused transfer leaves the variable without an owner.
-/

set_option autoImplicit false

namespace DBusMarshal

/-! ### Families -/

/-- A family of entries with the entry at one index exchanged. -/
def exchangeAt {α : Type} (family : Nat → α) (index : Nat) (entry : α) : Nat → α :=
  fun other => if other = index then entry else family other

@[simp]
theorem exchangeAt_same {α : Type} (family : Nat → α) (index : Nat) (entry : α) :
    exchangeAt family index entry index = entry := by
  simp [exchangeAt]

theorem exchangeAt_other {α : Type} (family : Nat → α) {index other : Nat} (entry : α)
    (different : other ≠ index) : exchangeAt family index entry other = family other := by
  simp [exchangeAt, different]

/-! ### Registries -/

/-- A family of variables and a family of lists: what every variable is, which list owns it, and
which variables every list holds, in order. -/
structure Registry where
  vars : Nat → TypedVar
  owner : Nat → Option Nat
  members : Nat → List Nat

namespace Registry

/-- Every list is empty and no variable has an owner. -/
def start (vars : Nat → TypedVar) : Registry :=
  { vars
    owner := fun _ => none
    members := fun _ => [] }

/-! ### Views -/

def listed (r : Registry) (list : Nat) : List TypedVar := (r.members list).map r.vars

def names (r : Registry) (list : Nat) : List String := (r.listed list).map (·.name.text)

/-- The variable at an index of a list, where a negative index counts from the end. -/
def entryAt (r : Registry) (list : Nat) (index : Int) : Except Fault TypedVar :=
  let listed := r.listed list
  let position := if index < 0 then index + listed.length else index
  if position < 0 then .error .outOfRange
  else
    match listed[position.toNat]? with
    | some entry => .ok entry
    | none => .error .outOfRange

/-- A list as a message shows it: the type and the name of every variable. -/
def shown (r : Registry) (list : Nat) : String :=
  let pair (entry : TypedVar) : String :=
    "(" ++ Text.quoted entry.type ++ ", " ++ Text.quoted entry.name.text ++ ")"
  "VarList([" ++ ", ".intercalate ((r.listed list).map pair) ++ "])"

/-! ### Changes -/

/-- Put a variable at the end of a list. -/
def append (r : Registry) (list var : Nat) : Registry :=
  { r with
    owner := exchangeAt r.owner var (some list)
    members := exchangeAt r.members list (r.members list ++ [var]) }

def remove (r : Registry) (list var : Nat) : Registry :=
  { r with
    owner := exchangeAt r.owner var none
    members := exchangeAt r.members list ((r.members list).erase var) }

def nameText (r : Registry) (var : Nat) : String := (r.vars var).name.text

/-- Give a variable without an owner to a list that holds no variable of its name. -/
def add (list var : Nat) : EStateM Fault Registry Unit := do
  let r ← get
  if (r.owner var).isSome then throw (.breach (.alreadyOwned (r.nameText var)))
  if (r.listed list).any (·.name = (r.vars var).name) then
    throw (.breach (.duplicateName (r.nameText var)))
  set (r.append list var)

/-- Move a variable from the list that owns it to the end of another list. -/
def transfer (list var other : Nat) : EStateM Fault Registry Unit := do
  let r ← get
  if r.owner var ≠ some list then throw (.breach (.notOwned (r.nameText var)))
  set (r.remove list var)
  add other var

/-- Move several variables of a list, in order, until one is refused. -/
def transferEach (list other : Nat) : List Nat → EStateM Fault Registry Unit
  | [] => return
  | var :: rest => do
    transfer list var other
    transferEach list other rest

/-- Move all variables of a list, in order, until one is refused. -/
def transferAll (list other : Nat) : EStateM Fault Registry Unit := do
  transferEach list other ((← get).members list)

end Registry

end DBusMarshal
