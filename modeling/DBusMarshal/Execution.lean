import DBusMarshal.Fragment
import DBusMarshal.Text.Quoted
import DBusMarshal.Writer

/-!
Running a fragment.

A machine holds the variables and the message under construction. A statement reads and writes
variables and calls the writer. When a call runs out of memory the recovery code is reached, which
ends the run. A run that fails keeps the machine as it was then. The machine also remembers which
calls it made; no statement reads them.
-/

set_option autoImplicit false

namespace DBusMarshal

/-! ### Machines -/

/-- The variables and what they hold, in the order in which they were written first. -/
abbrev Environment := List (VarName × Slot)

/-- Set a variable: in place when it is there, and at the end when it is new. -/
def Environment.set (env : Environment) (name : VarName) (slot : Slot) : Environment :=
  match env with
  | [] => [(name, slot)]
  | (other, old) :: rest =>
    if other = name then (other, slot) :: rest else (other, old) :: Environment.set rest name slot

/-- A variable that is set holds what it is set to. -/
theorem Environment.lookup_set_same (env : Environment) (name : VarName) (slot : Slot) :
    List.lookup name (env.set name slot) = some slot := by
  induction env with
  | nil => simp [Environment.set]
  | cons entry rest ih =>
    obtain ⟨other, old⟩ := entry
    by_cases same : other = name
    · simp [Environment.set, same]
    · have different : (name == other) = false := beq_eq_false_iff_ne.2 (Ne.symm same)
      rw [Environment.set, if_neg same, List.lookup_cons, different]
      exact ih

theorem Environment.lookup_set_other (env : Environment) {name other : VarName} (slot : Slot)
    (different : other ≠ name) : List.lookup other (env.set name slot) = List.lookup other env := by
  have unequal : (other == name) = false := beq_eq_false_iff_ne.2 different
  induction env with
  | nil => rw [Environment.set, List.lookup_cons, unequal]
  | cons entry rest ih =>
    obtain ⟨held, old⟩ := entry
    by_cases same : held = name
    · rw [Environment.set, if_pos same, List.lookup_cons, List.lookup_cons, same, unequal]
    · rw [Environment.set, if_neg same, List.lookup_cons, List.lookup_cons, ih]

/-- The variables, the message, and the calls of the writer so far, in order. -/
structure Machine where
  env : Environment
  writer : Writer
  calls : List Writer.Call := []
deriving Repr

abbrev Run := EStateM Fault Machine

namespace Machine

def read (name : VarName) : Run Slot := do
  match (← get).env.lookup name with
  | some slot => return slot
  | none => throw .missingKey

def write (name : VarName) (slot : Slot) : Run Unit :=
  modify fun m => { m with env := m.env.set name slot }

/-- Call the writer. Without memory the recovery code is reached. -/
def call (request : Writer.Call) (recovery : String) : Run Writer.Reply := do
  modify fun m => { m with calls := m.calls ++ [request] }
  let m ← get
  let (reply, writer) ← MonadExcept.ofExcept (m.writer.perform request)
  set { m with writer }
  match reply with
  | .noMemory => throw (.recovered recovery)
  | _ => return reply

def handle : Slot → Except Fault Nat
  | .container handle => .ok handle
  | .value _ => .error .noSuchPart

def value : Slot → Except Fault Value
  | .value value => .ok value
  | .container _ => .error .illTyped

/-- The part of what a slot holds that an index selects. -/
def select (slot index : Slot) : Except Fault Value := do
  (← value slot).select (← value index)

end Machine

open Machine

/-! ### Single statements -/

def runAppend (iter : VarName) (typeConst : String) (value : VarName) (recovery : String) :
    Run Unit := do
  let target ← read iter
  let item ← read value
  let target ← MonadExcept.ofExcept (handle target)
  let _ ← call (.append target typeConst item) recovery

/-- Open a container and remember it in a variable. -/
def runOpen (iter : VarName) (typeConst : String) (signature : Option String) (inner : VarName)
    (recovery : String) : Run Unit := do
  let target ← read iter
  let target ← MonadExcept.ofExcept (handle target)
  match ← call (.openContainer target typeConst signature) recovery with
  | .opened opened => write inner (.container opened)
  | _ => return

def runClose (iter inner : VarName) (recovery : String) : Run Unit := do
  let around ← read iter
  let target ← read inner
  let target ← MonadExcept.ofExcept (handle target)
  let _ ← call (.closeContainer around target) recovery

/-- Copy an element of an array into a variable. -/
def runAssign (target array index : VarName) : Run Unit := do
  let source ← read array
  let position ← read index
  write target (.value (← MonadExcept.ofExcept (select source position)))

/-- Copy a field of a struct into a variable. -/
def runReadField (target source : VarName) (field : String) : Run Unit := do
  let aggregate ← read source
  write target (.value (← MonadExcept.ofExcept (select aggregate (.value (.text field)))))

/-! ### Loops -/

/-- A loop goes round once more: the index is below the length, or the element is not null. -/
def loopContinues (index array : VarName) (length : Option VarName) : Run Bool := do
  let i ← read index
  match length with
  | some length =>
    let bound ← read length
    MonadExcept.ofExcept do (← value i).less (← value bound)
  | none =>
    let source ← read array
    let element ← MonadExcept.ofExcept (select source i)
    return !element.isNull

def loopAdvance (index : VarName) : Run Unit := do
  let i ← read index
  write index (.value (← MonadExcept.ofExcept do (← value i).successor))

/-- Repeat a body while a test holds, at most a number of rounds. -/
def repeatWhile (test : Run Bool) (body : Run Unit) : (rounds : Nat) → Run Unit
  | 0 => throw .unfinished
  | rounds + 1 => do
    if ← test then
      body
      repeatWhile test body rounds

/-! ### Fragments -/

mutual

/-- Run a statement; no loop goes round more often than `rounds`. -/
def Statement.run (rounds : Nat) (statement : Statement) : Run Unit :=
  match statement with
  | .comment _ => return
  | .blank => return
  | .declare _ name => write name (.value .null)
  | .append iter typeConst value recovery => runAppend iter typeConst value recovery
  | .openContainer iter typeConst signature inner recovery =>
    runOpen iter typeConst signature inner recovery
  | .closeContainer iter inner recovery => runClose iter inner recovery
  | .assign target array index => runAssign target array index
  | .readField target source field => runReadField target source field
  | .recovery code => throw (.recovered code)
  | .loop index array length body => do
    write index (.value (.int 0))
    repeatWhile (loopContinues index array length)
      (do
        Fragment.run rounds body
        loopAdvance index)
      rounds
  | .stray text => throw (.breach (.unexpectedStatement (Text.quoted text)))

/-- Run the statements of a fragment one after the other. That the interpreter limits how deep it
recurses is left out. -/
def Fragment.run (rounds : Nat) (statements : List Statement) : Run Unit :=
  match statements with
  | [] => return
  | statement :: rest => do
    statement.run rounds
    Fragment.run rounds rest

end

/-- Running two fragments one after the other is running both as one. -/
theorem Fragment.run_append (rounds : Nat) (first second : List Statement) :
    Fragment.run rounds (first ++ second) =
      (do
        Fragment.run rounds first
        Fragment.run rounds second) := by
  induction first with
  | nil => simp [Fragment.run]
  | cons statement rest ih => simp [Fragment.run, ih]

/-- The rounds that a loop may go in a run without a limit of its own; no list is so long. -/
def maxRounds : Nat := 0x1000000000000000

/-- A machine whose variables hold values, apart from the iterator of the root container. A name
given twice takes the later value. -/
def Machine.start (inputs : List (VarName × Value)) (iter : Option VarName) (failAt : Option Int) :
    Machine :=
  let given : Environment :=
    inputs.foldl (fun env input => Environment.set env input.1 (.value input.2)) []
  { env := match iter with
      | some name => given.set name (.container Writer.root)
      | none => given
    writer := .start failAt }

end DBusMarshal
