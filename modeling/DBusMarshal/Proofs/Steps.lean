import DBusMarshal.Execution
import DBusMarshal.Proofs.Emission
import DBusMarshal.Proofs.Writing

/-!
What single statements do to a machine.

Every statement has one lemma: when the variables that it reads hold what they should and the
container that it writes to is open, the statement succeeds, and the machine afterwards is known.
-/

set_option autoImplicit false

namespace DBusMarshal

open Writer (Call)

/-! ### Variables that stay as they are -/

/-- The variables that do not lie below a name hold what they held before. -/
def Environment.AgreesOutside (origin : VarName) (before after : Environment) : Prop :=
  ∀ other : VarName, ¬ other.Below origin → List.lookup other after = List.lookup other before

namespace Environment.AgreesOutside

variable {origin : VarName} {before between after : Environment}

theorem refl (origin : VarName) (env : Environment) : AgreesOutside origin env env :=
  fun _ _ => rfl

theorem trans (first : AgreesOutside origin before between)
    (second : AgreesOutside origin between after) : AgreesOutside origin before after := by
  intro other outside
  rw [second other outside, first other outside]

theorem of_child {segment : Segment}
    (agrees : AgreesOutside (origin.child segment) before after) :
    AgreesOutside origin before after :=
  fun other outside => agrees other fun below => outside below.of_child

theorem set {name : VarName} (below : name.Below origin) (env : Environment) (slot : Slot) :
    AgreesOutside origin env (env.set name slot) := by
  intro other outside
  have different : other ≠ name := by
    intro same
    subst same
    exact outside below
  exact Environment.lookup_set_other env slot different

end Environment.AgreesOutside

/-! ### Machines after calls -/

def Writer.IsOpen (w : Writer) (handle : Nat) : Prop :=
  ∃ container, w.containers[handle]? = some container ∧ container.isOpen = true

theorem Writer.IsOpen.lt {w : Writer} {handle : Nat} (isOpen : w.IsOpen handle) :
    handle < w.containers.length := by
  obtain ⟨container, found, _⟩ := isOpen
  exact (List.getElem?_eq_some_iff.1 found).1

theorem Writer.Adds.keepsOpen {before after : Writer} {target count handle : Nat}
    {items : List Slot} {values : List Value}
    (adds : Writer.Adds before after target items values count)
    (isOpen : before.IsOpen handle) : after.IsOpen handle := by
  obtain ⟨container, found, opened⟩ := isOpen
  obtain ⟨later, foundLater, same⟩ := adds.isOpen found
  exact ⟨later, foundLater, same.trans opened⟩

/-! ### Parts of values -/

theorem Value.select_list {items : List Value} {position : Nat} {item : Value}
    (found : items[position]? = some item) :
    (Value.list items).select (.int position) = .ok item := by
  change Value.itemAt items position = _
  unfold Value.itemAt
  have natural : ¬ (position : Int) < 0 := by omega
  simp only [if_neg natural, Int.toNat_natCast, found]

theorem Value.select_dict {entries : List (Value × Value)} {field : String} {item : Value}
    (found : Value.lookup (.text field) entries = some item) :
    (Value.dict entries).select (.text field) = .ok item := by
  have isKey : (Value.text field).isKey = true := rfl
  simp only [Value.select, isKey, if_true, found]

namespace Machine

/-- The machine with other variables, after it made some more calls. -/
def after (m : Machine) (env : Environment) (calls : List Call) : Machine :=
  { env, writer := m.writer.carryAll calls, calls := m.calls ++ calls }

def assign (m : Machine) (name : VarName) (slot : Slot) : Machine :=
  { m with env := m.env.set name slot }

theorem after_after (m : Machine) (env later : Environment) (calls more : List Call) :
    (m.after env calls).after later more = m.after later (calls ++ more) := by
  simp only [after, Writer.carryAll_append, List.append_assoc]

theorem after_nil (m : Machine) (env : Environment) : m.after env [] = { m with env } := by
  simp only [after, List.append_nil]
  rfl

theorem read_of_found {m : Machine} {name : VarName} {slot : Slot}
    (found : List.lookup name m.env = some slot) : read name m = .ok slot m := by
  have got : (get : Run Machine) m = .ok m m := rfl
  unfold read
  rw [bind_of_ok got, found]
  rfl

theorem write_eq (m : Machine) (name : VarName) (slot : Slot) :
    write name slot m = .ok () (m.assign name slot) := rfl

/-- A call on an open container succeeds as long as there is memory for it. -/
theorem call_of_enough {m : Machine} {request : Call} (recovery : String)
    (isOpen : m.writer.IsOpen request.needs) (enough : m.writer.failsNext = false) :
    call request recovery m =
      .ok (m.writer.count.carryOut request).1 (m.after m.env [request]) := by
  obtain ⟨container, found, opened⟩ := isOpen
  have known : m.writer.container request.needs = .ok container := by
    rw [Writer.container, found]
  have performed : m.writer.perform request = .ok (m.writer.count.carryOut request) := by
    rw [Writer.perform, known]
    change (if (!container.isOpen) = true then _ else _) = _
    rw [opened, enough]
    rfl
  change ((MonadExcept.ofExcept (m.writer.perform request) : Run _) >>= _) _ = _
  rw [bind_of_except performed]
  cases request <;> rfl

theorem failsNext_of_none {w : Writer} (memory : w.failAt = none) : w.failsNext = false := by
  rw [Writer.failsNext, memory]
  rfl

/-- A call on an open container succeeds when no operation is told to fail. -/
theorem call_of_isOpen {m : Machine} {request : Call} (recovery : String)
    (isOpen : m.writer.IsOpen request.needs) (memory : m.writer.failAt = none) :
    call request recovery m =
      .ok (m.writer.count.carryOut request).1 (m.after m.env [request]) :=
  call_of_enough recovery isOpen (failsNext_of_none memory)

end Machine

/-! ### Statements -/

section Statements

open Machine

variable {m : Machine} {rounds : Nat}

theorem runs_append {iter value : VarName} {target : Nat} {item : Value}
    (typeConst recovery : String) (place : List.lookup iter m.env = some (.container target))
    (given : List.lookup value m.env = some (.value item)) (isOpen : m.writer.IsOpen target)
    (memory : m.writer.failAt = none) :
    (Statement.append iter typeConst value recovery).run rounds m =
      .ok () (m.after m.env [.append target typeConst (.value item)]) := by
  have called : call (.append target typeConst (.value item)) recovery m = _ :=
    call_of_isOpen recovery isOpen memory
  rw [Statement.run, runAppend, bind_of_ok (read_of_found place),
    bind_of_ok (read_of_found given)]
  change (call (.append target typeConst (.value item)) recovery >>= fun _ => pure ()) m = _
  rw [bind_of_ok called]
  rfl

theorem runs_open {iter : VarName} {target : Nat} (typeConst : String) (signature : Option String)
    (inner : VarName) (recovery : String)
    (place : List.lookup iter m.env = some (.container target)) (isOpen : m.writer.IsOpen target)
    (memory : m.writer.failAt = none) :
    (Statement.openContainer iter typeConst signature inner recovery).run rounds m =
      .ok () (m.after (m.env.set inner (.container m.writer.containers.length))
        [.openContainer target typeConst signature]) := by
  have called : call (.openContainer target typeConst signature) recovery m = _ :=
    call_of_isOpen recovery isOpen memory
  rw [Statement.run, runOpen, bind_of_ok (read_of_found place)]
  change (call (.openContainer target typeConst signature) recovery >>= _) m = _
  rw [bind_of_ok called]
  rfl

theorem runs_close {iter inner : VarName} {target handle : Nat} (recovery : String)
    (place : List.lookup iter m.env = some (.container target))
    (filled : List.lookup inner m.env = some (.container handle))
    (isOpen : m.writer.IsOpen handle) (memory : m.writer.failAt = none) :
    (Statement.closeContainer iter inner recovery).run rounds m =
      .ok () (m.after m.env [.closeContainer (.container target) handle]) := by
  have called : call (.closeContainer (.container target) handle) recovery m = _ :=
    call_of_isOpen recovery isOpen memory
  rw [Statement.run, runClose, bind_of_ok (read_of_found place),
    bind_of_ok (read_of_found filled)]
  change (call (.closeContainer (.container target) handle) recovery >>= fun _ => pure ()) m = _
  rw [bind_of_ok called]
  rfl

theorem runs_assign {target array index : VarName} {source : List Value} {position : Nat}
    {item : Value} (given : List.lookup array m.env = some (.value (.list source)))
    (counted : List.lookup index m.env = some (.value (.int position)))
    (found : source[position]? = some item) :
    (Statement.assign target array index).run rounds m =
      .ok () (m.assign target (.value item)) := by
  have selected : select (.value (.list source)) (.value (.int position)) = .ok item :=
    Value.select_list found
  rw [Statement.run, runAssign, bind_of_ok (read_of_found given),
    bind_of_ok (read_of_found counted), bind_of_except selected, write_eq]

theorem runs_readField {target source : VarName} {entries : List (Value × Value)} {field : String}
    {item : Value} (given : List.lookup source m.env = some (.value (.dict entries)))
    (found : Value.lookup (.text field) entries = some item) :
    (Statement.readField target source field).run rounds m =
      .ok () (m.assign target (.value item)) := by
  have selected : select (.value (.dict entries)) (.value (.text field)) = .ok item :=
    Value.select_dict found
  rw [Statement.run, runReadField, bind_of_ok (read_of_found given), bind_of_except selected,
    write_eq]

theorem run_cons_of_ok {statement : Statement} {between : Machine} (rest : Fragment)
    (ran : statement.run rounds m = .ok () between) :
    Fragment.run rounds (statement :: rest) m = Fragment.run rounds rest between := by
  rw [Fragment.run, bind_of_ok ran]

theorem run_append_of_ok {first : Fragment} {between : Machine} (second : Fragment)
    (ran : Fragment.run rounds first m = .ok () between) :
    Fragment.run rounds (first ++ second) m = Fragment.run rounds second between := by
  rw [Fragment.run_append, bind_of_ok ran]

end Statements

end DBusMarshal
