import DBusMarshal.Proofs.Steps

/-!
Runs that are short of memory at one operation.

`Fragment.operations` lists the operations that a run performs, each with its statement and with
the machine in front of it. When one of them is told to fail, the run stays in step with the run
that has enough memory until that operation is in front; then the recovery code of its statement is
reached, and nothing but the count and the record of calls has changed. The argument is put together
in the same way as a run: statements that call the writer, statements that do not, one action after
the other, and the rounds of a loop.
-/

set_option autoImplicit false

namespace DBusMarshal

open Writer (Call)

/-! ### The operations of a run -/

/-- The recovery code that a statement carries. -/
def Statement.recoveryCode : Statement → Option String
  | .append _ _ _ code => some code
  | .openContainer _ _ _ _ code => some code
  | .closeContainer _ _ code => some code
  | _ => none

/-- An operation of the writer: the statement that performs it, and the machine in front of it. -/
structure Operation where
  statement : Statement
  before : Machine

namespace Operation

/-- The operations of an action, and then those of what follows on it. -/
def sequence {α : Type} (first : Machine → List Operation) (action : Run α)
    (next : α → Machine → List Operation) (m : Machine) : List Operation :=
  first m ++
    match action m with
    | .ok result later => next result later
    | .error _ _ => []

def none (_ : Machine) : List Operation := []

/-- The operations of a loop, where `inside` lists those of the body. -/
def rounds (test : Run Bool) (body : Run Unit) (inside : Machine → List Operation) :
    Nat → Machine → List Operation
  | 0 => none
  | left + 1 =>
    sequence none test fun goesOn =>
      if goesOn then sequence inside body fun _ => rounds test body inside left else none

end Operation

mutual

/-- The operations that a statement performs, in order. -/
def Statement.operations (rounds : Nat) (statement : Statement) : Machine → List Operation :=
  match statement with
  | .append _ _ _ _ => fun m => [⟨statement, m⟩]
  | .openContainer _ _ _ _ _ => fun m => [⟨statement, m⟩]
  | .closeContainer _ _ _ => fun m => [⟨statement, m⟩]
  | .loop index array length body =>
    Operation.sequence Operation.none (Machine.write index (.value (.int 0))) fun _ =>
      Operation.rounds (loopContinues index array length)
        (do
          Fragment.run rounds body
          loopAdvance index)
        (Fragment.operations rounds body) rounds
  | _ => Operation.none

/-- The operations that a fragment performs, in order. -/
def Fragment.operations (rounds : Nat) (statements : List Statement) : Machine → List Operation :=
  match statements with
  | [] => Operation.none
  | statement :: rest =>
    Operation.sequence (statement.operations rounds) (statement.run rounds) fun _ =>
      Fragment.operations rounds rest

end

/-! ### Machines that are short of memory -/

namespace Machine

/-- The machine with one operation told to fail. -/
def failingAt (m : Machine) (operation : Int) : Machine :=
  { m with writer := { m.writer with failAt := some operation } }

/-- The machine after a call for which there was no memory. -/
def starve (m : Machine) (request : Call) : Machine :=
  { m with writer := m.writer.count, calls := m.calls ++ [request] }

theorem carryAll_failingAt (m : Machine) (operation : Int) (calls : List Call) :
    (m.failingAt operation).writer.carryAll calls =
      { m.writer.carryAll calls with failAt := some operation } := by
  unfold failingAt
  generalize m.writer = w
  induction calls generalizing w with
  | nil => rfl
  | cons call rest ih =>
      have first : (Writer.carryOut (Writer.count { w with failAt := some operation }) call).2 =
          { (w.count.carryOut call).2 with failAt := some operation } := by
        cases call <;> rfl
      change Writer.carryAll (Writer.carryOut (Writer.count _) call).2 rest = _
      rw [first]
      exact ih (w.count.carryOut call).2

theorem after_failingAt (m : Machine) (operation : Int) (env : Environment) (calls : List Call) :
    (m.failingAt operation).after env calls = (m.after env calls).failingAt operation := by
  rw [after, carryAll_failingAt]
  rfl

theorem ops_after (m : Machine) (env : Environment) (calls : List Call) :
    (m.after env calls).writer.ops = m.writer.ops + calls.length :=
  Writer.ops_carryAll _ _

theorem failAt_after (m : Machine) (env : Environment) (calls : List Call) :
    (m.after env calls).writer.failAt = m.writer.failAt :=
  Writer.failAt_carryAll _ _

/-! ### Calls -/

variable {m final : Machine} {request : Call} {recovery : String} {reply : Writer.Reply}

theorem isOpen_of_call (called : call request recovery m = .ok reply final) :
    m.writer.IsOpen request.needs := by
  change ((MonadExcept.ofExcept (m.writer.perform request) : Run _) >>= _) _ = _ at called
  cases performed : m.writer.perform request with
  | error fault =>
      rw [performed] at called
      cases called
  | ok answer =>
      unfold Writer.perform Writer.container at performed
      cases found : m.writer.containers[request.needs]? with
      | none =>
          rw [found] at performed
          cases performed
      | some container =>
          rw [found] at performed
          cases opened : container.isOpen with
          | true => exact ⟨container, found, opened⟩
          | false => simp [opened] at performed

theorem call_of_short (recovery : String) (isOpen : m.writer.IsOpen request.needs)
    (short : m.writer.failsNext = true) :
    call request recovery m = .error (.recovered recovery) (m.starve request) := by
  obtain ⟨container, found, opened⟩ := isOpen
  have known : m.writer.container request.needs = .ok container := by
    rw [Writer.container, found]
  have performed : m.writer.perform request = .ok (.noMemory, m.writer.count) := by
    rw [Writer.perform, known]
    change (if (!container.isOpen) = true then _ else _) = _
    rw [opened, short]
    rfl
  change ((MonadExcept.ofExcept (m.writer.perform request) : Run _) >>= _) _ = _
  rw [bind_of_except performed]
  rfl

/-- A call that succeeds where no operation is told to fail succeeds as well where another one
is. -/
theorem call_in_step (memory : m.writer.failAt = none)
    (called : call request recovery m = .ok reply final) :
    final = m.after m.env [request] ∧
      (∀ operation : Int, operation ≠ (m.writer.ops + 1 : Nat) →
        call request recovery (m.failingAt operation) = .ok reply (final.failingAt operation)) ∧
      call request recovery (m.failingAt (m.writer.ops + 1 : Nat)) =
        .error (.recovered recovery) ((m.failingAt (m.writer.ops + 1 : Nat)).starve request) := by
  have isOpen := isOpen_of_call called
  rw [call_of_isOpen recovery isOpen memory] at called
  cases called
  refine ⟨rfl, ?_, ?_⟩
  · intro operation other
    have openToo : (m.failingAt operation).writer.IsOpen request.needs := isOpen
    rw [call_of_enough recovery openToo (decide_eq_false other), ← after_failingAt]
    cases request <;> rfl
  · have openToo : (m.failingAt (m.writer.ops + 1 : Nat)).writer.IsOpen request.needs := isOpen
    exact call_of_short recovery openToo (decide_eq_true rfl)

end Machine

/-! ### Actions that leave the writer alone -/

section Quiet

variable {α β : Type} {action : Run α} {next : α → Run β}

/-- The action only looks at variables. -/
def Looks (action : Run α) : Prop :=
  ∀ (m final : Machine) (result : α), action m = .ok result final →
    final = m ∧ ∀ operation, action (m.failingAt operation) = .ok result (m.failingAt operation)

/-- The action changes nothing but variables, and it does the same where an operation is told to
fail. -/
def Quiet (action : Run α) : Prop :=
  ∀ (m final : Machine) (result : α), action m = .ok result final →
    final = { m with env := final.env } ∧
      ∀ operation, action (m.failingAt operation) = .ok result (final.failingAt operation)

theorem Looks.quiet (looks : Looks action) : Quiet action := by
  intro m final result ended
  obtain ⟨same, others⟩ := looks m final result ended
  subst same
  exact ⟨rfl, others⟩

theorem Looks.pure (result : α) : Looks (pure result : Run α) := by
  intro m final other ended
  cases ended
  exact ⟨rfl, fun _ => rfl⟩

theorem Looks.ofExcept (answer : Except Fault α) :
    Looks (MonadExcept.ofExcept answer : Run α) := by
  intro m final result ended
  cases answer with
  | ok given =>
      cases ended
      exact ⟨rfl, fun _ => rfl⟩
  | error fault => cases ended

theorem Looks.read (name : VarName) : Looks (Machine.read name) := by
  intro m final slot ended
  cases found : List.lookup name m.env with
  | some held =>
      rw [Machine.read_of_found found] at ended
      cases ended
      exact ⟨rfl, fun operation => Machine.read_of_found found⟩
  | none =>
      unfold Machine.read at ended
      have got : (get : Run Machine) m = .ok m m := rfl
      rw [bind_of_ok got, found] at ended
      cases ended

theorem Looks.bind (first : Looks action) (second : ∀ result, Looks (next result)) :
    Looks (action >>= next) := by
  intro m final result ended
  obtain ⟨given, between, ran, endedLater⟩ := exists_of_bind_ok ended
  obtain ⟨same, others⟩ := first m between given ran
  subst same
  obtain ⟨sameLater, othersLater⟩ := second given between final result endedLater
  refine ⟨sameLater, fun operation => ?_⟩
  rw [bind_of_ok (others operation), othersLater operation]

theorem Quiet.bind (first : Quiet action) (second : ∀ result, Quiet (next result)) :
    Quiet (action >>= next) := by
  intro m final result ended
  obtain ⟨given, between, ran, endedLater⟩ := exists_of_bind_ok ended
  obtain ⟨same, others⟩ := first m between given ran
  obtain ⟨sameLater, othersLater⟩ := second given between final result endedLater
  constructor
  · rw [sameLater, same]
  · intro operation
    rw [bind_of_ok (others operation), othersLater operation]

theorem Quiet.write (name : VarName) (slot : Slot) : Quiet (Machine.write name slot) := by
  intro m final result ended
  cases ended
  exact ⟨rfl, fun _ => rfl⟩

theorem quiet_assign (target array index : VarName) : Quiet (runAssign target array index) := by
  refine (Looks.read array).quiet.bind fun source =>
    (Looks.read index).quiet.bind fun position => ?_
  exact (Looks.ofExcept _).quiet.bind fun _ => Quiet.write target _

theorem quiet_readField (target source : VarName) (field : String) :
    Quiet (runReadField target source field) := by
  refine (Looks.read source).quiet.bind fun aggregate => ?_
  exact (Looks.ofExcept _).quiet.bind fun _ => Quiet.write target _

theorem looks_continues (index array : VarName) (length : Option VarName) :
    Looks (loopContinues index array length) := by
  refine (Looks.read index).bind fun position => ?_
  cases length with
  | some length => exact (Looks.read length).bind fun _ => Looks.ofExcept _
  | none =>
      refine (Looks.read array).bind fun source => ?_
      exact (Looks.ofExcept _).bind fun _ => Looks.pure _

theorem quiet_advance (index : VarName) : Quiet (loopAdvance index) := by
  refine (Looks.read index).quiet.bind fun position => ?_
  exact (Looks.ofExcept _).quiet.bind fun _ => Quiet.write index _

end Quiet

/-! ### Runs in step -/

/-- In the run of an action that makes the given calls, the operation performs one of them, with
its recovery code; told to fail, it ends the run there. -/
def Operation.Interrupts {α : Type} (operation : Operation) (rounds : Nat) (action : Run α)
    (m : Machine) (calls : List Call) : Prop :=
  ∃ (earlier later : List Call) (request : Call) (env : Environment) (code : String),
    calls = earlier ++ request :: later ∧
    operation.before = m.after operation.before.env earlier ∧
    operation.statement.recoveryCode = some code ∧
    operation.statement.run rounds operation.before =
      .ok () (operation.before.after env [request]) ∧
    action (m.failingAt (operation.before.writer.ops + 1 : Nat)) =
      .error (.recovered code)
        ((operation.before.failingAt (operation.before.writer.ops + 1 : Nat)).starve request)

/-- The run of an action that makes the given calls, with its operations: they are numbered one
after the other, each of them may interrupt the run, and no other number does. -/
structure Course {α : Type} (rounds : Nat) (action : Run α) (operations : List Operation)
    (m : Machine) (result : α) (env : Environment) (calls : List Call) : Prop where
  numbered : operations.map (fun operation => operation.before.writer.ops) =
    List.range' m.writer.ops calls.length
  interrupts : ∀ operation ∈ operations, operation.Interrupts rounds action m calls
  spared : ∀ number : Int, number ≤ m.writer.ops ∨ m.writer.ops + calls.length < number →
    action (m.failingAt number) = .ok result ((m.after env calls).failingAt number)

theorem Course.at_position {α : Type} {rounds : Nat} {action : Run α} {operations : List Operation}
    {m : Machine} {result : α} {env : Environment} {calls : List Call}
    (course : Course rounds action operations m result env calls) {position : Nat}
    (within : position < calls.length) :
    ∃ operation, operations[position]? = some operation ∧
      operation.before.writer.ops = m.writer.ops + position := by
  have counted := congrArg (fun numbers => numbers[position]?) course.numbered
  simp only [List.getElem?_map] at counted
  rw [List.getElem?_range' within, Nat.one_mul] at counted
  exact Option.map_eq_some_iff.1 counted

/-- Whenever the action succeeds with enough memory, its operations are the given ones. -/
def Lockstep {α : Type} (rounds : Nat) (action : Run α)
    (operations : Machine → List Operation) : Prop :=
  ∀ (m final : Machine) (result : α), m.writer.failAt = none → action m = .ok result final →
    ∃ env calls, final = m.after env calls ∧
      Course rounds action (operations m) m result env calls

section Lockstep

variable {α β : Type} {rounds : Nat} {action : Run α} {next : α → Run β}

theorem Quiet.lockstep (quiet : Quiet action) : Lockstep rounds action Operation.none := by
  intro m final result _ ended
  obtain ⟨same, others⟩ := quiet m final result ended
  have nothing : final = m.after final.env [] := by
    rw [Machine.after_nil]
    exact same
  refine ⟨final.env, [], nothing, rfl, ?_, ?_⟩
  · intro operation impossible
    cases impossible
  · intro number _
    rw [← nothing]
    exact others number

theorem Lockstep.bind {first : Machine → List Operation} {second : α → Machine → List Operation}
    (before : Lockstep rounds action first)
    (after : ∀ result, Lockstep rounds (next result) (second result)) :
    Lockstep rounds (action >>= next) (Operation.sequence first action second) := by
  intro m final result memory ended
  obtain ⟨given, between, ran, endedLater⟩ := exists_of_bind_ok ended
  obtain ⟨env, calls, sameBetween, course⟩ := before m between given memory ran
  have memoryBetween : between.writer.failAt = none := by
    rw [sameBetween, Machine.failAt_after, memory]
  obtain ⟨later, more, sameFinal, courseLater⟩ :=
    after given between final result memoryBetween endedLater
  have opsBetween : between.writer.ops = m.writer.ops + calls.length := by
    rw [sameBetween, Machine.ops_after]
  have whole : final = m.after later (calls ++ more) := by
    rw [sameFinal, sameBetween, Machine.after_after]
  refine ⟨later, calls ++ more, whole, ?_⟩
  unfold Operation.sequence
  rw [ran]
  refine ⟨?_, ?_, ?_⟩
  · rw [List.map_append, course.numbered, courseLater.numbered, opsBetween, List.length_append,
      List.range'_append_1]
  · intro operation listed
    rcases List.mem_append.1 listed with inFirst | inSecond
    -- An operation of the first action ends the whole run. One of the second is reached, since
    -- the first spares its number.
    · obtain ⟨front, back, request, reached, code, split, place, carries, performs, fails⟩ :=
        course.interrupts operation inFirst
      refine ⟨front, back ++ more, request, reached, code, ?_, place, carries, performs,
        bind_of_error fails⟩
      rw [split, List.append_assoc, List.cons_append]
    · obtain ⟨front, back, request, reached, code, split, place, carries, performs, fails⟩ :=
        courseLater.interrupts operation inSecond
      have above : between.writer.ops ≤ operation.before.writer.ops := by
        rw [place, Machine.ops_after]
        exact Nat.le_add_right _ _
      have passes := course.spared (operation.before.writer.ops + 1 : Nat) (Or.inr (by omega))
      rw [← sameBetween] at passes
      refine ⟨calls ++ front, back, request, reached, code, ?_, ?_, carries, performs, ?_⟩
      · rw [split, List.append_assoc]
      · rw [← Machine.after_after m env, ← sameBetween]
        exact place
      · rw [bind_of_ok passes, fails]
  · intro number outside
    rw [List.length_append] at outside
    have passes := course.spared number (by omega)
    rw [← sameBetween] at passes
    have passesLater := courseLater.spared number (by omega)
    rw [bind_of_ok passes, passesLater, ← sameFinal, whole]

theorem lockstep_of_call {statement : Statement} {code : String} (prepare : Run Call)
    (finish : Writer.Reply → Run Unit) (carries : statement.recoveryCode = some code)
    (shape : statement.run rounds =
      prepare >>= fun request => Machine.call request code >>= finish)
    (looks : Looks prepare) (quiet : ∀ reply, Quiet (finish reply)) :
    Lockstep rounds (statement.run rounds) (fun m => [⟨statement, m⟩]) := by
  intro m final result memory ended
  have staged := ended
  rw [shape] at staged
  obtain ⟨request, prepared, asked, calling⟩ := exists_of_bind_ok staged
  obtain ⟨samePrepared, askedToo⟩ := looks m prepared request asked
  subst samePrepared
  obtain ⟨reply, between, called, finished⟩ := exists_of_bind_ok calling
  obtain ⟨sameBetween, passes, fails⟩ := Machine.call_in_step memory called
  obtain ⟨sameFinal, finishedToo⟩ := quiet reply between final result finished
  have whole : final = prepared.after final.env [request] := by
    rw [sameFinal, sameBetween]
    rfl
  refine ⟨final.env, [request], whole, rfl, ?_, ?_⟩
  · intro operation listed
    rw [List.mem_singleton] at listed
    subst listed
    refine ⟨[], [], request, final.env, code, rfl, (Machine.after_nil _ _).symm, carries, ?_, ?_⟩
    · rw [← whole]
      exact ended
    · rw [shape, bind_of_ok (askedToo _), bind_of_error fails]
  · intro number outside
    have other : number ≠ (prepared.writer.ops + 1 : Nat) := by
      rw [List.length_singleton] at outside
      omega
    rw [shape, bind_of_ok (askedToo _), bind_of_ok (passes number other), finishedToo number,
      ← whole]

theorem Operation.sequence_none (first : Machine → List Operation) (action : Run α) :
    Operation.sequence first action (fun _ => Operation.none) = first := by
  funext m
  unfold Operation.sequence Operation.none
  cases action m with
  | ok result later => exact List.append_nil _
  | error fault later => exact List.append_nil _

/-- The rounds of a loop are in step when its body is, by induction on the rounds that are left. -/
theorem lockstep_rounds {test : Run Bool} {body : Run Unit} {inside : Machine → List Operation}
    (quiet : Quiet test) (runs : Lockstep rounds body inside) (left : Nat) :
    Lockstep rounds (repeatWhile test body left) (Operation.rounds test body inside left) := by
  induction left with
  | zero =>
      intro m final result memory ended
      cases ended
  | succ left ih =>
      refine quiet.lockstep.bind fun goesOn => ?_
      cases goesOn with
      | true => exact runs.bind fun _ => ih
      | false => exact (Looks.pure ()).quiet.lockstep

theorem lockstep_append (iter : VarName) (typeConst : String) (value : VarName) (code : String) :
    Lockstep rounds ((Statement.append iter typeConst value code).run rounds)
      (fun m => [⟨.append iter typeConst value code, m⟩]) := by
  let prepare : Run Call := do
    let target ← Machine.read iter
    let item ← Machine.read value
    let target ← MonadExcept.ofExcept (Machine.handle target)
    return .append target typeConst item
  refine lockstep_of_call prepare (fun _ => pure ()) rfl ?_ ?_ ?_
  · simp only [prepare, Statement.run, runAppend, bind_assoc, pure_bind]
  · refine (Looks.read iter).bind fun _ => (Looks.read value).bind fun _ => ?_
    exact (Looks.ofExcept _).bind fun _ => Looks.pure _
  · exact fun _ => (Looks.pure ()).quiet

theorem lockstep_open (iter : VarName) (typeConst : String) (signature : Option String)
    (inner : VarName) (code : String) :
    Lockstep rounds ((Statement.openContainer iter typeConst signature inner code).run rounds)
      (fun m => [⟨.openContainer iter typeConst signature inner code, m⟩]) := by
  let prepare : Run Call := do
    let target ← Machine.read iter
    let target ← MonadExcept.ofExcept (Machine.handle target)
    return .openContainer target typeConst signature
  refine lockstep_of_call prepare ?_ rfl ?_ ?_ ?_
  rotate_left
  · simp only [prepare, Statement.run, runOpen, bind_assoc, pure_bind]
    rfl
  · refine (Looks.read iter).bind fun _ => ?_
    exact (Looks.ofExcept _).bind fun _ => Looks.pure _
  · intro reply
    cases reply with
    | opened opened => exact Quiet.write inner _
    | noMemory => exact (Looks.pure ()).quiet
    | done => exact (Looks.pure ()).quiet

theorem lockstep_close (iter inner : VarName) (code : String) :
    Lockstep rounds ((Statement.closeContainer iter inner code).run rounds)
      (fun m => [⟨.closeContainer iter inner code, m⟩]) := by
  let prepare : Run Call := do
    let around ← Machine.read iter
    let target ← Machine.read inner
    let target ← MonadExcept.ofExcept (Machine.handle target)
    return .closeContainer around target
  refine lockstep_of_call prepare (fun _ => pure ()) rfl ?_ ?_ ?_
  · simp only [prepare, Statement.run, runClose, bind_assoc, pure_bind]
  · refine (Looks.read iter).bind fun _ => (Looks.read inner).bind fun _ => ?_
    exact (Looks.ofExcept _).bind fun _ => Looks.pure _
  · exact fun _ => (Looks.pure ()).quiet

mutual

/-- A statement is in step with its operations, by induction on the text. -/
theorem Statement.lockstep (rounds : Nat) (statement : Statement) :
    Lockstep rounds (statement.run rounds) (statement.operations rounds) := by
  cases statement with
  | comment text => exact (Looks.pure ()).quiet.lockstep
  | blank => exact (Looks.pure ()).quiet.lockstep
  | recovery code =>
      intro m final result memory ended
      cases ended
  | append iter typeConst value code => exact lockstep_append iter typeConst value code
  | openContainer iter typeConst signature inner code =>
      exact lockstep_open iter typeConst signature inner code
  | closeContainer iter inner code => exact lockstep_close iter inner code
  | declare type name => exact (Quiet.write name _).lockstep
  | assign target array index => exact (quiet_assign target array index).lockstep
  | readField target source field => exact (quiet_readField target source field).lockstep
  | loop index array length body =>
      have inBody := (Fragment.lockstep rounds body).bind
        fun _ => (quiet_advance index).lockstep
      rw [Operation.sequence_none] at inBody
      exact (Quiet.write index _).lockstep.bind
        fun _ => lockstep_rounds (looks_continues index array length).quiet inBody rounds
  | stray text =>
      intro m final result memory ended
      cases ended

theorem Fragment.lockstep (rounds : Nat) (fragment : List Statement) :
    Lockstep rounds (Fragment.run rounds fragment) (Fragment.operations rounds fragment) := by
  cases fragment with
  | nil => exact (Looks.pure ()).quiet.lockstep
  | cons statement rest =>
      exact (statement.lockstep rounds).bind fun _ => Fragment.lockstep rounds rest

end

end Lockstep

/-! ### Every operation of a run -/

theorem Operation.statement_of_sequence {α : Type} {operation : Operation} {part : List Statement}
    {first : Machine → List Operation} {action : Run α} {next : α → Machine → List Operation}
    {m : Machine} (inFirst : ∀ m, operation ∈ first m → operation.statement ∈ part)
    (inNext : ∀ result m, operation ∈ next result m → operation.statement ∈ part)
    (listed : operation ∈ Operation.sequence first action next m) :
    operation.statement ∈ part := by
  rcases List.mem_append.1 listed with early | late
  · exact inFirst m early
  · cases ran : action m with
    | ok result later =>
        rw [ran] at late
        exact inNext result later late
    | error fault later =>
        rw [ran] at late
        cases late

theorem Operation.statement_of_rounds {operation : Operation} {part : List Statement}
    {test : Run Bool} {body : Run Unit} {inside : Machine → List Operation}
    (inBody : ∀ m, operation ∈ inside m → operation.statement ∈ part) (left : Nat) {m : Machine}
    (listed : operation ∈ Operation.rounds test body inside left m) :
    operation.statement ∈ part := by
  induction left generalizing m with
  | zero => cases listed
  | succ left ih =>
      refine statement_of_sequence (fun m early => by cases early) ?_ listed
      intro goesOn later found
      cases goesOn with
      | true => exact statement_of_sequence inBody (fun _ m again => ih again) found
      | false => cases found

mutual

/-- Every operation is performed by a statement of the text. -/
theorem Statement.walk_of_operations {rounds : Nat} (statement : Statement) {operation : Operation}
    {m : Machine} (listed : operation ∈ statement.operations rounds m) :
    operation.statement ∈ statement.walk := by
  cases statement with
  | append iter typeConst value code =>
      rw [List.mem_singleton.1 listed]
      exact List.mem_cons_self
  | openContainer iter typeConst signature inner code =>
      rw [List.mem_singleton.1 listed]
      exact List.mem_cons_self
  | closeContainer iter inner code =>
      rw [List.mem_singleton.1 listed]
      exact List.mem_cons_self
  | loop index array length body =>
      refine List.mem_cons_of_mem _ ?_
      rw [Statement.operations] at listed
      refine Operation.statement_of_sequence (fun m early => by cases early) ?_ listed
      intro _ later found
      exact Operation.statement_of_rounds
        (fun m inBody => Fragment.walk_of_operations body inBody) rounds found
  | _ => cases listed

theorem Fragment.walk_of_operations {rounds : Nat} (fragment : List Statement)
    {operation : Operation} {m : Machine}
    (listed : operation ∈ Fragment.operations rounds fragment m) :
    operation.statement ∈ Fragment.walk fragment := by
  cases fragment with
  | nil => cases listed
  | cons statement rest =>
      refine Operation.statement_of_sequence ?_ ?_ listed
      · intro m early
        exact List.mem_append_left _ (statement.walk_of_operations early)
      · intro _ m late
        exact List.mem_append_right _ (Fragment.walk_of_operations rest late)

end

/-- A run that ends, and the same run with one operation told to fail. The operations are those
numbered from one to the count that the run ends with. Told to fail, such an operation ends the run
in the recovery code of the statement that performs it, and variables and containers are what they
are in front of that statement. Every other number changes nothing. -/
theorem Fragment.run_failingAt {rounds : Nat} {fragment : List Statement} {m final : Machine}
    (fresh : m.writer.ops = 0) (memory : m.writer.failAt = none)
    (ran : Fragment.run rounds fragment m = .ok () final) :
    (Fragment.operations rounds fragment m).map (fun operation => operation.before.writer.ops) =
        List.range final.writer.ops ∧
      (∀ n : Nat, 1 ≤ n → n ≤ final.writer.ops → ∃ operation code after failed,
        (Fragment.operations rounds fragment m)[n - 1]? = some operation ∧
        operation.statement ∈ Fragment.walk fragment ∧
        operation.statement.run rounds operation.before = .ok () after ∧
        operation.before.writer.ops = n - 1 ∧ after.writer.ops = n ∧
        operation.statement.recoveryCode = some code ∧
        Fragment.run rounds fragment (m.failingAt n) = .error (.recovered code) failed ∧
        failed.writer.ops = n ∧ failed.env = operation.before.env ∧
        failed.writer.containers = operation.before.writer.containers) ∧
      ∀ n : Int, n ≤ 0 ∨ final.writer.ops < n →
        Fragment.run rounds fragment (m.failingAt n) = .ok () (final.failingAt n) := by
  obtain ⟨env, calls, same, course⟩ := Fragment.lockstep rounds fragment m final () memory ran
  have total : final.writer.ops = calls.length := by
    rw [same, Machine.ops_after, fresh, Nat.zero_add]
  have numbered : (Fragment.operations rounds fragment m).map
      (fun operation => operation.before.writer.ops) = List.range final.writer.ops := by
    rw [course.numbered, fresh, total, List.range_eq_range']
  refine ⟨numbered, ?_, ?_⟩
  · intro n positive within
    have inCourse := Nat.lt_of_lt_of_le (Nat.sub_one_lt_of_le positive within) (Nat.le_of_eq total)
    obtain ⟨operation, found, number⟩ := course.at_position inCourse
    have listed := List.mem_of_getElem? found
    obtain ⟨earlier, later, request, reached, code, split, place, carries, performs, fails⟩ :=
      course.interrupts operation listed
    have next : operation.before.writer.ops + 1 = n := by
      omega
    rw [next] at fails
    refine ⟨operation, code, _, _, found, Fragment.walk_of_operations fragment listed, performs,
      by omega, ?_, carries, fails, next, rfl, rfl⟩
    rw [Machine.ops_after]
    exact next
  · intro n outside
    rw [course.spared n (by omega), ← same]

def drain : Fragment :=
  [.openContainer { base := "out" } "DBUS_TYPE_ARRAY" (some "i") { base := "inner" } "goto open;",
    .loop { base := "at" } { base := "items" } none
      [.assign { base := "item" } { base := "items" } { base := "at" },
        .append { base := "inner" } "DBUS_TYPE_INT32" { base := "item" } "goto item;"],
    .closeContainer { base := "out" } { base := "inner" } "goto close;"]

def drainStart : Machine :=
  Machine.start [({ base := "items" }, .list [.int 7, .int 8, .null])] (some { base := "out" }) none

theorem drain_failingAt :
    ∃ final, Fragment.run 3 drain drainStart = .ok () final ∧ final.writer.ops = 4 ∧
      (Fragment.operations 3 drain drainStart).map
          (fun operation => operation.before.writer.ops) = List.range final.writer.ops ∧
      (∀ n : Nat, 1 ≤ n → n ≤ final.writer.ops → ∃ operation code after failed,
        (Fragment.operations 3 drain drainStart)[n - 1]? = some operation ∧
        operation.statement ∈ Fragment.walk drain ∧
        operation.statement.run 3 operation.before = .ok () after ∧
        operation.before.writer.ops = n - 1 ∧ after.writer.ops = n ∧
        operation.statement.recoveryCode = some code ∧
        Fragment.run 3 drain (drainStart.failingAt n) = .error (.recovered code) failed ∧
        failed.writer.ops = n ∧ failed.env = operation.before.env ∧
        failed.writer.containers = operation.before.writer.containers) ∧
      ∀ n : Int, n ≤ 0 ∨ final.writer.ops < n →
        Fragment.run 3 drain (drainStart.failingAt n) = .ok () (final.failingAt n) :=
  ⟨_, rfl, rfl, Fragment.run_failingAt rfl rfl rfl⟩

end DBusMarshal
