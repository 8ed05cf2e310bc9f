import DBusMarshal.Proofs.Steps
import DBusMarshal.Proofs.Supply

/-!
Running generated code on a conforming value.

The code for a variable needs a machine that serves it: the inputs hold the columns of the value,
and the iterator stands for an open container and is not one of the code's own variables. Then the
code runs to its end, makes the calls of the message, and changes only variables below its own.
The argument follows the type; inside an array it is an induction on the rows that are left.
-/

set_option autoImplicit false

namespace DBusMarshal

/-- The machine holds what the code for a variable of a type needs. -/
structure Machine.Serves (m : Machine) (iter : VarName) (target : Nat) (node : Node)
    (name : VarName) (value : Value) : Prop where
  apart : ¬ iter.Below name
  place : List.lookup iter m.env = some (.container target)
  isOpen : m.writer.IsOpen target
  supplied : ∀ path ∈ node.paths,
    List.lookup (name.append path) m.env = some (.value (node.column value path))
  memory : m.writer.failAt = none

namespace Node

/-- On every machine that serves it, the code for a value makes the calls of its message and keeps
to its own variables. -/
def Simulates (options : Options) (recovery : String) (rounds : Nat) (node : Node)
    (value : Value) : Prop :=
  ∀ (iter name : VarName) (m : Machine) (target : Nat), m.Serves iter target node name value →
    ∃ env, Fragment.run rounds (node.code options recovery iter name) m =
        .ok () (m.after env ((node.message value).calls target m.writer.containers.length)) ∧
      m.env.AgreesOutside name env

section

variable (rounds : Nat)

/-! ### Moving inputs -/

theorem runs_declarations (entries : List TypedVar) {origin : VarName}
    (below : ∀ entry ∈ entries, entry.name.Below origin) (m : Machine) :
    ∃ env, Fragment.run rounds (declarations entries) m = .ok () { m with env } ∧
      m.env.AgreesOutside origin env := by
  induction entries generalizing m with
  | nil => exact ⟨m.env, rfl, .refl origin m.env⟩
  | cons entry rest ih =>
      have declared : (Statement.declare entry.type entry.name).run rounds m =
          .ok () (m.assign entry.name (.value .null)) := rfl
      obtain ⟨env, ran, agrees⟩ := ih
        (fun other listed => below other (List.mem_cons_of_mem _ listed))
        (m.assign entry.name (.value .null))
      refine ⟨env, ?_, ?_⟩
      · exact (run_cons_of_ok _ declared).trans ran
      · exact (Environment.AgreesOutside.set (below entry List.mem_cons_self) _ _).trans agrees

theorem runs_moves (origin : VarName) (statement : List Segment → Statement)
    (item : List Segment → Value) (paths : List (List Segment)) (m : Machine)
    (each : ∀ path ∈ paths, ∀ env, m.env.AgreesOutside origin env →
      (statement path).run rounds { m with env } =
        .ok () (({ m with env } : Machine).assign (origin.append path) (.value (item path)))) :
    ∃ env, Fragment.run rounds (paths.map statement) m = .ok () { m with env } ∧
      m.env.AgreesOutside origin env ∧
      ∀ path, List.lookup (origin.append path) env =
        if path ∈ paths then some (.value (item path))
        else List.lookup (origin.append path) m.env := by
  induction paths generalizing m with
  | nil => exact ⟨m.env, rfl, .refl origin m.env, fun path => rfl⟩
  | cons first rest ih =>
      have moved := each first List.mem_cons_self m.env (.refl origin m.env)
      have step : m.env.AgreesOutside origin
          (m.env.set (origin.append first) (.value (item first))) :=
        Environment.AgreesOutside.set (VarName.below_append origin first) _ _
      obtain ⟨env, ran, agrees, found⟩ := ih (m.assign (origin.append first) (.value (item first)))
        (fun path listed env agrees => each path (List.mem_cons_of_mem _ listed) env
          (step.trans agrees))
      refine ⟨env, (run_cons_of_ok _ moved).trans ran, step.trans agrees, ?_⟩
      intro path
      rw [found path]
      by_cases later : path ∈ rest
      · rw [if_pos later, if_pos (List.mem_cons_of_mem _ later)]
      · rw [if_neg later]
        by_cases same : path = first
        · rw [same, if_pos List.mem_cons_self]
          exact Environment.lookup_set_same _ _ _
        · have absent : path ∉ first :: rest := by
            simp [same, later]
          rw [if_neg absent]
          exact Environment.lookup_set_other _ _
            (fun equal => same (VarName.append_injective equal))

/-! ### Structs and dict entries -/

theorem runs_reads (options : Options) (member : Node) (name : VarName) (position : Nat)
    {m : Machine} {value : Value} {front back : List (Value × Value)}
    (before : FieldsBefore position front)
    (given : List.lookup name m.env =
      some (.value (.dict (front ++ (member.fields position value ++ back))))) :
    ∃ env, Fragment.run rounds (member.reads options name position) m = .ok () { m with env } ∧
      m.env.AgreesOutside (name.child (.item position)) env ∧
      ∀ path ∈ member.paths,
        List.lookup ((name.child (.item position)).append path) env =
          some (.value (member.column value path)) := by
  obtain ⟨env, ran, agrees, found⟩ := runs_moves rounds (name.child (.item position))
    (fun path => .readField ((name.child (.item position)).append path) name
      (fieldText (.item position :: path)))
    (member.column value) member.paths m (by
      intro path listed env agrees
      have still : List.lookup name env = _ :=
        (agrees name (VarName.not_below_child name _)).trans given
      have field : Value.lookup (.text (fieldText (.item position :: path)))
          (front ++ (member.fields position value ++ back)) =
            some (member.column value path) := by
        rw [lookup_append_of_new (before.sameKey path)]
        exact lookup_fields position value listed back
      exact runs_readField still field)
  rw [reads_eq]
  refine ⟨env, ran, agrees, ?_⟩
  intro path listed
  rw [found path, if_pos listed]

theorem blank_runs (m : Machine) : Statement.blank.run rounds m = .ok () m := rfl

theorem comment_runs (note : String) (m : Machine) :
    (Statement.comment note).run rounds m = .ok () m := rfl

theorem runs_memberCode (options : Options) (recovery : String) {member : Node}
    (inner name : VarName) (position : Nat) {m : Machine} {handle : Nat} {value : Value}
    {front back : List (Value × Value)}
    (simulates : member.Simulates options recovery rounds value)
    (before : FieldsBefore position front)
    (given : List.lookup name m.env =
      some (.value (.dict (front ++ (member.fields position value ++ back)))))
    (apart : ¬ inner.Below (name.child (.item position)))
    (place : List.lookup inner m.env = some (.container handle))
    (isOpen : m.writer.IsOpen handle) (memory : m.writer.failAt = none) :
    ∃ env, Fragment.run rounds
        (memberCode options member name position
          (member.code options recovery inner (name.child (.item position)))) m =
        .ok () (m.after env ((member.message value).calls handle m.writer.containers.length)) ∧
      m.env.AgreesOutside (name.child (.item position)) env := by
  obtain ⟨read, ranReads, agreesRead, found⟩ :=
    runs_reads rounds options member name position before given
  have serves : Machine.Serves { m with env := read } inner handle member
      (name.child (.item position)) value :=
    { apart
      place := (agreesRead inner apart).trans place
      isOpen
      supplied := found
      memory }
  obtain ⟨env, ranCode, agreesCode⟩ := simulates inner _ _ handle serves
  refine ⟨env, ?_, agreesRead.trans agreesCode⟩
  rw [memberCode, List.append_assoc, List.append_assoc, run_append_of_ok _ ranReads,
    run_append_of_ok _ (run_cons_of_ok [] (blank_runs rounds _)), run_append_of_ok _ ranCode]
  exact run_cons_of_ok [] (blank_runs rounds _)

theorem runs_codeAll (options : Options) (recovery : String) (inner name : VarName)
    (members : List Node) (position : Nat) {m : Machine} {handle : Nat} {values : List Value}
    {front : List (Value × Value)}
    (ih : ∀ member ∈ members, ∀ value : Value, member.accepts value = true →
      member.longest value < rounds → member.Simulates options recovery rounds value)
    (accepted : acceptsAll members values = true) (enough : longestAll members values < rounds)
    (before : FieldsBefore position front)
    (given : List.lookup name m.env =
      some (.value (.dict (front ++ fieldsAll members position values))))
    (apart : ∀ other, ¬ inner.Below (name.child (.item other)))
    (place : List.lookup inner m.env = some (.container handle))
    (isOpen : m.writer.IsOpen handle) (memory : m.writer.failAt = none) :
    ∃ env, Fragment.run rounds (codeAll options recovery members inner name position) m =
        .ok () (m.after env (Message.callsAll (messageAll members values) handle
          m.writer.containers.length)) ∧
      ∀ other : VarName, ¬ name.BelowItems position other →
        List.lookup other env = List.lookup other m.env := by
  induction members generalizing position m values front with
  | nil =>
      cases values with
      | nil =>
          refine ⟨m.env, ?_, fun other _ => rfl⟩
          rw [messageAll, Message.callsAll, Machine.after_nil]
          · rfl
          · intro member rest value others impossible
            cases impossible
      | cons value others => cases accepted
  | cons member rest ihRest =>
      cases values with
      | nil => cases accepted
      | cons value others =>
          rw [acceptsAll, Bool.and_eq_true] at accepted
          rw [longestAll, Nat.max_lt] at enough
          rw [fieldsAll_cons] at given
          have simulates := ih member List.mem_cons_self value accepted.1 enough.1
          obtain ⟨between, ranFirst, agreesFirst⟩ := runs_memberCode rounds options recovery inner
            name position simulates before given (apart position) place isOpen memory
          obtain ⟨slot, adds⟩ := (member.message value).adds_calls m.writer handle isOpen.lt
          have givenLater : List.lookup name between = some (.value (.dict
              ((front ++ member.fields position value) ++
                fieldsAll rest (position + 1) others))) := by
            rw [agreesFirst name (VarName.not_below_child name _), given, List.append_assoc]
          have memoryLater : (m.writer.carryAll
              ((member.message value).calls handle m.writer.containers.length)).failAt = none := by
            rw [Writer.failAt_carryAll, memory]
          obtain ⟨env, ranRest, agreesRest⟩ := @ihRest (position + 1)
            (m.after between ((member.message value).calls handle m.writer.containers.length))
            others (front ++ member.fields position value)
            (fun other listed => ih other (List.mem_cons_of_mem _ listed)) accepted.2 enough.2
            (before.fields member value) givenLater
            ((agreesFirst inner (apart position)).trans place) (adds.keepsOpen isOpen) memoryLater
          refine ⟨env, ?_, ?_⟩
          · have length : (m.writer.carryAll ((member.message value).calls handle
                m.writer.containers.length)).containers.length =
                  m.writer.containers.length + (member.message value).containers := adds.length
            rw [codeAll, run_append_of_ok _ ranFirst, ranRest, Machine.after_after]
            change EStateM.Result.ok () (m.after env (_ ++ Message.callsAll _ handle
              (m.writer.carryAll ((member.message value).calls handle
                m.writer.containers.length)).containers.length)) = _
            rw [length]
            rfl
          · intro other outside
            have outsideLater : ¬ name.BelowItems (position + 1) other := by
              rintro ⟨later, above, below⟩
              exact outside ⟨later, by omega, below⟩
            rw [agreesRest other outsideLater]
            exact agreesFirst other (fun below => outside ⟨position, Nat.le_refl _, below⟩)

/-- A container is opened, filled with messages, and closed again. -/
theorem runs_container {iter inner : VarName} {target : Nat} (typeConst : String)
    (signature : Option String) (recovery note : String) {m : Machine} {middle : Fragment}
    {items : List Message} {env : Environment}
    (place : List.lookup iter m.env = some (.container target)) (isOpen : m.writer.IsOpen target)
    (memory : m.writer.failAt = none)
    (ran : Fragment.run rounds middle
        (m.after (m.env.set inner (.container m.writer.containers.length))
          [.openContainer target typeConst signature]) =
      .ok () ((m.after (m.env.set inner (.container m.writer.containers.length))
          [.openContainer target typeConst signature]).after env
        (Message.callsAll items m.writer.containers.length (m.writer.containers.length + 1))))
    (placeLater : List.lookup iter env = some (.container target))
    (filled : List.lookup inner env = some (.container m.writer.containers.length)) :
    Fragment.run rounds
        ([.comment note, .openContainer iter typeConst signature inner recovery, .blank] ++
          middle ++ [.closeContainer iter inner recovery]) m =
      .ok () (m.after env
        ((Message.container typeConst signature items).calls target
          m.writer.containers.length)) := by
  let started := m.after (m.env.set inner (.container m.writer.containers.length))
    [.openContainer target typeConst signature]
  have opened : (Statement.openContainer iter typeConst signature inner recovery).run rounds m =
      .ok () started := runs_open typeConst signature inner recovery place isOpen memory
  have newOpen : started.writer.IsOpen m.writer.containers.length :=
    ⟨_, m.writer.open_new target typeConst signature, rfl⟩
  obtain ⟨slots, adds⟩ := Message.adds_callsAll items started.writer m.writer.containers.length
    newOpen.lt
  have next : started.writer.containers.length = m.writer.containers.length + 1 :=
    m.writer.length_open target typeConst signature
  rw [next] at adds
  have memoryLater : (started.writer.carryAll (Message.callsAll items m.writer.containers.length
      (m.writer.containers.length + 1))).failAt = none := by
    rw [Writer.failAt_carryAll]
    exact (Writer.failAt_carryAll _ _).trans memory
  have closed : (Statement.closeContainer iter inner recovery).run rounds (started.after env _) =
      .ok () _ := runs_close recovery placeLater filled (adds.keepsOpen newOpen) memoryLater
  rw [run_append_of_ok _ ((run_append_of_ok middle
    ((run_cons_of_ok _ (comment_runs rounds note m)).trans
      ((run_cons_of_ok _ opened).trans (run_cons_of_ok [] (blank_runs rounds _))))).trans ran),
    run_cons_of_ok [] closed]
  change EStateM.Result.ok () ((started.after env _).after env _) = _
  rw [Machine.after_after, Machine.after_after]
  rfl

theorem simulates_basic (options : Options) (recovery : String) {code : String}
    (known : code ∈ basicCodes) (value : Value) :
    (basic code).Simulates options recovery rounds value := by
  intro iter name m target serves
  have given : List.lookup name m.env = some (.value value) := by
    have supplied := serves.supplied [] (nil_mem_paths _)
    rwa [VarName.append_nil] at supplied
  have appended : (Statement.append iter (basic code).constant name recovery).run rounds m =
      .ok () (m.after m.env [.append target (basic code).constant (.value value)]) :=
    runs_append _ recovery serves.place given serves.isOpen serves.memory
  refine ⟨m.env, ?_, .refl name m.env⟩
  rw [Node.code, run_cons_of_ok _ (comment_runs rounds _ m), run_cons_of_ok [] appended, message,
    constant_basic known]
  rfl

theorem simulates_group (options : Options) (recovery : String) {node : Node}
    (group : node.isGroup = true) {value : Value} (accepted : node.accepts value = true)
    (enough : node.longest value < rounds)
    (ih : ∀ member ∈ node.children, ∀ value : Value, member.accepts value = true →
      member.longest value < rounds → member.Simulates options recovery rounds value) :
    node.Simulates options recovery rounds value := by
  intro iter name m target serves
  have members : acceptsAll node.children value.parts = true := by
    rw [accepts_of_isGroup group, Bool.and_eq_true] at accepted
    exact accepted.2
  have enoughAll : longestAll node.children value.parts < rounds := by
    rwa [longest_of_isGroup group accepted] at enough
  let started := m.after (m.env.set (name.child .iter) (.container m.writer.containers.length))
    [.openContainer target node.constant none]
  have next : started.writer.containers.length = m.writer.containers.length + 1 :=
    m.writer.length_open target node.constant none
  have given : List.lookup name started.env =
      some (.value (.dict ([] ++ fieldsAll node.children 0 value.parts))) := by
    have supplied := serves.supplied [] (nil_mem_paths _)
    rw [VarName.append_nil, column_of_isGroup group accepted] at supplied
    exact (Environment.lookup_set_other _ _ (VarName.child_ne name .iter).symm).trans supplied
  have nothing : FieldsBefore 0 [] := by
    intro entry impossible
    cases impossible
  have iterApart : ∀ position,
      ¬ (name.child .iter).Below (name.child (.item position)) :=
    fun position => VarName.child_not_below (Segment.item_ne_iter position).symm
  have filled : List.lookup (name.child .iter) started.env =
      some (.container m.writer.containers.length) := Environment.lookup_set_same _ _ _
  have newOpen : started.writer.IsOpen m.writer.containers.length :=
    ⟨_, m.writer.open_new target node.constant none, rfl⟩
  have memory : started.writer.failAt = none := (Writer.failAt_carryAll _ _).trans serves.memory
  obtain ⟨env, ran, keeps⟩ := runs_codeAll rounds options recovery (name.child .iter) name
    node.children 0 ih members enoughAll nothing given iterApart filled newOpen memory
  rw [next] at ran
  have notInside : ¬ iter = name.child .iter := by
    intro same
    exact serves.apart (same ▸ VarName.below_child name .iter)
  have placeLater : List.lookup iter env = some (.container target) := by
    rw [keeps iter (fun ⟨_, _, below⟩ => serves.apart below.of_child)]
    exact (Environment.lookup_set_other _ _ notInside).trans serves.place
  have filledLater : List.lookup (name.child .iter) env =
      some (.container m.writer.containers.length) := by
    rw [keeps _ (fun ⟨position, _, below⟩ => iterApart position below)]
    exact filled
  refine ⟨env, ?_, ?_⟩
  · rw [code_of_isGroup options recovery group, message_of_isGroup group accepted]
    exact runs_container rounds node.constant none recovery _ serves.place serves.isOpen
      serves.memory ran placeLater filledLater
  · intro other outside
    rw [keeps other (fun ⟨_, _, below⟩ => outside below.of_child)]
    exact (Environment.AgreesOutside.set (VarName.below_child name .iter) _ _) other outside

end

end Node

end DBusMarshal
