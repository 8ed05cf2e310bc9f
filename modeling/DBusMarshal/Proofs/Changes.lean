import DBusMarshal.Proofs.Confinement
import DBusMarshal.Proofs.Sizes

/-!
What a run does to the variables.

A statement sets at most one variable: to a container, to a value that has no parts, or to a part of
a value that a variable held before. So a run, however often its loops go round, leaves every
variable alone that none of its statements sets, and what the variables hold grows no wider.
-/

set_option autoImplicit false

namespace DBusMarshal

namespace Environment

/-! ### Widths -/

/-- The number of members of what a variable holds; a variable that holds no value has none. -/
def sizeAt (env : Environment) (name : VarName) : Nat :=
  match List.lookup name env with
  | some (.value value) => value.size
  | _ => 0

/-- The greatest size of a value in the variables, and of everything inside it. -/
def widest : Environment → Nat
  | [] => 0
  | (_, .value value) :: rest => max value.widest (widest rest)
  | (_, .container _) :: rest => widest rest

/-- No value in the variables is wider than a bound. -/
def Narrow (env : Environment) (bound : Nat) : Prop :=
  ∀ name value, List.lookup name env = some (.value value) → value.widest ≤ bound

theorem narrow_widest (env : Environment) : env.Narrow env.widest := by
  intro name value held
  induction env with
  | nil => cases held
  | cons entry rest ih =>
      obtain ⟨other, slot⟩ := entry
      rw [List.lookup_cons] at held
      cases same : name == other with
      | true =>
          rw [same] at held
          cases held
          exact Nat.le_max_left _ _
      | false =>
          rw [same] at held
          cases slot with
          | value first => exact Nat.le_trans (ih held) (Nat.le_max_right _ _)
          | container handle => exact ih held

theorem Narrow.sizeAt_le {env : Environment} {bound : Nat} (narrow : env.Narrow bound)
    (name : VarName) : env.sizeAt name ≤ bound := by
  unfold sizeAt
  split
  · rename_i value held
    exact Nat.le_trans value.size_le_widest (narrow name value held)
  · exact Nat.zero_le _

/-! ### Changes -/

/-- What a statement may put into a variable. -/
inductive Yields (env : Environment) : Slot → Prop where
  | container (handle : Nat) : Yields env (.container handle)
  | plain {value : Value} (partless : value.widest = 0) : Yields env (.value value)
  | part {name : VarName} {value index part : Value}
      (held : List.lookup name env = some (.value value))
      (selected : value.select index = .ok part) : Yields env (.value part)

/-- Some of the given variables were set, one after the other. -/
inductive Changes (names : List VarName) (before : Environment) : Environment → Prop where
  | none : Changes names before before
  | set {between : Environment} {name : VarName} {slot : Slot}
      (changes : Changes names before between) (listed : name ∈ names)
      (yields : between.Yields slot) : Changes names before (between.set name slot)

namespace Changes

variable {names others : List VarName} {before between after : Environment}

theorem trans (first : Changes names before between) (second : Changes names between after) :
    Changes names before after := by
  induction second with
  | none => exact first
  | set _ listed yields ih => exact .set ih listed yields

theorem mono (changes : Changes names before after) (wider : ∀ name ∈ names, name ∈ others) :
    Changes others before after := by
  induction changes with
  | none => exact .none
  | set _ listed yields ih => exact .set ih (wider _ listed) yields

/-- A variable that is not among the given ones stays as it was. -/
theorem lookup_eq (changes : Changes names before after) {name : VarName}
    (untouched : name ∉ names) : List.lookup name after = List.lookup name before := by
  induction changes with
  | none => rfl
  | set _ listed _ ih =>
      have different : name ≠ _ := fun same => untouched (same ▸ listed)
      rw [Environment.lookup_set_other _ _ different, ih]

theorem narrow (changes : Changes names before after) {bound : Nat} (narrow : before.Narrow bound) :
    after.Narrow bound := by
  induction changes with
  | none => exact narrow
  | @set between name slot _ _ yields ih =>
      intro other value held
      by_cases same : other = name
      · rw [same, Environment.lookup_set_same] at held
        cases held
        cases yields with
        | plain partless => exact partless ▸ Nat.zero_le _
        | part whole selected =>
            exact Nat.le_trans (Value.widest_le_of_select selected) (ih _ _ whole)
      · rw [Environment.lookup_set_other _ _ same] at held
        exact ih other value held

end Changes

end Environment

open Environment (Changes)

namespace Machine

theorem found_of_read {m final : Machine} {name : VarName} {slot : Slot}
    (ended : read name m = .ok slot final) : final = m ∧ List.lookup name m.env = some slot := by
  refine ⟨(Looks.read name m final slot ended).1, ?_⟩
  cases found : List.lookup name m.env with
  | some held =>
      rw [read_of_found found] at ended
      cases ended
      rfl
  | none =>
      unfold read at ended
      have got : (get : Run Machine) m = .ok m m := rfl
      rw [bind_of_ok got, found] at ended
      cases ended

theorem of_ofExcept {α : Type} {answer : Except Fault α} {m final : Machine} {result : α}
    (ended : (MonadExcept.ofExcept answer : Run α) m = .ok result final) :
    final = m ∧ answer = .ok result := by
  cases answer with
  | ok given =>
      cases ended
      exact ⟨rfl, rfl⟩
  | error fault => cases ended

/-- The part that is selected is a part of the value in the slot. -/
theorem value_of_select {slot index : Slot} {part : Value}
    (selected : select slot index = .ok part) :
    ∃ whole position, slot = .value whole ∧ index = .value position ∧
      whole.select position = .ok part := by
  cases slot with
  | container handle => cases selected
  | value whole =>
      cases index with
      | container handle => cases selected
      | value position => exact ⟨whole, position, rfl, rfl, selected⟩

theorem env_of_call {m final : Machine} {request : Writer.Call} {recovery : String}
    {reply : Writer.Reply} (called : call request recovery m = .ok reply final) :
    final.env = m.env := by
  change ((MonadExcept.ofExcept (m.writer.perform request) : Run _) >>= _) _ = _ at called
  obtain ⟨⟨answer, writer⟩, between, performed, ended⟩ := exists_of_bind_ok called
  obtain ⟨rfl, _⟩ := of_ofExcept performed
  cases answer with
  | noMemory => cases ended
  | done =>
      cases ended
      rfl
  | opened handle =>
      cases ended
      rfl

end Machine

/-! ### Runs -/

/-- On success, the action changes only the given variables. -/
def Changing {α : Type} (names : List VarName) (action : Run α) : Prop :=
  ∀ (m final : Machine) (result : α), action m = .ok result final →
    Changes names m.env final.env

section

variable {α β : Type} {names others : List VarName} {action : Run α} {next : α → Run β}

theorem Changing.bind (first : Changing names action)
    (second : ∀ result, Changing names (next result)) : Changing names (action >>= next) := by
  intro m final result ended
  obtain ⟨given, between, ran, endedLater⟩ := exists_of_bind_ok ended
  exact (first m between given ran).trans (second given between final result endedLater)

theorem Changing.mono (changing : Changing names action) (wider : ∀ name ∈ names, name ∈ others) :
    Changing others action :=
  fun m final result ended => (changing m final result ended).mono wider

theorem Looks.changing (looks : Looks action) : Changing names action := by
  intro m final result ended
  obtain ⟨rfl, _⟩ := looks m final result ended
  exact .none

theorem Changing.call (request : Writer.Call) (recovery : String) :
    Changing names (Machine.call request recovery) := by
  intro m final reply ended
  rw [Machine.env_of_call ended]
  exact .none

theorem Changing.write {name : VarName} {slot : Slot} (listed : name ∈ names)
    (yields : ∀ env : Environment, env.Yields slot) : Changing names (Machine.write name slot) := by
  intro m final result ended
  cases ended
  exact .set .none listed (yields m.env)

theorem changing_append (iter : VarName) (typeConst : String) (value : VarName)
    (recovery : String) : Changing names (runAppend iter typeConst value recovery) := by
  refine (Looks.read iter).changing.bind fun _ => (Looks.read value).changing.bind fun _ => ?_
  refine (Looks.ofExcept _).changing.bind fun _ => ?_
  exact (Changing.call _ recovery).bind fun _ => (Looks.pure ()).changing

theorem changing_open (iter : VarName) (typeConst : String) (signature : Option String)
    {inner : VarName} (recovery : String) (listed : inner ∈ names) :
    Changing names (runOpen iter typeConst signature inner recovery) := by
  refine (Looks.read iter).changing.bind fun _ => (Looks.ofExcept _).changing.bind fun _ => ?_
  refine (Changing.call _ recovery).bind fun reply => ?_
  cases reply with
  | opened handle => exact Changing.write listed fun _ => .container handle
  | noMemory => exact (Looks.pure ()).changing
  | done => exact (Looks.pure ()).changing

theorem changing_close (iter inner : VarName) (recovery : String) :
    Changing names (runClose iter inner recovery) := by
  refine (Looks.read iter).changing.bind fun _ => (Looks.read inner).changing.bind fun _ => ?_
  refine (Looks.ofExcept _).changing.bind fun _ => ?_
  exact (Changing.call _ recovery).bind fun _ => (Looks.pure ()).changing

/-- A copied element is the part of an array that an index selects. -/
theorem part_of_assign {target array index : VarName} {m final : Machine}
    (ran : runAssign target array index m = .ok () final) :
    ∃ whole position part, List.lookup array m.env = some (.value whole) ∧
      List.lookup index m.env = some (.value position) ∧ whole.select position = .ok part ∧
      final.env = m.env.set target (.value part) := by
  obtain ⟨source, _, readSource, later⟩ := exists_of_bind_ok ran
  obtain ⟨rfl, heldSource⟩ := Machine.found_of_read readSource
  obtain ⟨position, _, readIndex, selects⟩ := exists_of_bind_ok later
  obtain ⟨rfl, heldIndex⟩ := Machine.found_of_read readIndex
  obtain ⟨part, _, selecting, sets⟩ := exists_of_bind_ok selects
  obtain ⟨rfl, selected⟩ := Machine.of_ofExcept selecting
  obtain ⟨whole, place, rfl, rfl, isPart⟩ := Machine.value_of_select selected
  cases sets
  exact ⟨whole, place, part, heldSource, heldIndex, isPart, rfl⟩

theorem changing_assign {target : VarName} (array index : VarName) (listed : target ∈ names) :
    Changing names (runAssign target array index) := by
  intro m final result ran
  obtain ⟨whole, position, part, held, _, selected, same⟩ := part_of_assign ran
  rw [same]
  exact .set .none listed (.part held selected)

theorem changing_readField {target : VarName} (source : VarName) (field : String)
    (listed : target ∈ names) : Changing names (runReadField target source field) := by
  intro m final result ran
  obtain ⟨aggregate, _, readSource, selects⟩ := exists_of_bind_ok ran
  obtain ⟨rfl, held⟩ := Machine.found_of_read readSource
  obtain ⟨part, _, selecting, sets⟩ := exists_of_bind_ok selects
  obtain ⟨rfl, selected⟩ := Machine.of_ofExcept selecting
  obtain ⟨whole, place, rfl, _, isPart⟩ := Machine.value_of_select selected
  cases sets
  exact .set .none listed (.part held isPart)

theorem Value.widest_of_successor {value next : Value} (counted : value.successor = .ok next) :
    next.widest = 0 := by
  cases value <;> cases counted <;> rfl

theorem changing_advance {index : VarName} (listed : index ∈ names) :
    Changing names (loopAdvance index) := by
  intro m final result ran
  obtain ⟨slot, _, reading, counts⟩ := exists_of_bind_ok ran
  obtain ⟨rfl, held⟩ := Machine.found_of_read reading
  obtain ⟨next, _, counting, sets⟩ := exists_of_bind_ok counts
  obtain ⟨rfl, counted⟩ := Machine.of_ofExcept counting
  cases sets
  cases slot with
  | container handle => cases counted
  | value value => exact .set .none listed (.plain (Value.widest_of_successor counted))

/-- One round of a loop: the body, and the step of the index. -/
def loopRound (rounds : Nat) (index : VarName) (body : Fragment) : Run Unit := do
  Fragment.run rounds body
  loopAdvance index

theorem Changing.round {index : VarName} {rounds : Nat} {body : Fragment}
    (inBody : Changing names (Fragment.run rounds body)) :
    Changing (index :: names) (loopRound rounds index body) := by
  refine (inBody.mono fun _ listed => List.mem_cons_of_mem index listed).bind fun _ => ?_
  exact changing_advance List.mem_cons_self

theorem Changing.repeatWhile {test : Run Bool} {round : Run Unit} (tests : Changing names test)
    (goes : Changing names round) (rounds : Nat) :
    Changing names (repeatWhile test round rounds) := by
  induction rounds with
  | zero =>
      intro m final result ended
      cases ended
  | succ left ih =>
      refine tests.bind fun goesOn => ?_
      cases goesOn with
      | true => exact goes.bind fun _ => ih
      | false => exact (Looks.pure ()).changing

end

mutual

theorem Statement.changing (rounds : Nat) (statement : Statement) :
    Changing (statement.walk.flatMap Statement.sets) (statement.run rounds) := by
  cases statement with
  | comment text => exact (Looks.pure ()).changing
  | blank => exact (Looks.pure ()).changing
  | recovery code =>
      intro m final result ended
      cases ended
  | append iter typeConst value code => exact changing_append iter typeConst value code
  | openContainer iter typeConst signature inner code =>
      exact changing_open iter typeConst signature code List.mem_cons_self
  | closeContainer iter inner code => exact changing_close iter inner code
  | declare type name => exact Changing.write List.mem_cons_self fun _ => .plain rfl
  | assign target array index => exact changing_assign array index List.mem_cons_self
  | readField target source field => exact changing_readField source field List.mem_cons_self
  | loop index array length body =>
      refine (Changing.write List.mem_cons_self fun _ => .plain rfl).bind fun _ => ?_
      exact Changing.repeatWhile (looks_continues index array length).changing
        (Fragment.changing rounds body).round rounds
  | stray text =>
      intro m final result ended
      cases ended

/-- A run changes only the variables that the statements of the text set. -/
theorem Fragment.changing (rounds : Nat) (fragment : List Statement) :
    Changing (Fragment.sets fragment) (Fragment.run rounds fragment) := by
  cases fragment with
  | nil => exact (Looks.pure ()).changing
  | cons statement rest =>
      have whole : Fragment.sets (statement :: rest) =
          statement.walk.flatMap Statement.sets ++ Fragment.sets rest := List.flatMap_append
      rw [whole]
      refine ((statement.changing rounds).mono fun _ => List.mem_append_left _).bind fun _ => ?_
      exact (Fragment.changing rounds rest).mono fun _ => List.mem_append_right _

end

end DBusMarshal
