import DBusMarshal.Proofs.Outcomes
import DBusMarshal.Proofs.Rounds

/-!
Generated code always comes to an end.

A run is given a number of rounds that no loop may exceed, and ends with a fault of its own where
one does. For generated code there is always a number that no loop exceeds, whatever the variables
hold: one round more than the widest value has members is begun at most, because no statement makes
values wider. With this number or a greater one the run returns, or it fails for another reason, and
the number has no part in how it ends.
-/

set_option autoImplicit false

namespace DBusMarshal

open Environment (Changes)

/-! ### Ending within the rounds -/

/-- The action ends, well or badly, without running out of rounds. -/
def Finishes {α : Type} (action : Run α) (m : Machine) : Prop :=
  ∀ final, action m ≠ .error .unfinished final

section

variable {α β : Type} {action : Run α} {next : α → Run β} {m between : Machine} {result : α}

theorem Finishes.pure (result : α) : Finishes (pure result : Run α) m := by
  intro final failed
  cases failed

theorem Finishes.throw {fault : Fault} (other : fault ≠ .unfinished) :
    Finishes (throw fault : Run α) m := by
  intro final failed
  cases failed
  exact other rfl

theorem Finishes.bind (first : Finishes action m)
    (later : ∀ result between, action m = .ok result between → Finishes (next result) between) :
    Finishes (action >>= next) m := by
  intro final failed
  cases ran : action m with
  | ok result between =>
      rw [bind_of_ok ran] at failed
      exact later result between ran final failed
  | error fault between =>
      rw [bind_of_error ran] at failed
      cases failed
      exact first final ran

theorem Finishes.first (finishes : Finishes (action >>= next) m) : Finishes action m :=
  fun final failed => finishes final (bind_of_error failed)

theorem Finishes.later (finishes : Finishes (action >>= next) m)
    (ran : action m = .ok result between) : Finishes (next result) between := by
  intro final failed
  refine finishes final ?_
  rw [bind_of_ok ran, failed]

end

/-! ### Allowing more rounds -/

/-- Where one action ends within its rounds, the other one ends alike. -/
def Refines {α : Type} (less more : Run α) : Prop :=
  ∀ m, Finishes less m → more m = less m

section

variable {α β : Type}

theorem Refines.refl (action : Run α) : Refines action action := fun _ _ => rfl

theorem Refines.bind {less more : Run α} {next further : α → Run β} (first : Refines less more)
    (second : ∀ result, Refines (next result) (further result)) :
    Refines (less >>= next) (more >>= further) := by
  intro m finishes
  have same := first m finishes.first
  cases ran : less m with
  | ok result between =>
      rw [bind_of_ok (same.trans ran), bind_of_ok ran]
      exact second result between (finishes.later ran)
  | error fault between =>
      rw [bind_of_error (same.trans ran), bind_of_error ran]

theorem Refines.repeatWhile {test : Run Bool} {less more : Run Unit} (goes : Refines less more)
    {rounds greater : Nat} (atLeast : rounds ≤ greater) :
    Refines (repeatWhile test less rounds) (repeatWhile test more greater) := by
  induction rounds generalizing greater with
  | zero =>
      intro m finishes
      exact absurd rfl (finishes m)
  | succ rounds ih =>
      obtain ⟨left, rfl⟩ := Nat.exists_eq_add_one_of_ne_zero (Nat.ne_zero_of_lt atLeast)
      refine (Refines.refl test).bind fun goesOn => ?_
      cases goesOn with
      | true => exact goes.bind fun _ => ih (Nat.le_of_succ_le_succ atLeast)
      | false => exact Refines.refl _

end

mutual

theorem Statement.refines {rounds greater : Nat} (atLeast : rounds ≤ greater)
    (statement : Statement) : Refines (statement.run rounds) (statement.run greater) := by
  cases statement with
  | loop index array length body =>
      have inBody := Fragment.refines atLeast body
      refine (Refines.refl _).bind fun _ => ?_
      exact Refines.repeatWhile (inBody.bind fun _ => Refines.refl _) atLeast
  | _ => exact Refines.refl _

/-- A run that ends within its rounds ends alike when it is given more. -/
theorem Fragment.refines {rounds greater : Nat} (atLeast : rounds ≤ greater)
    (fragment : List Statement) :
    Refines (Fragment.run rounds fragment) (Fragment.run greater fragment) := by
  cases fragment with
  | nil => exact Refines.refl _
  | cons statement rest =>
      exact (statement.refines atLeast).bind fun _ => Fragment.refines atLeast rest

end

/-! ### Faults of values -/

theorem ne_unfinished_bind {α β : Type} {answer : Except Fault α} {next : α → Except Fault β}
    (first : answer ≠ .error .unfinished) (later : ∀ result, next result ≠ .error .unfinished) :
    (answer >>= next) ≠ .error .unfinished := by
  cases answer with
  | ok result => exact later result
  | error fault => exact fun failed => first (congrArg Except.error (Except.error.inj failed))

namespace Value

theorem members_ne_unfinished (value : Value) : value.members ≠ .error .unfinished := by
  cases value <;> nofun

theorem itemAt_ne_unfinished (items : List Value) (position : Int) :
    itemAt items position ≠ .error .unfinished := by
  unfold itemAt
  extract_lets place
  split
  · nofun
  · split <;> nofun

theorem select_ne_unfinished (value index : Value) :
    value.select index ≠ .error .unfinished := by
  unfold select
  split
  · split
    · split <;> nofun
    · nofun
  · refine ne_unfinished_bind (members_ne_unfinished _) fun items => ?_
    split
    · exact itemAt_ne_unfinished _ _
    · nofun

theorem less_ne_unfinished (left right : Value) : left.less right ≠ .error .unfinished := by
  unfold less
  split <;> nofun

theorem successor_ne_unfinished (value : Value) : value.successor ≠ .error .unfinished := by
  cases value <;> nofun

end Value

theorem Writer.perform_ne_unfinished (w : Writer) (request : Call) :
    w.perform request ≠ .error .unfinished := by
  unfold perform
  split
  · rename_i fault missing
    unfold container at missing
    split at missing
    · cases missing
    · cases missing
      nofun
  · split
    · nofun
    · split <;> nofun

namespace Machine

theorem handle_ne_unfinished (slot : Slot) : handle slot ≠ .error .unfinished := by
  cases slot <;> nofun

theorem value_ne_unfinished (slot : Slot) : value slot ≠ .error .unfinished := by
  cases slot <;> nofun

theorem select_ne_unfinished (slot index : Slot) : select slot index ≠ .error .unfinished :=
  ne_unfinished_bind (value_ne_unfinished slot) fun _ =>
    ne_unfinished_bind (value_ne_unfinished index) fun _ => Value.select_ne_unfinished _ _

end Machine

/-! ### Statements -/

section

open Machine (select_ne_unfinished value_ne_unfinished handle_ne_unfinished)

variable {m : Machine}

theorem Finishes.ofExcept {α : Type} {answer : Except Fault α}
    (other : answer ≠ .error .unfinished) : Finishes (MonadExcept.ofExcept answer : Run α) m := by
  intro final failed
  cases answer with
  | ok result => cases failed
  | error fault =>
      cases failed
      exact other rfl

theorem Finishes.read (name : VarName) : Finishes (Machine.read name) m := by
  have gets : Finishes (get : Run Machine) m := nofun
  refine gets.bind fun m between _ => ?_
  split
  · exact Finishes.pure _
  · exact Finishes.throw nofun

theorem Finishes.write (name : VarName) (slot : Slot) : Finishes (Machine.write name slot) m := by
  intro final failed
  cases failed

theorem Finishes.call (request : Writer.Call) (recovery : String) :
    Finishes (Machine.call request recovery) m := by
  intro final failed
  change ((MonadExcept.ofExcept (m.writer.perform request) : Run _) >>= _) _ = _ at failed
  revert failed final
  refine (Finishes.ofExcept (m.writer.perform_ne_unfinished request)).bind ?_
  rintro ⟨reply, writer⟩ between _ final failed
  cases reply <;> cases failed

theorem finishes_append (iter : VarName) (typeConst : String) (value : VarName)
    (recovery : String) : Finishes (runAppend iter typeConst value recovery) m := by
  refine (Finishes.read iter).bind fun _ _ _ => (Finishes.read value).bind fun _ _ _ => ?_
  refine (Finishes.ofExcept (handle_ne_unfinished _)).bind fun _ _ _ => ?_
  exact (Finishes.call _ recovery).bind fun _ _ _ => Finishes.pure ()

theorem finishes_open (iter : VarName) (typeConst : String) (signature : Option String)
    (inner : VarName) (recovery : String) :
    Finishes (runOpen iter typeConst signature inner recovery) m := by
  refine (Finishes.read iter).bind fun _ _ _ => ?_
  refine (Finishes.ofExcept (handle_ne_unfinished _)).bind fun _ _ _ => ?_
  refine (Finishes.call _ recovery).bind fun reply _ _ => ?_
  cases reply with
  | opened handle => exact Finishes.write inner _
  | noMemory => exact Finishes.pure ()
  | done => exact Finishes.pure ()

theorem finishes_close (iter inner : VarName) (recovery : String) :
    Finishes (runClose iter inner recovery) m := by
  refine (Finishes.read iter).bind fun _ _ _ => (Finishes.read inner).bind fun _ _ _ => ?_
  refine (Finishes.ofExcept (handle_ne_unfinished _)).bind fun _ _ _ => ?_
  exact (Finishes.call _ recovery).bind fun _ _ _ => Finishes.pure ()

theorem finishes_assign (target array index : VarName) :
    Finishes (runAssign target array index) m := by
  refine (Finishes.read array).bind fun _ _ _ => (Finishes.read index).bind fun _ _ _ => ?_
  refine (Finishes.ofExcept (select_ne_unfinished _ _)).bind fun _ _ _ => ?_
  exact Finishes.write target _

theorem finishes_readField (target source : VarName) (field : String) :
    Finishes (runReadField target source field) m := by
  refine (Finishes.read source).bind fun _ _ _ => ?_
  refine (Finishes.ofExcept (select_ne_unfinished _ _)).bind fun _ _ _ => ?_
  exact Finishes.write target _

theorem finishes_continues (index array : VarName) (length : Option VarName) :
    Finishes (loopContinues index array length) m := by
  refine (Finishes.read index).bind fun _ _ _ => ?_
  cases length with
  | some length =>
      refine (Finishes.read length).bind fun _ _ _ => Finishes.ofExcept ?_
      refine ne_unfinished_bind (value_ne_unfinished _) fun _ => ?_
      exact ne_unfinished_bind (value_ne_unfinished _) fun _ => Value.less_ne_unfinished _ _
  | none =>
      refine (Finishes.read array).bind fun _ _ _ => ?_
      refine (Finishes.ofExcept (select_ne_unfinished _ _)).bind fun _ _ _ => ?_
      exact Finishes.pure _

theorem finishes_advance (index : VarName) : Finishes (loopAdvance index) m := by
  refine (Finishes.read index).bind fun _ _ _ => ?_
  refine Finishes.bind (Finishes.ofExcept ?_) fun _ _ _ => Finishes.write index _
  exact ne_unfinished_bind (value_ne_unfinished _) fun _ => Value.successor_ne_unfinished _

/-- A loop that begins fewer rounds than it may ends within its rounds when each of these does. -/
theorem finishes_repeatWhile {test : Run Bool} {round : Run Unit} {rounds : Nat}
    (tests : ∀ m, Finishes test m)
    (goes : ∀ front ∈ begunRounds test round rounds m, Finishes round front)
    (short : (begunRounds test round rounds m).length < rounds) :
    Finishes (repeatWhile test round rounds) m := by
  induction rounds generalizing m with
  | zero => exact absurd short (Nat.not_lt_zero _)
  | succ left ih =>
      refine (tests m).bind fun goesOn front tested => ?_
      cases goesOn with
      | false => exact Finishes.pure ()
      | true =>
          simp only [begunRounds, tested] at goes short
          obtain ⟨own, others⟩ := List.forall_mem_cons.1 goes
          refine own.bind fun _ later ran => ?_
          simp only [ran, List.length_cons] at others short
          exact ih others (Nat.lt_of_succ_lt_succ short)

end

/-! ### Runs -/

section

variable {rounds bound : Nat}

mutual

theorem Statement.finishes (enough : bound + 1 < rounds) (statement : Statement)
    (guarded : ∀ inner ∈ statement.walk, inner.Guarded) {m : Machine}
    (narrow : m.env.Narrow bound) : Finishes (statement.run rounds) m := by
  cases statement with
  | comment text => exact Finishes.pure ()
  | blank => exact Finishes.pure ()
  | recovery code => exact Finishes.throw nofun
  | append iter typeConst value code => exact finishes_append iter typeConst value code
  | openContainer iter typeConst signature inner code =>
      exact finishes_open iter typeConst signature inner code
  | closeContainer iter inner code => exact finishes_close iter inner code
  | declare type name => exact Finishes.write name _
  | assign target array index => exact finishes_assign target array index
  | readField target source field => exact finishes_readField target source field
  | loop index array length body =>
      obtain ⟨goes, inside⟩ := List.forall_mem_cons.1 guarded
      have short := (goes.bounded rounds length m).short
      have fits : m.env.sizeAt array ≤ bound := narrow.sizeAt_le array
      have starts : Changes (index :: Fragment.sets body) m.env
          (m.assign index (.value (.int 0))).env := .set .none List.mem_cons_self (.plain rfl)
      refine (Finishes.write index _).bind fun _ started wrote => ?_
      cases wrote
      refine finishes_repeatWhile (fun _ => finishes_continues index array length) ?_ ?_
      · intro front listed
        have changes := Changing.begun (looks_continues index array length).changing
          (Fragment.changing rounds body).round rounds _ front listed
        refine Finishes.bind ?_ fun _ _ _ => finishes_advance index
        exact Fragment.finishes enough body inside ((starts.trans changes).narrow narrow)
      · exact Nat.lt_of_le_of_lt (Nat.le_trans short (Nat.succ_le_succ fits)) enough
  | stray text => exact Finishes.throw nofun

/-- Code whose loops go over their arrays ends within its rounds, when there are more of them than
any value has members and one. -/
theorem Fragment.finishes (enough : bound + 1 < rounds) (fragment : List Statement)
    (guarded : Fragment.Guarded fragment) {m : Machine} (narrow : m.env.Narrow bound) :
    Finishes (Fragment.run rounds fragment) m := by
  cases fragment with
  | nil => exact Finishes.pure ()
  | cons statement rest =>
      obtain ⟨own, others⟩ := List.forall_mem_append.1 guarded
      refine (statement.finishes enough own narrow).bind fun _ between ran => ?_
      have changes := statement.changing rounds m between () ran
      exact Fragment.finishes enough rest others (changes.narrow narrow)

end

end

/-! ### Generated code -/

/-- Whatever the variables and the message are, generated code returns or fails after finitely many
rounds, and no execution of a loop begins more rounds than its array has members and one. -/
theorem generated_terminates {text : String} {node : Node} (read : Node.read text = .ok node)
    (plain : node.hasVariant = false) (options : Options) (recovery : String)
    {iter name : GivenName} {iterName varName : VarName} (iterGiven : iter.resolve = some iterName)
    (nameGiven : name.resolve = some varName) :
    ∃ generated, generate options (.signature text) iter name (some recovery) = .ok generated ∧
      ∀ (m : Machine) (rounds : Nat), m.env.widest + 1 < rounds →
        (∀ final, Fragment.run rounds generated.fragment m ≠ .error .unfinished final) ∧
        (∀ greater, rounds ≤ greater →
          Fragment.run greater generated.fragment m = Fragment.run rounds generated.fragment m) ∧
        ∀ loop ∈ Fragment.loopRuns rounds generated.fragment m, loop.Bounded := by
  have marshallable := Node.marshallable_of_read read plain
  refine ⟨_, (generate_of_read read).trans
    (marshallable.generate options recovery iterGiven nameGiven), fun m rounds enough => ?_⟩
  have guarded := marshallable.guarded_code options recovery iterName varName
  have finishes := Fragment.finishes enough _ guarded m.env.narrow_widest
  refine ⟨finishes, fun greater atLeast => ?_, Fragment.bounded_loopRuns rounds _ guarded m⟩
  exact Fragment.refines atLeast _ m finishes

/-- A length that is greater than the list is long. -/
def shortNumbers : Machine :=
  .start
    [({ base := "numbers" }, .list [.int 7]),
      ({ base := "numbers", path := [.len] }, .int 1000000)]
    (some { base := "iter" }) none

theorem generated_terminates_shortNumbers :
    ∃ generated,
      generate {} (.signature "au") (.text "iter") (.text "numbers") (some "return FALSE;") =
        .ok generated ∧
      (∀ final, Fragment.run 3 generated.fragment shortNumbers ≠ .error .unfinished final) ∧
      (∀ greater, 3 ≤ greater →
        Fragment.run greater generated.fragment shortNumbers =
          Fragment.run 3 generated.fragment shortNumbers) ∧
      ∀ loop ∈ Fragment.loopRuns 3 generated.fragment shortNumbers, loop.Bounded := by
  have read : Node.read "au" = .ok (.array (.basic "u")) := rfl
  have iterGiven : (GivenName.text "iter").resolve = some { base := "iter" } := rfl
  have nameGiven : (GivenName.text "numbers").resolve = some { base := "numbers" } := rfl
  obtain ⟨generated, generates, ends⟩ :=
    generated_terminates read rfl {} "return FALSE;" iterGiven nameGiven
  exact ⟨generated, generates, ends shortNumbers 3 (by decide)⟩

/-- The bound is reached: behind the only member one more round begins. -/
example :
    (Fragment.loopRuns 3
      ((Node.array (.basic "u")).code {} "return FALSE;" { base := "iter" } { base := "numbers" })
      shortNumbers).map (fun loop => loop.begun.length) = [2] := by
  decide

end DBusMarshal
