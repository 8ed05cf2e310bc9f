import DBusMarshal.Proofs.Changes
import DBusMarshal.Proofs.Iteration
import DBusMarshal.Proofs.Loops

/-!
How often the loops of generated code go round.

In every round the body of a loop copies an element out of the array at the index, and it sets
neither of the two. So every position that the index has passed selects a part of the array, and an
array has no more such positions than members. Nothing is assumed of what the variables hold: where
a length is too great or a null is missing, the round behind the last member fails.
-/

set_option autoImplicit false

namespace DBusMarshal

open Environment (Changes)

/-! ### Executions of loops -/

/-- The machines in front of the rounds that a loop begins, of which there may be at most a
number. -/
def begunRounds (test : Run Bool) (round : Run Unit) : (rounds : Nat) → Machine → List Machine
  | 0, _ => []
  | rounds + 1, m =>
    match test m with
    | .ok true front =>
      front ::
        match round front with
        | .ok _ later => begunRounds test round rounds later
        | .error _ _ => []
    | _ => []

/-- One execution of a loop: its array, the machine that it starts on, and the machines in front of
the rounds that it begins. -/
structure LoopRun where
  array : VarName
  start : Machine
  begun : List Machine

def loopRun (rounds : Nat) (index array : VarName) (length : Option VarName) (body : Fragment)
    (m : Machine) : LoopRun where
  array := array
  start := m
  begun := begunRounds (loopContinues index array length) (loopRound rounds index body) rounds
    (m.assign index (.value (.int 0)))

mutual

/-- The executions of loops, at every depth, while a statement runs. -/
def Statement.loopRuns (rounds : Nat) (statement : Statement) (m : Machine) : List LoopRun :=
  match statement with
  | .loop index array length body =>
    let own := loopRun rounds index array length body m
    own :: own.begun.flatMap fun front => Fragment.loopRuns rounds body front
  | _ => []

/-- The executions of loops while a fragment runs, in the order in which they start. -/
def Fragment.loopRuns (rounds : Nat) (statements : List Statement) (m : Machine) : List LoopRun :=
  match statements with
  | [] => []
  | statement :: rest =>
    statement.loopRuns rounds m ++
      match statement.run rounds m with
      | .ok _ later => Fragment.loopRuns rounds rest later
      | .error _ _ => []

end

/-- The array stays the one that the loop started with, and the loop begins one round more than the
array has members at most. -/
structure LoopRun.Bounded (loop : LoopRun) : Prop where
  same : ∀ front ∈ loop.begun,
    List.lookup loop.array front.env = List.lookup loop.array loop.start.env
  short : loop.begun.length ≤ loop.start.env.sizeAt loop.array + 1

section

variable {names : List VarName} {test : Run Bool} {round : Run Unit}

/-- Up to the front of a round, only what test and round change is changed. -/
theorem Changing.begun (tests : Changing names test) (goes : Changing names round) (rounds : Nat)
    (m : Machine) : ∀ front ∈ begunRounds test round rounds m, Changes names m.env front.env := by
  induction rounds generalizing m with
  | zero => exact List.forall_mem_nil _
  | succ left ih =>
      rw [begunRounds]
      split
      · rename_i front tested
        have reached := tests m front true tested
        refine List.forall_mem_cons.2 ⟨reached, ?_⟩
        split
        · rename_i later ran
          intro behind listed
          exact (reached.trans (goes front later _ ran)).trans (ih later behind listed)
        · exact List.forall_mem_nil _
      · exact List.forall_mem_nil _

end

/-! ### Loops that go over an array -/

/-- The body of a loop copies an element out of the array at the index, and sets neither of them. -/
structure GoesOver (index array : VarName) (body : Fragment) : Prop where
  apart : array ≠ index
  keepsIndex : index ∉ Fragment.sets body
  keepsArray : array ∉ Fragment.sets body
  copies : ∃ target, .assign target array index ∈ body

/-- A loop goes over its array. -/
def Statement.Guarded : Statement → Prop
  | .loop index array _ body => GoesOver index array body
  | _ => True

/-- All loops of a fragment, at every depth, go over their arrays. -/
def Fragment.Guarded (fragment : Fragment) : Prop :=
  ∀ statement ∈ Fragment.walk fragment, statement.Guarded

/-- What holds in front of the test for a position. Every earlier position selected a part of the
array that the loop started with. -/
structure AtPosition (index array : VarName) (start : Environment) (position : Nat)
    (m : Machine) : Prop where
  counted : List.lookup index m.env = some (.value (.int position))
  same : List.lookup array m.env = List.lookup array start
  passed : ∀ earlier < position, ∃ whole part,
    List.lookup array start = some (.value whole) ∧ whole.select (.int (earlier : Nat)) = .ok part

section

variable {index array : VarName} {body : Fragment} {start : Environment} {position rounds : Nat}
variable {m front later : Machine}

theorem AtPosition.le_size (ready : AtPosition index array start position m) :
    position ≤ start.sizeAt array := by
  cases position with
  | zero => exact Nat.zero_le _
  | succ last =>
      obtain ⟨whole, _, held, _⟩ := ready.passed last (Nat.lt_succ_self last)
      have size : start.sizeAt array = whole.size := by
        rw [Environment.sizeAt, held]
      rw [size]
      refine Value.le_size_of_select fun earlier below => ?_
      obtain ⟨other, part, heldToo, selected⟩ := ready.passed earlier below
      cases held.symm.trans heldToo
      exact ⟨part, selected⟩

/-- A body that runs to its end has selected a part of the array. -/
theorem GoesOver.selects (goes : GoesOver index array body)
    (ready : AtPosition index array start position front)
    (ran : Fragment.run rounds body front = .ok () later) :
    ∃ whole part, List.lookup array start = some (.value whole) ∧
      whole.select (.int position) = .ok part := by
  obtain ⟨target, copies⟩ := goes.copies
  obtain ⟨before, behind, rfl⟩ := List.append_of_mem copies
  rw [Fragment.run_append] at ran
  obtain ⟨_, between, ranBefore, ranBehind⟩ := exists_of_bind_ok ran
  obtain ⟨_, _, assigns, _⟩ := exists_of_bind_ok ranBehind
  obtain ⟨whole, place, part, isWhole, isPlace, selected, _⟩ := part_of_assign assigns
  -- What runs in front of the copy leaves both variables alone, as the whole body does.
  have changes := Fragment.changing rounds before front between () ranBefore
  have outside {name : VarName}
      (kept : name ∉ Fragment.sets (before ++ .assign target array index :: behind)) :
      name ∉ Fragment.sets before := by
    rw [Fragment.sets_append] at kept
    exact fun listed => kept (List.mem_append_left _ listed)
  rw [changes.lookup_eq (outside goes.keepsArray), ready.same] at isWhole
  rw [changes.lookup_eq (outside goes.keepsIndex), ready.counted] at isPlace
  cases isPlace
  exact ⟨whole, part, isWhole, selected⟩

/-- A round that runs to its end leads to the next position. -/
theorem AtPosition.next (goes : GoesOver index array body)
    (ready : AtPosition index array start position front)
    (ran : loopRound rounds index body front = .ok () later) :
    AtPosition index array start (position + 1) later := by
  obtain ⟨_, between, ranBody, advanced⟩ := exists_of_bind_ok ran
  have changes := Fragment.changing rounds body front between () ranBody
  have counted := (changes.lookup_eq goes.keepsIndex).trans ready.counted
  have same := (changes.lookup_eq goes.keepsArray).trans ready.same
  rw [advances counted] at advanced
  cases advanced
  refine ⟨Environment.lookup_set_same _ _ _, ?_, fun earlier below => ?_⟩
  · exact (Environment.lookup_set_other _ _ goes.apart).trans same
  · rcases Nat.lt_succ_iff_lt_or_eq.1 below with before | now
    · exact ready.passed earlier before
    · rw [now]
      exact goes.selects ready ranBody

/-- The rounds that are begun stand at positions one after the other. -/
theorem AtPosition.begun (goes : GoesOver index array body) (length : Option VarName) (left : Nat)
    (ready : AtPosition index array start position m) {place : Nat}
    (found : (begunRounds (loopContinues index array length) (loopRound rounds index body)
      left m)[place]? = some front) :
    AtPosition index array start (position + place) front := by
  induction left generalizing position m place with
  | zero => cases found
  | succ left ih =>
      rw [begunRounds] at found
      split at found
      · rename_i begins tested
        obtain ⟨rfl, _⟩ := looks_continues index array length m begins true tested
        cases place with
        | zero =>
            cases found
            exact ready
        | succ place =>
            rw [List.getElem?_cons_succ] at found
            split at found
            · rename_i later ran
              have further := ih (ready.next goes ran) found
              rwa [Nat.add_right_comm] at further
            · cases found
      · cases found

/-- The execution of a loop that goes over its array is bounded by the array. -/
theorem GoesOver.bounded (goes : GoesOver index array body) (rounds : Nat)
    (length : Option VarName) (m : Machine) :
    (loopRun rounds index array length body m).Bounded := by
  have ready : AtPosition index array m.env 0 (m.assign index (.value (.int 0))) :=
    ⟨Environment.lookup_set_same _ _ _, Environment.lookup_set_other _ _ goes.apart,
      fun _ impossible => absurd impossible (Nat.not_lt_zero _)⟩
  constructor
  · intro front listed
    obtain ⟨place, found⟩ := List.getElem?_of_mem listed
    exact (ready.begun goes length rounds found).same
  · -- The last round that is begun stands at a position that the array allows.
    by_contra long
    have last := List.getElem?_eq_getElem (Nat.lt_of_not_le long)
    have reached := (ready.begun goes length rounds last).le_size
    rw [Nat.zero_add] at reached
    exact Nat.not_succ_le_self _ reached

end

mutual

theorem Statement.bounded_loopRuns (rounds : Nat) (statement : Statement)
    (guarded : ∀ inner ∈ statement.walk, inner.Guarded) (m : Machine) :
    ∀ loop ∈ statement.loopRuns rounds m, loop.Bounded := by
  cases statement with
  | loop index array length body =>
      obtain ⟨goes, inside⟩ := List.forall_mem_cons.1 guarded
      refine List.forall_mem_cons.2 ⟨goes.bounded rounds length m, ?_⟩
      refine List.forall_mem_flatMap.2 fun front _ => ?_
      exact Fragment.bounded_loopRuns rounds body inside front
  | _ => exact List.forall_mem_nil _

/-- While a fragment runs, every execution of its loops is bounded by the array that it goes
over. -/
theorem Fragment.bounded_loopRuns (rounds : Nat) (fragment : List Statement)
    (guarded : Fragment.Guarded fragment) (m : Machine) :
    ∀ loop ∈ Fragment.loopRuns rounds fragment m, loop.Bounded := by
  cases fragment with
  | nil => exact List.forall_mem_nil _
  | cons statement rest =>
      obtain ⟨own, others⟩ := List.forall_mem_append.1 guarded
      refine List.forall_mem_append.2 ⟨statement.bounded_loopRuns rounds own m, ?_⟩
      split
      · exact Fragment.bounded_loopRuns rounds rest others _
      · exact List.forall_mem_nil _

end

/-! ### The loops of generated code -/

namespace Node

variable (options : Options) (recovery : String)

theorem below_of_sets_loopBody {element : Node} (inside : element.Marshallable)
    (iter name : VarName) :
    ∀ other ∈ Fragment.sets (loopBody options element name
        (element.code options recovery iter (name.child .element))),
      other.Below (name.child .element) := by
  refine List.forall_mem_flatMap.2 (Fragment.forall_walk_loopBody (List.forall_mem_nil _) ?_ ?_ ?_)
  · refine Fragment.forall_walk_map _ _ (fun _ => rfl) fun entry listed => ?_
    exact List.forall_mem_singleton.2 (inside.below_of_declared options listed)
  · refine Fragment.forall_walk_map _ _ (fun _ => rfl) fun port _ => ?_
    exact List.forall_mem_singleton.2 (VarName.below_append _ port.path)
  · intro statement listed
    exact (inside.confined_code options recovery iter (name.child .element) statement listed).sets

/-- The loop in the code for an array goes over the variable of the array. -/
theorem goesOver_loopBody {element : Node} (inside : element.Marshallable) (iter name : VarName) :
    GoesOver (name.child .index) name (loopBody options element name
      (element.code options recovery iter (name.child .element))) where
  apart := (VarName.child_ne name .index).symm
  keepsIndex := by
    intro set
    have below := below_of_sets_loopBody options recovery inside iter name _ set
    exact VarName.child_not_below (by decide) below
  keepsArray := by
    intro set
    have below := below_of_sets_loopBody options recovery inside iter name _ set
    exact VarName.not_below_child name .element below
  copies := ⟨_, assign_mem_loopBody options element name _⟩

/-- All loops of generated code go over their arrays. -/
theorem Marshallable.guarded_code {node : Node} (marshallable : node.Marshallable)
    (iter name : VarName) : Fragment.Guarded (node.code options recovery iter name) := by
  intro statement listed
  have inside := marshallable.loopsInside_code options recovery .whole iter statement listed
  cases statement with
  | loop index source length body =>
      obtain ⟨element, stands, rfl, _, rfl⟩ := inside
      cases stands.marshallable marshallable with
      | array element => exact goesOver_loopBody options recovery element _ source
  | _ => trivial

end Node

end DBusMarshal
