import DBusMarshal.Proofs.Ownership
import DBusMarshal.Proofs.Simulation

/-!
The loop over the elements of an array.

In front of every round the index counts the elements that are done, while the columns of the array
and its container are what they were at the start. One round copies an element out of the columns
and marshals it. Behind the last element the index has reached the length, or it selects the null
at the end of the column; no element of its own is null there.
-/

set_option autoImplicit false

namespace DBusMarshal

/-! ### Going round -/

section Rounds

variable {m between : Machine}

theorem continues_of_length {index array length : VarName} {position count : Nat}
    (counted : List.lookup index m.env = some (.value (.int position)))
    (bound : List.lookup length m.env = some (.value (.int count))) :
    loopContinues index array (some length) m = .ok (decide (position < count)) m := by
  have compared : (Value.int position).less (.int count) = .ok (decide (position < count)) := by
    change Except.ok ((Exact.ofInt position).less (Exact.ofInt count)) = _
    rw [Exact.less_ofInt]
    simp
  unfold loopContinues
  rw [bind_of_ok (Machine.read_of_found counted)]
  change (Machine.read length >>= _) m = _
  rw [bind_of_ok (Machine.read_of_found bound)]
  change (MonadExcept.ofExcept ((Value.int position).less (.int count)) : Run Bool) m = _
  rw [compared]
  rfl

theorem continues_of_null {index array : VarName} {position : Nat} {items : List Value}
    {item : Value} (counted : List.lookup index m.env = some (.value (.int position)))
    (given : List.lookup array m.env = some (.value (.list items)))
    (found : items[position]? = some item) :
    loopContinues index array none m = .ok (!item.isNull) m := by
  have selected : Machine.select (.value (.list items)) (.value (.int position)) = .ok item :=
    Value.select_list found
  unfold loopContinues
  rw [bind_of_ok (Machine.read_of_found counted)]
  change (Machine.read array >>= _) m = _
  rw [bind_of_ok (Machine.read_of_found given), bind_of_except selected]
  rfl

theorem advances {index : VarName} {position : Nat}
    (counted : List.lookup index m.env = some (.value (.int position))) :
    loopAdvance index m = .ok () (m.assign index (.value (.int (position + 1 : Nat)))) := by
  unfold loopAdvance
  rw [bind_of_ok (Machine.read_of_found counted)]
  rfl

theorem stops {test : Run Bool} {body : Run Unit} {fuel : Nat} (enough : 0 < fuel)
    (tested : test m = .ok false m) : repeatWhile test body fuel m = .ok () m := by
  cases fuel with
  | zero => cases enough
  | succ fuel =>
      rw [repeatWhile, bind_of_ok tested]
      rfl

theorem goes_on {test : Run Bool} {body : Run Unit} {fuel : Nat} (tested : test m = .ok true m)
    (ran : body m = .ok () between) :
    repeatWhile test body (fuel + 1) m = repeatWhile test body fuel between := by
  rw [repeatWhile, bind_of_ok tested]
  change (body >>= fun _ => repeatWhile test body fuel) m = _
  rw [bind_of_ok ran]

end Rounds

namespace Node

/-! ### Columns -/

theorem column_array {element : Node} (value : Value) {path : List Segment}
    (listed : path ∈ element.paths) :
    (array element).column value path =
      .list ((value.parts.map fun row => element.column row path) ++
        if element.isFixed then [] else [.null]) := by
  rw [column, if_neg]
  rintro ⟨fixed, isLength⟩
  rw [isLength, paths, hasLength_of_isFixed fixed, if_neg Bool.false_ne_true] at listed
  cases List.mem_singleton.1 listed

/-- A null marks the end of a column: the elements in it are not null. -/
theorem column_not_null {element : Node} {row : Value} (accepted : element.accepts row = true)
    (sized : element.isFixed = false) : (element.column row []).isNull = false := by
  cases element with
  | basic code =>
      rw [accepts] at accepted
      rw [isFixed] at sized
      rw [sized, if_neg Bool.false_ne_true] at accepted
      cases row with
      | text written => rfl
      | _ => cases accepted
  | array inner =>
      rw [column_array row (nil_mem_paths inner)]
      rfl
  | struct members => rfl
  | entry key content => rfl
  | variant => cases accepted
  | stray text => cases accepted

/-! ### Rounds -/

/-- What holds in front of the round for the element at a position. -/
structure AtRound (element : Node) (name : VarName) (value : Value) (handle position : Nat)
    (m : Machine) : Prop where
  counted : List.lookup (name.child .index) m.env = some (.value (.int position))
  supplied : ∀ path ∈ (array element).paths,
    List.lookup (name.append path) m.env = some (.value ((array element).column value path))
  place : List.lookup (name.child .iter) m.env = some (.container handle)
  isOpen : m.writer.IsOpen handle
  memory : m.writer.failAt = none

section

variable (rounds : Nat) (options : Options) (recovery : String)
variable {element : Node} {name : VarName} {value row : Value} {handle position : Nat}
variable {m : Machine}

def continues (element : Node) (name : VarName) : Run Bool :=
  loopContinues (name.child .index) name
    (if element.isFixed then some (name.child .len) else none)

def round (element : Node) (name : VarName) : Run Unit := do
  Fragment.run rounds (loopBody options element name
    (element.code options recovery (name.child .iter) (name.child .element)))
  loopAdvance (name.child .index)

theorem AtRound.continues (ready : AtRound element name value handle position m)
    (accepted : ∀ row ∈ value.parts, element.accepts row = true)
    (inside : position ≤ value.parts.length) :
    element.continues name m = .ok (decide (position < value.parts.length)) m := by
  have given := ready.supplied [] (nil_mem_paths _)
  rw [VarName.append_nil, column_array value (nil_mem_paths element)] at given
  unfold Node.continues
  cases fixed : element.isFixed with
  | true =>
      have bound := ready.supplied [.len] (len_mem_paths fixed)
      rw [column, if_pos ⟨fixed, rfl⟩] at bound
      rw [if_pos rfl]
      exact continues_of_length ready.counted bound
  | false =>
      rw [fixed, if_neg Bool.false_ne_true] at given
      rw [if_neg Bool.false_ne_true]
      rcases Nat.lt_or_ge position value.parts.length with below | above
      · have listed : value.parts[position] ∈ value.parts := List.getElem_mem below
        have found : ((value.parts.map fun row => element.column row []) ++ [.null])[position]? =
            some (element.column value.parts[position] []) := by
          rw [List.getElem?_append_left (by rw [List.length_map]; exact below),
            List.getElem?_map, List.getElem?_eq_getElem below]
          rfl
        rw [continues_of_null ready.counted given found,
          column_not_null (accepted _ listed) fixed, decide_eq_true below]
        rfl
      · have found : ((value.parts.map fun row => element.column row []) ++ [.null])[position]? =
            some .null := by
          have atEnd : position = (value.parts.map fun row => element.column row []).length := by
            rw [List.length_map]
            omega
          rw [atEnd, List.getElem?_append_right (Nat.le_refl _), Nat.sub_self]
          rfl
        rw [continues_of_null ready.counted given found, decide_eq_false (by omega)]
        rfl

theorem AtRound.runs_copies (ready : AtRound element name value handle position m)
    (found : value.parts[position]? = some row) :
    ∃ env, Fragment.run rounds (element.copies options name) m = .ok () { m with env } ∧
      m.env.AgreesOutside (name.child .element) env ∧
      ∀ path ∈ element.paths,
        List.lookup ((name.child .element).append path) env =
          some (.value (element.column row path)) := by
  obtain ⟨env, ran, agrees, written⟩ := runs_moves rounds (name.child .element)
    (fun path => .assign ((name.child .element).append path) (name.append path)
      (name.child .index))
    (element.column row) element.paths m (by
      intro path listed env agrees
      have given := ready.supplied path (mem_paths_array listed)
      rw [column_array value listed] at given
      have still : List.lookup (name.append path) env = _ :=
        (agrees _ (append_not_below name listed (by decide))).trans given
      have counted : List.lookup (name.child .index) env = _ :=
        (agrees _ (VarName.child_not_below (by decide))).trans ready.counted
      have item : ((value.parts.map fun row => element.column row path) ++
          if element.isFixed then [] else [.null])[position]? =
            some (element.column row path) := by
        obtain ⟨below, _⟩ := List.getElem?_eq_some_iff.1 found
        rw [List.getElem?_append_left (by rw [List.length_map]; exact below),
          List.getElem?_map, found]
        rfl
      exact runs_assign still counted item)
  rw [copies_eq]
  refine ⟨env, ran, agrees, ?_⟩
  intro path listed
  rw [written path, if_pos listed]

theorem AtRound.of_agrees {later : Machine}
    (ready : AtRound element name value handle position m)
    (agrees : m.env.AgreesOutside (name.child .element) later.env)
    (isOpen : later.writer.IsOpen handle) (memory : later.writer.failAt = none) :
    AtRound element name value handle position later where
  counted := (agrees _ (VarName.child_not_below (by decide))).trans ready.counted
  supplied := by
    intro path listed
    have outside : ¬ (name.append path).Below (name.child .element) :=
      append_not_below name listed (by decide)
    exact (agrees _ outside).trans (ready.supplied path listed)
  place := (agrees _ (VarName.child_not_below (by decide))).trans ready.place
  isOpen := isOpen
  memory := memory

theorem AtRound.advance (ready : AtRound element name value handle position m) :
    AtRound element name value handle (position + 1)
      (m.assign (name.child .index) (.value (.int (position + 1 : Nat)))) where
  counted := Environment.lookup_set_same _ _ _
  supplied := by
    intro path listed
    have different : name.append path ≠ name.child .index :=
      append_ne_child name listed (by decide)
    exact (Environment.lookup_set_other _ _ different).trans (ready.supplied path listed)
  place := by
    have different : name.child .iter ≠ name.child .index :=
      (VarName.below_self (name.child .iter)).ne (VarName.below_self _) (by decide)
    exact (Environment.lookup_set_other _ _ different).trans ready.place
  isOpen := ready.isOpen
  memory := ready.memory

/-- One round makes the calls of one element, and then the next round is in front. -/
theorem AtRound.runs_round (inside : element.Marshallable)
    (ready : AtRound element name value handle position m)
    (found : value.parts[position]? = some row)
    (simulates : element.Simulates options recovery rounds row) :
    ∃ env, round rounds options recovery element name m =
        .ok () (m.after env ((element.message row).calls handle m.writer.containers.length)) ∧
      m.env.AgreesOutside name env ∧
      AtRound element name value handle (position + 1)
        (m.after env ((element.message row).calls handle m.writer.containers.length)) := by
  obtain ⟨declared, ranDeclared, agreesDeclared⟩ := runs_declarations rounds _
    (fun entry listed => inside.below_of_declared options listed) m
  have readyDeclared : AtRound element name value handle position { m with env := declared } :=
    ready.of_agrees agreesDeclared ready.isOpen ready.memory
  obtain ⟨copied, ranCopies, agreesCopied, supplied⟩ :=
    readyDeclared.runs_copies rounds options found
  have readyCopied : AtRound element name value handle position { m with env := copied } :=
    readyDeclared.of_agrees agreesCopied ready.isOpen ready.memory
  have serves : Machine.Serves { m with env := copied } (name.child .iter) handle element
      (name.child .element) row :=
    { apart := VarName.child_not_below (by decide)
      place := readyCopied.place
      isOpen := ready.isOpen
      supplied
      memory := ready.memory }
  obtain ⟨env, ranCode, agreesCode⟩ := simulates _ _ _ _ serves
  obtain ⟨slot, adds⟩ := (element.message row).adds_calls m.writer handle ready.isOpen.lt
  let done := m.after env ((element.message row).calls handle m.writer.containers.length)
  have readyDone : AtRound element name value handle position done :=
    readyCopied.of_agrees agreesCode (adds.keepsOpen ready.isOpen)
      ((Writer.failAt_carryAll _ _).trans ready.memory)
  have ranBody : Fragment.run rounds (loopBody options element name
      (element.code options recovery (name.child .iter) (name.child .element))) m =
        .ok () done := by
    rw [loopBody, List.append_assoc, List.append_assoc, List.append_assoc,
      run_append_of_ok _ ranDeclared, run_append_of_ok _ (run_cons_of_ok [] (blank_runs rounds _)),
      run_append_of_ok _ ranCopies, run_append_of_ok _ (run_cons_of_ok [] (blank_runs rounds _))]
    exact ranCode
  refine ⟨env.set (name.child .index) (.value (.int (position + 1 : Nat))), ?_, ?_, ?_⟩
  · rw [round, bind_of_ok ranBody, advances readyDone.counted]
    rfl
  · exact ((agreesDeclared.trans agreesCopied).trans agreesCode).of_child.trans
      (Environment.AgreesOutside.set (VarName.below_child name .index) _ _)
  · exact readyDone.advance

/-- From the round at a position on, the loop makes the calls of the elements that are left. -/
theorem AtRound.runs_rounds (inside : element.Marshallable) (rest : List Value) {fuel : Nat}
    (ready : AtRound element name value handle position m)
    (accepted : ∀ row ∈ value.parts, element.accepts row = true)
    (left : value.parts.drop position = rest) (enough : rest.length < fuel)
    (within : position ≤ value.parts.length)
    (simulates : ∀ row ∈ rest, element.Simulates options recovery rounds row) :
    ∃ env, repeatWhile (element.continues name) (round rounds options recovery element name)
          fuel m =
        .ok () (m.after env (Message.callsAll (rest.map fun row => element.message row) handle
          m.writer.containers.length)) ∧
      m.env.AgreesOutside name env ∧
      List.lookup (name.child .iter) env = some (.container handle) := by
  induction rest generalizing position fuel m with
  | nil =>
      have behind : value.parts.length ≤ position := List.drop_eq_nil_iff.1 left
      have tested := ready.continues accepted within
      rw [decide_eq_false (by omega)] at tested
      refine ⟨m.env, ?_, .refl name m.env, ready.place⟩
      rw [stops (by omega) tested, List.map_nil, Message.callsAll, Machine.after_nil]
  | cons row rest ih =>
      have length := congrArg List.length left
      rw [List.length_drop, List.length_cons] at length
      have found : value.parts[position]? = some row := by
        have first := congrArg List.head? left
        rwa [List.head?_drop] at first
      have leftLater : value.parts.drop (position + 1) = rest := by
        have others := congrArg List.tail left
        rwa [List.tail_drop] at others
      have tested := ready.continues accepted within
      rw [decide_eq_true (by omega)] at tested
      obtain ⟨between, ranRound, agreesRound, readyLater⟩ :=
        ready.runs_round rounds options recovery inside found (simulates row List.mem_cons_self)
      cases fuel with
      | zero => cases enough
      | succ fuel =>
          obtain ⟨env, ranRest, agreesRest, place⟩ := ih readyLater leftLater
            (Nat.lt_of_succ_lt_succ enough) (by omega)
            (fun other listed => simulates other (List.mem_cons_of_mem _ listed))
          obtain ⟨slot, adds⟩ := (element.message row).adds_calls m.writer handle ready.isOpen.lt
          have next : (m.after between ((element.message row).calls handle
              m.writer.containers.length)).writer.containers.length =
                m.writer.containers.length + (element.message row).containers := adds.length
          refine ⟨env, ?_, agreesRound.trans agreesRest, place⟩
          rw [goes_on tested ranRound, ranRest, Machine.after_after, next]
          rfl

end

/-! ### Whole arrays -/

theorem longest_array {element : Node} {value : Value} {bound : Nat}
    (enough : (array element).longest value < bound) :
    value.parts.length < bound ∧ ∀ row ∈ value.parts, element.longest row < bound := by
  rw [longest] at enough
  generalize value.parts.length = length at enough ⊢
  generalize value.parts = rows at enough ⊢
  induction rows with
  | nil =>
      refine ⟨enough, ?_⟩
      intro row listed
      cases listed
  | cons first rest ih =>
      rw [List.foldr_cons, Nat.max_lt] at enough
      obtain ⟨most, others⟩ := ih enough.2
      refine ⟨most, ?_⟩
      intro row listed
      rcases List.mem_cons.1 listed with same | later
      · rw [same]
        exact enough.1
      · exact others row later

theorem simulates_array (rounds : Nat) (options : Options) (recovery : String) {element : Node}
    (inside : element.Marshallable) {value : Value}
    (accepted : ∀ row ∈ value.parts, element.accepts row = true)
    (enough : (array element).longest value < rounds)
    (ih : ∀ row ∈ value.parts, element.Simulates options recovery rounds row) :
    (array element).Simulates options recovery rounds value := by
  intro iter name m target serves
  let opened := m.after (m.env.set (name.child .iter) (.container m.writer.containers.length))
    [.openContainer target "DBUS_TYPE_ARRAY" element.signature]
  let started := opened.assign (name.child .index) (.value (.int (0 : Nat)))
  have next : started.writer.containers.length = m.writer.containers.length + 1 :=
    m.writer.length_open target "DBUS_TYPE_ARRAY" element.signature
  have apartIndex : name.child .iter ≠ name.child .index :=
    (VarName.below_self (name.child .iter)).ne (VarName.below_self _) (by decide)
  have ready : AtRound element name value m.writer.containers.length 0 started :=
    { counted := Environment.lookup_set_same _ _ _
      supplied := by
        intro path listed
        have notIter : name.append path ≠ name.child .iter :=
          append_ne_child name listed (by decide)
        have notIndex : name.append path ≠ name.child .index :=
          append_ne_child name listed (by decide)
        have kept : List.lookup (name.append path) started.env = _ :=
          (Environment.lookup_set_other _ _ notIndex).trans
            (Environment.lookup_set_other _ _ notIter)
        exact kept.trans (serves.supplied path listed)
      place := (Environment.lookup_set_other _ _ apartIndex).trans
        (Environment.lookup_set_same _ _ _)
      isOpen := ⟨_, m.writer.open_new target "DBUS_TYPE_ARRAY" element.signature, rfl⟩
      memory := (Writer.failAt_carryAll _ _).trans serves.memory }
  obtain ⟨short, _⟩ := longest_array enough
  obtain ⟨env, ranRounds, agrees, filled⟩ := ready.runs_rounds rounds options recovery inside
    value.parts accepted List.drop_zero short (Nat.zero_le _) ih
  rw [next] at ranRounds
  have whole : opened.env.AgreesOutside name env :=
    (Environment.AgreesOutside.set (VarName.below_child name .index) _ _).trans agrees
  have ranLoop : Fragment.run rounds
      [.loop (name.child .index) name (if element.isFixed then some (name.child .len) else none)
          (loopBody options element name
            (element.code options recovery (name.child .iter) (name.child .element))),
        .blank] opened =
      .ok () (started.after env (Message.callsAll (value.parts.map fun row => element.message row)
        m.writer.containers.length (m.writer.containers.length + 1))) := by
    have ran : (Statement.loop (name.child .index) name
        (if element.isFixed then some (name.child .len) else none)
        (loopBody options element name
          (element.code options recovery (name.child .iter) (name.child .element)))).run rounds
            opened = .ok () _ := ranRounds
    rw [run_cons_of_ok _ ran]
    rfl
  have placeLater : List.lookup iter env = some (.container target) :=
    (whole iter serves.apart).trans
      ((Environment.AgreesOutside.set (VarName.below_child name .iter) _ _ iter
        serves.apart).trans serves.place)
  refine ⟨env, ?_, ?_⟩
  · exact runs_container rounds "DBUS_TYPE_ARRAY" element.signature recovery _ serves.place
      serves.isOpen serves.memory ranLoop placeLater filled
  · exact (Environment.AgreesOutside.set (VarName.below_child name .iter) _ _).trans whole

/-- The generated code makes the calls of the message of every conforming value. -/
theorem Marshallable.simulates {node : Node} (marshallable : node.Marshallable) (rounds : Nat)
    (options : Options) (recovery : String) {value : Value} (accepted : node.accepts value = true)
    (enough : node.longest value < rounds) : node.Simulates options recovery rounds value := by
  induction marshallable using Marshallable.byKind generalizing value with
  | basic code known => exact simulates_basic rounds options recovery known value
  | array element inside ih =>
      rw [accepts, Bool.and_eq_true, List.all_eq_true] at accepted
      obtain ⟨_, short⟩ := longest_array enough
      exact simulates_array rounds options recovery inside accepted.2 enough
        (fun row listed => ih (accepted.2 row listed) (short row listed))
  | group node marshallable isGroup ih =>
      exact simulates_group rounds options recovery isGroup accepted enough
        (fun member listed value accepted enough => ih member listed accepted enough)

end Node

end DBusMarshal
