import DBusMarshal.Layout
import DBusMarshal.Proofs.Conformance
import DBusMarshal.Proofs.Emission

/-!
What a conforming value is laid out as.

`Node.column` is the value of one input, found by its path alone. Laying out a conforming value
gives every input its column, in the order of the inputs. No field of a struct comes twice, because
a field tells the position of its member and the path inside it.
-/

set_option autoImplicit false

namespace DBusMarshal

namespace Node

mutual

/-- The value of the input at the end of a path. -/
def column (node : Node) (value : Value) (path : List Segment) : Value :=
  match node with
  | basic _ => value
  | array element =>
    if element.isFixed = true ∧ path = [.len] then .int value.parts.length
    else
      .list ((value.parts.map fun row => element.column row path) ++
        if element.isFixed then [] else [.null])
  | struct members => .dict (fieldsAll members 0 value.parts)
  | entry key content =>
    .dict
      (match value.parts with
      | [first, second] =>
        (key.paths.map fun path =>
            (.text (fieldText (.item 0 :: path)), key.column first path)) ++
          content.paths.map fun path =>
            (.text (fieldText (.item 1 :: path)), content.column second path)
      | _ => [])
  | _ => .null

def fieldsAll (members : List Node) (position : Nat) (values : List Value) :
    List (Value × Value) :=
  match members, values with
  | member :: rest, value :: others =>
    (member.paths.map fun path =>
        (.text (fieldText (.item position :: path)), member.column value path)) ++
      fieldsAll rest (position + 1) others
  | _, _ => []

end

/-- The inputs of a type under a name, each with its value. -/
def supply (node : Node) (name : VarName) (value : Value) : Layout :=
  node.paths.map fun path => (name.append path, node.column value path)

def fields (member : Node) (position : Nat) (value : Value) : List (Value × Value) :=
  member.paths.map fun path =>
    (.text (fieldText (.item position :: path)), member.column value path)

theorem fieldsAll_cons (member : Node) (rest : List Node) (position : Nat) (value : Value)
    (others : List Value) :
    fieldsAll (member :: rest) position (value :: others) =
      member.fields position value ++ fieldsAll rest (position + 1) others := rfl

theorem column_of_isGroup {node : Node} (group : node.isGroup = true) {value : Value}
    (accepted : node.accepts value = true) (path : List Segment) :
    node.column value path = .dict (fieldsAll node.children 0 value.parts) := by
  cases node with
  | struct members => rfl
  | entry key content =>
      rw [accepts_of_isGroup group, Bool.and_eq_true] at accepted
      have two := length_of_acceptsAll accepted.2
      rw [column]
      generalize value.parts = given at two ⊢
      rcases given with _ | ⟨first, _ | ⟨second, _ | ⟨third, rest⟩⟩⟩
      · cases two
      · cases two
      · simp [children, fieldsAll]
      · cases two
  | _ => cases group

/-! ### Finding inputs and fields -/

theorem lookup_supply {node : Node} (name : VarName) (value : Value) {path : List Segment}
    (listed : path ∈ node.paths) :
    (node.supply name value).lookup (name.append path) = some (node.column value path) := by
  unfold supply
  generalize node.paths = paths at listed ⊢
  induction paths with
  | nil => cases listed
  | cons first rest ih =>
      rw [List.map_cons, List.lookup_cons]
      by_cases same : path = first
      · rw [same, beq_self_eq_true]
      · have different : (name.append path == name.append first) = false :=
          beq_eq_false_iff_ne.2 fun equal => same (VarName.append_injective equal)
        rw [different]
        exact ih ((List.mem_cons.1 listed).resolve_left same)

theorem sameKey_text (left right : String) :
    (Value.text left).sameKey (.text right) = decide (left = right) := by
  rw [Value.sameKey]
  · change (left == right) = _
    by_cases same : left = right <;> simp [same]
  · intro first second impossible
    cases impossible

/-- The keys are fields of members before a position. -/
def FieldsBefore (position : Nat) (entries : List (Value × Value)) : Prop :=
  ∀ entry ∈ entries, ∃ earlier < position, ∃ path : List Segment,
    entry.1 = .text (fieldText (.item earlier :: path))

theorem FieldsBefore.sameKey {position : Nat} {entries : List (Value × Value)}
    (before : FieldsBefore position entries) (path : List Segment) :
    ∀ entry ∈ entries,
      entry.1.sameKey (.text (fieldText (.item position :: path))) = false := by
  intro entry listed
  obtain ⟨earlier, below, inside, key⟩ := before entry listed
  rw [key, sameKey_text]
  apply decide_eq_false
  intro same
  have positions := (fieldText_item_inj same).1
  omega

theorem FieldsBefore.fields {position : Nat} {entries : List (Value × Value)}
    (before : FieldsBefore position entries) (member : Node) (value : Value) :
    FieldsBefore (position + 1) (entries ++ member.fields position value) := by
  intro entry listed
  rcases List.mem_append.1 listed with old | new
  · obtain ⟨earlier, below, found⟩ := before entry old
    exact ⟨earlier, by omega, found⟩
  · obtain ⟨path, _, same⟩ := List.mem_map.1 new
    exact ⟨position, by omega, path, by rw [← same]⟩

theorem lookup_fields {member : Node} (position : Nat) (value : Value) {path : List Segment}
    (listed : path ∈ member.paths) (later : List (Value × Value)) :
    Value.lookup (.text (fieldText (.item position :: path)))
      (member.fields position value ++ later) = some (member.column value path) := by
  have known : RegularPath path := regular_of_mem_paths listed
  have allKnown : ∀ other ∈ member.paths, RegularPath other :=
    fun other => regular_of_mem_paths
  unfold fields
  generalize member.paths = paths at listed allKnown ⊢
  induction paths with
  | nil => cases listed
  | cons first rest ih =>
      rw [List.map_cons, List.cons_append, Value.lookup, sameKey_text]
      by_cases same : path = first
      · rw [same, if_pos (decide_eq_true rfl)]
      · have different : ¬ fieldText (.item position :: first) =
            fieldText (.item position :: path) := by
          intro equal
          exact same (pathText_inj known (allKnown first List.mem_cons_self)
            (fieldText_item_inj equal).2.symm)
        rw [if_neg (by simp [different])]
        exact ih ((List.mem_cons.1 listed).resolve_left same)
          (fun other inRest => allKnown other (List.mem_cons_of_mem _ inRest))

theorem lookup_append_of_new {key : Value} {entries later : List (Value × Value)}
    (new : ∀ entry ∈ entries, entry.1.sameKey key = false) :
    Value.lookup key (entries ++ later) = Value.lookup key later := by
  induction entries with
  | nil => rfl
  | cons entry rest ih =>
      obtain ⟨other, old⟩ := entry
      rw [List.cons_append, Value.lookup,
        if_neg (by simp [new (other, old) List.mem_cons_self]),
        ih (fun entry listed => new entry (List.mem_cons_of_mem _ listed))]

/-! ### Laying out -/

theorem fields_of_new (name : VarName) (position : Nat) (content : List Segment → Value)
    (paths : List (List Segment)) {entries : List (Value × Value)}
    (distinct : (paths.map fun path => fieldText (.item position :: path)).Nodup)
    (new : ∀ path ∈ paths, ∀ entry ∈ entries,
      entry.1.sameKey (.text (fieldText (.item position :: path))) = false) :
    Layout.fields name
        (paths.map fun path => ((name.child (.item position)).append path, content path)) entries =
      .ok (entries ++ paths.map fun path =>
        (.text (fieldText (.item position :: path)), content path)) := by
  induction paths generalizing entries with
  | nil =>
      rw [List.map_nil, List.map_nil, List.append_nil]
      rfl
  | cons path rest ih =>
      rw [List.map_cons, List.nodup_cons] at distinct
      have field : ((name.child (.item position)).append path).fieldOf name =
          .ok (fieldText (.item position :: path)) := by
        rw [VarName.child_append]
        exact VarName.fieldOf_append name (List.cons_ne_nil _ _)
      have newLater : ∀ other ∈ rest,
          ∀ entry ∈ entries ++ [(Value.text (fieldText (.item position :: path)), content path)],
            entry.1.sameKey (.text (fieldText (.item position :: other))) = false := by
        intro other inRest entry listed
        rcases List.mem_append.1 listed with old | last
        · exact new other (List.mem_cons_of_mem _ inRest) entry old
        · rw [List.mem_singleton.1 last, sameKey_text]
          apply decide_eq_false
          intro same
          exact distinct.1 (List.mem_map.2 ⟨other, inRest, same.symm⟩)
      rw [List.map_cons, Layout.fields, field]
      change Layout.fields name _ (Value.insert _ _ entries) = _
      rw [insert_of_new (new path List.mem_cons_self), ih distinct.2 newLater, List.append_assoc]
      rfl

theorem fields_of_supply (member : Node) (name : VarName) (position : Nat) (value : Value)
    {entries : List (Value × Value)} (before : FieldsBefore position entries) :
    Layout.fields name (member.supply (name.child (.item position)) value) entries =
      .ok (entries ++ member.fields position value) := by
  refine fields_of_new name position (member.column value) member.paths ?_
    (fun path _ => before.sameKey path)
  have apart : fieldText [.item position] ≠ fieldText [.item position, .len] := by
    intro equal
    exact absurd (fieldText_item_inj equal).2 (by decide)
  unfold paths
  split
  · simp [apart]
  · simp

theorem layoutAll_of_accepts (name : VarName) (members : List Node) (position : Nat)
    {values : List Value} {entries : List (Value × Value)}
    (ih : ∀ member ∈ members, ∀ (origin : VarName) (value : Value),
      member.accepts value = true → member.layout origin value = .ok (member.supply origin value))
    (accepted : acceptsAll members values = true) (before : FieldsBefore position entries) :
    layoutAll members name position values entries =
      .ok (entries ++ fieldsAll members position values) := by
  induction members generalizing position values entries with
  | nil =>
      cases values with
      | nil =>
          rw [fieldsAll, List.append_nil]
          · rfl
          · intro member rest value others impossible
            cases impossible
      | cons value others => cases accepted
  | cons member rest ihRest =>
      cases values with
      | nil => cases accepted
      | cons value others =>
          rw [acceptsAll, Bool.and_eq_true] at accepted
          have laid := ih member List.mem_cons_self (name.child (.item position)) value accepted.1
          have later := ihRest (position + 1)
            (fun other listed => ih other (List.mem_cons_of_mem _ listed)) accepted.2
            (before.fields member value)
          rw [layoutAll, laid]
          change (Layout.fields name (member.supply (name.child (.item position)) value) entries >>=
            fun entries => layoutAll rest name (position + 1) others entries) = _
          rw [fields_of_supply member name position value before]
          change layoutAll rest name (position + 1) others _ = _
          rw [later, fieldsAll_cons, List.append_assoc]

theorem columns_of_supply (element : Node) (name : VarName) (rows : List Value)
    (inputs : List (List Segment))
    (known : ∀ path ∈ inputs, (element.isFixed = true ∧ path = [.len]) ∨ path ∈ element.paths) :
    Layout.columns element name (rows.map (element.supply (name.child .element)))
        (inputs.map name.append) =
      .ok (inputs.map fun path => (name.append path,
        if element.isFixed = true ∧ path = [.len] then .int rows.length
        else
          .list ((rows.map fun row => element.column row path) ++
            if element.isFixed then [] else [.null]))) := by
  induction inputs with
  | nil => rfl
  | cons path rest ih =>
      have later := ih (fun other listed => known other (List.mem_cons_of_mem _ listed))
      have isLength : name.append path = name.child .len ↔ path = [.len] := by
        constructor
        · exact VarName.append_injective
        · intro same
          rw [same]
          rfl
      rw [List.map_cons, Layout.columns]
      by_cases length : element.isFixed = true ∧ path = [.len]
      · have test : element.isFixed = true ∧ name.append path = name.child .len :=
          ⟨length.1, isLength.2 length.2⟩
        rw [if_pos test, List.map_cons, if_pos length, List.length_map]
        change (Layout.columns element name _ (rest.map name.append) >>= fun others =>
          pure ((name.append path, Value.int rows.length) :: others)) = _
        rw [later]
        rfl
      · have test : ¬ (element.isFixed = true ∧ name.append path = name.child .len) :=
          fun both => length ⟨both.1, isLength.1 both.2⟩
        have inside := (known path List.mem_cons_self).resolve_left length
        have column : Layout.column (rows.map (element.supply (name.child .element)))
            ((name.child .element).append path) =
              .ok (rows.map fun row => element.column row path) := by
          rw [Layout.column, List.mapM_map]
          apply mapM_of_ok _
          intro row _
          change found ((element.supply (name.child .element) row).lookup _) = _
          rw [lookup_supply (name.child .element) row inside]
          rfl
        have shape : (if element.isFixed = true then rows.map fun row => element.column row path
            else (rows.map fun row => element.column row path) ++ [.null]) =
              (rows.map fun row => element.column row path) ++
                if element.isFixed then [] else [.null] := by
          cases element.isFixed with
          | true => exact (List.append_nil _).symm
          | false => rfl
        rw [if_neg test, List.map_cons, if_neg length, VarName.rebase_append]
        change (Layout.column (rows.map (element.supply (name.child .element)))
            ((name.child .element).append path) >>= fun column =>
          Layout.columns element name (rows.map (element.supply (name.child .element)))
              (rest.map name.append) >>= fun others =>
            pure ((name.append path,
              Value.list (if element.isFixed then column else column ++ [.null])) :: others)) = _
        rw [column, later]
        change Except.ok ((name.append path, Value.list _) :: _) = _
        rw [shape]

theorem Marshallable.inputNames {node : Node} (marshallable : node.Marshallable)
    (name : VarName) : node.inputNames name = .ok (node.paths.map name.append) := by
  have iterGiven : (GivenName.text "iter").resolve = some { base := "iter" } :=
    GivenName.resolve_text (by decide)
  have marshalled := marshallable.marshal_of_fits {} "" iterGiven
    (rfl : (GivenName.name name).resolve = some name) (marshallable.fits_empty {} name)
  rw [Node.inputNames, marshalled]
  change Except.ok (([] ++ node.inputs {} name).map TypedVar.name) = _
  rw [List.nil_append, map_name_inputs]

theorem rows_of_isRows {element : Node} {value : Value}
    (isRows : value.isRows element.isEntry = true) : element.rows value = .ok value.parts := by
  unfold rows
  cases value with
  | list items =>
      rw [Value.isRows, Bool.not_eq_true'] at isRows
      rw [isRows]
      rfl
  | dict pairs =>
      rw [Value.isRows, Bool.and_eq_true] at isRows
      rw [isRows.1]
      rfl
  | _ => cases isRows

theorem paths_array_cases {element : Node} {path : List Segment}
    (listed : path ∈ (array element).paths) :
    (element.isFixed = true ∧ path = [.len]) ∨ path ∈ element.paths := by
  unfold paths at listed ⊢
  rw [hasLength] at listed
  cases fixed : element.isFixed with
  | true =>
      rw [hasLength_of_isFixed fixed]
      rw [fixed] at listed
      simpa [or_comm] using listed
  | false =>
      rw [fixed] at listed
      exact Or.inr listed

theorem layout_array {element : Node} (name : VarName) {value : Value}
    (inside : element.Marshallable) (isRows : value.isRows element.isEntry = true)
    (each : ∀ row ∈ value.parts,
      element.layout (name.child .element) row = .ok (element.supply (name.child .element) row)) :
    (array element).layout name value = .ok ((array element).supply name value) := by
  have bound : value.parts.mapM (fun row => element.layout (name.child .element) row) =
      .ok (value.parts.map (element.supply (name.child .element))) := mapM_of_ok _ each
  have columns := columns_of_supply element name value.parts (array element).paths
    (fun path listed => paths_array_cases listed)
  rw [layout, rows_of_isRows isRows]
  change (value.parts.mapM _ >>= fun bound =>
    (array element).inputNames name >>= fun inputs =>
      Layout.columns element name bound inputs) = _
  rw [bound, (Marshallable.array inside).inputNames name]
  exact columns

theorem layout_struct {members : List Node} (name : VarName) {values : List Value}
    (accepted : acceptsAll members values = true)
    (ih : ∀ member ∈ members, ∀ (origin : VarName) (value : Value),
      member.accepts value = true →
        member.layout origin value = .ok (member.supply origin value)) :
    (struct members).layout name (.tuple values) =
      .ok [(name, .dict (fieldsAll members 0 values))] := by
  have lengths := length_of_acceptsAll accepted
  have read : (Node.struct members).membersOf (.tuple values) = .ok values := by
    change (if values.length ≠ members.length then _ else Except.ok values) = _
    rw [if_neg (not_not_intro lengths.symm)]
  have none : FieldsBefore 0 [] := by
    intro entry impossible
    cases impossible
  have laid := layoutAll_of_accepts name members 0 ih accepted none
  rw [layout, read]
  change (layoutAll members name 0 values [] >>= fun fields => pure [(name, Value.dict fields)]) = _
  rw [laid]
  rfl

theorem layout_entry {key content : Node} (name : VarName) {first second : Value}
    (keyLaid : key.layout (name.child (.item 0)) first =
      .ok (key.supply (name.child (.item 0)) first))
    (contentLaid : content.layout (name.child (.item 1)) second =
      .ok (content.supply (name.child (.item 1)) second)) :
    (entry key content).layout name (.tuple [first, second]) =
      .ok [(name, .dict (fieldsAll [key, content] 0 [first, second]))] := by
  have none : FieldsBefore 0 [] := by
    intro entry impossible
    cases impossible
  have keyFields := fields_of_supply key name 0 first none
  have contentFields := fields_of_supply content name 1 second (none.fields key first)
  rw [layout]
  change (key.layout (name.child (.item 0)) first >>= fun bound =>
    Layout.fields name bound [] >>= fun entries =>
      content.layout (name.child (.item 1)) second >>= fun bound =>
        Layout.fields name bound entries >>= fun entries =>
          pure [(name, Value.dict entries)]) = _
  rw [keyLaid]
  change (Layout.fields name (key.supply (name.child (.item 0)) first) [] >>= fun entries =>
      content.layout (name.child (.item 1)) second >>= fun bound =>
        Layout.fields name bound entries >>= fun entries =>
          pure [(name, Value.dict entries)]) = _
  rw [keyFields, contentLaid]
  change (Layout.fields name (content.supply (name.child (.item 1)) second) _ >>= fun entries =>
    pure [(name, Value.dict entries)]) = _
  rw [contentFields, fieldsAll_cons, fieldsAll_cons, fieldsAll, List.append_nil]
  · rfl
  · intro member rest value others impossible
    cases impossible

theorem layout_of_isGroup {node : Node} (group : node.isGroup = true) (name : VarName)
    {value : Value} (accepted : node.accepts value = true)
    (ih : ∀ member ∈ node.children, ∀ (origin : VarName) (value : Value),
      member.accepts value = true →
        member.layout origin value = .ok (member.supply origin value)) :
    node.layout name value = .ok [(name, .dict (fieldsAll node.children 0 value.parts))] := by
  rw [accepts_of_isGroup group, Bool.and_eq_true] at accepted
  obtain ⟨isTuple, accepted⟩ := accepted
  have lengths := length_of_acceptsAll accepted
  rw [Value.eq_tuple_of_isTuple isTuple]
  change _ = Except.ok [(name, Value.dict (fieldsAll node.children 0 value.parts))]
  generalize value.parts = values at accepted lengths
  cases node with
  | struct members => exact layout_struct name accepted ih
  | entry key content =>
      rcases values with _ | ⟨first, _ | ⟨second, _ | ⟨third, rest⟩⟩⟩
      · cases lengths
      · cases lengths
      · simp only [children, acceptsAll, Bool.and_eq_true] at accepted
        exact layout_entry name (ih key (by simp [children]) _ first accepted.1)
          (ih content (by simp [children]) _ second accepted.2.1)
      · cases lengths
  | _ => cases group

theorem supply_of_isGroup {node : Node} (group : node.isGroup = true) (name : VarName)
    {value : Value} (accepted : node.accepts value = true) :
    node.supply name value = [(name, .dict (fieldsAll node.children 0 value.parts))] := by
  have single : node.paths = [[]] := by
    cases node with
    | struct _ => rfl
    | entry _ _ => rfl
    | _ => cases group
  rw [supply, single, List.map_singleton, VarName.append_nil, column_of_isGroup group accepted]

/-- A conforming value is laid out as the columns of its type, in the order of the inputs. -/
theorem Marshallable.layout_of_accepts {node : Node} (marshallable : node.Marshallable)
    (name : VarName) {value : Value} (accepted : node.accepts value = true) :
    node.layout name value = .ok (node.supply name value) := by
  induction marshallable using Marshallable.byKind generalizing name value with
  | basic code known =>
      change _ = Except.ok [(name.append [], value)]
      rw [VarName.append_nil]
      rfl
  | array element inside ih =>
      rw [accepts, Bool.and_eq_true, List.all_eq_true] at accepted
      exact layout_array name inside accepted.1
        (fun row listed => ih (name.child .element) (accepted.2 row listed))
  | group node marshallable isGroup ih =>
      rw [supply_of_isGroup isGroup name accepted]
      exact layout_of_isGroup isGroup name accepted
        (fun member listed origin value => ih member listed origin)

end Node

end DBusMarshal
