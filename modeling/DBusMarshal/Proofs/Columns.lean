import Mathlib.Data.List.Forall2
import DBusMarshal.Proofs.Delivery

/-!
What generated code asks for and what a value is laid out as are the same inputs.

An array collects, for every input of its element, what its elements are laid out with. Where the
elements have one size there is nothing to collect but the elements, and their number stands beside
them. Elsewhere a null ends every column, and in the column of the array itself no element is null.
A struct or dict entry is one input, a dictionary with a field for every input of its members.
-/

set_option autoImplicit false

namespace DBusMarshal

namespace Node

variable {element : Node}

/-- The cells of a column are, row by row, what the rows are laid out with at the end of a path. -/
structure Gathers (element : Node) (origin : VarName) (rows : List Value) (path : List Segment)
    (cells : List Value) : Prop where
  length : cells.length = rows.length
  cell : ∀ (position : Nat) (row cell : Value), rows[position]? = some row →
    cells[position]? = some cell →
      ∃ bound, element.layout origin row = .ok bound ∧
        bound.lookup (origin.append path) = some cell

/-- A layout of an array with these rows. -/
structure LaysOut (element : Node) (name : VarName) (rows : List Value) (layout : Layout) :
    Prop where
  counted : element.isFixed = true →
    layout = [(name, .list rows), (name.child .len, .int rows.length)]
  ended : element.isFixed = false → ∀ entry ∈ layout, ∃ path cells,
    entry = (name.append path, .list (cells ++ [.null])) ∧
      Gathers element (name.child .element) rows path cells ∧
      (path = [] → ∀ cell ∈ cells, cell.isNull = false)

theorem Marshallable.gathers (inside : element.Marshallable) (origin : VarName)
    {rows : List Value} (accepted : ∀ row ∈ rows, element.accepts row = true)
    {path : List Segment} (listed : path ∈ element.paths) :
    Gathers element origin rows path (rows.map fun row => element.column row path) where
  length := List.length_map _
  cell := by
    intro position row cell atRow atCell
    rw [List.getElem?_map, atRow] at atCell
    obtain rfl : element.column row path = cell := Option.some.inj atCell
    have laid := inside.layout_of_accepts origin (accepted row (List.mem_of_getElem? atRow))
    exact ⟨_, laid, lookup_supply origin row listed⟩

theorem column_of_isFixed (fixed : element.isFixed = true) (row : Value) (path : List Segment) :
    element.column row path = row := by
  cases element with
  | basic _ => rfl
  | _ => cases fixed

theorem supply_array_of_isFixed (fixed : element.isFixed = true) (name : VarName)
    (value : Value) :
    (array element).supply name value =
      [(name, .list value.parts), (name.child .len, .int value.parts.length)] := by
  have whole : (array element).column value [] = .list value.parts := by
    rw [column_array value (nil_mem_paths element), if_pos fixed, List.append_nil]
    simp only [column_of_isFixed fixed, List.map_id']
  have length : (array element).column value [.len] = .int value.parts.length := by
    rw [column, if_pos ⟨fixed, rfl⟩]
  rw [supply, paths, hasLength, fixed, Bool.true_or, if_pos rfl, List.map_cons, List.map_singleton,
    whole, length, VarName.append_nil]
  rfl

theorem supply_array_of_sized (sized : element.isFixed = false) (name : VarName) (value : Value) :
    (array element).supply name value =
      element.paths.map fun path =>
        (name.append path, .list ((value.parts.map fun row => element.column row path) ++
          [.null])) := by
  have same : (array element).paths = element.paths := by
    rw [paths, hasLength, sized, Bool.false_or, ← paths]
  rw [supply, same]
  refine List.map_congr_left fun path listed => ?_
  rw [column_array value listed, if_neg (Bool.eq_false_iff.1 sized)]

theorem Marshallable.laysOut (inside : element.Marshallable) (name : VarName) {value : Value}
    (accepted : ∀ row ∈ value.parts, element.accepts row = true) :
    LaysOut element name value.parts ((Node.array element).supply name value) where
  counted := fun fixed => supply_array_of_isFixed fixed name value
  ended := by
    intro sized entry listed
    rw [supply_array_of_sized sized] at listed
    obtain ⟨path, isPath, rfl⟩ := List.mem_map.1 listed
    refine ⟨path, _, rfl, inside.gathers (name.child .element) accepted isPath, ?_⟩
    rintro rfl cell inColumn
    obtain ⟨row, isRow, rfl⟩ := List.mem_map.1 inColumn
    exact column_not_null (accepted row isRow) sized

/-! ### Fields -/

/-- The fields of a struct, from a position on: one for every input of every member, under the text
of its field, with the value that the member is laid out with. -/
inductive HoldsFields (name : VarName) : Nat → List Node → List Value → List (Value × Value) → Prop
  | nil (position : Nat) : HoldsFields name position [] [] []
  | cons {position : Nat} {member : Node} {rest : List Node} {value : Value} {others : List Value}
      {bound : Layout} {first later : List (Value × Value)}
      (laid : member.layout (name.child (.item position)) value = .ok bound)
      (entered : List.Forall₂ (fun input field => ∃ text, input.1.fieldOf name = .ok text ∧
        field = (Value.text text, input.2)) bound first)
      (remaining : HoldsFields name (position + 1) rest others later) :
      HoldsFields name position (member :: rest) (value :: others) (first ++ later)

theorem holdsFields (name : VarName) (position : Nat) {members : List Node} {values : List Value}
    (marshallable : ∀ member ∈ members, member.Marshallable)
    (accepted : acceptsAll members values = true) :
    HoldsFields name position members values (fieldsAll members position values) := by
  induction members generalizing position values with
  | nil =>
      cases values with
      | nil => exact .nil position
      | cons value others => cases accepted
  | cons member rest ih =>
      cases values with
      | nil => cases accepted
      | cons value others =>
          obtain ⟨first, inRest⟩ := List.forall_mem_cons.1 marshallable
          rw [acceptsAll, Bool.and_eq_true] at accepted
          rw [fieldsAll_cons]
          refine .cons (first.layout_of_accepts _ accepted.1) ?_
            (ih (position + 1) inRest accepted.2)
          rw [supply, fields, List.forall₂_map_left_iff, List.forall₂_map_right_iff,
            List.forall₂_same]
          intro path _
          refine ⟨_, ?_, rfl⟩
          rw [VarName.child_append]
          exact VarName.fieldOf_append name (List.cons_ne_nil _ _)

end Node

/-- A conforming value is laid out as the inputs that generated code asks for, in their order, a
value of an array column by column, and a value of a struct or dict entry field by field. -/
theorem layout_supplies {text : String} {node : Node} (read : Node.read text = .ok node)
    (plain : node.hasVariant = false) (options : Options) (recovery : String)
    {iter name : GivenName} {iterName varName : VarName} (iterGiven : iter.resolve = some iterName)
    (nameGiven : name.resolve = some varName) {value : Value}
    (accepted : node.accepts value = true) :
    ∃ fragment added layout,
      node.marshal options iter name (some recovery) true {} = .ok fragment added ∧
      node.layoutUnder name value = .ok layout ∧
      layout.map Prod.fst = added.inputs.map TypedVar.name ∧
      (∀ element, node = .array element →
        ∃ rows, element.rows value = .ok rows ∧ Node.LaysOut element varName rows layout) ∧
      (node.isGroup = true → ∃ fields, layout = [(varName, .dict fields)] ∧
        Node.HoldsFields varName 0 node.children value.parts fields) := by
  have marshallable := Node.marshallable_of_read read plain
  have marshalled := marshallable.marshal_of_fits options recovery iterGiven nameGiven
    (marshallable.fits_empty options varName)
  have laid : node.layoutUnder name value = .ok (node.supply varName value) := by
    rw [Node.layoutUnder_of_resolve nameGiven]
    exact marshallable.layout_of_accepts varName accepted
  refine ⟨_, _, _, marshalled, laid, ?_, ?_, ?_⟩
  · rw [Node.supply, List.map_map]
    exact (Node.map_name_inputs options node varName).symm
  · rintro element rfl
    rw [Node.accepts, Bool.and_eq_true, List.all_eq_true] at accepted
    have inside := marshallable.child (List.mem_singleton_self element)
    exact ⟨_, Node.rows_of_isRows accepted.1, inside.laysOut varName accepted.2⟩
  · intro group
    refine ⟨_, Node.supply_of_isGroup group varName accepted, ?_⟩
    rw [Node.accepts_of_isGroup group, Bool.and_eq_true] at accepted
    exact Node.holdsFields varName 0 (fun member listed => marshallable.child listed) accepted.2

theorem layout_supplies_grid :
    (∃ fragment added layout,
      (Node.array (.array (.basic "i"))).marshal {} (.text "iter") (.text "grid")
        (some "return FALSE;") true {} = .ok fragment added ∧
      (Node.array (.array (.basic "i"))).layoutUnder (.text "grid")
        (.list [.list [.int 1, .int 2], .list []]) = .ok layout ∧
      layout.map Prod.fst = added.inputs.map TypedVar.name ∧
      ∃ rows, (Node.array (.basic "i")).rows (.list [.list [.int 1, .int 2], .list []]) = .ok rows ∧
        Node.LaysOut (.array (.basic "i")) { base := "grid" } rows layout) ∧
    ∃ fragment added layout,
      (Node.struct [.array (.basic "i"), .basic "s"]).marshal {} (.text "iter") (.text "pair")
        (some "return FALSE;") true {} = .ok fragment added ∧
      (Node.struct [.array (.basic "i"), .basic "s"]).layoutUnder (.text "pair")
        (.tuple [.list [.int 1, .int 2], .text "a"]) = .ok layout ∧
      layout.map Prod.fst = added.inputs.map TypedVar.name ∧
      ∃ fields, layout = [({ base := "pair" }, .dict fields)] ∧
        Node.HoldsFields { base := "pair" } 0 [.array (.basic "i"), .basic "s"]
          [.list [.int 1, .int 2], .text "a"] fields := by
  have readGrid : Node.read "aai" = .ok (.array (.array (.basic "i"))) := rfl
  have readPair : Node.read "(ais)" = .ok (.struct [.array (.basic "i"), .basic "s"]) := rfl
  have iterGiven : (GivenName.text "iter").resolve = some { base := "iter" } :=
    GivenName.resolve_text (by decide)
  have gridGiven : (GivenName.text "grid").resolve = some { base := "grid" } :=
    GivenName.resolve_text (by decide)
  have pairGiven : (GivenName.text "pair").resolve = some { base := "pair" } :=
    GivenName.resolve_text (by decide)
  have gridAccepted : (Node.array (.array (.basic "i"))).accepts
      (.list [.list [.int 1, .int 2], .list []]) = true := by decide +kernel
  have pairAccepted : (Node.struct [.array (.basic "i"), .basic "s"]).accepts
      (.tuple [.list [.int 1, .int 2], .text "a"]) = true := by decide +kernel
  obtain ⟨gridCode, gridAdded, gridLayout, gridMade, gridLaid, gridNames, columns, _⟩ :=
    layout_supplies readGrid rfl {} "return FALSE;" iterGiven gridGiven gridAccepted
  obtain ⟨pairCode, pairAdded, pairLayout, pairMade, pairLaid, pairNames, _, fields⟩ :=
    layout_supplies readPair rfl {} "return FALSE;" iterGiven pairGiven pairAccepted
  exact ⟨⟨gridCode, gridAdded, gridLayout, gridMade, gridLaid, gridNames, columns _ rfl⟩,
    pairCode, pairAdded, pairLayout, pairMade, pairLaid, pairNames, fields rfl⟩

end DBusMarshal
