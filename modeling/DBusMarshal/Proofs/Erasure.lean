import DBusMarshal.Proofs.Delivery
import DBusMarshal.Proofs.Outcomes

/-!
Options decide on types and on nothing else.

Where the types of declarations are left out, the code for a variable is the same whatever the
options are. A run does not look at these types. So code that was generated with any options runs on
the inputs that a value is laid out as, though the layout knows no options.
-/

set_option autoImplicit false

namespace DBusMarshal

/-! ### Leaving types out -/

mutual

/-- A statement without the types of its declarations, at every depth. -/
def Statement.untyped (statement : Statement) : Statement :=
  match statement with
  | .declare _ name => .declare "" name
  | .loop index array length body => .loop index array length (Fragment.untyped body)
  | .comment _ => statement
  | .blank => statement
  | .recovery _ => statement
  | .append _ _ _ _ => statement
  | .openContainer _ _ _ _ _ => statement
  | .closeContainer _ _ _ => statement
  | .assign _ _ _ => statement
  | .readField _ _ _ => statement
  | .stray _ => statement

def Fragment.untyped (fragment : List Statement) : List Statement :=
  match fragment with
  | [] => []
  | statement :: rest => statement.untyped :: Fragment.untyped rest

end

namespace Fragment

theorem untyped_eq (fragment : Fragment) : untyped fragment = fragment.map Statement.untyped := by
  induction fragment with
  | nil => rfl
  | cons statement rest ih => rw [untyped, ih, List.map_cons]

theorem untyped_append (first second : Fragment) :
    untyped (first ++ second) = untyped first ++ untyped second := by
  rw [untyped_eq, untyped_eq, untyped_eq, List.map_append]

end Fragment

/-! ### Running without types -/

mutual

theorem Statement.run_untyped (rounds : Nat) (statement : Statement) :
    statement.untyped.run rounds = statement.run rounds := by
  cases statement with
  | declare type name => rfl
  | loop index array length body =>
      rw [Statement.untyped, Statement.run, Statement.run, Fragment.run_untyped rounds body]
  | _ => rfl

/-- A run does not look at the types of declarations. -/
theorem Fragment.run_untyped (rounds : Nat) (fragment : List Statement) :
    Fragment.run rounds (Fragment.untyped fragment) = Fragment.run rounds fragment := by
  cases fragment with
  | nil => rfl
  | cons statement rest =>
      rw [Fragment.untyped, Fragment.run, Fragment.run, statement.run_untyped rounds,
        Fragment.run_untyped rounds rest]

end

namespace Node

section

variable (first second : Options)

/-! ### Variables -/

theorem map_name_inputs_congr (node : Node) (name : VarName) :
    (node.inputs first name).map TypedVar.name = (node.inputs second name).map TypedVar.name := by
  rw [map_name_inputs, map_name_inputs]

theorem map_name_localsAll_congr {members : List Node}
    (ih : ∀ member ∈ members, ∀ name : VarName,
      (member.locals first name).map TypedVar.name = (member.locals second name).map TypedVar.name)
    (name : VarName) (position : Nat) :
    (localsAll first members name position).map TypedVar.name =
      (localsAll second members name position).map TypedVar.name := by
  induction members generalizing position with
  | nil => rfl
  | cons member rest ihRest =>
      have others := ihRest (fun other listed => ih other (List.mem_cons_of_mem _ listed))
        (position + 1)
      simp only [localsAll, List.map_append, ih member List.mem_cons_self, others,
        map_name_inputs_congr first second member]

theorem Marshallable.map_name_locals_congr {node : Node} (marshallable : node.Marshallable)
    (name : VarName) :
    (node.locals first name).map TypedVar.name = (node.locals second name).map TypedVar.name := by
  induction marshallable using Marshallable.byKind generalizing name with
  | basic code known => rfl
  | array element inside ih => rfl
  | group node marshallable isGroup ih =>
      rw [locals_of_isGroup first isGroup, locals_of_isGroup second isGroup, List.map_cons,
        List.map_cons, map_name_localsAll_congr first second ih]

/-! ### Statements -/

theorem untyped_declarations (entries : List TypedVar) :
    Fragment.untyped (declarations entries) =
      (entries.map TypedVar.name).map (.declare "") := by
  rw [Fragment.untyped_eq, declarations, List.map_map, List.map_map]
  rfl

theorem copies_congr (element : Node) (name : VarName) :
    element.copies first name = element.copies second name := by
  rw [copies_eq, copies_eq]

theorem reads_congr (member : Node) (name : VarName) (position : Nat) :
    member.reads first name position = member.reads second name position := by
  rw [reads_eq, reads_eq]

theorem untyped_loopBody_congr {element : Node} (inside : element.Marshallable) (name : VarName)
    {code other : Fragment} (same : Fragment.untyped code = Fragment.untyped other) :
    Fragment.untyped (loopBody first element name code) =
      Fragment.untyped (loopBody second element name other) := by
  have names : (element.locals first (name.child .element) ++
        element.inputs first (name.child .element)).map TypedVar.name =
      (element.locals second (name.child .element) ++
        element.inputs second (name.child .element)).map TypedVar.name := by
    rw [List.map_append, List.map_append, inside.map_name_locals_congr first second,
      map_name_inputs_congr first second element]
  simp only [loopBody, Fragment.untyped_append, untyped_declarations, names,
    copies_congr first second element, same]

theorem untyped_codeAll_congr (recovery : String) {members : List Node}
    (ih : ∀ member ∈ members, ∀ iter name : VarName,
      Fragment.untyped (member.code first recovery iter name) =
        Fragment.untyped (member.code second recovery iter name))
    (inner name : VarName) (position : Nat) :
    Fragment.untyped (codeAll first recovery members inner name position) =
      Fragment.untyped (codeAll second recovery members inner name position) := by
  induction members generalizing position with
  | nil => rfl
  | cons member rest ihRest =>
      have others := ihRest (fun other listed => ih other (List.mem_cons_of_mem _ listed))
        (position + 1)
      simp only [codeAll, memberCode, Fragment.untyped_append, ih member List.mem_cons_self, others,
        reads_congr first second member]

/-- The code is the same for all options, but for the types of declarations. -/
theorem Marshallable.untyped_code_congr {node : Node} (marshallable : node.Marshallable)
    (recovery : String) (iter name : VarName) :
    Fragment.untyped (node.code first recovery iter name) =
      Fragment.untyped (node.code second recovery iter name) := by
  induction marshallable using Marshallable.byKind generalizing iter name with
  | basic code known => rfl
  | array element inside ih =>
      have body := untyped_loopBody_congr first second inside name
        (ih (name.child .iter) (name.child .element))
      simp only [Node.code, arrayCode, Fragment.untyped, Statement.untyped, body]
  | group node marshallable isGroup ih =>
      have members := untyped_codeAll_congr first second recovery ih (name.child .iter) name 0
      simp only [code_of_isGroup _ _ isGroup, groupCode, Fragment.untyped_append, members]

theorem Marshallable.run_code_congr {node : Node} (marshallable : node.Marshallable)
    (recovery : String) (iter name : VarName) (rounds : Nat) :
    Fragment.run rounds (node.code first recovery iter name) =
      Fragment.run rounds (node.code second recovery iter name) := by
  rw [← Fragment.run_untyped, marshallable.untyped_code_congr first second, Fragment.run_untyped]

end

end Node

/-- Two options lead to the same inputs and local variables, types apart, and to the same code but
for the types of declarations. The code runs alike on every machine, and asks for the inputs that a
layout supplies. -/
theorem generated_untyped {text : String} {node : Node} (read : Node.read text = .ok node)
    (plain : node.hasVariant = false) (first second : Options) (recovery : String)
    {iter name : GivenName} {iterName varName : VarName} (iterGiven : iter.resolve = some iterName)
    (nameGiven : name.resolve = some varName) :
    ∃ one other,
      generate first (.signature text) iter name (some recovery) = .ok one ∧
      generate second (.signature text) iter name (some recovery) = .ok other ∧
      one.inputs.map TypedVar.name = other.inputs.map TypedVar.name ∧
      one.locals.map TypedVar.name = other.locals.map TypedVar.name ∧
      Fragment.untyped one.fragment = Fragment.untyped other.fragment ∧
      (∀ (rounds : Nat) (m : Machine),
        Fragment.run rounds one.fragment m = Fragment.run rounds other.fragment m) ∧
      node.inputNames varName = .ok (one.inputs.map TypedVar.name) := by
  have marshallable := Node.marshallable_of_read read plain
  have generates (options : Options) := (generate_of_read read).trans
    (marshallable.generate options recovery iterGiven nameGiven)
  refine ⟨_, _, generates first, generates second, ?_, ?_, ?_, ?_, ?_⟩
  · exact Node.map_name_inputs_congr first second node varName
  · exact marshallable.map_name_locals_congr first second varName
  · exact marshallable.untyped_code_congr first second recovery iterName varName
  · intro rounds m
    rw [marshallable.run_code_congr first second recovery iterName varName rounds]
  · rw [marshallable.inputNames, Node.map_name_inputs]

/-- One stem is no identifier, and the other options give a dict entry a name of its own. -/
theorem generated_untyped_table :
    ∃ one other,
      generate { structStem := "x *" } (.signature "a(a\x7bsad\x7di)") (.text "iter")
        (.text "table") (some "return FALSE;") = .ok one ∧
      generate { structNames := [("\x7bsad\x7d", "row")] } (.signature "a(a\x7bsad\x7di)")
        (.text "iter") (.text "table") (some "return FALSE;") = .ok other ∧
      one.inputs.map TypedVar.name = other.inputs.map TypedVar.name ∧
      one.locals.map TypedVar.name = other.locals.map TypedVar.name ∧
      Fragment.untyped one.fragment = Fragment.untyped other.fragment ∧
      (∀ (rounds : Nat) (m : Machine),
        Fragment.run rounds one.fragment m = Fragment.run rounds other.fragment m) ∧
      tableType.inputNames { base := "table" } = .ok (one.inputs.map TypedVar.name) :=
  generated_untyped read_tableType rfl _ _ "return FALSE;" (GivenName.resolve_text (by decide))
    (GivenName.resolve_text (by decide))

end DBusMarshal
