import DBusMarshal.Proofs.Capture
import DBusMarshal.Proofs.Delivery

/-!
Renaming the variables of generated code.

Generation and layout know a variable by nothing but the path that leads to it. A renaming that
carries every name below one variable to the name at the same path below another one therefore
turns the code for the first into the code for the second, and its layout into the other layout.
What is no name stays: C types, constants, recovery code and the fields of structs.
-/

set_option autoImplicit false

namespace DBusMarshal

/-! ### Renamings -/

namespace VarName

/-- A name that starts with the old origin is rebased to the new one, and any other name stays. -/
def moved (old new name : VarName) : VarName := (name.rebase old new).toOption.getD name

/-- A renaming carries what is built on the old origin to the new one. -/
def Carries (move : VarName → VarName) (old new : VarName) : Prop :=
  ∀ path, move (old.append path) = new.append path

theorem carries_moved (old new : VarName) : Carries (moved old new) old new := by
  intro path
  rw [moved, rebase_append]
  rfl

theorem rebase_of_startsWith {name old : VarName} (starts : name.startsWith old = true)
    (new : VarName) : name.rebase old new = .ok (moved old new name) := by
  obtain ⟨path, rfl⟩ := (startsWith_eq_true_iff name old).1 starts
  rw [carries_moved, rebase_append]

theorem moved_of_apart {name old : VarName} (apart : name.startsWith old = false)
    (new : VarName) : moved old new name = name := by
  rw [moved, rebase, pathFrom, apart]
  rfl

namespace Carries

variable {move : VarName → VarName} {old new : VarName} (carries : Carries move old new)
include carries

theorem origin : move old = new := by
  have atOrigin := carries []
  rwa [append_nil, append_nil] at atOrigin

theorem at_child (segment : Segment) : move (old.child segment) = new.child segment :=
  carries [segment]

theorem below_child (segment : Segment) : Carries move (old.child segment) (new.child segment) := by
  intro path
  rw [child_append, child_append]
  exact carries (segment :: path)

end Carries

end VarName

def TypedVar.rename (move : VarName → VarName) (entry : TypedVar) : TypedVar :=
  { entry with name := move entry.name }

def Scope.rename (move : VarName → VarName) (scope : Scope) : Scope :=
  { inputs := scope.inputs.map (TypedVar.rename move)
    locals := scope.locals.map (TypedVar.rename move) }

mutual

/-- A statement with every variable in it renamed, at every depth. -/
def Statement.rename (move : VarName → VarName) (statement : Statement) : Statement :=
  match statement with
  | .append iter typeConst value recovery => .append (move iter) typeConst (move value) recovery
  | .openContainer iter typeConst signature inner recovery =>
    .openContainer (move iter) typeConst signature (move inner) recovery
  | .closeContainer iter inner recovery => .closeContainer (move iter) (move inner) recovery
  | .declare type name => .declare type (move name)
  | .assign target array index => .assign (move target) (move array) (move index)
  | .readField target source field => .readField (move target) (move source) field
  | .loop index array length body =>
    .loop (move index) (move array) (length.map move) (Fragment.rename move body)
  | .comment _ => statement
  | .blank => statement
  | .recovery _ => statement
  | .stray _ => statement

def Fragment.rename (move : VarName → VarName) (fragment : List Statement) : List Statement :=
  match fragment with
  | [] => []
  | statement :: rest => statement.rename move :: Fragment.rename move rest

end

namespace Fragment

theorem rename_eq (move : VarName → VarName) (fragment : Fragment) :
    rename move fragment = fragment.map (Statement.rename move) := by
  induction fragment with
  | nil => rfl
  | cons statement rest ih => rw [rename, ih, List.map_cons]

theorem rename_append (move : VarName → VarName) (first second : Fragment) :
    rename move (first ++ second) = rename move first ++ rename move second := by
  rw [rename_eq, rename_eq, rename_eq, List.map_append]

end Fragment

namespace Node

open VarName (Carries moved)

section

variable {move : VarName → VarName} {old new : VarName} (options : Options) (recovery : String)

/-! ### Variables -/

theorem rename_inputs (node : Node) (carries : Carries move old new) :
    (node.inputs options old).map (TypedVar.rename move) = node.inputs options new := by
  rw [inputs, inputs, List.map_map]
  refine List.map_congr_left fun port _ => ?_
  exact congrArg (TypedVar.mk port.type) (carries port.path)

theorem rename_localsAll {members : List Node}
    (ih : ∀ member ∈ members, ∀ old new : VarName, Carries move old new →
      (member.locals options old).map (TypedVar.rename move) = member.locals options new)
    (carries : Carries move old new) (position : Nat) :
    (localsAll options members old position).map (TypedVar.rename move) =
      localsAll options members new position := by
  induction members generalizing position with
  | nil => rfl
  | cons member rest ihRest =>
      have inside := carries.below_child (.item position)
      have first := ih member List.mem_cons_self _ _ inside
      have others := ihRest (fun later listed => ih later (List.mem_cons_of_mem _ listed))
        (position + 1)
      rw [localsAll, localsAll, List.map_append, List.map_append, first, others,
        member.rename_inputs options inside]

theorem Marshallable.rename_locals {node : Node} (marshallable : node.Marshallable)
    (carries : Carries move old new) :
    (node.locals options old).map (TypedVar.rename move) = node.locals options new := by
  have iterator : TypedVar.rename move ⟨iterType, old.child .iter⟩ =
      ⟨iterType, new.child .iter⟩ := congrArg (TypedVar.mk iterType) (carries.at_child .iter)
  induction marshallable using Marshallable.byKind generalizing old new with
  | basic code known => rfl
  | array element inside ih => exact congrArg (fun entry => [entry]) iterator
  | group node marshallable isGroup ih =>
      rw [locals_of_isGroup options isGroup, locals_of_isGroup options isGroup, List.map_cons,
        iterator]
      refine congrArg _ (rename_localsAll options (fun member listed first second inside => ?_)
        carries 0)
      exact ih member listed inside
        (congrArg (TypedVar.mk iterType) (inside.at_child .iter))

/-! ### Statements -/

theorem rename_declarations (entries : List TypedVar) :
    Fragment.rename move (declarations entries) =
      declarations (entries.map (TypedVar.rename move)) := by
  rw [Fragment.rename_eq, declarations, declarations, List.map_map, List.map_map]
  rfl

theorem rename_copies (element : Node) (carries : Carries move old new) :
    Fragment.rename move (element.copies options old) = element.copies options new := by
  rw [Fragment.rename_eq, copies, copies, List.map_map]
  refine List.map_congr_left fun port _ => ?_
  rw [Function.comp_apply, Statement.rename, carries.below_child .element, carries port.path,
    carries.at_child]

theorem rename_reads (member : Node) (carries : Carries move old new) (position : Nat) :
    Fragment.rename move (member.reads options old position) =
      member.reads options new position := by
  rw [Fragment.rename_eq, reads, reads, List.map_map]
  refine List.map_congr_left fun port _ => ?_
  rw [Function.comp_apply, Statement.rename, carries.below_child (.item position), carries.origin]

theorem rename_arrayCode {element : Node} (inside : element.Marshallable)
    (carries : Carries move old new) (iter : VarName) (code : Fragment) :
    Fragment.rename move (arrayCode options element recovery iter old code) =
      arrayCode options element recovery (move iter) new (Fragment.rename move code) := by
  have elements := carries.below_child .element
  have body : Fragment.rename move (loopBody options element old code) =
      loopBody options element new (Fragment.rename move code) := by
    rw [loopBody, loopBody, Fragment.rename_append, Fragment.rename_append,
      Fragment.rename_append, Fragment.rename_append, rename_declarations, List.map_append,
      inside.rename_locals options elements, element.rename_inputs options elements,
      element.rename_copies options carries]
    rfl
  have length : (if element.isFixed then some (old.child .len) else none).map move =
      if element.isFixed then some (new.child .len) else none := by
    cases element.isFixed with
    | false => rfl
    | true => exact congrArg some (carries.at_child .len)
  simp only [arrayCode, Fragment.rename, Statement.rename, body, length, carries.origin,
    carries.at_child]

theorem rename_memberCode (member : Node) (carries : Carries move old new) (position : Nat)
    (code : Fragment) :
    Fragment.rename move (memberCode options member old position code) =
      memberCode options member new position (Fragment.rename move code) := by
  rw [memberCode, memberCode, Fragment.rename_append, Fragment.rename_append,
    Fragment.rename_append, member.rename_reads options carries position]
  rfl

theorem rename_groupCode (node : Node) (carries : Carries move old new) (iter : VarName)
    (code : Fragment) :
    Fragment.rename move (groupCode node recovery iter old code) =
      groupCode node recovery (move iter) new (Fragment.rename move code) := by
  rw [groupCode, groupCode, Fragment.rename_append, Fragment.rename_append]
  simp only [Fragment.rename, Statement.rename, carries.at_child]

theorem rename_codeAll {members : List Node}
    (ih : ∀ member ∈ members, ∀ iter old new : VarName, Carries move old new →
      Fragment.rename move (member.code options recovery iter old) =
        member.code options recovery (move iter) new)
    (carries : Carries move old new) (inner : VarName) (position : Nat) :
    Fragment.rename move (codeAll options recovery members inner old position) =
      codeAll options recovery members (move inner) new position := by
  induction members generalizing position with
  | nil => rfl
  | cons member rest ihRest =>
      have first := ih member List.mem_cons_self inner _ _ (carries.below_child (.item position))
      have others := ihRest (fun later listed => ih later (List.mem_cons_of_mem _ listed))
        (position + 1)
      rw [codeAll, codeAll, Fragment.rename_append, rename_memberCode options member carries,
        first, others]

/-- Code for the old variable, renamed, is code for the new one. -/
theorem Marshallable.rename_code {node : Node} (marshallable : node.Marshallable)
    (iter : VarName) (carries : Carries move old new) :
    Fragment.rename move (node.code options recovery iter old) =
      node.code options recovery (move iter) new := by
  induction marshallable using Marshallable.byKind generalizing iter old new with
  | basic code known =>
      simp only [Node.code, Fragment.rename, Statement.rename, carries.origin]
  | array element inside ih =>
      rw [Node.code, Node.code, rename_arrayCode options recovery inside carries,
        ih (old.child .iter) (carries.below_child .element), carries.at_child]
  | group node marshallable isGroup ih =>
      rw [code_of_isGroup options recovery isGroup, code_of_isGroup options recovery isGroup,
        rename_groupCode recovery node carries,
        rename_codeAll options recovery (fun member listed inner _ _ => ih member listed inner)
          carries,
        carries.at_child]

/-! ### Layouts -/

theorem rename_supply (node : Node) (carries : Carries move old new) (value : Value) :
    (node.supply old value).map (fun entry => (move entry.1, entry.2)) =
      node.supply new value := by
  rw [supply, supply, List.map_map]
  refine List.map_congr_left fun path _ => ?_
  exact congrArg (fun name => (name, node.column value path)) (carries path)

end

end Node

/-- Code and layout depend on the name of the value through the front of every variable only. The
iterator may start with anything but the old name, even with the new one. -/
theorem generated_renaming {text : String} {node : Node} (read : Node.read text = .ok node)
    (plain : node.hasVariant = false) (options : Options) (recovery : String) {iter : GivenName}
    {iterName : VarName} (iterGiven : iter.resolve = some iterName) {old : VarName}
    (apart : iterName.startsWith old = false) (new : VarName) {value : Value}
    (accepted : node.accepts value = true) :
    let move := VarName.moved old new
    (move iterName = iterName ∧
      ∀ other : VarName, other.startsWith old = true → other.rebase old new = .ok (move other)) ∧
    ∃ fragment scope layout,
      node.marshal options iter (.name old) (some recovery) true {} = .ok fragment scope ∧
      (∀ statement ∈ Fragment.walk fragment, ∀ other ∈ statement.mentions,
        other = iterName ∨ other.startsWith old = true) ∧
      (∀ entry ∈ scope.inputs ++ scope.locals, entry.name.startsWith old = true) ∧
      node.marshal options iter (.name new) (some recovery) true {} =
        .ok (Fragment.rename move fragment) (scope.rename move) ∧
      node.layoutUnder (.name old) value = .ok layout ∧
      (∀ entry ∈ layout, entry.1.startsWith old = true) ∧
      node.layoutUnder (.name new) value =
        .ok (layout.map fun entry => (move entry.1, entry.2)) := by
  intro move
  have marshallable := Node.marshallable_of_read read plain
  have carries : VarName.Carries move old new := VarName.carries_moved old new
  have stays : move iterName = iterName := VarName.moved_of_apart apart new
  have alone (name : VarName) := marshallable.marshal_of_fits options recovery iterGiven
    (rfl : (GivenName.name name).resolve = some name) (marshallable.fits_empty options name)
  refine ⟨⟨stays, fun _ starts => VarName.rebase_of_startsWith starts new⟩, _, _, _, alone old,
    ?_, ?_, ?_, marshallable.layout_of_accepts old accepted, ?_, ?_⟩
  · intro statement listed other mentioned
    have confined := marshallable.confined_code options recovery iterName old statement listed
    rw [VarName.startsWith_eq_true_iff]
    rcases List.mem_append.1 mentioned with read | set
    · exact confined.reads other read
    · exact Or.inr (confined.sets other set)
  · intro entry listed
    rw [VarName.startsWith_eq_true_iff]
    exact marshallable.below_of_declared options (List.mem_append.2 (List.mem_append.1 listed).symm)
  · have sameCode := marshallable.rename_code options recovery iterName carries
    have sameScope : Scope.rename move
        (Scope.extend {} (node.inputs options old) (node.locals options old)) =
          Scope.extend {} (node.inputs options new) (node.locals options new) := by
      rw [← node.rename_inputs options carries, ← marshallable.rename_locals options carries]
      rfl
    rw [alone new, sameCode, stays, sameScope]
  · intro entry listed
    obtain ⟨path, _, rfl⟩ := List.mem_map.1 listed
    exact VarName.startsWith_append old path
  · rw [node.rename_supply carries value]
    exact marshallable.layout_of_accepts new accepted

/-- The iterator lies below the new name, as the variables of the code do. -/
theorem generated_renaming_table :
    let old : VarName := { base := "rows", path := [.item 0] }
    let new : VarName := { base := "table" }
    let iterName : VarName := { base := "table", path := [.iter] }
    let move := VarName.moved old new
    iterName.startsWith old = false ∧
    (move iterName = iterName ∧
      ∀ other : VarName, other.startsWith old = true → other.rebase old new = .ok (move other)) ∧
    ∃ fragment scope layout,
      tableType.marshal {} (.name iterName) (.name old) (some "return FALSE;") true {} =
        .ok fragment scope ∧
      (∀ statement ∈ Fragment.walk fragment, ∀ other ∈ statement.mentions,
        other = iterName ∨ other.startsWith old = true) ∧
      (∀ entry ∈ scope.inputs ++ scope.locals, entry.name.startsWith old = true) ∧
      tableType.marshal {} (.name iterName) (.name new) (some "return FALSE;") true {} =
        .ok (Fragment.rename move fragment) (scope.rename move) ∧
      tableType.layoutUnder (.name old) tableValue = .ok layout ∧
      (∀ entry ∈ layout, entry.1.startsWith old = true) ∧
      tableType.layoutUnder (.name new) tableValue =
        .ok (layout.map fun entry => (move entry.1, entry.2)) :=
  ⟨by decide, generated_renaming read_tableType rfl {} "return FALSE;" rfl (by decide) _
    (by decide +kernel)⟩

end DBusMarshal
