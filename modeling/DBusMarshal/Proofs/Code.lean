import DBusMarshal.Generation
import DBusMarshal.Proofs.Grammar
import DBusMarshal.Proofs.Naming

/-!
The generated code, as a function of the type.

For a type that can be marshalled, `Node.ports` lists the inputs, `Node.locals` the local variables
and `Node.code` the statements, none of them through a scope. A port is an input with the name of
the variable left out, so that one level of an array changes its type and nothing else.
-/

set_option autoImplicit false

namespace DBusMarshal

/-! ### Inputs -/

/-- An input: the path that leads to it from the variable, and its C type. -/
structure Port where
  path : List Segment
  type : String
deriving DecidableEq, Repr

namespace Port

def under (port : Port) (name : VarName) : TypedVar := ⟨port.type, name.append port.path⟩

def lift (port : Port) : Port :=
  { port with type := CType.toConst (CType.toPointer port.type) }

theorem path_lift (port : Port) : port.lift.path = port.path := by
  simp only [lift]

end Port

namespace Node

def cType (options : Options) (node : Node) : String := (options.typeOf node).toOption.getD ""

def constant (node : Node) : String := node.typeConst.toOption.getD ""

def ports (options : Options) : Node → List Port
  | array element =>
    (element.ports options).map Port.lift ++
      if element.isFixed then [⟨[.len], sizeType⟩] else []
  | node => [⟨[], CType.toConst (node.cType options)⟩]

def inputs (options : Options) (node : Node) (name : VarName) : List TypedVar :=
  (node.ports options).map fun port => port.under name

/-- The type is an array, of arrays or not, whose innermost elements have one size. -/
def hasLength : Node → Bool
  | array element => element.isFixed || element.hasLength
  | _ => false

/-- The paths of the inputs: the variable itself, and a length where the type has one. -/
def paths (node : Node) : List (List Segment) :=
  if node.hasLength then [[], [.len]] else [[]]

theorem hasLength_of_isFixed {node : Node} (fixed : node.isFixed = true) :
    node.hasLength = false := by
  cases node with
  | basic _ => rfl
  | _ => cases fixed

theorem map_path_ports (options : Options) :
    (node : Node) → (node.ports options).map Port.path = node.paths
  | array element => by
      have ih := map_path_ports options element
      have lifted : Port.path ∘ Port.lift = Port.path := funext Port.path_lift
      rw [ports, List.map_append, List.map_map, lifted, ih]
      cases fixed : element.isFixed with
      | true => simp [paths, hasLength, fixed, hasLength_of_isFixed fixed]
      | false => simp [paths, hasLength, fixed]
  | basic _ => rfl
  | struct _ => rfl
  | entry _ _ => rfl
  | variant => rfl
  | stray _ => rfl

theorem map_name_inputs (options : Options) (node : Node) (name : VarName) :
    (node.inputs options name).map TypedVar.name = node.paths.map name.append := by
  rw [inputs, List.map_map, ← map_path_ports options, List.map_map]
  rfl

theorem ports_of_isGroup (options : Options) {node : Node} (group : node.isGroup = true) :
    node.ports options = [⟨[], CType.toConst (node.cType options)⟩] := by
  cases node with
  | struct _ => rfl
  | entry _ _ => rfl
  | _ => cases group

theorem path_of_mem_paths {node : Node} {path : List Segment} (listed : path ∈ node.paths) :
    path = [] ∨ path = [.len] := by
  unfold paths at listed
  split at listed
  · simpa using listed
  · exact Or.inl (List.mem_singleton.1 listed)

theorem regular_of_mem_paths {node : Node} {path : List Segment} (listed : path ∈ node.paths) :
    RegularPath path := by
  rcases path_of_mem_paths listed with same | same <;> rw [same]
  · exact List.forall_mem_nil _
  · exact List.forall_mem_singleton.2 .len

theorem nil_mem_paths (node : Node) : [] ∈ node.paths := by
  unfold paths
  split <;> exact List.mem_cons_self

theorem len_mem_paths {element : Node} (fixed : element.isFixed = true) :
    [.len] ∈ (array element).paths := by
  rw [paths, hasLength, fixed, Bool.true_or, if_pos rfl]
  exact List.mem_cons_of_mem _ List.mem_cons_self

theorem mem_paths_array {element : Node} {path : List Segment} (listed : path ∈ element.paths) :
    path ∈ (array element).paths := by
  rcases path_of_mem_paths listed with isNil | isLength
  · rw [isNil]
    exact nil_mem_paths _
  · have longer : element.hasLength = true := by
      unfold paths at listed
      split at listed
      · assumption
      · rw [isLength] at listed
        cases List.mem_singleton.1 listed
    rw [isLength, paths, hasLength, longer, Bool.or_true, if_pos rfl]
    exact List.mem_cons_of_mem _ List.mem_cons_self

theorem append_not_below {node : Node} (name : VarName) {path : List Segment}
    (listed : path ∈ node.paths) {segment : Segment} (notLength : segment ≠ .len) :
    ¬ (name.append path).Below (name.child segment) := by
  rcases path_of_mem_paths listed with atName | atLength
  · rw [atName, VarName.append_nil]
    exact VarName.not_below_child name segment
  · rw [atLength]
    exact VarName.child_not_below notLength.symm

theorem append_ne_child {node : Node} (name : VarName) {path : List Segment}
    (listed : path ∈ node.paths) {segment : Segment} (notLength : segment ≠ .len) :
    name.append path ≠ name.child segment := by
  intro same
  apply append_not_below name listed notLength
  rw [same]
  exact VarName.below_self _

/-! ### Local variables -/

mutual

/-- The local variables of the code for a type: the iterator of the container, and for every
member of a struct its local variables and its inputs. -/
def locals (options : Options) (node : Node) (name : VarName) : List TypedVar :=
  match node with
  | array _ => [⟨iterType, name.child .iter⟩]
  | struct members => ⟨iterType, name.child .iter⟩ :: localsAll options members name 0
  | entry key value =>
    ⟨iterType, name.child .iter⟩ ::
      (key.locals options (name.child (.item 0)) ++ key.inputs options (name.child (.item 0)) ++
        (value.locals options (name.child (.item 1)) ++
          value.inputs options (name.child (.item 1))))
  | _ => []

def localsAll (options : Options) (members : List Node) (name : VarName) (position : Nat) :
    List TypedVar :=
  match members with
  | [] => []
  | member :: rest =>
    member.locals options (name.child (.item position)) ++
      member.inputs options (name.child (.item position)) ++
      localsAll options rest name (position + 1)

end

theorem locals_of_isGroup (options : Options) {node : Node} (group : node.isGroup = true)
    (name : VarName) :
    node.locals options name =
      ⟨iterType, name.child .iter⟩ :: localsAll options node.children name 0 := by
  cases node with
  | struct members => rfl
  | entry key value => simp [locals, children, localsAll]
  | _ => cases group

/-! ### Statements -/

def copies (options : Options) (element : Node) (name : VarName) : List Statement :=
  (element.ports options).map fun port =>
    .assign ((name.child .element).append port.path) (name.append port.path) (name.child .index)

def reads (options : Options) (member : Node) (name : VarName) (position : Nat) :
    List Statement :=
  (member.ports options).map fun port =>
    .readField ((name.child (.item position)).append port.path) name
      (fieldText (.item position :: port.path))

theorem copies_eq (options : Options) (element : Node) (name : VarName) :
    element.copies options name = element.paths.map fun path =>
      .assign ((name.child .element).append path) (name.append path) (name.child .index) := by
  rw [copies, ← map_path_ports options, List.map_map]
  rfl

theorem reads_eq (options : Options) (member : Node) (name : VarName) (position : Nat) :
    member.reads options name position = member.paths.map fun path =>
      .readField ((name.child (.item position)).append path) name
        (fieldText (.item position :: path)) := by
  rw [reads, ← map_path_ports options, List.map_map]
  rfl

def declarations (entries : List TypedVar) : List Statement :=
  entries.map fun entry => .declare entry.type entry.name

def loopBody (options : Options) (element : Node) (name : VarName) (code : Fragment) : Fragment :=
  declarations
      (element.locals options (name.child .element) ++
        element.inputs options (name.child .element)) ++
    [.blank] ++ element.copies options name ++ [.blank] ++ code

def arrayCode (options : Options) (element : Node) (recovery : String) (iter name : VarName)
    (code : Fragment) : Fragment :=
  [.comment "Marshal an array onto the message",
    .openContainer iter "DBUS_TYPE_ARRAY" element.signature (name.child .iter) recovery,
    .blank,
    .loop (name.child .index) name (if element.isFixed then some (name.child .len) else none)
      (loopBody options element name code),
    .blank,
    .closeContainer iter (name.child .iter) recovery]

def memberCode (options : Options) (member : Node) (name : VarName) (position : Nat)
    (code : Fragment) : Fragment :=
  member.reads options name position ++ [.blank] ++ code ++ [.blank]

def groupCode (node : Node) (recovery : String) (iter name : VarName) (code : Fragment) :
    Fragment :=
  [.comment "Marshal a structure onto the message",
    .openContainer iter node.constant none (name.child .iter) recovery,
    .blank] ++ code ++ [.closeContainer iter (name.child .iter) recovery]

mutual

/-- The statements that marshal a variable of a type. -/
def code (options : Options) (recovery : String) (node : Node) (iter name : VarName) : Fragment :=
  match node with
  | basic written =>
    [.comment ("Marshal a " ++ CType.toConst ((basic written).cType options) ++
        " onto the message"),
      .append iter (basic written).constant name recovery]
  | array element =>
    arrayCode options element recovery iter name
      (element.code options recovery (name.child .iter) (name.child .element))
  | struct members =>
    groupCode (struct members) recovery iter name
      (codeAll options recovery members (name.child .iter) name 0)
  | entry key value =>
    groupCode (entry key value) recovery iter name
      (memberCode options key name 0
          (key.code options recovery (name.child .iter) (name.child (.item 0))) ++
        memberCode options value name 1
          (value.code options recovery (name.child .iter) (name.child (.item 1))))
  | _ => []

def codeAll (options : Options) (recovery : String) (members : List Node) (inner name : VarName)
    (position : Nat) : Fragment :=
  match members with
  | [] => []
  | member :: rest =>
    memberCode options member name position
        (member.code options recovery inner (name.child (.item position))) ++
      codeAll options recovery rest inner name (position + 1)

end

theorem code_of_isGroup (options : Options) (recovery : String) {node : Node}
    (group : node.isGroup = true) (iter name : VarName) :
    node.code options recovery iter name =
      groupCode node recovery iter name
        (codeAll options recovery node.children (name.child .iter) name 0) := by
  cases node with
  | struct members => rfl
  | entry key value => simp [code, children, codeAll]
  | _ => cases group

/-! ### Lists -/

theorem mapM_of_ok {ε α β : Type} {read : α → Except ε β} (result : α → β) {items : List α}
    (each : ∀ item ∈ items, read item = .ok (result item)) :
    items.mapM read = .ok (items.map result) := by
  induction items with
  | nil => rfl
  | cons item rest ih =>
      rw [List.mapM_cons, each item List.mem_cons_self,
        ih (fun other listed => each other (List.mem_cons_of_mem _ listed))]
      rfl

end Node

/-! ### What declarations and loops alone have -/

/-- A part that no statement has but declarations and loops. -/
structure Silent {α : Type} (part : Statement → List α) : Prop where
  comment : ∀ text, part (.comment text) = []
  blank : part .blank = []
  openContainer : ∀ iter typeConst signature inner recovery,
    part (.openContainer iter typeConst signature inner recovery) = []
  closeContainer : ∀ iter inner recovery, part (.closeContainer iter inner recovery) = []
  assign : ∀ target array index, part (.assign target array index) = []
  readField : ∀ target source field, part (.readField target source field) = []

namespace Silent

variable {α : Type} {part : Statement → List α} (silent : Silent part) (options : Options)
include silent

theorem copies (element : Node) (name : VarName) :
    (element.copies options name).flatMap part = [] := by
  rw [List.flatMap_eq_nil_iff]
  intro statement listed
  obtain ⟨port, _, same⟩ := List.mem_map.1 listed
  rw [← same]
  exact silent.assign _ _ _

theorem reads (member : Node) (name : VarName) (position : Nat) :
    (member.reads options name position).flatMap part = [] := by
  rw [List.flatMap_eq_nil_iff]
  intro statement listed
  obtain ⟨port, _, same⟩ := List.mem_map.1 listed
  rw [← same]
  exact silent.readField _ _ _

theorem memberCode (member : Node) (name : VarName) (position : Nat) (code : Fragment) :
    (Node.memberCode options member name position code).flatMap part = code.flatMap part := by
  rw [Node.memberCode, List.flatMap_append, List.flatMap_append, List.flatMap_append,
    silent.reads]
  simp [silent.blank]

theorem loopBody (element : Node) (name : VarName) (code : Fragment) :
    (Node.loopBody options element name code).flatMap part =
      (Node.declarations (element.locals options (name.child .element) ++
        element.inputs options (name.child .element))).flatMap part ++ code.flatMap part := by
  rw [Node.loopBody, List.flatMap_append, List.flatMap_append, List.flatMap_append,
    List.flatMap_append, silent.copies]
  simp [silent.blank]

theorem groupCode (node : Node) (recovery : String) (iter name : VarName) (code : Fragment) :
    (Node.groupCode node recovery iter name code).flatMap part = code.flatMap part := by
  rw [Node.groupCode, List.flatMap_append, List.flatMap_append]
  simp [silent.comment, silent.blank, silent.openContainer, silent.closeContainer]

end Silent

/-! ### Statements at every depth -/

namespace Fragment

theorem walk_append (first second : Fragment) :
    walk (first ++ second) = walk first ++ walk second := by
  induction first with
  | nil => rfl
  | cons statement rest ih => rw [List.cons_append, walk, ih, walk, List.append_assoc]

variable {holds : Statement → Prop}

theorem forall_walk_append {first second : Fragment}
    (left : ∀ statement ∈ walk first, holds statement)
    (right : ∀ statement ∈ walk second, holds statement) :
    ∀ statement ∈ walk (first ++ second), holds statement := by
  rw [walk_append]
  exact List.forall_mem_append.2 ⟨left, right⟩

theorem forall_walk_map {α : Type} (items : List α) (statement : α → Statement)
    (flat : ∀ item, (statement item).walk = [statement item])
    (each : ∀ item ∈ items, holds (statement item)) :
    ∀ inner ∈ walk (items.map statement), holds inner := by
  induction items with
  | nil =>
      intro inner impossible
      cases impossible
  | cons item rest ih =>
      rw [List.map_cons, walk, flat]
      obtain ⟨first, others⟩ := List.forall_mem_cons.1 each
      exact List.forall_mem_cons.2 ⟨first, ih others⟩

theorem forall_walk_cons {statement : Statement} {rest : Fragment}
    (first : ∀ inner ∈ statement.walk, holds inner) (others : ∀ inner ∈ walk rest, holds inner) :
    ∀ inner ∈ walk (statement :: rest), holds inner :=
  List.forall_mem_append.2 ⟨first, others⟩

theorem forall_walk_container {middle : Fragment} {iter inner : VarName}
    {note typeConst recovery : String} {signature : Option String} (comment : holds (.comment note))
    (opens : holds (.openContainer iter typeConst signature inner recovery)) (blank : holds .blank)
    (closes : holds (.closeContainer iter inner recovery)) (recovers : holds (.recovery recovery))
    (filled : ∀ statement ∈ walk middle, holds statement) :
    ∀ statement ∈ walk
        ([.comment note, .openContainer iter typeConst signature inner recovery, .blank] ++
          middle ++ [.closeContainer iter inner recovery]), holds statement := by
  apply forall_walk_append (forall_walk_append ?_ filled)
  · intro statement listed
    simp only [walk, Statement.walk, List.append_nil, List.mem_cons, List.not_mem_nil,
      or_false] at listed
    rcases listed with same | same <;> rw [same]
    · exact closes
    · exact recovers
  · intro statement listed
    simp only [walk, Statement.walk, List.append_nil, List.cons_append, List.nil_append,
      List.mem_cons, List.not_mem_nil, or_false] at listed
    rcases listed with same | same | same | same <;> rw [same]
    · exact comment
    · exact opens
    · exact recovers
    · exact blank

theorem forall_walk_loopBody {options : Options} {element : Node} {name : VarName}
    {code : Fragment} (blank : holds .blank)
    (declares : ∀ statement ∈ walk (Node.declarations
      (element.locals options (name.child .element) ++
        element.inputs options (name.child .element))), holds statement)
    (copies : ∀ statement ∈ walk (element.copies options name), holds statement)
    (inCode : ∀ statement ∈ walk code, holds statement) :
    ∀ statement ∈ walk (Node.loopBody options element name code), holds statement := by
  have blanks : ∀ statement ∈ walk [.blank], holds statement := List.forall_mem_singleton.2 blank
  have copied := forall_walk_append (forall_walk_append declares blanks) copies
  exact forall_walk_append (forall_walk_append copied blanks) inCode

theorem forall_walk_arrayCode {options : Options} {element : Node} {recovery : String}
    {iter name : VarName} {code : Fragment}
    (comment : holds (.comment "Marshal an array onto the message")) (blank : holds .blank)
    (recovers : holds (.recovery recovery))
    (opens : holds (.openContainer iter "DBUS_TYPE_ARRAY" element.signature (name.child .iter)
      recovery))
    (closes : holds (.closeContainer iter (name.child .iter) recovery))
    (loop : holds (.loop (name.child .index) name
      (if element.isFixed then some (name.child .len) else none)
      (Node.loopBody options element name code)))
    (declares : ∀ statement ∈ walk (Node.declarations
      (element.locals options (name.child .element) ++
        element.inputs options (name.child .element))), holds statement)
    (copies : ∀ statement ∈ walk (element.copies options name), holds statement)
    (inCode : ∀ statement ∈ walk code, holds statement) :
    ∀ statement ∈ walk (Node.arrayCode options element recovery iter name code),
      holds statement := by
  have body := forall_walk_loopBody blank declares copies inCode
  have inside : ∀ statement ∈ walk [.loop (name.child .index) name
      (if element.isFixed then some (name.child .len) else none)
      (Node.loopBody options element name code), .blank], holds statement :=
    forall_walk_cons (List.forall_mem_cons.2 ⟨loop, body⟩) (List.forall_mem_singleton.2 blank)
  have container := forall_walk_container comment opens blank closes recovers inside
  exact container

theorem forall_walk_codeAll {options : Options} {recovery : String} {inner name : VarName}
    {members : List Node} (position : Nat) (blank : holds .blank)
    (reads : ∀ (index : Nat) (member : Node), members[index]? = some member →
      ∀ statement ∈ walk (member.reads options name (position + index)), holds statement)
    (inCode : ∀ (index : Nat) (member : Node), members[index]? = some member →
      ∀ statement ∈ walk (member.code options recovery inner
        (name.child (.item (position + index)))), holds statement) :
    ∀ statement ∈ walk (Node.codeAll options recovery members inner name position),
      holds statement := by
  induction members generalizing position with
  | nil => exact List.forall_mem_nil _
  | cons member rest ih =>
      have blanks : ∀ statement ∈ walk [.blank], holds statement :=
        List.forall_mem_singleton.2 blank
      have shifted : ∀ index, position + (index + 1) = position + 1 + index := by omega
      have others := ih (position + 1)
        (fun index other found => shifted index ▸ reads (index + 1) other found)
        (fun index other found => shifted index ▸ inCode (index + 1) other found)
      have front := forall_walk_append (reads 0 member rfl) blanks
      exact forall_walk_append
        (forall_walk_append (forall_walk_append front (inCode 0 member rfl)) blanks) others

end Fragment

end DBusMarshal
