import DBusMarshal.Proofs.Ownership
import DBusMarshal.Proofs.Spelling

/-!
Types in generated code.

A variable has the type that it is listed or declared with, and the index of a loop is a size. The
types of generated code fit wherever variables meet: what an array is copied into has one level of
pointers less, a loop that looks for a null copies a pointer, and what a field is read out of is a
pointer to the C struct of the type that the variable stands for.
-/

set_option autoImplicit false

namespace DBusMarshal

/-- The type of the value that a variable stands for, when the variable at the origin stands for a
value of the root. -/
inductive Node.Stands (root : Node) (origin : VarName) : Node → VarName → Prop where
  | whole : Stands root origin root origin
  | element {inner : Node} {name : VarName} (stands : Stands root origin (.array inner) name) :
      Stands root origin inner (name.child .element)
  | member {node inner : Node} {name : VarName} {position : Nat}
      (stands : Stands root origin node name) (group : node.isGroup = true)
      (found : node.children[position]? = some inner) :
      Stands root origin inner (name.child (.item position))

theorem Node.Stands.marshallable {root node : Node} {origin name : VarName}
    (stands : Stands root origin node name) (marshallable : root.Marshallable) :
    node.Marshallable := by
  induction stands with
  | whole => exact marshallable
  | element _ ih => exact ih.child (List.mem_singleton_self _)
  | member _ _ found ih => exact ih.child (List.mem_of_getElem? found)

/-- What types are checked against: the type that code was generated for under a name, the iterator
of the caller, and the types of variables. -/
structure Typing where
  options : Options
  root : Node
  origin : VarName
  iter : VarName
  typeOf : VarName → Option String

def Typing.IsIterator (typing : Typing) (name : VarName) : Prop :=
  name = typing.iter ∨ typing.typeOf name = some "DBusMessageIter"

/-- The types of the variables in a statement fit. -/
def Statement.WellTyped (typing : Typing) : Statement → Prop
  | append place typeConst value _ =>
    typing.IsIterator place ∧
      ∃ code type, basicConst code = some typeConst ∧ basicCType code = some type ∧
        typing.typeOf value = some (CType.toConst type)
  | openContainer place _ _ inner _ =>
    typing.IsIterator place ∧ typing.typeOf inner = some "DBusMessageIter"
  | closeContainer place inner _ =>
    typing.IsIterator place ∧ typing.typeOf inner = some "DBusMessageIter"
  | assign target array index =>
    typing.typeOf index = some "size_t" ∧
      ∃ type, typing.typeOf target = some type ∧
        typing.typeOf array = some (CType.toConst (CType.toPointer type))
  | readField target source field =>
    ∃ node name, Node.Stands typing.root typing.origin node source ∧ node.isGroup = true ∧
      typing.options.structName node = .ok name ∧
      typing.typeOf source = some ("const struct " ++ name ++ " *") ∧
      target.fieldOf source = .ok field ∧
      ∃ (position : Nat) (member : Node) (type : String),
        node.children[position]? = some member ∧
        (⟨type, target⟩ : TypedVar) ∈
          member.inputs typing.options (source.child (.item position)) ∧
        typing.typeOf target = some type
  | loop index array length body =>
    typing.typeOf index = some "size_t" ∧
      (∀ bound ∈ length, typing.typeOf bound = some "size_t") ∧
      (∃ target, assign target array index ∈ body) ∧
      ∀ target place, assign target array place ∈ body →
        ∃ type, typing.typeOf target = some type ∧
          CType.isPointer type.toList = length.isNone
  | _ => True

/-- The types fit in every statement, at every depth. -/
def Fragment.WellTyped (typing : Typing) (fragment : Fragment) : Prop :=
  ∀ statement ∈ Fragment.walk fragment, statement.WellTyped typing

namespace Fragment

variable {typing : Typing}

theorem wellTyped_append {first second : Fragment} (left : WellTyped typing first)
    (right : WellTyped typing second) : WellTyped typing (first ++ second) :=
  forall_walk_append left right

theorem wellTyped_cons {statement : Statement} {rest : Fragment}
    (first : ∀ inner ∈ statement.walk, inner.WellTyped typing) (others : WellTyped typing rest) :
    WellTyped typing (statement :: rest) :=
  forall_walk_cons first others

theorem wellTyped_map {α : Type} (items : List α) (statement : α → Statement)
    (flat : ∀ item, (statement item).walk = [statement item])
    (each : ∀ item ∈ items, (statement item).WellTyped typing) :
    WellTyped typing (items.map statement) :=
  forall_walk_map items statement flat each

theorem wellTyped_blank : WellTyped typing [.blank] := by
  intro inner listed
  rw [List.mem_singleton.1 listed]
  trivial

end Fragment

namespace Node

/-! ### Inputs -/

theorem cType_basic (options : Options) {code type : String} (found : basicCType code = some type) :
    (basic code).cType options = type := by
  apply cType_of_typeOf
  rw [Options.typeOf, found]
  rfl

theorem isPointer_basicCType {code type : String} (known : code ∈ basicCodes)
    (found : basicCType code = some type) :
    CType.isPointer (CType.toConst type).toList = !fixedCodes.contains code := by
  have table : ∀ code ∈ basicCodes, ∀ type ∈ basicCType code,
      CType.isPointer (CType.toConst type).toList = !fixedCodes.contains code := by
    decide +kernel
  exact table code known type found

theorem cType_of_isGroup (options : Options) {node : Node} (group : node.isGroup = true)
    {name : String} (named : options.structName node = .ok name) :
    node.cType options = CType.toPointer ("struct " ++ name) := by
  apply cType_of_typeOf
  rw [typeOf_of_isGroup options group, named]
  rfl

/-- The input that is the variable itself is a pointer, unless all values have one size. -/
theorem Marshallable.isPointer_port {node : Node} (marshallable : node.Marshallable)
    (options : Options) {port : Port} (listed : port ∈ node.ports options)
    (whole : port.path = []) : CType.isPointer port.type.toList = !node.isFixed := by
  induction marshallable using Marshallable.byKind with
  | basic code known =>
      obtain ⟨type, found⟩ := exists_basicCType known
      rw [ports, List.mem_singleton] at listed
      · rw [listed, cType_basic options found]
        exact isPointer_basicCType known found
      · intro element impossible
        cases impossible
  | array element inside _ =>
      rw [ports, List.mem_append] at listed
      rcases listed with lifted | isLength
      · obtain ⟨inner, _, same⟩ := List.mem_map.1 lifted
        rw [← same]
        exact CType.isPointer_toConst_toPointer inner.type
      · split at isLength
        · rw [List.mem_singleton.1 isLength] at whole
          cases whole
        · cases isLength
  | group node marshallable isGroup _ =>
      obtain ⟨name, named⟩ := marshallable.structName options
      rw [ports_of_isGroup options isGroup, List.mem_singleton] at listed
      have sized : node.isFixed = false := by
        cases node with
        | basic _ => cases isGroup
        | _ => rfl
      rw [listed, cType_of_isGroup options isGroup named, sized]
      exact CType.isPointer_toConst_toPointer _

/-! ### Copies -/

section

variable {options : Options} {recovery : String} {iter name : VarName}

/-- The copies of an element are the only assignments in the body of a loop. -/
theorem assign_not_mem_codeAll {members : List Node} {inner : VarName} {position : Nat}
    (ih : ∀ member ∈ members, ∀ iter origin target array index : VarName,
      .assign target array index ∉ member.code options recovery iter origin)
    {target array index : VarName} :
    .assign target array index ∉ codeAll options recovery members inner name position := by
  induction members generalizing position with
  | nil => exact List.not_mem_nil
  | cons member rest ihRest =>
      intro listed
      rw [codeAll, memberCode, List.mem_append, List.mem_append, List.mem_append,
        List.mem_append] at listed
      rcases listed with (((inReads | isBlank) | inCode) | isBlank) | later
      · obtain ⟨port, _, same⟩ := List.mem_map.1 inReads
        cases same
      · cases List.mem_singleton.1 isBlank
      · exact ih member List.mem_cons_self _ _ _ _ _ inCode
      · cases List.mem_singleton.1 isBlank
      · exact ihRest (fun other listed => ih other (List.mem_cons_of_mem _ listed)) later

theorem Marshallable.assign_not_mem_code {node : Node} (marshallable : node.Marshallable)
    {target array index : VarName} :
    .assign target array index ∉ node.code options recovery iter name := by
  induction marshallable using Marshallable.byKind
    generalizing iter name target array index with
  | basic code known => simp [Node.code]
  | array element inside ih => simp [Node.code, arrayCode]
  | group node marshallable isGroup ih =>
      have members : .assign target array index ∉ codeAll options recovery node.children
          (name.child .iter) name 0 :=
        assign_not_mem_codeAll (fun member listed _ _ _ _ _ => ih member listed)
      rw [code_of_isGroup options recovery isGroup]
      simp [groupCode, members]

/-- The variable that the body of a loop copies out of the array itself is the element. -/
theorem Marshallable.port_of_assign {element : Node} (inside : element.Marshallable)
    {target index : VarName}
    (listed : .assign target name index ∈ loopBody options element name
      (element.code options recovery iter (name.child .element))) :
    ∃ port ∈ element.ports options, port.path = [] ∧ target = name.child .element := by
  rw [loopBody, List.mem_append, List.mem_append, List.mem_append, List.mem_append] at listed
  rcases listed with (((isDeclaration | isBlank) | inCopies) | isBlank) | inCode
  · obtain ⟨entry, _, same⟩ := List.mem_map.1 isDeclaration
    cases same
  · cases List.mem_singleton.1 isBlank
  · obtain ⟨port, isPort, same⟩ := List.mem_map.1 inCopies
    injection same with sameTarget sameArray
    have whole : port.path = [] := by
      refine VarName.append_injective (sameArray.trans ?_)
      exact (VarName.append_nil name).symm
    refine ⟨port, isPort, whole, ?_⟩
    rw [← sameTarget, whole, VarName.append_nil]
  · cases List.mem_singleton.1 isBlank
  · exact absurd inCode inside.assign_not_mem_code

theorem exists_whole_port (options : Options) (node : Node) :
    ∃ port ∈ node.ports options, port.path = [] := by
  have listed := nil_mem_paths node
  rw [← map_path_ports options] at listed
  exact List.mem_map.1 listed

/-- The body of a loop copies the element out of the array. -/
theorem assign_mem_loopBody (options : Options) (element : Node) (name : VarName)
    (code : Fragment) :
    .assign (name.child .element) name (name.child .index) ∈
      loopBody options element name code := by
  obtain ⟨port, isPort, whole⟩ := element.exists_whole_port options
  have copied : Statement.assign (name.child .element) name (name.child .index) ∈
      element.copies options name := by
    refine List.mem_map.2 ⟨port, isPort, ?_⟩
    rw [whole, VarName.append_nil, VarName.append_nil]
  exact List.mem_append_left _ (List.mem_append_left _ (List.mem_append_right _ copied))

end

/-! ### The code of a type -/

section

variable {typing : Typing} {iter name : VarName}

theorem wellTyped_container {place inner : VarName} {middle : Fragment} (typeConst note : String)
    (signature : Option String) (recovery : String) (isIterator : typing.IsIterator place)
    (typed : typing.typeOf inner = some iterType) (filled : Fragment.WellTyped typing middle) :
    Fragment.WellTyped typing
      ([.comment note, .openContainer place typeConst signature inner recovery, .blank] ++
        middle ++ [.closeContainer place inner recovery]) :=
  Fragment.forall_walk_container trivial ⟨isIterator, typed⟩ trivial ⟨isIterator, typed⟩ trivial
    filled

theorem wellTyped_copies {element : Node}
    (sources : ∀ entry ∈ (array element).inputs typing.options name,
      typing.typeOf entry.name = some entry.type)
    (targets : ∀ entry ∈ element.inputs typing.options (name.child .element),
      typing.typeOf entry.name = some entry.type)
    (index : typing.typeOf (name.child .index) = some sizeType) :
    Fragment.WellTyped typing (element.copies typing.options name) := by
  apply Fragment.wellTyped_map _ _ (fun _ => rfl)
  intro port listed
  have lifted : port.lift ∈ (array element).ports typing.options := by
    rw [ports]
    exact List.mem_append_left _ (List.mem_map_of_mem listed)
  have source := sources _ (List.mem_map_of_mem lifted)
  rw [Port.under, Port.path_lift] at source
  exact ⟨index, port.type, targets _ (List.mem_map_of_mem listed), source⟩

theorem wellTyped_reads {node member : Node} {structName : String} {position : Nat}
    (stands : Node.Stands typing.root typing.origin node name) (group : node.isGroup = true)
    (named : typing.options.structName node = .ok structName)
    (source : typing.typeOf name = some ("const struct " ++ structName ++ " *"))
    (found : node.children[position]? = some member)
    (targets : ∀ entry ∈ member.inputs typing.options (name.child (.item position)),
      typing.typeOf entry.name = some entry.type) :
    Fragment.WellTyped typing (member.reads typing.options name position) := by
  apply Fragment.wellTyped_map _ _ (fun _ => rfl)
  intro port listed
  have field : ((name.child (.item position)).append port.path).fieldOf name =
      .ok (fieldText (.item position :: port.path)) := by
    rw [VarName.child_append]
    exact VarName.fieldOf_append name (List.cons_ne_nil _ _)
  have target : (⟨port.type, (name.child (.item position)).append port.path⟩ : TypedVar) ∈
      member.inputs typing.options (name.child (.item position)) := List.mem_map_of_mem listed
  exact ⟨node, structName, stands, group, named, source, field, position, member, port.type,
    found, target, targets _ target⟩

/-- The types of variables are those that they are listed with. -/
def Agrees (typing : Typing) (entries : List TypedVar) : Prop :=
  ∀ entry ∈ entries, typing.typeOf entry.name = some entry.type

theorem mem_introducedAll {options : Options} {recovery : String} {member : Node}
    {rest : List Node} {inner : VarName} {position : Nat} {entry : TypedVar} :
    entry ∈ introducedAll options recovery (member :: rest) inner name position ↔
      entry ∈ member.introduced options recovery inner (name.child (.item position)) ∨
        entry ∈ introducedAll options recovery rest inner name (position + 1) := by
  simp only [introducedAll, introduced, localsAll, codeAll, Fragment.introduces_append,
    introduces_memberCode, List.mem_append]
  grind

theorem mem_introduced_array {options : Options} {recovery : String} {element : Node}
    {entry : TypedVar} :
    entry ∈ (array element).introduced options recovery iter name ↔
      entry ∈ (array element).inputs options name ∨ entry = ⟨iterType, name.child .iter⟩ ∨
        entry = ⟨sizeType, name.child .index⟩ ∨
          entry ∈ element.introduced options recovery (name.child .iter) (name.child .element) := by
  simp only [introduced, locals, code, introduces_arrayCode, List.mem_append, List.mem_cons,
    List.not_mem_nil, or_false]
  grind

theorem wellTyped_codeAll {recovery : String} {node : Node} {structName : String}
    (stands : Node.Stands typing.root typing.origin node name) (group : node.isGroup = true)
    (named : typing.options.structName node = .ok structName)
    (source : typing.typeOf name = some ("const struct " ++ structName ++ " *"))
    {inner : VarName} (isIterator : typing.IsIterator inner) (members : List Node)
    (position : Nat)
    (ih : ∀ member ∈ members, ∀ iter origin : VarName,
      Node.Stands typing.root typing.origin member origin → typing.IsIterator iter →
        Agrees typing (member.introduced typing.options recovery iter origin) →
          Fragment.WellTyped typing (member.code typing.options recovery iter origin))
    (found : node.children.drop position = members)
    (agrees : Agrees typing
      (introducedAll typing.options recovery members inner name position)) :
    Fragment.WellTyped typing
      (codeAll typing.options recovery members inner name position) := by
  induction members generalizing position with
  | nil =>
      intro statement impossible
      cases impossible
  | cons member rest ihRest =>
      have atPosition : node.children[position]? = some member := by
        have first := congrArg List.head? found
        rwa [List.head?_drop] at first
      have foundLater : node.children.drop (position + 1) = rest := by
        have others := congrArg List.tail found
        rwa [List.tail_drop] at others
      have own : Agrees typing (member.introduced typing.options recovery inner
          (name.child (.item position))) :=
        fun entry listed => agrees entry (mem_introducedAll.2 (Or.inl listed))
      have targets : Agrees typing
          (member.inputs typing.options (name.child (.item position))) :=
        fun entry listed => own entry (List.mem_append_left _ listed)
      have code := ih member List.mem_cons_self inner _ (.member stands group atPosition)
        isIterator own
      have later := ihRest (position + 1)
        (fun other listed => ih other (List.mem_cons_of_mem _ listed)) foundLater
        (fun entry listed => agrees entry (mem_introducedAll.2 (Or.inr listed)))
      rw [codeAll, memberCode]
      refine Fragment.wellTyped_append (Fragment.wellTyped_append (Fragment.wellTyped_append
        (Fragment.wellTyped_append ?_ Fragment.wellTyped_blank) code) Fragment.wellTyped_blank)
        later
      exact wellTyped_reads stands group named source atPosition targets

theorem wellTyped_loop {recovery : String} {element : Node} (inside : element.Marshallable)
    (agrees : Agrees typing ((array element).introduced typing.options recovery iter name))
    (code : Fragment.WellTyped typing
      (element.code typing.options recovery (name.child .iter) (name.child .element))) :
    Fragment.WellTyped typing
      [.loop (name.child .index) name (if element.isFixed then some (name.child .len) else none)
        (loopBody typing.options element name
          (element.code typing.options recovery (name.child .iter) (name.child .element))),
        .blank] := by
  have sources : Agrees typing ((array element).inputs typing.options name) :=
    fun entry listed => agrees entry (mem_introduced_array.2 (Or.inl listed))
  have index : typing.typeOf (name.child .index) = some sizeType :=
    agrees _ (mem_introduced_array.2 (Or.inr (Or.inr (Or.inl rfl))))
  have targets : Agrees typing (element.inputs typing.options (name.child .element)) :=
    fun entry listed => agrees entry
      (mem_introduced_array.2 (Or.inr (Or.inr (Or.inr (List.mem_append_left _ listed)))))
  refine Fragment.wellTyped_cons ?_ Fragment.wellTyped_blank
  intro statement listed
  rw [Statement.walk] at listed
  rcases List.mem_cons.1 listed with isLoop | inBody
  · rw [isLoop]
    refine ⟨index, ?_, ?_, ?_⟩
    · intro bound isBound
      cases fixed : element.isFixed with
      | true =>
          rw [fixed, if_pos rfl] at isBound
          cases isBound
          have lengthPort : (⟨[.len], sizeType⟩ : Port) ∈ (array element).ports typing.options := by
            rw [ports, fixed, if_pos rfl]
            exact List.mem_append_right _ (List.mem_singleton.2 rfl)
          exact sources _ (List.mem_map_of_mem lengthPort)
      | false =>
          rw [fixed, if_neg Bool.false_ne_true] at isBound
          cases isBound
    · exact ⟨_, assign_mem_loopBody typing.options element name _⟩
    · intro target place isAssign
      obtain ⟨port, isPort, whole, same⟩ := inside.port_of_assign isAssign
      have typed := targets _ (List.mem_map_of_mem isPort)
      rw [Port.under, whole, VarName.append_nil] at typed
      refine ⟨port.type, by rw [same]; exact typed, ?_⟩
      rw [inside.isPointer_port typing.options isPort whole]
      cases element.isFixed <;> rfl
  · refine Fragment.forall_walk_loopBody trivial ?_ (wellTyped_copies sources targets index) code
      statement inBody
    exact Fragment.wellTyped_map _ _ (fun _ => rfl) (fun _ _ => trivial)

/-- The types fit everywhere in the code for a variable, when its variables have the types that
they are listed with. -/
theorem Marshallable.wellTyped_code_of_qualifies {node : Node} (marshallable : node.Marshallable)
    (qualifies : typing.options.Qualifies) (recovery : String)
    (stands : Node.Stands typing.root typing.origin node name)
    (isIterator : typing.IsIterator iter)
    (agrees : Agrees typing (node.introduced typing.options recovery iter name)) :
    Fragment.WellTyped typing (node.code typing.options recovery iter name) := by
  induction marshallable using Marshallable.byKind generalizing iter name with
  | basic code known =>
      obtain ⟨type, found⟩ := exists_basicCType known
      obtain ⟨const, constFound⟩ := exists_basicConst known
      have constant : (Node.basic code).constant = const := by
        rw [Node.constant, Node.typeConst, constFound]
        rfl
      have typed : typing.typeOf name = some (CType.toConst type) := by
        have given := agrees _ (List.mem_append_left _ (List.mem_singleton.2 rfl))
        change typing.typeOf (name.append []) =
          some (CType.toConst ((Node.basic code).cType typing.options)) at given
        rw [VarName.append_nil, cType_basic typing.options found] at given
        exact given
      intro statement listed
      simp only [Node.code, Fragment.walk, Statement.walk, List.append_nil, List.cons_append,
        List.nil_append, List.mem_cons, List.not_mem_nil, or_false] at listed
      rcases listed with same | same | same <;> rw [same]
      · trivial
      · refine ⟨isIterator, code, type, ?_, found, typed⟩
        rw [constant]
        exact constFound
      · trivial
  | array element inside ih =>
      have opened : typing.typeOf (name.child .iter) = some iterType :=
        agrees _ (mem_introduced_array.2 (Or.inr (Or.inl rfl)))
      have code := ih (.element stands) (Or.inr opened)
        (fun entry listed =>
          agrees entry (mem_introduced_array.2 (Or.inr (Or.inr (Or.inr listed)))))
      exact wellTyped_container "DBUS_TYPE_ARRAY" _ element.signature recovery isIterator opened
        (wellTyped_loop inside agrees code)
  | group node marshallable isGroup ih =>
      obtain ⟨structName, named⟩ := marshallable.structName typing.options
      rw [Node.introduced, inputs_of_isGroup typing.options isGroup,
        locals_of_isGroup typing.options isGroup, code_of_isGroup typing.options recovery isGroup,
        introduces_groupCode] at agrees
      have source : typing.typeOf name = some ("const struct " ++ structName ++ " *") := by
        have given := agrees _ (List.mem_append_left _ (List.mem_singleton.2 rfl))
        rw [cType_of_isGroup typing.options isGroup named,
          qualifies node marshallable structName named] at given
        exact given
      have opened : typing.typeOf (name.child .iter) = some iterType :=
        agrees ⟨iterType, name.child .iter⟩ (List.mem_append_right _ List.mem_cons_self)
      rw [code_of_isGroup typing.options recovery isGroup]
      apply wellTyped_container node.constant _ none recovery isIterator opened
      exact wellTyped_codeAll stands isGroup named source (Or.inr opened) node.children 0
        (fun member listed _ _ stands isIterator agrees =>
          ih member listed stands isIterator agrees)
        List.drop_zero
        (fun entry listed => agrees entry (List.mem_append_right _ (List.mem_cons_of_mem _ listed)))

theorem Marshallable.wellTyped_code {node : Node} (marshallable : node.Marshallable)
    (sound : typing.options.Sound) (recovery : String)
    (stands : Node.Stands typing.root typing.origin node name)
    (isIterator : typing.IsIterator iter)
    (agrees : Agrees typing (node.introduced typing.options recovery iter name)) :
    Fragment.WellTyped typing (node.code typing.options recovery iter name) :=
  marshallable.wellTyped_code_of_qualifies sound.qualifies recovery stands isIterator agrees

end

end Node

/-! ### Generated code -/

/-- The type that a variable of generated code is listed or declared with. -/
def Generated.declaredType (generated : Generated) (name : VarName) : Option String :=
  (generated.variables.find? fun entry => entry.name == name).map TypedVar.type

theorem Generated.declaredType_of_mem {generated : Generated}
    (distinct : (generated.variables.map TypedVar.name).Nodup) {entry : TypedVar}
    (listed : entry ∈ generated.variables) :
    generated.declaredType entry.name = some entry.type := by
  unfold declaredType
  generalize generated.variables = entries at distinct listed
  induction entries with
  | nil => cases listed
  | cons first rest ih =>
      rw [List.map_cons, List.nodup_cons] at distinct
      rcases List.mem_cons.1 listed with same | later
      · rw [same, List.find?_cons, beq_self_eq_true]
        rfl
      · have different : (first.name == entry.name) = false := by
          rw [beq_eq_false_iff_ne]
          intro same
          exact distinct.1 (same ▸ List.mem_map_of_mem later)
        rw [List.find?_cons, different]
        exact ih distinct.2 later

/-- The types of the variables of generated code fit in every statement, at every depth, when the
caller chose identifiers for the names of C structs. -/
theorem generated_typing {text : String} {node : Node} (read : Node.read text = .ok node)
    (plain : node.hasVariant = false) {options : Options} (sound : options.Sound)
    (recovery : String) {iter name : GivenName} {iterName varName : VarName}
    (iterGiven : iter.resolve = some iterName) (nameGiven : name.resolve = some varName) :
    ∃ generated, generate options (.tree node) iter name (some recovery) = .ok generated ∧
      Fragment.WellTyped
        { options, root := node, origin := varName, iter := iterName,
          typeOf := generated.declaredType } generated.fragment := by
  have marshallable := Node.marshallable_of_read read plain
  have own := marshallable.owns_introduced options recovery iterName varName
  let generated : Generated :=
    { signature := node.signature
      fragment := node.code options recovery iterName varName
      inputs := node.inputs options varName
      locals := node.locals options varName
      options }
  have distinct : (generated.variables.map TypedVar.name).Nodup := own.distinct
  refine ⟨generated, marshallable.generate options recovery iterGiven nameGiven, ?_⟩
  exact marshallable.wellTyped_code sound recovery .whole (Or.inl rfl)
    (fun entry listed => Generated.declaredType_of_mem distinct listed)

theorem generated_typing_table :
    ∃ generated,
      generate { structStem := "app", structNames := [("\x7bsad\x7d", "row"), ("(i)", "")] }
        (.tree tableType) (.text "iter") (.text "table") (some "return FALSE;") = .ok generated ∧
      Fragment.WellTyped
        { options := { structStem := "app", structNames := [("\x7bsad\x7d", "row"), ("(i)", "")] }
          root := tableType
          origin := { base := "table" }
          iter := { base := "iter" }
          typeOf := generated.declaredType } generated.fragment :=
  generated_typing read_tableType rfl ⟨by decide, by decide⟩ "return FALSE;"
    (GivenName.resolve_text (by decide)) (GivenName.resolve_text (by decide))

end DBusMarshal
