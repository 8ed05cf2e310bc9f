import DBusMarshal.Proofs.Mangling
import DBusMarshal.Proofs.Rendering
import DBusMarshal.Proofs.Rows

/-!
The lines of generated code are lines.

Every line of generated code is put together from fixed words, from names below the name of the
value, from types and from signatures. None of these holds a line boundary, unless the caller brings
one in with a name.
-/

set_option autoImplicit false

namespace DBusMarshal

open Text (Unbroken)

/-! ### Letters, names and types -/

namespace Text

theorem isBlank_of_isBoundary {c : Char} (ends : isBoundary c = true) : isBlank c = true := by
  rw [isBoundary, inRanges_eq_true_iff] at ends
  rw [isBlank, inRanges_eq_true_iff]
  simp [boundaryRanges] at ends
  simp [blankRanges]
  omega

theorem unbroken_of_isWordPart {text : List Char}
    (parts : ∀ c ∈ text, CType.isWordPart c = true) : Unbroken text := by
  intro c listed
  cases ends : isBoundary c with
  | false => rfl
  | true =>
      have inked := CType.not_isBlank_of_isWordPart (parts c listed)
      rw [isBlank_of_isBoundary ends] at inked
      cases inked

theorem Unbroken.of_subset {text part : List Char} (unbroken : Unbroken text)
    (inside : part ⊆ text) : Unbroken part :=
  fun c listed => unbroken c (inside listed)

theorem trim_subset (text : List Char) : trim text ⊆ text := fun _ listed =>
  (List.dropWhile_sublist _).subset (mem_of_mem_dropTrailing listed)

end Text

theorem CType.isWordPart_of_isDigit {c : Char} (digit : c.isDigit = true) :
    isWordPart c = true := by
  rw [isWordPart, Text.inRanges_eq_true_iff]
  refine ⟨⟨0x30, 0x39⟩, List.mem_cons_self, ?_⟩
  simpa [Char.isDigit, UInt32.le_iff_toNat_le] using digit

theorem Segment.Regular.unbroken {segment : Segment} (regular : segment.Regular) :
    Unbroken segment.text.toList := by
  cases regular with
  | item position =>
      rw [Segment.text_item, Text.unbroken_append_iff]
      refine ⟨by decide, Text.unbroken_of_isWordPart ?_⟩
      exact fun c listed => CType.isWordPart_of_isDigit
        (Nat.isDigit_of_mem_toDigits (by decide) (by decide) listed)
  | _ => decide

theorem RegularPath.unbroken {path : List Segment} (regular : RegularPath path) :
    Unbroken (pathText path).toList := by
  induction path with
  | nil => exact List.forall_mem_nil _
  | cons segment rest ih =>
      obtain ⟨first, others⟩ := List.forall_mem_cons.1 regular
      rw [pathText, String.toList_append, Text.unbroken_append_iff]
      exact ⟨first.unbroken, ih others⟩

theorem VarName.Derived.unbroken {name origin : VarName} (derived : name.Derived origin)
    (unbroken : Unbroken origin.text.toList) : Unbroken name.text.toList := by
  obtain ⟨path, regular, rfl⟩ := derived
  rw [VarName.text_append, String.toList_append, Text.unbroken_append_iff]
  exact ⟨unbroken, regular.unbroken⟩

theorem VarName.derived_self (name : VarName) : name.Derived name :=
  ⟨[], List.forall_mem_nil _, (append_nil name).symm⟩

theorem VarName.unbroken_child {name : VarName} {segment : Segment} (regular : segment.Regular)
    (unbroken : Unbroken name.text.toList) : Unbroken (name.child segment).text.toList :=
  (name.derived_self.child regular).unbroken unbroken

theorem unbroken_fieldText {path : List Segment} (regular : RegularPath path) :
    Unbroken (fieldText path).toList := by
  rw [fieldText, String.toList_ofList]
  exact regular.unbroken.of_subset (List.drop_subset _ _)

namespace CType

theorem unbroken_toPointer {type : String} (unbroken : Unbroken type.toList) :
    Unbroken (toPointer type).toList := by
  have trimmed := unbroken.of_subset (Text.trim_subset type.toList)
  rw [toPointer, String.toList_ofList, addStar]
  split
  · exact (Text.unbroken_append_iff _ _).2 ⟨trimmed, by decide⟩
  · exact (Text.unbroken_append_iff _ _).2 ⟨trimmed, by decide⟩

theorem unbroken_qualify {spelling : List Char} (unbroken : Unbroken spelling) :
    Unbroken (qualify spelling) := by
  have qualifies := qualifies_qualify spelling
  generalize qualify spelling = result at qualifies
  cases qualifies with
  | settled _ => exact unbroken
  | @pointer target _ =>
      obtain ⟨front, star⟩ := (Text.unbroken_append_iff _ _).1 unbroken
      have target : Unbroken (Text.trimEnd target) :=
        front.of_subset fun c listed => Text.mem_of_mem_dropTrailing listed
      simp only [Text.unbroken_append_iff]
      exact ⟨⟨⟨target, by decide⟩, by decide⟩, star⟩
  | target _ _ =>
      obtain ⟨front, star⟩ := (Text.unbroken_append_iff _ _).1 unbroken
      simp only [Text.unbroken_append_iff]
      exact ⟨⟨⟨by decide, by decide⟩, front⟩, star⟩

theorem unbroken_toConst {type : String} (unbroken : Unbroken type.toList) :
    Unbroken (toConst type).toList := by
  rw [toConst, String.toList_ofList]
  exact unbroken_qualify (unbroken.of_subset (Text.trim_subset type.toList))

theorem unbroken_declaration {type name : String} (typeUnbroken : Unbroken type.toList)
    (nameUnbroken : Unbroken name.toList) : Unbroken (declaration type name).toList := by
  unfold declaration
  split
  · rw [String.toList_append]
    exact (Text.unbroken_append_iff _ _).2 ⟨typeUnbroken, nameUnbroken⟩
  · rw [String.toList_append, String.toList_append]
    exact (Text.unbroken_append_iff _ _).2
      ⟨(Text.unbroken_append_iff _ _).2 ⟨typeUnbroken, by decide⟩, nameUnbroken⟩

end CType

/-! ### Types of generated variables -/

/-- No name of a C struct inside a type holds a line boundary. -/
def Options.NamesUnbroken (options : Options) (root : Node) : Prop :=
  ∀ group, root.Occurs group → group.isGroup = true →
    ∀ structName, options.structName group = .ok structName → Unbroken structName.toList

namespace Node

theorem Marshallable.of_occurs {root node : Node} (marshallable : root.Marshallable)
    (occurs : root.Occurs node) : node.Marshallable := by
  induction occurs with
  | whole => exact marshallable
  | part _ listed ih => exact ih.child listed

theorem Occurs.of_child {root part inner : Node} (listed : part ∈ root.children)
    (occurs : part.Occurs inner) : root.Occurs inner := by
  induction occurs with
  | whole => exact .part .whole listed
  | part _ isPart ih => exact .part ih isPart

end Node

section

variable {options : Options} {node : Node}

/-- Identifiers hold no line boundary. -/
theorem Options.Sound.namesUnbroken (sound : options.Sound) (marshallable : node.Marshallable) :
    options.NamesUnbroken node := by
  intro group occurs _ structName named
  exact Text.unbroken_of_isWordPart (CType.isWordPart_of_isIdentifier
    ((marshallable.of_occurs occurs).isIdentifier_structName sound named))

theorem Options.NamesUnbroken.child (names : options.NamesUnbroken node) {part : Node}
    (listed : part ∈ node.children) : options.NamesUnbroken part :=
  fun group occurs => names group (.of_child listed occurs)

/-- Neither the type nor the name of the variable holds a line boundary. -/
structure TypedVar.Unbroken (entry : TypedVar) : Prop where
  type : Text.Unbroken entry.type.toList
  name : Text.Unbroken entry.name.text.toList

namespace Node

theorem Marshallable.unbroken_cType (marshallable : node.Marshallable)
    (names : options.NamesUnbroken node) : Unbroken (node.cType options).toList := by
  induction marshallable using Marshallable.byKind with
  | basic code known =>
      have table : ∀ code ∈ basicCodes, ∀ type ∈ basicCType code, Unbroken type.toList := by
        decide +kernel
      obtain ⟨type, found⟩ := exists_basicCType known
      rw [cType_basic options found]
      exact table code known type found
  | array element inside ih =>
      have type : (Node.array element).cType options = CType.toPointer (element.cType options) := by
        apply cType_of_typeOf
        rw [Options.typeOf, inside.typeOf]
        rfl
      rw [type]
      exact CType.unbroken_toPointer (ih (names.child List.mem_cons_self))
  | group node marshallable isGroup _ =>
      obtain ⟨name, named⟩ := marshallable.structName options
      rw [cType_of_isGroup options isGroup named]
      apply CType.unbroken_toPointer
      rw [String.toList_append]
      exact (Text.unbroken_append_iff _ _).2 ⟨by decide, names node .whole isGroup name named⟩

theorem Marshallable.unbroken_ports (marshallable : node.Marshallable)
    (names : options.NamesUnbroken node) :
    ∀ port ∈ node.ports options, Unbroken port.type.toList := by
  induction marshallable using Marshallable.byKind with
  | basic code known =>
      have own := (Marshallable.basic known).unbroken_cType names
      exact List.forall_mem_singleton.2 (CType.unbroken_toConst own)
  | array element inside ih =>
      refine List.forall_mem_append.2 ⟨List.forall_mem_map.2 ?_, ?_⟩
      · intro port listed
        exact CType.unbroken_toConst
          (CType.unbroken_toPointer (ih (names.child List.mem_cons_self) port listed))
      · intro port listed
        split at listed
        · rw [List.mem_singleton.1 listed]
          decide
        · cases listed
  | group node marshallable isGroup _ =>
      rw [ports_of_isGroup options isGroup]
      exact List.forall_mem_singleton.2 (CType.unbroken_toConst (marshallable.unbroken_cType names))

theorem Marshallable.unbroken_inputs (marshallable : node.Marshallable)
    (names : options.NamesUnbroken node) (name : VarName) :
    ∀ entry ∈ node.inputs options name, Unbroken entry.type.toList := by
  rw [inputs]
  exact List.forall_mem_map.2 (marshallable.unbroken_ports names)

theorem unbroken_iterType : Unbroken iterType.toList := by decide

theorem unbroken_localsAll {members : List Node} (name : VarName) (position : Nat)
    (inputs : ∀ member ∈ members, ∀ origin : VarName,
      ∀ entry ∈ member.inputs options origin, Unbroken entry.type.toList)
    (locals : ∀ member ∈ members, ∀ origin : VarName,
      ∀ entry ∈ member.locals options origin, Unbroken entry.type.toList) :
    ∀ entry ∈ localsAll options members name position, Unbroken entry.type.toList := by
  induction members generalizing position with
  | nil => exact List.forall_mem_nil _
  | cons member rest ih =>
      obtain ⟨firstInputs, otherInputs⟩ := List.forall_mem_cons.1 inputs
      obtain ⟨firstLocals, otherLocals⟩ := List.forall_mem_cons.1 locals
      exact List.forall_mem_append.2 ⟨List.forall_mem_append.2 ⟨firstLocals _, firstInputs _⟩,
        ih (position + 1) otherInputs otherLocals⟩

theorem Marshallable.unbroken_locals (marshallable : node.Marshallable)
    (names : options.NamesUnbroken node) (name : VarName) :
    ∀ entry ∈ node.locals options name, Unbroken entry.type.toList := by
  induction marshallable using Marshallable.byKind generalizing name with
  | basic code known => exact List.forall_mem_nil _
  | array element inside _ => exact List.forall_mem_singleton.2 unbroken_iterType
  | group node marshallable isGroup ih =>
      rw [locals_of_isGroup options isGroup]
      refine List.forall_mem_cons.2 ⟨unbroken_iterType, unbroken_localsAll name 0 ?_ ?_⟩
      · exact fun member listed origin =>
          (marshallable.child listed).unbroken_inputs (names.child listed) origin
      · exact fun member listed origin => ih member listed (names.child listed) origin

theorem Marshallable.derived_declared (marshallable : node.Marshallable) (name : VarName) :
    ∀ entry ∈ node.locals options name ++ node.inputs options name, entry.name.Derived name := by
  intro entry listed
  have introduced : entry.name ∈ (node.introduced options "" name name).map TypedVar.name :=
    List.mem_map_of_mem (mem_introduced_of_declared listed)
  obtain ⟨path, isPath, same⟩ :=
    List.mem_map.1 ((marshallable.mem_introduced_iff options "" name name entry.name).1 introduced)
  exact ⟨path, marshallable.regular_derivedPaths path isPath, same.symm⟩

theorem Marshallable.unbroken_declared (marshallable : node.Marshallable)
    (names : options.NamesUnbroken node) {name : VarName} (unbroken : Unbroken name.text.toList) :
    ∀ entry ∈ node.locals options name ++ node.inputs options name, entry.Unbroken := by
  intro entry listed
  refine ⟨?_, (marshallable.derived_declared name entry listed).unbroken unbroken⟩
  rcases List.mem_append.1 listed with isLocal | isInput
  · exact marshallable.unbroken_locals names name entry isLocal
  · exact marshallable.unbroken_inputs names name entry isInput

/-! ### Lines of generated code -/

theorem Marshallable.unbroken_signature (marshallable : node.Marshallable) :
    Unbroken node.signature.toList := by
  intro c listed
  cases ends : Text.isBoundary c with
  | false => rfl
  | true =>
      have same : Options.mangleChar c = c := by
        unfold Options.mangleChar
        split <;> first | exact absurd ends (by decide) | rfl
      have part := marshallable.isWordPart_signature c listed
      rw [same] at part
      rw [← ends]
      exact Text.unbroken_of_isWordPart (List.forall_mem_singleton.2 part) c List.mem_cons_self

theorem Marshallable.unbroken_constant (marshallable : node.Marshallable) :
    Unbroken node.constant.toList := by
  have table : ∀ code ∈ basicCodes, Unbroken (Node.basic code).constant.toList := by decide +kernel
  cases marshallable with
  | basic known => exact table _ known
  | array inside => exact (by decide : Unbroken "DBUS_TYPE_ARRAY".toList)
  | struct inside => exact (by decide : Unbroken "DBUS_TYPE_STRUCT".toList)
  | entry known inside => exact (by decide : Unbroken "DBUS_TYPE_DICT_ENTRY".toList)

end Node

end

/-- What the line that begins a statement is put together from, the fixed words apart. -/
def Statement.parts : Statement → List String
  | comment text => [text]
  | append iter typeConst value _ => [iter.text, typeConst, value.text]
  | openContainer iter typeConst signature inner _ =>
    [iter.text, typeConst, inner.text] ++ signature.toList
  | closeContainer iter inner _ => [iter.text, inner.text]
  | declare type name => [type, name.text]
  | assign target array index => [target.text, array.text, index.text]
  | readField target source field => [target.text, source.text, field]
  | loop index array length _ => [index.text, array.text] ++ (length.map VarName.text).toList
  | _ => []

/-- The line that begins the statement is put together from unbroken parts. -/
def Statement.Even (statement : Statement) : Prop :=
  ∀ part ∈ statement.parts, Unbroken part.toList

/-- What a loop tests in front of every round. -/
def Statement.loopCondition (index array : VarName) : Option VarName → String
  | some length => index.text ++ " < " ++ length.text
  | none => array.text ++ "[" ++ index.text ++ "]"

theorem Statement.loopHead_eq (index array : VarName) (length : Option VarName) :
    loopHead index array length =
      "for (size_t " ++ index.text ++ " = 0; " ++ loopCondition index array length ++ "; " ++
        index.text ++ "++) \x7b" := by
  cases length <;> rfl

theorem Statement.Even.head {statement : Statement} (even : statement.Even) :
    Unbroken statement.head.toList := by
  unfold Even at even
  cases statement with
  | comment | append | closeContainer | assign | readField =>
      simp only [parts, List.forall_mem_cons] at even
      simp only [Statement.head, callHead, String.toList_append, Text.unbroken_append_iff, even,
        and_true, true_and]
      decide
  | declare type name =>
      simp only [parts, List.forall_mem_cons] at even
      have declared := CType.unbroken_declaration even.1 even.2.1
      simp only [Statement.head, String.toList_append, Text.unbroken_append_iff, declared,
        true_and]
      decide
  | openContainer iter typeConst signature inner recovery =>
      cases signature with
      | none | some =>
          simp only [parts, Option.toList, List.forall_mem_append, List.forall_mem_cons] at even
          simp only [Statement.head, callHead, signatureArgument, String.toList_append,
            Text.unbroken_append_iff, even, and_true]
          decide
  | loop index array length body =>
      cases length with
      | none | some =>
          simp only [parts, Option.map, Option.toList, List.forall_mem_append,
            List.forall_mem_cons] at even
          simp only [Statement.head, loopHead_eq, loopCondition, String.toList_append,
            Text.unbroken_append_iff, even, and_true, true_and]
          decide
  | _ => exact List.forall_mem_nil _

def Fragment.Even (fragment : Fragment) : Prop :=
  ∀ statement ∈ Fragment.walk fragment, statement.Even

theorem Statement.even_of_nil {statement : Statement} (none : statement.parts = []) :
    statement.Even := by
  rw [Even, none]
  exact List.forall_mem_nil _

namespace Node

variable {options : Options} {node : Node} {iter name : VarName}

theorem even_declarations {entries : List TypedVar}
    (unbroken : ∀ entry ∈ entries, entry.Unbroken) : Fragment.Even (declarations entries) := by
  refine Fragment.forall_walk_map _ _ (fun _ => rfl) ?_
  intro entry listed
  have whole := unbroken entry listed
  exact List.forall_mem_cons.2 ⟨whole.type, List.forall_mem_singleton.2 whole.name⟩

theorem even_copies (element : Node) (unbroken : Unbroken name.text.toList) :
    Fragment.Even (element.copies options name) := by
  rw [copies_eq]
  refine Fragment.forall_walk_map _ _ (fun _ => rfl) ?_
  intro path isPath
  have regular := regular_of_mem_paths isPath
  have target : ((name.child .element).append path).Derived name :=
    ⟨.element :: path, regular.cons .element, VarName.child_append name .element path⟩
  have source : (name.append path).Derived name := ⟨path, regular, rfl⟩
  exact List.forall_mem_cons.2 ⟨target.unbroken unbroken, List.forall_mem_cons.2
    ⟨source.unbroken unbroken, List.forall_mem_singleton.2
      (VarName.unbroken_child .index unbroken)⟩⟩

theorem even_reads (member : Node) (position : Nat) (unbroken : Unbroken name.text.toList) :
    Fragment.Even (member.reads options name position) := by
  rw [reads_eq]
  refine Fragment.forall_walk_map _ _ (fun _ => rfl) ?_
  intro path isPath
  have regular := (regular_of_mem_paths isPath).cons (.item position)
  have target : ((name.child (.item position)).append path).Derived name :=
    ⟨.item position :: path, regular, VarName.child_append name (.item position) path⟩
  exact List.forall_mem_cons.2 ⟨target.unbroken unbroken, List.forall_mem_cons.2
    ⟨unbroken, List.forall_mem_singleton.2 (unbroken_fieldText regular)⟩⟩

/-- The code for a variable is put together from unbroken parts. -/
theorem Marshallable.even_code (marshallable : node.Marshallable)
    (names : options.NamesUnbroken node) (recovery : String)
    (iterUnbroken : Unbroken iter.text.toList) (nameUnbroken : Unbroken name.text.toList) :
    Fragment.Even (node.code options recovery iter name) := by
  have blank : Statement.blank.Even := Statement.even_of_nil rfl
  have recovers : (Statement.recovery recovery).Even := Statement.even_of_nil rfl
  induction marshallable using Marshallable.byKind generalizing iter name with
  | basic code known =>
      have own := Marshallable.basic known
      have type := CType.unbroken_toConst (own.unbroken_cType names)
      intro statement listed
      simp only [Node.code, Fragment.walk, Statement.walk, List.append_nil, List.cons_append,
        List.nil_append, List.mem_cons, List.not_mem_nil, or_false] at listed
      rcases listed with same | same | same <;> rw [same]
      · refine List.forall_mem_singleton.2 ?_
        simp only [String.toList_append, Text.unbroken_append_iff, type, and_true]
        decide
      · exact List.forall_mem_cons.2 ⟨iterUnbroken, List.forall_mem_cons.2
          ⟨own.unbroken_constant, List.forall_mem_singleton.2 nameUnbroken⟩⟩
      · exact recovers
  | array element inside ih =>
      have part {segment : Segment} (regular : segment.Regular) :
          Unbroken (name.child segment).text.toList := VarName.unbroken_child regular nameUnbroken
      have elementNames := names.child
        (List.mem_cons_self : element ∈ (Node.array element).children)
      refine Fragment.forall_walk_arrayCode ?_ blank recovers ?_ ?_ ?_ ?_ ?_ ?_
      · exact List.forall_mem_singleton.2 (by decide)
      · exact List.forall_mem_append.2 ⟨List.forall_mem_cons.2 ⟨iterUnbroken,
          List.forall_mem_cons.2 ⟨by decide, List.forall_mem_singleton.2 (part .iter)⟩⟩,
          List.forall_mem_singleton.2 inside.unbroken_signature⟩
      · exact List.forall_mem_cons.2 ⟨iterUnbroken, List.forall_mem_singleton.2 (part .iter)⟩
      · refine List.forall_mem_append.2 ⟨List.forall_mem_cons.2 ⟨part .index,
          List.forall_mem_singleton.2 nameUnbroken⟩, ?_⟩
        cases element.isFixed with
        | true => exact List.forall_mem_singleton.2 (part .len)
        | false => exact List.forall_mem_nil _
      · exact even_declarations (inside.unbroken_declared elementNames (part .element))
      · exact even_copies element nameUnbroken
      · exact ih elementNames (part .iter) (part .element)
  | group node marshallable isGroup ih =>
      have part {segment : Segment} (regular : segment.Regular) :
          Unbroken (name.child segment).text.toList := VarName.unbroken_child regular nameUnbroken
      rw [code_of_isGroup options recovery isGroup, groupCode]
      refine Fragment.forall_walk_container ?_ ?_ blank ?_ recovers
        (Fragment.forall_walk_codeAll 0 blank ?_ ?_)
      · exact List.forall_mem_singleton.2 (by decide)
      · exact List.forall_mem_append.2 ⟨List.forall_mem_cons.2 ⟨iterUnbroken,
          List.forall_mem_cons.2 ⟨marshallable.unbroken_constant,
            List.forall_mem_singleton.2 (part .iter)⟩⟩, List.forall_mem_nil _⟩
      · exact List.forall_mem_cons.2 ⟨iterUnbroken, List.forall_mem_singleton.2 (part .iter)⟩
      · exact fun index member _ => even_reads member _ nameUnbroken
      · intro index member found
        have listed := List.mem_of_getElem? found
        exact ih member listed (names.child listed) (part .iter) (part (.item _))

end Node

end DBusMarshal
