import Mathlib.Data.List.Nodup
import DBusMarshal.Proofs.Mangling
import DBusMarshal.Proofs.Outcomes
import DBusMarshal.Proofs.Typing

/-!
The fields of C structs.

Code reads fields out of the variables that stand for structs and dict entries, and out of no
others. Of each of them it reads the inputs of the members, once and in order. Where the names of C
structs are spelt after signatures, a name tells the type, and a field of it tells the member and
the input. So the same field of the same C struct has one type in all generated code.
-/

set_option autoImplicit false

namespace DBusMarshal

/-! ### What is read out of a variable -/

/-- The field that a statement reads out of a variable. -/
def Statement.fieldFrom (source : VarName) : Statement → Option String
  | readField _ other field => if other = source then some field else none
  | _ => none

/-- The fields that a fragment reads out of a variable, at every depth and in the order of the
text. -/
def Fragment.fieldsFrom (source : VarName) (fragment : Fragment) : List String :=
  (Fragment.walk fragment).filterMap (Statement.fieldFrom source)

namespace Fragment

variable {source : VarName}

theorem mem_fieldsFrom_iff {fragment : Fragment} {field : String} :
    field ∈ fieldsFrom source fragment ↔
      ∃ target, .readField target source field ∈ walk fragment := by
  rw [fieldsFrom, List.mem_filterMap]
  constructor
  · rintro ⟨statement, listed, same⟩
    cases statement with
    | readField target other written =>
        by_cases isSource : other = source
        · rw [Statement.fieldFrom, if_pos isSource] at same
          cases same
          exact ⟨target, isSource ▸ listed⟩
        · rw [Statement.fieldFrom, if_neg isSource] at same
          cases same
    | _ => cases same
  · rintro ⟨target, listed⟩
    exact ⟨_, listed, if_pos rfl⟩

theorem fieldsFrom_append (first second : Fragment) :
    fieldsFrom source (first ++ second) = fieldsFrom source first ++ fieldsFrom source second := by
  rw [fieldsFrom, walk_append, List.filterMap_append]
  rfl

theorem fieldsFrom_map {α : Type} (items : List α) (statement : α → Statement)
    (flat : ∀ item, (statement item).walk = [statement item])
    (silent : ∀ item ∈ items, (statement item).fieldFrom source = none) :
    fieldsFrom source (items.map statement) = [] := by
  rw [fieldsFrom, List.filterMap_eq_nil_iff]
  exact forall_walk_map items statement flat silent

end Fragment

namespace Node

/-- The fields of the members of a C struct, numbered from `position` on: for every member the
inputs, each by its path from the struct. -/
def memberFields (options : Options) (members : List Node) (position : Nat) : List String :=
  (members.zipIdx position).flatMap fun (member, number) =>
    (member.ports options).map fun port => "item" ++ toString number ++ pathText port.path

/-- The fields of the C struct of a struct or dict entry. -/
def fieldNames (options : Options) (node : Node) : List String :=
  memberFields options node.children 0

theorem fieldText_item (position : Nat) (path : List Segment) :
    fieldText (.item position :: path) = "item" ++ toString position ++ pathText path := by
  have number : toString position = Nat.repr position := rfl
  apply String.toList_inj.1
  rw [fieldText, pathText, String.toList_ofList, String.toList_append, Segment.text_item, number,
    String.toList_append, String.toList_append, Nat.toList_repr]
  rfl

theorem memberFields_cons (options : Options) (member : Node) (rest : List Node) (position : Nat) :
    memberFields options (member :: rest) position =
      (member.paths.map fun path => fieldText (.item position :: path)) ++
        memberFields options rest (position + 1) := by
  rw [memberFields, List.zipIdx_cons, List.flatMap_cons, ← map_path_ports options, List.map_map]
  simp only [Function.comp_def, fieldText_item]
  rfl

/-! ### The fields of the code of a type -/

section

variable (options : Options) (recovery : String) {source iter name : VarName}

theorem fieldsFrom_reads_self (member : Node) (name : VarName) (position : Nat) :
    Fragment.fieldsFrom name (member.reads options name position) =
      member.paths.map fun path => fieldText (.item position :: path) := by
  rw [reads_eq]
  induction member.paths with
  | nil => rfl
  | cons path rest ih =>
      rw [List.map_cons, List.map_cons, ← ih]
      simp [Fragment.fieldsFrom, Fragment.walk, Statement.walk, Statement.fieldFrom]

theorem fieldsFrom_reads_other (member : Node) (position : Nat) (different : name ≠ source) :
    Fragment.fieldsFrom source (member.reads options name position) = [] :=
  Fragment.fieldsFrom_map _ _ (fun _ => rfl) (fun _ _ => if_neg different)

theorem fieldsFrom_memberCode (member : Node) (position : Nat) (code : Fragment) :
    Fragment.fieldsFrom source (memberCode options member name position code) =
      Fragment.fieldsFrom source (member.reads options name position) ++
        Fragment.fieldsFrom source code := by
  have blank : Fragment.fieldsFrom source [.blank] = [] := rfl
  rw [memberCode, Fragment.fieldsFrom_append, Fragment.fieldsFrom_append,
    Fragment.fieldsFrom_append, blank, List.append_nil, List.append_nil]

theorem fieldsFrom_groupCode (node : Node) (code : Fragment) :
    Fragment.fieldsFrom source (groupCode node recovery iter name code) =
      Fragment.fieldsFrom source code := by
  rw [groupCode, Fragment.fieldsFrom_append, Fragment.fieldsFrom_append]
  simp [Fragment.fieldsFrom, Fragment.walk, Statement.walk, Statement.fieldFrom,
    List.filterMap_cons]

theorem fieldsFrom_arrayCode (element : Node) (code : Fragment) :
    Fragment.fieldsFrom source (arrayCode options element recovery iter name code) =
      Fragment.fieldsFrom source code := by
  have blank : Fragment.fieldsFrom source [.blank] = [] := rfl
  have body : Fragment.fieldsFrom source (loopBody options element name code) =
      Fragment.fieldsFrom source code := by
    rw [loopBody, Fragment.fieldsFrom_append, Fragment.fieldsFrom_append,
      Fragment.fieldsFrom_append, Fragment.fieldsFrom_append, declarations,
      Fragment.fieldsFrom_map _ _ (fun _ => rfl) (fun _ _ => rfl), copies,
      Fragment.fieldsFrom_map _ _ (fun _ => rfl) (fun _ _ => rfl), blank]
    rfl
  rw [← body]
  simp [arrayCode, Fragment.fieldsFrom, Fragment.walk, Statement.walk, Statement.fieldFrom,
    List.filterMap_cons]

theorem fieldsFrom_codeAll_of_not_below {members : List Node} {inner : VarName}
    (ih : ∀ member ∈ members, ∀ iter origin : VarName, ¬ source.Below origin →
      Fragment.fieldsFrom source (member.code options recovery iter origin) = [])
    (different : name ≠ source) (position : Nat)
    (outside : ∀ other, position ≤ other → ¬ source.Below (name.child (.item other))) :
    Fragment.fieldsFrom source (codeAll options recovery members inner name position) = [] := by
  induction members generalizing position with
  | nil => rfl
  | cons member rest ihRest =>
      have later := ihRest (fun other listed => ih other (List.mem_cons_of_mem _ listed))
        (position + 1) (fun other above => outside other (by omega))
      rw [codeAll, Fragment.fieldsFrom_append, fieldsFrom_memberCode,
        fieldsFrom_reads_other options member position different,
        ih member List.mem_cons_self inner _ (outside position (Nat.le_refl position)), later]
      rfl

/-- Nothing is read out of a variable that does not lie below the name. -/
theorem Marshallable.fieldsFrom_of_not_below {node : Node} (marshallable : node.Marshallable)
    (outside : ¬ source.Below name) :
    Fragment.fieldsFrom source (node.code options recovery iter name) = [] := by
  induction marshallable using Marshallable.byKind generalizing iter name with
  | basic code known => rfl
  | array element inside ih =>
      rw [code, fieldsFrom_arrayCode]
      exact ih (fun below => outside below.of_child)
  | group node marshallable isGroup ih =>
      rw [code_of_isGroup options recovery isGroup, fieldsFrom_groupCode]
      apply fieldsFrom_codeAll_of_not_below options recovery
        (fun member listed _ _ outside => ih member listed outside)
      · rintro rfl
        exact outside (VarName.below_self _)
      · intro position _ below
        exact outside below.of_child

theorem fieldsFrom_codeAll_self {members : List Node}
    (inside : ∀ member ∈ members, member.Marshallable) (inner name : VarName) (position : Nat) :
    Fragment.fieldsFrom name (codeAll options recovery members inner name position) =
      memberFields options members position := by
  induction members generalizing position with
  | nil => rfl
  | cons member rest ih =>
      have later := ih (fun other listed => inside other (List.mem_cons_of_mem _ listed))
        (position + 1)
      rw [codeAll, Fragment.fieldsFrom_append, fieldsFrom_memberCode, fieldsFrom_reads_self,
        (inside member List.mem_cons_self).fieldsFrom_of_not_below options recovery
          (VarName.not_below_child name _), later, List.append_nil, memberFields_cons]

/-- What is read out of a variable below a member is read in the code of this member. -/
theorem fieldsFrom_codeAll_member {members : List Node} {member : Node}
    (inside : ∀ other ∈ members, other.Marshallable) (inner : VarName) {distance : Nat}
    (position : Nat) (found : members[distance]? = some member)
    (below : source.Below (name.child (.item (position + distance)))) :
    Fragment.fieldsFrom source (codeAll options recovery members inner name position) =
      Fragment.fieldsFrom source
        (member.code options recovery inner (name.child (.item (position + distance)))) := by
  have different : name ≠ source := below.ne_of_child.symm
  -- The code of every other member reads below the name of that member only.
  have elsewhere : ∀ other, other ≠ position + distance →
      ¬ source.Below (name.child (.item other)) := by
    intro other isOther belowOther
    exact isOther (Segment.item_inj (belowOther.segment_eq below))
  induction members generalizing position distance with
  | nil => cases found
  | cons first rest ih =>
      have insideRest : ∀ other ∈ rest, other.Marshallable :=
        fun other listed => inside other (List.mem_cons_of_mem _ listed)
      rw [codeAll, Fragment.fieldsFrom_append, fieldsFrom_memberCode,
        fieldsFrom_reads_other options first position different, List.nil_append]
      cases distance with
      | zero =>
          have later : Fragment.fieldsFrom source
              (codeAll options recovery rest inner name (position + 1)) = [] := by
            apply fieldsFrom_codeAll_of_not_below options recovery
              (fun other listed _ _ outside =>
                (insideRest other listed).fieldsFrom_of_not_below options recovery outside)
              different
            intro other above
            exact elsewhere other (by omega)
          cases found
          rw [later, List.append_nil, Nat.add_zero]
      | succ distance =>
          have own : Fragment.fieldsFrom source
              (first.code options recovery inner (name.child (.item position))) = [] :=
            (inside first List.mem_cons_self).fieldsFrom_of_not_below options recovery
              (elsewhere position (by omega))
          have same : position + 1 + distance = position + (distance + 1) := by omega
          rw [own, List.nil_append]
          rw [← same] at below elsewhere ⊢
          exact ih insideRest (position + 1) found below elsewhere

/-- What is read below a variable inside a value is read in the code for this variable. -/
theorem Stands.fieldsFrom_below {root node : Node} {origin : VarName}
    (stands : Stands root origin node name) (marshallable : root.Marshallable) (iter : VarName) :
    ∃ inner, ∀ source : VarName, source.Below name →
      Fragment.fieldsFrom source (root.code options recovery iter origin) =
        Fragment.fieldsFrom source (node.code options recovery inner name) := by
  induction stands with
  | whole => exact ⟨iter, fun _ _ => rfl⟩
  | @element element name stands ih =>
      obtain ⟨inner, outside⟩ := ih
      refine ⟨name.child .iter, ?_⟩
      intro source below
      rw [outside source below.of_child, code, fieldsFrom_arrayCode]
  | @member node member name position stands group found ih =>
      obtain ⟨inner, outside⟩ := ih
      refine ⟨name.child .iter, ?_⟩
      intro source below
      have inside : ∀ other ∈ node.children, other.Marshallable :=
        fun other listed => (stands.marshallable marshallable).child listed
      rw [← Nat.zero_add position] at below ⊢
      rw [outside source below.of_child, code_of_isGroup options recovery group,
        fieldsFrom_groupCode,
        fieldsFrom_codeAll_member options recovery inside _ 0 found below]

/-- The fields that are read out of the variable of a struct or dict entry are those of its C
struct. -/
theorem Stands.fieldsFrom_self {root node : Node} {origin : VarName}
    (stands : Stands root origin node name) (marshallable : root.Marshallable)
    (group : node.isGroup = true) (iter : VarName) :
    Fragment.fieldsFrom name (root.code options recovery iter origin) =
      node.fieldNames options := by
  obtain ⟨inner, outside⟩ := stands.fieldsFrom_below options recovery marshallable iter
  rw [outside name (VarName.below_self name), code_of_isGroup options recovery group,
    fieldsFrom_groupCode, fieldsFrom_codeAll_self options recovery
      (fun _ listed => (stands.marshallable marshallable).child listed)]
  rfl

end

/-! ### The fields of one C struct differ -/

theorem nodup_paths (node : Node) : node.paths.Nodup := by
  unfold paths
  split <;> decide

theorem mem_memberFields {options : Options} {members : List Node} {position : Nat}
    {field : String} (listed : field ∈ memberFields options members position) :
    ∃ number path, position ≤ number ∧ field = fieldText (.item number :: path) := by
  induction members generalizing position with
  | nil => cases listed
  | cons member rest ih =>
      rw [memberFields_cons, List.mem_append] at listed
      rcases listed with first | later
      · obtain ⟨path, _, same⟩ := List.mem_map.1 first
        exact ⟨position, path, Nat.le_refl position, same.symm⟩
      · obtain ⟨number, path, above, same⟩ := ih later
        exact ⟨number, path, by omega, same⟩

theorem nodup_memberFields (options : Options) (members : List Node) (position : Nat) :
    (memberFields options members position).Nodup := by
  induction members generalizing position with
  | nil => exact List.nodup_nil
  | cons member rest ih =>
      rw [memberFields_cons]
      apply List.nodup_append.2
      refine ⟨?_, ih (position + 1), ?_⟩
      · apply List.pairwise_map.2
        apply (nodup_paths member).imp_of_mem
        intro left right isLeft isRight different same
        exact different (pathText_inj (regular_of_mem_paths isLeft)
          (regular_of_mem_paths isRight) (fieldText_item_inj same).2)
      · intro field isFirst other isLater same
        obtain ⟨path, _, fieldIs⟩ := List.mem_map.1 isFirst
        obtain ⟨number, later, above, otherIs⟩ := mem_memberFields isLater
        rw [← fieldIs, otherIs] at same
        have positions := (fieldText_item_inj same).1
        omega

/-! ### The types of fields -/

/-- The C struct of a type has a field of a type: the input of a member that the field tells. -/
def HasField (options : Options) (node : Node) (field type : String) : Prop :=
  ∃ (position : Nat) (member : Node) (port : Port),
    node.children[position]? = some member ∧ port ∈ member.ports options ∧
      field = fieldText (.item position :: port.path) ∧ type = port.type

section

variable {first second : Options} (sameStem : first.structStem = second.structStem)
  (sameNames : first.structNames = second.structNames)
include sameStem sameNames

theorem structName_congr (node : Node) : first.structName node = second.structName node := by
  unfold Options.structName Options.chosenName
  rw [sameStem, sameNames]

theorem typeOf_congr : (node : Node) → first.typeOf node = second.typeOf node
  | basic _ => rfl
  | array element => by
      rw [Options.typeOf, Options.typeOf, typeOf_congr element]
  | struct members => by
      rw [typeOf_of_isGroup first rfl, typeOf_of_isGroup second rfl,
        structName_congr sameStem sameNames]
  | entry key value => by
      rw [typeOf_of_isGroup first rfl, typeOf_of_isGroup second rfl,
        structName_congr sameStem sameNames]
  | variant => rfl
  | stray _ => rfl

theorem ports_congr : (node : Node) → node.ports first = node.ports second
  | array element => by
      rw [ports, ports, ports_congr element]
  | basic _ | struct _ | entry _ _ | variant | stray _ => by
      simp only [ports, cType, typeOf_congr sameStem sameNames]

/-- A field of a C struct has one type. -/
theorem HasField.type_eq {node : Node} {field type other : String}
    (has : node.HasField first field type) (otherHas : node.HasField second field other) :
    type = other := by
  obtain ⟨position, member, port, found, listed, fieldIs, typeIs⟩ := has
  obtain ⟨otherPosition, otherMember, otherPort, otherFound, otherListed, otherIs, otherTypeIs⟩ :=
    otherHas
  rw [fieldIs] at otherIs
  obtain ⟨samePosition, sameText⟩ := fieldText_item_inj otherIs
  rw [← samePosition, found] at otherFound
  cases otherFound
  rw [← ports_congr sameStem sameNames] at otherListed
  have distinct : ((member.ports first).map Port.path).Nodup := by
    rw [map_path_ports]
    exact nodup_paths member
  have isPath : ∀ {port : Port}, port ∈ member.ports first → port.path ∈ member.paths := by
    intro port listed
    rw [← map_path_ports first]
    exact List.mem_map_of_mem listed
  have samePort : port = otherPort :=
    List.inj_on_of_nodup_map distinct listed otherListed
      (pathText_inj (regular_of_mem_paths (isPath listed))
        (regular_of_mem_paths (isPath otherListed)) sameText)
  rw [typeIs, otherTypeIs, samePort]

end

end Node

/-! ### Generated code -/

/-- A fragment that was generated for a signature, where the caller chose the stem of the names of
C structs and none of the names. -/
structure Generation (stem : String) where
  text : String
  node : Node
  indentStep : String
  iter : GivenName
  name : GivenName
  iterName : VarName
  origin : VarName
  recovery : String
  generated : Generated
  read : Node.read text = .ok node
  iterGiven : iter.resolve = some iterName
  nameGiven : name.resolve = some origin
  ended : generate { structStem := stem, indentStep := indentStep } (.signature text) iter name
    (some recovery) = .ok generated

namespace Generation

variable {stem : String} (generation : Generation stem)

def options : Options := { structStem := stem, indentStep := generation.indentStep }

/-- The code for a text that a type was read from. -/
def ofText (stem : String) {text : String} {node : Node} (read : Node.read text = .ok node)
    (plain : node.hasVariant = false) {base : String} (named : base ≠ "") : Generation stem where
  text
  node
  indentStep := "\t"
  iter := .text "iter"
  name := .text base
  iterName := { base := "iter" }
  origin := { base }
  recovery := "return FALSE;"
  generated :=
    { signature := node.signature
      fragment := node.code { structStem := stem } "return FALSE;" { base := "iter" } { base }
      inputs := node.inputs { structStem := stem } { base }
      locals := node.locals { structStem := stem } { base }
      options := { structStem := stem } }
  read
  iterGiven := rfl
  nameGiven := GivenName.resolve_text named
  ended := (generate_of_read read).trans ((Node.marshallable_of_read read plain).generate _ _ rfl
    (GivenName.resolve_text named))

theorem ended_tree : generate generation.options (.tree generation.node) generation.iter
    generation.name (some generation.recovery) = .ok generation.generated :=
  (generate_of_read generation.read).symm.trans generation.ended

theorem marshallable : generation.node.Marshallable := by
  have complete := Node.complete_of_read generation.read
  apply complete.marshallable
  cases variant : generation.node.hasVariant with
  | false => rfl
  | true =>
      have ended := generation.ended_tree
      rw [generate_of_variant complete variant] at ended
      cases ended

theorem generated_eq : generation.generated =
    { signature := generation.node.signature
      fragment := generation.node.code generation.options generation.recovery
        generation.iterName generation.origin
      inputs := generation.node.inputs generation.options generation.origin
      locals := generation.node.locals generation.options generation.origin
      options := generation.options } := by
  have ended := generation.ended_tree
  rw [generation.marshallable.generate generation.options generation.recovery
    generation.iterGiven generation.nameGiven] at ended
  exact (Except.ok.inj ended).symm

theorem variables_eq : generation.generated.variables =
    generation.node.introduced generation.options generation.recovery generation.iterName
      generation.origin := by
  rw [generation.generated_eq]
  rfl

def typing : Typing where
  options := generation.options
  root := generation.node
  origin := generation.origin
  iter := generation.iterName
  typeOf := generation.generated.declaredType

theorem wellTyped : Fragment.WellTyped generation.typing generation.generated.fragment := by
  have own := generation.marshallable.owns_introduced generation.options generation.recovery
    generation.iterName generation.origin
  have distinct : (generation.generated.variables.map TypedVar.name).Nodup := by
    rw [generation.variables_eq]
    exact own.distinct
  have agrees : Node.Agrees generation.typing
      (generation.node.introduced generation.options generation.recovery generation.iterName
        generation.origin) := by
    intro entry listed
    rw [← generation.variables_eq] at listed
    exact Generated.declaredType_of_mem distinct listed
  have fragment : generation.generated.fragment =
      generation.node.code generation.options generation.recovery generation.iterName
        generation.origin := by
    rw [generation.generated_eq]
  rw [fragment]
  exact generation.marshallable.wellTyped_code_of_qualifies (Options.qualifies_of_unnamed rfl)
    generation.recovery .whole (Or.inl rfl) agrees

/-- Every field that is read is a field of the C struct that the source points to, and its target
has the type of the field. -/
theorem field_of_read {target source : VarName} {field : String}
    (read : .readField target source field ∈ Fragment.walk generation.generated.fragment) :
    ∃ (node : Node) (name type : String), node.Marshallable ∧ node.isGroup = true ∧
      generation.options.structName node = .ok name ∧
      generation.generated.declaredType source = some ("const struct " ++ name ++ " *") ∧
      node.HasField generation.options field type ∧
      generation.generated.declaredType target = some type := by
  obtain ⟨node, name, stands, group, named, sourceType, isField, position, member, type, found,
    listed, targetType⟩ := generation.wellTyped _ read
  obtain ⟨port, isPort, same⟩ := List.mem_map.1 listed
  have targetIs : target = source.append (.item position :: port.path) := by
    rw [← VarName.child_append]
    exact (congrArg TypedVar.name same).symm
  have fieldIs : field = fieldText (.item position :: port.path) := by
    rw [targetIs, VarName.fieldOf_append source (List.cons_ne_nil _ _)] at isField
    exact (Except.ok.inj isField).symm
  exact ⟨node, name, type, stands.marshallable generation.marshallable, group, named, sourceType,
    ⟨position, member, port, found, isPort, fieldIs, (congrArg TypedVar.type same).symm⟩,
    targetType⟩

end Generation

/-- Reads of one field of one C struct have targets of one type, also in code that was generated
apart. Of the variable of a struct or dict entry just the fields of its members are read, each
once and in their order. -/
theorem generated_fields {stem : String} (first second : Generation stem) :
    (∀ target source otherTarget otherSource field,
      .readField target source field ∈ Fragment.walk first.generated.fragment →
      .readField otherTarget otherSource field ∈ Fragment.walk second.generated.fragment →
      first.generated.declaredType source = second.generated.declaredType otherSource →
        ∃ type, first.generated.declaredType target = some type ∧
          second.generated.declaredType otherTarget = some type) ∧
    ∀ node source, Node.Stands first.node first.origin node source → node.isGroup = true →
      Fragment.fieldsFrom source first.generated.fragment = node.fieldNames first.options ∧
        (node.fieldNames first.options).Nodup := by
  constructor
  · intro target source otherTarget otherSource field read otherRead sameType
    obtain ⟨node, name, type, marshallable, group, named, sourceType, has, targetType⟩ :=
      first.field_of_read read
    obtain ⟨other, otherName, otherType, otherMarshallable, otherGroup, otherNamed,
      otherSourceType, otherHas, otherTargetType⟩ := second.field_of_read otherRead
    rw [sourceType, otherSourceType] at sameType
    have chars := congrArg String.toList (Option.some.inj sameType)
    simp only [String.toList_append] at chars
    have sameName : name = otherName :=
      String.toList_inj.1 (List.append_cancel_left (List.append_cancel_right chars))
    rw [← sameName] at otherNamed
    have sameNode : node = other :=
      marshallable.spelt.eq_of_structName otherMarshallable.spelt group otherGroup rfl rfl rfl named
        otherNamed
    rw [← sameNode] at otherHas
    have sameStem : first.options.structStem = second.options.structStem := rfl
    refine ⟨type, targetType, ?_⟩
    rw [otherTargetType, Node.HasField.type_eq sameStem rfl has otherHas]
  · intro node source stands group
    refine ⟨?_, Node.nodup_memberFields _ _ _⟩
    rw [first.generated_eq]
    exact stands.fieldsFrom_self first.options first.recovery first.marshallable group
      first.iterName

def rowType : Node :=
  .struct [.basic "q", .array (.entry (.basic "s") (.array (.basic "d")))]

theorem read_rowType : Node.read "(qa\x7bsad\x7d)" = .ok rowType := rfl

def tableGeneration : Generation "x *" :=
  .ofText "x *" read_tableType rfl (by decide : "table" ≠ "")

def rowGeneration : Generation "x *" :=
  .ofText "x *" read_rowType rfl (by decide : "row" ≠ "")

/-- The dict entries of two fragments have one C struct, though the stem is no identifier. -/
theorem generated_fields_entry :
    ∃ (target other : VarName) (type : String),
      .readField target { base := "table", path := [.element, .item 0, .element] } "item1_len" ∈
          Fragment.walk tableGeneration.generated.fragment ∧
        .readField other { base := "row", path := [.item 1, .element] } "item1_len" ∈
          Fragment.walk rowGeneration.generated.fragment ∧
        tableGeneration.generated.declaredType target = some type ∧
        rowGeneration.generated.declaredType other = some type := by
  let inTable : VarName := { base := "table", path := [.element, .item 0, .element] }
  let inRow : VarName := { base := "row", path := [.item 1, .element] }
  obtain ⟨agree, tableFields⟩ := generated_fields tableGeneration rowGeneration
  obtain ⟨_, rowFields⟩ := generated_fields rowGeneration tableGeneration
  have tableListed :
      "item1_len" ∈ Fragment.fieldsFrom inTable tableGeneration.generated.fragment := by
    rw [(tableFields _ inTable (.element (.member (.element .whole) rfl rfl)) rfl).1]
    decide
  have rowListed : "item1_len" ∈ Fragment.fieldsFrom inRow rowGeneration.generated.fragment := by
    rw [(rowFields _ inRow (.element (.member .whole rfl rfl)) rfl).1]
    decide
  obtain ⟨target, read⟩ := Fragment.mem_fieldsFrom_iff.1 tableListed
  obtain ⟨other, otherRead⟩ := Fragment.mem_fieldsFrom_iff.1 rowListed
  have sameType : tableGeneration.generated.declaredType inTable =
      rowGeneration.generated.declaredType inRow := by
    decide +kernel
  obtain ⟨type, targetType, otherType⟩ := agree _ _ _ _ _ read otherRead sameType
  exact ⟨target, other, type, read, otherRead, targetType, otherType⟩

end DBusMarshal
