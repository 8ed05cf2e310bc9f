import DBusMarshal.Proofs.Reading
import DBusMarshal.Proofs.Typing

/-!
The inputs of arrays in arrays.

Every level of an array puts one more level of pointers, and one more `const`, on the type of every
input. So the inputs of a type are told by its core, which is what is left without the arrays, and
by the number of arrays around it, and the C type of the type has the same levels without `const`.
-/

set_option autoImplicit false

namespace DBusMarshal

namespace CType

/-! ### Levels of pointers -/

/-- A type behind a number of pointers. -/
def pointerTo (base : String) : Nat → String
  | 0 => base
  | depth + 1 => base ++ " " ++ String.ofList (List.replicate (depth + 1) '*')

/-- A type behind a number of pointers, each of them to something const. -/
def constPointerTo (base : String) : Nat → String
  | 0 => base
  | depth + 1 => "const " ++ base ++ " *" ++ String.join (List.replicate depth " const *")

/-- A pointer type that no blanks stand around. -/
structure Starred (type : String) : Prop where
  starts : Text.StartsInked type.toList
  ends : type.toList.getLast? = some '*'

namespace Starred

variable {type : String}

theorem isPointer (starred : Starred type) : isPointer type.toList = true := by
  rw [CType.isPointer, starred.ends]
  rfl

theorem trim_eq (starred : Starred type) : Text.trim type.toList = type.toList :=
  Text.trim_eq_self starred.starts starred.ends (by decide)

theorem toPointer_eq (starred : Starred type) : toPointer type = type ++ "*" := by
  apply String.toList_injective
  rw [toPointer, String.toList_ofList, starred.trim_eq, addStar, starred.isPointer, if_pos rfl,
    String.toList_append]
  rfl

theorem append_star (starred : Starred type) : Starred (type ++ "*") where
  starts := by
    rw [String.toList_append]
    exact starred.starts.append _
  ends := by
    rw [String.toList_append, List.getLast?_append]
    rfl

theorem toConst_toPointer (starred : Starred type) :
    toConst (toPointer type) = type ++ " const *" := by
  have inner : (type.toList ++ ['*']).dropLast = type.toList := List.dropLast_concat
  have whole : Text.trimEnd type.toList = type.toList :=
    Text.trimEnd_eq_self starred.ends (by decide)
  have spelt : (type ++ "*").toList = type.toList ++ ['*'] := String.toList_append
  apply String.toList_injective
  rw [starred.toPointer_eq, toConst, String.toList_ofList, starred.append_star.trim_eq, qualify,
    starred.append_star.isPointer, if_pos rfl, spelt, inner, whole]
  dsimp only
  rw [starred.isPointer, if_pos rfl, String.toList_append, List.append_assoc]
  rfl

end Starred

variable {base : String}

theorem pointerTo_succ (base : String) (depth : Nat) :
    pointerTo base (depth + 2) = pointerTo base (depth + 1) ++ "*" := by
  rw [pointerTo, List.replicate_succ', String.ofList_append, ← String.append_assoc, ← pointerTo]

theorem constPointerTo_succ (base : String) (depth : Nat) :
    constPointerTo base (depth + 2) = constPointerTo base (depth + 1) ++ " const *" := by
  rw [constPointerTo, List.replicate_succ', String.join_append, ← String.append_assoc,
    ← constPointerTo]
  rfl

theorem starred_pointerTo (plain : Plain base) (depth : Nat) :
    Starred (pointerTo base (depth + 1)) where
  starts := by
    rw [pointerTo, String.toList_append, String.toList_append]
    exact (plain.starts.append _).append _
  ends := by
    rw [pointerTo, String.toList_append, String.toList_ofList, List.getLast?_append,
      List.getLast?_replicate]
    rfl

theorem starred_constPointerTo (base : String) (depth : Nat) :
    Starred (constPointerTo base (depth + 1)) where
  starts := by
    refine ⟨'c', ?_, by decide⟩
    simp only [constPointerTo, String.toList_append]
    rfl
  ends := by
    cases depth with
    | zero =>
        simp only [constPointerTo, String.toList_append, List.getLast?_append]
        rfl
    | succ depth =>
        rw [constPointerTo_succ, String.toList_append, List.getLast?_append]
        rfl

/-- One more level of pointers. -/
theorem toPointer_pointerTo (plain : Plain base) (depth : Nat) :
    toPointer (pointerTo base depth) = pointerTo base (depth + 1) := by
  cases depth with
  | zero =>
      rw [pointerTo, plain.toPointer_eq, pointerTo, String.append_assoc]
      rfl
  | succ depth => rw [(starred_pointerTo plain depth).toPointer_eq, pointerTo_succ]

/-- One more level of pointers, to what is made const. -/
theorem toConst_toPointer_constPointerTo (plain : Plain base) (depth : Nat) :
    toConst (toPointer (constPointerTo base depth)) = constPointerTo base (depth + 1) := by
  cases depth with
  | zero =>
      rw [constPointerTo, plain.toConst_toPointer]
      exact (String.append_empty).symm
  | succ depth =>
      rw [(starred_constPointerTo base depth).toConst_toPointer, constPointerTo_succ]

theorem toConst_pointerTo (plain : Plain base) {depth : Nat} (single : depth ≤ 1) :
    toConst (pointerTo base depth) = constPointerTo base depth := by
  cases depth with
  | zero => exact plain.toConst_eq
  | succ depth =>
      obtain rfl : depth = 0 := by omega
      rw [← toPointer_pointerTo plain 0]
      exact toConst_toPointer_constPointerTo plain 0

end CType

/-! ### Arrays around a type -/

namespace Node

/-- A type inside a number of arrays. -/
def inArrays (core : Node) : Nat → Node
  | 0 => core
  | levels + 1 => array (core.inArrays levels)

/-- Every type is one that is no array, inside a number of arrays. -/
theorem exists_inArrays (node : Node) :
    ∃ (core : Node) (levels : Nat), core.isArray = false ∧ node = core.inArrays levels := by
  cases node with
  | array element =>
      obtain ⟨core, levels, flat, same⟩ := exists_inArrays element
      exact ⟨core, levels + 1, flat, congrArg array same⟩
  | _ => exact ⟨_, 0, rfl, rfl⟩

theorem marshallable_of_inArrays {core : Node} {levels : Nat}
    (marshallable : (core.inArrays levels).Marshallable) : core.Marshallable := by
  induction levels with
  | zero => exact marshallable
  | succ levels ih => exact ih (marshallable.child (List.mem_singleton_self _))

/-- The levels of pointers in the C type of a type that is no array: texts, structs and dict entries
are pointers from the start. -/
def ownDepth : Node → Nat
  | basic code => if textCodes.contains code then 1 else 0
  | struct _ => 1
  | entry _ _ => 1
  | _ => 0

end Node

/-- The C type of a type that is no array, without the star where it is a pointer. -/
def Options.baseOf (options : Options) : Node → Except Fault String
  | .basic code => if Node.textCodes.contains code then .ok "char" else found (basicCType code)
  | node => (options.structName node).map fun name => "struct " ++ name

namespace Node

variable {options : Options} {core : Node} {base : String}

theorem ownDepth_le (node : Node) : node.ownDepth ≤ 1 := by
  cases node with
  | basic code =>
      rw [ownDepth]
      split
      · exact Nat.le_refl 1
      · exact Nat.zero_le 1
  | struct _ => exact Nat.le_refl 1
  | entry _ _ => exact Nat.le_refl 1
  | _ => exact Nat.zero_le 1

/-- The C type of a type that is no array has a base, which can be spelt with pointers to it. -/
structure HasBase (options : Options) (core : Node) (base : String) : Prop where
  found : options.baseOf core = .ok base
  plain : CType.Plain base
  cType : core.cType options = CType.pointerTo base core.ownDepth

theorem HasBase.of_basic (options : Options) {code : String} (known : code ∈ basicCodes) :
    ∃ base, HasBase options (basic code) base := by
  obtain ⟨type, listed⟩ := exists_basicCType known
  have table : ∀ code ∈ basicCodes, ∀ type ∈ basicCType code,
      if textCodes.contains code = true then type = "char *" else CType.isPlain type = true := by
    decide +kernel
  have entry := table code known type listed
  by_cases isText : textCodes.contains code = true
  · rw [if_pos isText] at entry
    refine ⟨"char", ?_, CType.plain_of_isPlain (by decide +kernel), ?_⟩
    · rw [Options.baseOf, if_pos isText]
    · rw [cType_basic options listed, ownDepth, if_pos isText, entry]
      rfl
  · rw [if_neg isText] at entry
    refine ⟨type, ?_, CType.plain_of_isPlain entry, ?_⟩
    · rw [Options.baseOf, if_neg isText, listed]
      rfl
    · rw [cType_basic options listed, ownDepth, if_neg isText]
      rfl

theorem ownDepth_of_isGroup {node : Node} (group : node.isGroup = true) : node.ownDepth = 1 := by
  cases node with
  | struct _ => rfl
  | entry _ _ => rfl
  | _ => cases group

theorem baseOf_of_isGroup (options : Options) {node : Node} (group : node.isGroup = true) :
    options.baseOf node = (options.structName node).map fun name => "struct " ++ name := by
  cases node with
  | struct _ => rfl
  | entry _ _ => rfl
  | _ => cases group

theorem Marshallable.exists_hasBase {core : Node} (marshallable : core.Marshallable)
    (flat : core.isArray = false) (sound : options.Sound) :
    ∃ base, HasBase options core base := by
  induction marshallable using Marshallable.byKind with
  | basic code known => exact HasBase.of_basic options known
  | array element inside _ => cases flat
  | group node marshallable isGroup _ =>
      obtain ⟨name, named⟩ := marshallable.structName options
      have plain := CType.plain_struct (marshallable.isIdentifier_structName sound named)
      refine ⟨"struct " ++ name, ?_, plain, ?_⟩
      · rw [baseOf_of_isGroup options isGroup, named]
        rfl
      · rw [cType_of_isGroup options isGroup named, ownDepth_of_isGroup isGroup]
        exact CType.toPointer_pointerTo plain 0

theorem HasBase.ports (hasBase : HasBase options core base) (flat : core.isArray = false) :
    core.ports options = [⟨[], CType.constPointerTo base core.ownDepth⟩] := by
  have qualified : CType.toConst (core.cType options) =
      CType.constPointerTo base core.ownDepth := by
    rw [hasBase.cType, CType.toConst_pointerTo hasBase.plain core.ownDepth_le]
  rw [← qualified]
  cases core with
  | array _ => cases flat
  | _ => rfl

/-! ### Promotion -/

theorem plain_sizeType : CType.Plain sizeType := CType.plain_of_isPlain (by decide +kernel)

theorem HasBase.lift_whole (hasBase : HasBase options core base) (levels : Nat) :
    Port.lift ⟨[], CType.constPointerTo base (levels + core.ownDepth)⟩ =
      ⟨[], CType.constPointerTo base (levels + 1 + core.ownDepth)⟩ := by
  rw [Port.lift, CType.toConst_toPointer_constPointerTo hasBase.plain, Nat.add_right_comm]

theorem lift_length (levels : Nat) :
    Port.lift ⟨[.len], CType.constPointerTo sizeType levels⟩ =
      ⟨[.len], CType.constPointerTo sizeType (levels + 1)⟩ := by
  rw [Port.lift, CType.toConst_toPointer_constPointerTo plain_sizeType]

/-- The inputs of a type inside arrays: the value, and the lengths of the innermost arrays where
their elements have one size. -/
theorem HasBase.ports_inArrays (hasBase : HasBase options core base)
    (flat : core.isArray = false) (levels : Nat) :
    (core.inArrays (levels + 1)).ports options =
      ⟨[], CType.constPointerTo base (levels + 1 + core.ownDepth)⟩ ::
        if core.isFixed then [⟨[.len], CType.constPointerTo sizeType levels⟩] else [] := by
  induction levels with
  | zero =>
      have inner := hasBase.ports flat
      rw [← Nat.zero_add core.ownDepth] at inner
      rw [inArrays, Node.ports, inArrays, inner, List.map_singleton, hasBase.lift_whole]
      rfl
  | succ levels ih =>
      -- The elements are arrays, so this level adds no length of its own.
      have noLength : (core.inArrays (levels + 1)).isFixed = false := rfl
      rw [inArrays, Node.ports, ih, noLength, if_neg Bool.false_ne_true, List.append_nil,
        List.map_cons, hasBase.lift_whole]
      cases core.isFixed with
      | false => rfl
      | true => rw [if_pos rfl, if_pos rfl, List.map_singleton, lift_length]

theorem HasBase.inputs_inArrays (hasBase : HasBase options core base)
    (flat : core.isArray = false) (levels : Nat) (name : VarName) :
    (core.inArrays levels).inputs options name =
      ⟨CType.constPointerTo base (levels + core.ownDepth), name⟩ ::
        if 1 ≤ levels ∧ core.isFixed = true then
          [⟨CType.constPointerTo sizeType (levels - 1), name.child .len⟩]
        else [] := by
  cases levels with
  | zero =>
      rw [inputs, inArrays, hasBase.ports flat, List.map_singleton, Port.under,
        VarName.append_nil, Nat.zero_add, if_neg (by omega)]
  | succ levels =>
      rw [inputs, hasBase.ports_inArrays flat levels, List.map_cons, Port.under,
        VarName.append_nil]
      cases core.isFixed with
      | false => rw [if_neg (by decide), if_neg (by simp)]; rfl
      | true => rw [if_pos rfl, if_pos ⟨Nat.succ_pos levels, rfl⟩]; rfl

theorem HasBase.typeOf_inArrays (hasBase : HasBase options core base)
    (marshallable : core.Marshallable) (levels : Nat) :
    options.typeOf (core.inArrays levels) =
      .ok (CType.pointerTo base (levels + core.ownDepth)) := by
  induction levels with
  | zero => rw [inArrays, marshallable.typeOf, hasBase.cType, Nat.zero_add]
  | succ levels ih =>
      rw [inArrays, Options.typeOf, ih, Nat.add_right_comm,
        ← CType.toPointer_pointerTo hasBase.plain]
      rfl

end Node

/-- The code for a type inside arrays asks for its value, and for the lengths of the innermost
arrays where nothing marks their end. -/
theorem generated_inputs {text : String} {core : Node} {levels : Nat}
    (read : Node.read text = .ok (core.inArrays levels))
    (plain : (core.inArrays levels).hasVariant = false) (flat : core.isArray = false)
    {options : Options} (sound : options.Sound) (recovery : String) {iter name : GivenName}
    {iterName varName : VarName} (iterGiven : iter.resolve = some iterName)
    (nameGiven : name.resolve = some varName) :
    ∃ generated base,
      generate options (.tree (core.inArrays levels)) iter name (some recovery) = .ok generated ∧
      options.baseOf core = .ok base ∧
      generated.inputs =
        ⟨CType.constPointerTo base (levels + core.ownDepth), varName⟩ ::
          (if 1 ≤ levels ∧ core.isFixed = true then
            [⟨CType.constPointerTo "size_t" (levels - 1), varName.child .len⟩]
          else []) ∧
      options.typeOf (core.inArrays levels) =
        .ok (CType.pointerTo base (levels + core.ownDepth)) ∧
      (1 ≤ levels → generated.locals = [⟨"DBusMessageIter", varName.child .iter⟩]) := by
  have marshallable := Node.marshallable_of_read read plain
  have inside := Node.marshallable_of_inArrays marshallable
  obtain ⟨base, hasBase⟩ := inside.exists_hasBase flat sound
  refine ⟨_, base, marshallable.generate options recovery iterGiven nameGiven, hasBase.found,
    hasBase.inputs_inArrays flat levels varName, hasBase.typeOf_inArrays inside levels, ?_⟩
  intro nested
  obtain ⟨deeper, rfl⟩ := Nat.exists_eq_add_of_le' nested
  rfl

theorem generated_inputs_cube :
    ∃ generated,
      generate {} (.tree (.array (.array (.array (.basic "i"))))) (.text "iter") (.text "cube")
        (some "return FALSE;") = .ok generated ∧
      generated.inputs =
        [⟨"const int32_t * const * const *", { base := "cube" }⟩,
          ⟨"const size_t * const *", { base := "cube", path := [.len] }⟩] ∧
      ({} : Options).typeOf (.array (.array (.array (.basic "i")))) = .ok "int32_t ***" ∧
      generated.locals = [⟨"DBusMessageIter", { base := "cube", path := [.iter] }⟩] := by
  have read : Node.read "aaai" = .ok (Node.inArrays (.basic "i") 3) := rfl
  have sound : ({} : Options).Sound := ⟨by decide, by decide⟩
  have iterGiven : (GivenName.text "iter").resolve = some { base := "iter" } :=
    GivenName.resolve_text (by decide)
  have nameGiven : (GivenName.text "cube").resolve = some { base := "cube" } :=
    GivenName.resolve_text (by decide)
  obtain ⟨generated, base, ended, found, inputs, type, locals⟩ :=
    generated_inputs read rfl rfl sound "return FALSE;" iterGiven nameGiven
  have known : ({} : Options).baseOf (.basic "i") = .ok "int32_t" := rfl
  cases Except.ok.inj (known.symm.trans found)
  exact ⟨generated, ended, inputs, type, locals (by decide)⟩

end DBusMarshal
