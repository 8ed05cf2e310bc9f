import DBusMarshal.Proofs.Spelling

/-!
The names of C structs tell the types apart.

Spelt as part of an identifier, a signature loses its brackets: both of the opening ones become
letters that are no codes, and both of the closing ones an underscore. A type still shows its kind
in the first letter and its end by what stands inside, so a spelling is the front of no other one.
The joint of a dict entry might be read as a dict entry inside a struct, but no type goes on as
that word does.
-/

set_option autoImplicit false

namespace DBusMarshal

namespace Node

/-! ### Spellings -/

/-- A signature, spelt as part of an identifier. -/
def mangled (node : Node) : List Char := node.signature.toList.map Options.mangleChar

def mangledAll (members : List Node) : List Char :=
  (signatures members).toList.map Options.mangleChar

theorem mangled_array (element : Node) : (array element).mangled = 'a' :: element.mangled := by
  rw [mangled, signature, String.toList_append]
  rfl

theorem mangled_struct (members : List Node) :
    (struct members).mangled = 'r' :: (mangledAll members ++ ['_']) := by
  rw [mangled, signature, String.toList_append, String.toList_append, List.map_append,
    List.map_append]
  rfl

theorem mangled_entry (key value : Node) :
    (entry key value).mangled = 'e' :: (key.mangled ++ (value.mangled ++ ['_'])) := by
  rw [mangled, signature, String.toList_append, String.toList_append, String.toList_append,
    List.map_append, List.map_append, List.map_append, List.append_assoc, List.append_assoc]
  rfl

theorem mangledAll_cons (member : Node) (rest : List Node) :
    mangledAll (member :: rest) = member.mangled ++ mangledAll rest := by
  rw [mangledAll, signatures, String.toList_append, List.map_append]
  rfl

/-- The letter that a spelling begins with. -/
def opening : Node → Char
  | basic code => code.toList.headD ' '
  | array _ => 'a'
  | struct _ => 'r'
  | entry _ _ => 'e'
  | variant => 'v'
  | stray _ => ' '

theorem mangled_basic {code : String} (known : code ∈ basicCodes) :
    (basic code).mangled = [(basic code).opening] := by
  have table : ∀ code ∈ basicCodes,
      (basic code).mangled = [(basic code).opening] := by decide
  exact table code known

theorem basic_of_opening {code other : String} (known : code ∈ basicCodes)
    (otherKnown : other ∈ basicCodes) (same : (basic code).opening = (basic other).opening) :
    code = other := by
  have table : ∀ code ∈ basicCodes, ∀ other ∈ basicCodes,
      (basic code).opening = (basic other).opening → code = other := by decide
  exact table code known other otherKnown same

/-- No code is spelt like another kind of type or like the end of one. -/
theorem opening_ne {code : String} (known : code ∈ basicCodes) {c : Char}
    (other : c ∈ ['a', 'r', 'e', 'v', '_']) : (basic code).opening ≠ c := by
  have table : ∀ code ∈ basicCodes, (basic code).opening ∉ ['a', 'r', 'e', 'v', '_'] := by decide
  intro same
  apply table code known
  rw [same]
  exact other

namespace Spelt

theorem mangled_eq_cons {node : Node} (spelt : node.Spelt) :
    ∃ rest, node.mangled = node.opening :: rest := by
  cases spelt with
  | basic known => exact ⟨[], mangled_basic known⟩
  | variant => exact ⟨[], rfl⟩
  | array _ => exact ⟨_, mangled_array _⟩
  | struct _ => exact ⟨_, mangled_struct _⟩
  | entry _ _ => exact ⟨_, mangled_entry _ _⟩

theorem opening_ne_underscore {node : Node} (spelt : node.Spelt) :
    node.opening ≠ '_' := by
  cases spelt with
  | basic known => exact opening_ne known (by decide)
  | variant => exact ne_of_beq_false rfl
  | array _ => exact ne_of_beq_false rfl
  | struct _ => exact ne_of_beq_false rfl
  | entry _ _ => exact ne_of_beq_false rfl

theorem opening_eq {left right : Node} (leftSpelt : left.Spelt) (rightSpelt : right.Spelt)
    {front back : List Char}
    (same : left.mangled ++ front = right.mangled ++ back) : left.opening = right.opening := by
  obtain ⟨leftRest, leftWritten⟩ := leftSpelt.mangled_eq_cons
  obtain ⟨rightRest, rightWritten⟩ := rightSpelt.mangled_eq_cons
  rw [leftWritten, rightWritten] at same
  exact (List.cons.inj same).1

/-! ### Where a spelling ends -/

/-- The first letter tells a code. -/
theorem eq_basic_of_opening {code : String} {node : Node} (known : code ∈ basicCodes)
    (spelt : node.Spelt) (same : (Node.basic code).opening = node.opening) :
    node = .basic code := by
  cases spelt with
  | basic otherKnown => rw [basic_of_opening known otherKnown same]
  | variant => exact absurd same (opening_ne known (c := 'v') (by decide))
  | array _ => exact absurd same (opening_ne known (c := 'a') (by decide))
  | struct _ => exact absurd same (opening_ne known (c := 'r') (by decide))
  | entry _ _ => exact absurd same (opening_ne known (c := 'e') (by decide))

theorem basic_append_inj {code : String} {node : Node} (known : code ∈ basicCodes)
    (spelt : node.Spelt) {front back : List Char}
    (same : (Node.basic code).mangled ++ front = node.mangled ++ back) :
    .basic code = node ∧ front = back := by
  have isBasic := eq_basic_of_opening known spelt
    ((Spelt.basic known).opening_eq spelt same)
  rw [isBasic] at same
  exact ⟨isBasic.symm, List.append_cancel_left same⟩

theorem mangledAll_append_inj {members others : List Node}
    (ih : ∀ member ∈ members, ∀ (other : Node) (front back : List Char), other.Spelt →
      member.mangled ++ front = other.mangled ++ back → member = other ∧ front = back)
    (inside : ∀ member ∈ members, member.Spelt)
    (otherInside : ∀ other ∈ others, other.Spelt) {front back : List Char}
    (same : mangledAll members ++ '_' :: front = mangledAll others ++ '_' :: back) :
    members = others ∧ front = back := by
  -- The underscore ends the members, since no type is spelt with an underscore in front.
  induction members generalizing others with
  | nil =>
      cases others with
      | nil => exact ⟨rfl, (List.cons.inj same).2⟩
      | cons other more =>
          have spelt := otherInside other List.mem_cons_self
          obtain ⟨rest, written⟩ := spelt.mangled_eq_cons
          rw [mangledAll_cons, written] at same
          exact absurd (List.cons.inj same).1.symm spelt.opening_ne_underscore
  | cons member rest ihRest =>
      cases others with
      | nil =>
          have spelt := inside member List.mem_cons_self
          obtain ⟨more, written⟩ := spelt.mangled_eq_cons
          rw [mangledAll_cons, written] at same
          exact absurd (List.cons.inj same).1 spelt.opening_ne_underscore
      | cons other more =>
          rw [mangledAll_cons, mangledAll_cons, List.append_assoc, List.append_assoc] at same
          obtain ⟨sameFirst, sameRest⟩ := ih member List.mem_cons_self other _ _
            (otherInside other List.mem_cons_self) same
          obtain ⟨sameMembers, sameEnd⟩ := ihRest
            (fun later listed => ih later (List.mem_cons_of_mem _ listed))
            (fun later listed => inside later (List.mem_cons_of_mem _ listed))
            (fun later listed => otherInside later (List.mem_cons_of_mem _ listed)) sameRest
          rw [sameFirst, sameMembers]
          exact ⟨rfl, sameEnd⟩

/-- A spelling tells its type, and where it ends in a longer text. -/
theorem mangled_append_inj {left right : Node} (leftSpelt : left.Spelt) (rightSpelt : right.Spelt)
    {front back : List Char}
    (same : left.mangled ++ front = right.mangled ++ back) : left = right ∧ front = back := by
  induction leftSpelt generalizing right front back with
  | basic known => exact basic_append_inj known rightSpelt same
  | variant =>
      have opens := Spelt.variant.opening_eq rightSpelt same
      cases rightSpelt with
      | basic known => exact absurd opens.symm (opening_ne known (c := 'v') (by decide))
      | variant => exact ⟨rfl, List.append_cancel_left same⟩
      | array _ => cases opens
      | struct _ => cases opens
      | entry _ _ => cases opens
  | @array element inside ih =>
      have opens := (Spelt.array inside).opening_eq rightSpelt same
      cases rightSpelt with
      | basic known => exact absurd opens.symm (opening_ne known (c := 'a') (by decide))
      | variant => cases opens
      | array otherInside =>
          rw [mangled_array, mangled_array] at same
          obtain ⟨sameElement, sameEnd⟩ := ih otherInside (List.cons.inj same).2
          rw [sameElement]
          exact ⟨rfl, sameEnd⟩
      | struct _ => cases opens
      | entry _ _ => cases opens
  | @struct members inside ih =>
      have opens := (Spelt.struct inside).opening_eq rightSpelt same
      cases rightSpelt with
      | basic known => exact absurd opens.symm (opening_ne known (c := 'r') (by decide))
      | variant => cases opens
      | array _ => cases opens
      | struct otherInside =>
          rw [mangled_struct, mangled_struct, List.cons_append, List.cons_append,
            List.append_assoc, List.append_assoc] at same
          obtain ⟨sameMembers, sameEnd⟩ := mangledAll_append_inj
            (fun member listed _ _ _ spelt same => ih member listed spelt same)
            inside otherInside (List.cons.inj same).2
          rw [sameMembers]
          exact ⟨rfl, sameEnd⟩
      | entry _ _ => cases opens
  | @entry code value known inside ih =>
      have opens := (Spelt.entry known inside).opening_eq rightSpelt same
      cases rightSpelt with
      | basic otherKnown => exact absurd opens.symm (opening_ne otherKnown (c := 'e') (by decide))
      | variant => cases opens
      | array _ => cases opens
      | struct _ => cases opens
      | entry otherKnown otherInside =>
          rw [mangled_entry, mangled_entry, List.cons_append, List.cons_append,
            List.append_assoc, List.append_assoc, List.append_assoc, List.append_assoc] at same
          obtain ⟨sameKey, sameRest⟩ :=
            basic_append_inj known (.basic otherKnown) (List.cons.inj same).2
          obtain ⟨sameValue, sameEnd⟩ := ih otherInside sameRest
          rw [sameKey, sameValue]
          exact ⟨rfl, (List.cons.inj sameEnd).2⟩

end Spelt

/-! ### Behind the stem -/

theorem mangle_between (inside : String) (opens closes : Char) :
    (Options.mangle (.singleton opens ++ inside ++ .singleton closes)).toList =
      inside.toList.map Options.mangleChar := by
  have cut : ((String.singleton opens ++ inside ++ .singleton closes).toList.drop 1).dropLast =
      inside.toList := by
    simp
  rw [Options.mangle, String.toList_ofList, cut]

theorem structTail_struct (members : List Node) :
    (struct members).structTail.toList = '_' :: mangledAll members := by
  rw [structTail, String.toList_append]
  exact congrArg ("_".toList ++ ·) (mangle_between (signatures members) '(' ')')

theorem structTail_entry (key value : Node) :
    (entry key value).structTail.toList = "_entry_".toList ++ (key.mangled ++ value.mangled) := by
  have inside : (Options.mangle (entry key value).signature).toList =
      key.mangled ++ value.mangled := by
    refine (mangle_between (key.signature ++ value.signature) '{' '}').trans ?_
    rw [String.toList_append, List.map_append]
    rfl
  rw [structTail, String.toList_append, inside]
  rfl

/-- No struct is spelt like a dict entry behind the stem: it would begin with a dict entry of the
codes `n` and `t`, which ends there. -/
theorem Spelt.mangledAll_ne_entry {members : List Node}
    (inside : ∀ member ∈ members, member.Spelt) (rest : List Char) :
    mangledAll members ≠ "entry_".toList ++ rest := by
  intro same
  cases members with
  | nil => cases same
  | cons member others =>
      have spelt := inside member List.mem_cons_self
      obtain ⟨more, written⟩ := spelt.mangled_eq_cons
      rw [mangledAll_cons] at same
      have opens : member.opening = 'e' := by
        rw [written] at same
        exact (List.cons.inj same).1
      cases spelt with
      | basic known => exact absurd opens (opening_ne known (by decide))
      | variant => cases opens
      | array _ => cases opens
      | struct _ => cases opens
      | @entry code value known valueInside =>
          rw [mangled_entry, mangled_basic known] at same
          have behindKey := (List.cons.inj (List.cons.inj same).2).2
          have isNumber : value = .basic "t" := by
            obtain ⟨valueMore, valueWritten⟩ := valueInside.mangled_eq_cons
            rw [valueWritten] at behindKey
            have isCode : "t" ∈ basicCodes := by decide
            exact eq_basic_of_opening isCode valueInside (List.cons.inj behindKey).1.symm
          rw [isNumber] at behindKey
          have closes := (List.cons.inj (List.cons.inj behindKey).2).1
          exact absurd closes (by decide)

/-- What follows the stem tells the type. -/
theorem Spelt.structTail_inj {left right : Node} (leftSpelt : left.Spelt) (rightSpelt : right.Spelt)
    (leftGroup : left.isGroup = true) (rightGroup : right.isGroup = true)
    (same : left.structTail = right.structTail) : left = right := by
  have chars := congrArg String.toList same
  cases leftSpelt with
  | basic _ => cases leftGroup
  | variant => cases leftGroup
  | array _ => cases leftGroup
  | @struct members inside =>
      cases rightSpelt with
      | basic _ => cases rightGroup
      | variant => cases rightGroup
      | array _ => cases rightGroup
      | @struct others otherInside =>
          rw [structTail_struct, structTail_struct] at chars
          have ended : mangledAll members ++ '_' :: [] = mangledAll others ++ '_' :: [] := by
            rw [(List.cons.inj chars).2]
          rw [(mangledAll_append_inj
            (fun member listed _ _ _ spelt same =>
              (inside member listed).mangled_append_inj spelt same)
            inside otherInside ended).1]
      | entry _ _ =>
          rw [structTail_struct, structTail_entry] at chars
          exact absurd (List.cons.inj chars).2 (mangledAll_ne_entry inside _)
  | @entry code value known inside =>
      cases rightSpelt with
      | basic _ => cases rightGroup
      | variant => cases rightGroup
      | array _ => cases rightGroup
      | struct otherInside =>
          rw [structTail_struct, structTail_entry] at chars
          exact absurd (List.cons.inj chars).2.symm (mangledAll_ne_entry otherInside _)
      | @entry otherCode otherValue otherKnown otherInside =>
          rw [structTail_entry, structTail_entry] at chars
          obtain ⟨sameKey, sameRest⟩ :=
            basic_append_inj known (.basic otherKnown) (List.append_cancel_left chars)
          have ended : value.mangled ++ [] = otherValue.mangled ++ [] := by
            rw [sameRest]
          rw [sameKey, (inside.mangled_append_inj otherInside ended).1]

theorem Spelt.child {node part : Node} (spelt : node.Spelt) (listed : part ∈ node.children) :
    part.Spelt := by
  cases spelt with
  | basic _ => cases listed
  | variant => cases listed
  | array inside =>
      rw [List.mem_singleton.1 listed]
      exact inside
  | struct inside => exact inside part listed
  | entry known inside =>
      rcases List.mem_cons.1 listed with isKey | isValue
      · rw [isKey]
        exact .basic known
      · rw [List.mem_singleton.1 isValue]
        exact inside

/-! ### The names of C structs -/

/-- Where the caller chooses no names, a C struct has the stem and the spelling as its name. -/
theorem Spelt.structName {node : Node} (spelt : node.Spelt) {options : Options}
    (unnamed : options.structNames = []) :
    options.structName node = .ok (options.structStem ++ node.structTail) := by
  have none : options.chosenName node.signature = none := by
    rw [Options.chosenName, unnamed]
    rfl
  exact structName_of_none spelt.hasStray none

/-- With one stem and no chosen names, the name of a C struct tells the type. -/
theorem Spelt.eq_of_structName {left right : Node} (leftSpelt : left.Spelt)
    (rightSpelt : right.Spelt) (leftGroup : left.isGroup = true) (rightGroup : right.isGroup = true)
    {first second : Options} (firstUnnamed : first.structNames = [])
    (secondUnnamed : second.structNames = []) (sameStem : first.structStem = second.structStem)
    {name : String} (leftNamed : first.structName left = .ok name)
    (rightNamed : second.structName right = .ok name) : left = right := by
  rw [leftSpelt.structName firstUnnamed] at leftNamed
  rw [rightSpelt.structName secondUnnamed, ← sameStem, ← leftNamed] at rightNamed
  have chars := congrArg String.toList (Except.ok.inj rightNamed)
  rw [String.toList_append, String.toList_append] at chars
  exact leftSpelt.structTail_inj rightSpelt leftGroup rightGroup
    (String.toList_inj.1 (List.append_cancel_left chars).symm)

/-- A type occurs in another one: it is that type, or a part of a type that occurs in it. -/
inductive Occurs (root : Node) : Node → Prop where
  | whole : Occurs root root
  | part {node part : Node} (occurs : Occurs root node) (listed : part ∈ node.children) :
      Occurs root part

theorem Spelt.of_occurs {root node : Node} (spelt : root.Spelt) (occurs : root.Occurs node) :
    node.Spelt := by
  induction occurs with
  | whole => exact spelt
  | part _ listed ih => exact ih.child listed

end Node

/-- Whatever the stem, different structs and dict entries have C structs of different names,
wherever they stand in the types that are read. -/
theorem structNames_differ {text otherText : String} {root otherRoot left right : Node}
    (read : Node.read text = .ok root) (otherRead : Node.read otherText = .ok otherRoot)
    (occurs : root.Occurs left) (otherOccurs : otherRoot.Occurs right)
    (group : left.isGroup = true) (otherGroup : right.isGroup = true) (different : left ≠ right)
    {options : Options} (unnamed : options.structNames = []) :
    ∃ name other, options.structName left = .ok name ∧ options.structName right = .ok other ∧
      name ≠ other := by
  have leftSpelt := (Node.complete_of_read read).spelt.of_occurs occurs
  have rightSpelt := (Node.complete_of_read otherRead).spelt.of_occurs otherOccurs
  refine ⟨_, _, leftSpelt.structName unnamed, rightSpelt.structName unnamed, ?_⟩
  intro same
  have rightNamed := rightSpelt.structName unnamed
  rw [← same] at rightNamed
  exact different (leftSpelt.eq_of_structName rightSpelt group otherGroup unnamed unnamed rfl
    (leftSpelt.structName unnamed) rightNamed)

/-- The stem ends like the joint of a dict entry, and behind it stands the same. -/
theorem structNames_differ_variant :
    ∃ name other,
      Options.structName { structStem := "x_entry" } (.entry (.basic "s") .variant) = .ok name ∧
      Options.structName { structStem := "x_entry" } (.struct [.basic "s", .variant]) =
        .ok other ∧
      name ≠ other := by
  have read : Node.read "a\x7bsv\x7d" = .ok (.array (.entry (.basic "s") .variant)) := rfl
  have otherRead : Node.read "a(sv)" = .ok (.array (.struct [.basic "s", .variant])) := rfl
  have different : Node.entry (.basic "s") .variant ≠ .struct [.basic "s", .variant] := nofun
  exact structNames_differ read otherRead (.part .whole (List.mem_singleton_self _))
    (.part .whole (List.mem_singleton_self _)) rfl rfl different rfl

end DBusMarshal
