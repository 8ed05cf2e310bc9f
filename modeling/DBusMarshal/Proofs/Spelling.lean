import DBusMarshal.Proofs.Emission

/-!
The spelling of C types.

A pointer stays a pointer when it is qualified, whatever it points to. The pointer to a C struct is
qualified once, in front, unless the struct were named `const`: that is why the names that the
caller chooses have to be identifiers and no keywords.
-/

set_option autoImplicit false

namespace DBusMarshal

/-! ### Trimming -/

namespace Text

theorem trimEnd_eq_self {text : List Char} {last : Char} (ends : text.getLast? = some last)
    (inked : isBlank last = false) : trimEnd text = text := by
  obtain ⟨front, same⟩ := List.getLast?_eq_some_iff.1 ends
  rw [same]
  exact dropTrailing_append_of_false inked front

/-- A text begins, and not with a blank. -/
def StartsInked (text : List Char) : Prop := ∃ first ∈ text.head?, isBlank first = false

theorem StartsInked.append {front : List Char} (starts : StartsInked front) (back : List Char) :
    StartsInked (front ++ back) := by
  obtain ⟨first, isFirst, inked⟩ := starts
  obtain ⟨rest, rfl⟩ := List.head?_eq_some_iff.1 isFirst
  exact ⟨first, rfl, inked⟩

theorem trim_eq_self {text : List Char} {last : Char} (starts : StartsInked text)
    (ends : text.getLast? = some last) (inked : isBlank last = false) : trim text = text := by
  obtain ⟨first, isFirst, inkedFirst⟩ := starts
  obtain ⟨rest, rfl⟩ := List.head?_eq_some_iff.1 isFirst
  rw [trim, List.dropWhile_cons_of_neg (by simp [inkedFirst])]
  exact trimEnd_eq_self ends inked

theorem trim_append_star (front : List Char) :
    trim (front ++ ['*']) = front.dropWhile isBlank ++ ['*'] := by
  have dropped : (front ++ ['*']).dropWhile isBlank = front.dropWhile isBlank ++ ['*'] := by
    induction front with
    | nil => rfl
    | cons first rest ih =>
        by_cases blank : isBlank first = true
        · rw [List.cons_append, List.dropWhile_cons_of_pos blank, ih,
            List.dropWhile_cons_of_pos blank]
        · rw [List.cons_append, List.dropWhile_cons_of_neg blank,
            List.dropWhile_cons_of_neg blank]
          rfl
  rw [trim, dropped]
  exact dropTrailing_append_of_false rfl _

end Text

namespace CType

/-! ### Pointers -/

theorem isPointer_append_star (front : List Char) : isPointer (front ++ ['*']) = true := by
  simp [isPointer]

theorem exists_of_isPointer {spelling : List Char} (pointer : isPointer spelling = true) :
    ∃ front, spelling = front ++ ['*'] := by
  have ends : spelling.getLast? = some '*' := by simpa [isPointer] using pointer
  exact List.getLast?_eq_some_iff.1 ends

/-! ### Qualifying -/

/-- The target of a pointer has `const` at one of its ends. -/
def carriesConst (target : List Char) : Bool :=
  (' ' :: const).isSuffixOf target || (const ++ [' ']).isPrefixOf target

/-- All that there is to qualify is qualified: the type is no pointer, or a pointer to what is no
pointer and const already. -/
def Settled (spelling : List Char) : Prop :=
  ∀ front, spelling = front ++ ['*'] →
    isPointer (Text.trimEnd front) = false ∧ carriesConst (Text.trimEnd front) = true

/-- All that qualifying can come to. -/
inductive Qualifies : List Char → List Char → Prop where
  /-- The type stays as it is. -/
  | settled {spelling : List Char} (settled : Settled spelling) : Qualifies spelling spelling
  /-- The pointer that is pointed to becomes const. -/
  | pointer {front : List Char} (deeper : isPointer (Text.trimEnd front) = true) :
      Qualifies (front ++ ['*']) (Text.trimEnd front ++ ' ' :: const ++ [' '] ++ ['*'])
  /-- What is pointed to becomes const. -/
  | target {front : List Char} (flat : isPointer (Text.trimEnd front) = false)
      (notYet : carriesConst (Text.trimEnd front) = false) :
      Qualifies (front ++ ['*']) (const ++ [' '] ++ front ++ ['*'])

theorem qualifies_qualify (spelling : List Char) : Qualifies spelling (qualify spelling) := by
  cases pointer : isPointer spelling with
  | false =>
      have settled : Settled spelling := by
        intro front same
        rw [same, isPointer_append_star] at pointer
        cases pointer
      rw [qualify, pointer, if_neg Bool.false_ne_true]
      exact .settled settled
  | true =>
      obtain ⟨front, rfl⟩ := exists_of_isPointer pointer
      rw [qualify, if_pos pointer, List.dropLast_concat]
      dsimp only
      cases deeper : isPointer (Text.trimEnd front) with
      | true =>
          have shape : Text.trimEnd front ++ ' ' :: const ++ [' ', '*'] =
              Text.trimEnd front ++ ' ' :: const ++ [' '] ++ ['*'] := by simp
          rw [if_pos rfl, shape]
          exact .pointer deeper
      | false =>
          rw [if_neg Bool.false_ne_true]
          split
          · rename_i carries
            refine .settled ?_
            intro other same
            obtain ⟨rfl, -⟩ := List.append_inj' same rfl
            exact ⟨deeper, carries⟩
          · rename_i notYet
            have shape : const ++ ' ' :: (front ++ ['*']) = const ++ [' '] ++ front ++ ['*'] := by
              simp
            rw [shape]
            exact .target deeper (Bool.eq_false_iff.2 notYet)

/-- A pointer stays a pointer. -/
theorem isPointer_qualify {spelling : List Char} (pointer : isPointer spelling = true) :
    isPointer (qualify spelling) = true := by
  have qualifies := qualifies_qualify spelling
  generalize qualify spelling = result at qualifies
  cases qualifies with
  | settled _ => exact pointer
  | pointer _ => exact isPointer_append_star _
  | target _ _ => exact isPointer_append_star _

/-! ### Pointers made const -/

theorem toPointer_ends (type : String) : ∃ front, (toPointer type).toList = front ++ ['*'] := by
  rw [toPointer, String.toList_ofList, addStar]
  split
  · exact ⟨_, rfl⟩
  · exact ⟨Text.trim type.toList ++ [' '], by simp⟩

/-- With another level of pointers and what it points to made const, every type is a pointer. -/
theorem isPointer_toConst_toPointer (type : String) :
    isPointer (toConst (toPointer type)).toList = true := by
  obtain ⟨front, same⟩ := toPointer_ends type
  rw [toConst, String.toList_ofList, same, Text.trim_append_star]
  exact isPointer_qualify (isPointer_append_star _)

/-! ### Identifiers -/

def letterRanges : List Text.CharRange := [⟨0x41, 0x5a⟩, ⟨0x5f, 0x5f⟩, ⟨0x61, 0x7a⟩]

def isWordStart (c : Char) : Bool := Text.inRanges letterRanges c

def isWordPart (c : Char) : Bool := Text.inRanges (⟨0x30, 0x39⟩ :: letterRanges) c

def keywords : List String :=
  ["auto", "break", "case", "char", "const", "continue", "default", "do", "double", "else", "enum",
    "extern", "float", "for", "goto", "if", "int", "long", "register", "return", "short",
    "signed", "sizeof", "static", "struct", "switch", "typedef", "union", "unsigned", "void",
    "volatile", "while"]

/-- The text is a C identifier and no keyword. -/
def isIdentifier (text : String) : Bool :=
  (match text.toList with
    | [] => false
    | first :: rest => isWordStart first && rest.all isWordPart) && !keywords.contains text

theorem isWordPart_of_isWordStart {c : Char} (starts : isWordStart c = true) :
    isWordPart c = true := by
  rw [isWordStart, Text.inRanges_eq_true_iff] at starts
  rw [isWordPart, Text.inRanges_eq_true_iff]
  obtain ⟨range, listed, bounds⟩ := starts
  exact ⟨range, List.mem_cons_of_mem _ listed, bounds⟩

theorem not_isBlank_of_isWordPart {c : Char} (part : isWordPart c = true) :
    Text.isBlank c = false := by
  rw [isWordPart, Text.inRanges_eq_true_iff] at part
  cases blank : Text.isBlank c with
  | false => rfl
  | true =>
      rw [Text.isBlank, Text.inRanges_eq_true_iff] at blank
      simp [Text.blankRanges] at blank
      simp [letterRanges] at part
      omega

theorem isWordPart_of_isIdentifier {text : String} (identifier : isIdentifier text = true) :
    ∀ c ∈ text.toList, isWordPart c = true := by
  rw [isIdentifier, Bool.and_eq_true] at identifier
  obtain ⟨word, _⟩ := identifier
  cases chars : text.toList with
  | nil =>
      intro c impossible
      cases impossible
  | cons first rest =>
      rw [chars] at word
      simp only [Bool.and_eq_true, List.all_eq_true] at word
      intro c listed
      rcases List.mem_cons.1 listed with same | later
      · rw [same]
        exact isWordPart_of_isWordStart word.1
      · exact word.2 c later

theorem last_of_isIdentifier {text : String} (identifier : isIdentifier text = true) :
    ∃ last, text.toList.getLast? = some last ∧ isWordPart last = true := by
  cases ends : text.toList.getLast? with
  | none =>
      rw [isIdentifier, List.getLast?_eq_none_iff.1 ends] at identifier
      cases identifier
  | some last =>
      refine ⟨last, rfl, isWordPart_of_isIdentifier identifier last ?_⟩
      exact List.mem_of_getLast? ends

theorem append_cons_inj {mark : Char} {left right front back : List Char} (inFront : mark ∉ front)
    (inBack : mark ∉ back) (same : left ++ mark :: front = right ++ mark :: back) :
    front = back := by
  rcases List.append_eq_append_iff.1 same with ⟨more, _, rest⟩ | ⟨more, _, rest⟩
  · cases more with
    | nil => exact (List.cons.inj rest).2
    | cons first others =>
        refine absurd ?_ inFront
        rw [(List.cons.inj rest).2]
        simp
  · cases more with
    | nil => exact (List.cons.inj rest).2.symm
    | cons first others =>
        refine absurd ?_ inBack
        rw [(List.cons.inj rest).2]
        simp

/-! ### Pointers to C structs -/

theorem qualify_pointer {target : List Char} {last : Char} (ends : target.getLast? = some last)
    (inked : Text.isBlank last = false) (notStar : last ≠ '*')
    (notSuffix : (' ' :: const).isSuffixOf target = false)
    (notPrefix : (const ++ [' ']).isPrefixOf target = false) :
    qualify (target ++ [' ', '*']) = const ++ ' ' :: (target ++ [' ', '*']) := by
  have shape : target ++ [' ', '*'] = (target ++ [' ']) ++ ['*'] := by simp
  have isStar : isPointer (target ++ [' ', '*']) = true := by
    rw [shape]
    exact isPointer_append_star _
  have blank : Text.isBlank ' ' = true := by decide
  have trimmed : Text.trimEnd (target ++ [' ', '*']).dropLast = target := by
    rw [shape, List.dropLast_concat]
    exact (Text.dropTrailing_append_of_true blank target).trans (Text.trimEnd_eq_self ends inked)
  have flat : isPointer target = false := by
    rw [isPointer, ends]
    exact decide_eq_false (fun same => notStar (Option.some.inj same))
  rw [qualify, if_pos isStar, trimmed]
  dsimp only
  rw [flat, notSuffix, notPrefix]
  rfl

theorem not_suffix_struct {name : String} (identifier : isIdentifier name = true) :
    (' ' :: const).isSuffixOf ("struct " ++ name).toList = false := by
  apply Bool.eq_false_iff.2
  intro suffix
  obtain ⟨front, same⟩ := List.isSuffixOf_iff_suffix.1 suffix
  have noBlank : ' ' ∉ name.toList := by
    intro listed
    exact absurd (isWordPart_of_isIdentifier identifier ' ' listed) (by decide)
  have parted : "struct".toList ++ ' ' :: name.toList = front ++ ' ' :: const := by
    rw [same, String.toList_append]
    rfl
  have isConst : name = "const" :=
    String.toList_injective (append_cons_inj noBlank (by decide) parted)
  rw [isConst] at identifier
  exact absurd identifier (by decide)

theorem not_suffix_of_underscore {more : List Char} (parts : ∀ c ∈ more, isWordPart c = true)
    (underscore : '_' ∈ more) (front : List Char) :
    (' ' :: const).isSuffixOf (front ++ more) = false := by
  apply Bool.eq_false_iff.2
  intro suffix
  obtain ⟨before, same⟩ := List.isSuffixOf_iff_suffix.1 suffix
  rcases List.append_eq_append_iff.1 same with ⟨between, _, rest⟩ | ⟨between, _, rest⟩
  · have inConst : '_' ∈ ' ' :: const := by
      rw [rest]
      exact List.mem_append_right _ underscore
    exact absurd inConst (by decide)
  · have blank : ' ' ∈ more := by
      rw [rest]
      exact List.mem_append_right _ List.mem_cons_self
    exact absurd (parts ' ' blank) (by decide)

/-- The spelling of a type that is no pointer and is not qualified: no blanks around it, no star at
its end, and no `const` at either end. -/
structure Plain (type : String) : Prop where
  starts : Text.StartsInked type.toList
  ends : ∃ last ∈ type.toList.getLast?, Text.isBlank last = false ∧ last ≠ '*'
  notSuffix : (' ' :: const).isSuffixOf type.toList = false
  notPrefix : (const ++ [' ']).isPrefixOf type.toList = false

def isPlain (type : String) : Bool :=
  (type.toList.head?.any fun first => !Text.isBlank first) &&
    (type.toList.getLast?.any fun last => !Text.isBlank last && last != '*') &&
    !(' ' :: const).isSuffixOf type.toList && !(const ++ [' ']).isPrefixOf type.toList

theorem plain_of_isPlain {type : String} (checked : isPlain type = true) : Plain type := by
  simp only [isPlain, Bool.and_eq_true, Bool.not_eq_true', Option.any_eq_true,
    bne_iff_ne] at checked
  obtain ⟨⟨⟨starts, ends⟩, notSuffix⟩, notPrefix⟩ := checked
  exact ⟨starts, ends, notSuffix, notPrefix⟩

namespace Plain

variable {type : String}

theorem trim_eq (plain : Plain type) : Text.trim type.toList = type.toList := by
  obtain ⟨last, isLast, inked, _⟩ := plain.ends
  exact Text.trim_eq_self plain.starts isLast inked

theorem not_isPointer (plain : Plain type) : isPointer type.toList = false := by
  obtain ⟨last, isLast, _, notStar⟩ := plain.ends
  rw [isPointer, Option.mem_def.1 isLast]
  exact decide_eq_false (fun same => notStar (Option.some.inj same))

theorem toConst_eq (plain : Plain type) : toConst type = type := by
  rw [toConst, plain.trim_eq, qualify, plain.not_isPointer, if_neg Bool.false_ne_true,
    String.ofList_toList]

theorem toPointer_eq (plain : Plain type) : toPointer type = type ++ " *" := by
  apply String.toList_injective
  rw [toPointer, String.toList_ofList, plain.trim_eq, addStar, plain.not_isPointer,
    if_neg Bool.false_ne_true, String.toList_append]
  rfl

theorem toConst_toPointer (plain : Plain type) :
    toConst (toPointer type) = "const " ++ type ++ " *" := by
  obtain ⟨last, isLast, inked, notStar⟩ := plain.ends
  have endsStar : (type.toList ++ [' ', '*']).getLast? = some '*' := by
    rw [List.getLast?_append]
    rfl
  have trimmed : Text.trim (type.toList ++ [' ', '*']) = type.toList ++ [' ', '*'] :=
    Text.trim_eq_self (plain.starts.append _) endsStar (by decide)
  apply String.toList_injective
  rw [plain.toPointer_eq, toConst, String.toList_ofList, String.toList_append]
  change qualify (Text.trim (type.toList ++ [' ', '*'])) = _
  rw [trimmed, qualify_pointer isLast inked notStar plain.notSuffix plain.notPrefix]
  simp only [String.toList_append, List.append_assoc]
  rfl

end Plain

theorem plain_struct_of_not_suffix {name : String} {last : Char}
    (nameEnds : name.toList.getLast? = some last) (part : isWordPart last = true)
    (notSuffix : (' ' :: const).isSuffixOf ("struct " ++ name).toList = false) :
    Plain ("struct " ++ name) := by
  have inked : Text.isBlank last = false := not_isBlank_of_isWordPart part
  have notStar : last ≠ '*' := by
    intro same
    rw [same] at part
    exact absurd part (by decide)
  have spelt : ("struct " ++ name).toList = 's' :: ("truct ".toList ++ name.toList) := by
    rw [String.toList_append]
    rfl
  have ends : ("struct " ++ name).toList.getLast? = some last := by
    rw [String.toList_append, List.getLast?_append, nameEnds]
    rfl
  refine ⟨⟨'s', ?_, by decide⟩, ⟨last, ends, inked, notStar⟩, notSuffix, ?_⟩
  · rw [spelt]
    rfl
  · rw [spelt]
    rfl

theorem plain_struct {name : String} (identifier : isIdentifier name = true) :
    Plain ("struct " ++ name) := by
  obtain ⟨last, nameEnds, part⟩ := last_of_isIdentifier identifier
  exact plain_struct_of_not_suffix nameEnds part (not_suffix_struct identifier)

/-- The pointer to a C struct, with the struct made const. -/
theorem toConst_toPointer_struct {name : String} (identifier : isIdentifier name = true) :
    toConst (toPointer ("struct " ++ name)) = "const struct " ++ name ++ " *" := by
  rw [(plain_struct identifier).toConst_toPointer, ← String.append_assoc]
  rfl

/-- Whatever a name begins with, it is not `const` when an underscore follows. -/
theorem toConst_toPointer_append (stem : String) {more : String}
    (parts : ∀ c ∈ more.toList, isWordPart c = true) (underscore : '_' ∈ more.toList) :
    toConst (toPointer ("struct " ++ (stem ++ more))) =
      "const struct " ++ (stem ++ more) ++ " *" := by
  cases ends : more.toList.getLast? with
  | none =>
      rw [List.getLast?_eq_none_iff.1 ends] at underscore
      cases underscore
  | some last =>
      have nameEnds : (stem ++ more).toList.getLast? = some last := by
        rw [String.toList_append, List.getLast?_append, ends]
        rfl
      have notSuffix : (' ' :: const).isSuffixOf ("struct " ++ (stem ++ more)).toList = false := by
        rw [← String.append_assoc, String.toList_append]
        exact not_suffix_of_underscore parts underscore _
      have plain := plain_struct_of_not_suffix nameEnds (parts last (List.mem_of_getLast? ends))
        notSuffix
      rw [plain.toConst_toPointer, ← String.append_assoc]
      rfl

/-- An identifier that goes on with an underscore in it is an identifier: no keyword has one. -/
theorem isIdentifier_append {stem more : String} (identifier : isIdentifier stem = true)
    (parts : ∀ c ∈ more.toList, isWordPart c = true) (underscore : '_' ∈ more.toList) :
    isIdentifier (stem ++ more) = true := by
  have noUnderscore : ∀ word ∈ keywords, '_' ∉ word.toList := by decide
  have notKeyword : stem ++ more ∉ keywords := by
    intro listed
    apply noUnderscore _ listed
    rw [String.toList_append]
    exact List.mem_append_right _ underscore
  rw [isIdentifier, Bool.and_eq_true] at identifier ⊢
  refine ⟨?_, by simpa using notKeyword⟩
  obtain ⟨word, _⟩ := identifier
  rw [String.toList_append]
  cases chars : stem.toList with
  | nil =>
      rw [chars] at word
      cases word
  | cons first rest =>
      rw [chars] at word
      simp only [Bool.and_eq_true, List.all_eq_true] at word
      simp only [List.cons_append, Bool.and_eq_true, List.all_eq_true]
      refine ⟨word.1, ?_⟩
      intro c listed
      rcases List.mem_append.1 listed with inStem | inMore
      · exact word.2 c inStem
      · exact parts c inMore

end CType

/-! ### Names of C structs -/

/-- The stem and the names that the caller chose are identifiers. -/
structure Options.Sound (options : Options) : Prop where
  stem : CType.isIdentifier options.structStem = true
  names : ∀ chosen ∈ options.structNames, chosen.2 ≠ "" → CType.isIdentifier chosen.2 = true

theorem Options.Sound.chosenName {options : Options} (sound : options.Sound)
    {signature name : String} (chosen : options.chosenName signature = some name) :
    CType.isIdentifier name = true := by
  rw [Options.chosenName, Option.filter_eq_some_iff, decide_eq_true_eq] at chosen
  obtain ⟨front, back, same, _⟩ := List.lookup_eq_some_iff.1 chosen.1
  refine sound.names (signature, name) ?_ chosen.2
  rw [same]
  simp

namespace Node

theorem Marshallable.isWordPart_signature {node : Node} (marshallable : node.Marshallable) :
    ∀ c ∈ node.signature.toList, CType.isWordPart (Options.mangleChar c) = true := by
  have ofBasic : ∀ code ∈ basicCodes, ∀ c ∈ code.toList,
      CType.isWordPart (Options.mangleChar c) = true := by
    have table : ∀ code ∈ basicCodes,
        code.toList.all (fun c => CType.isWordPart (Options.mangleChar c)) = true := by decide
    intro code known
    exact List.all_eq_true.1 (table code known)
  induction marshallable with
  | @basic code known => exact ofBasic code known
  | array inside ih =>
      intro c listed
      rw [signature, String.toList_append, List.mem_append] at listed
      rcases listed with isArray | inElement
      · rw [List.mem_singleton.1 isArray]
        decide
      · exact ih c inElement
  | @struct members inside ih =>
      intro c listed
      rw [signature, String.toList_append, String.toList_append, List.mem_append,
        List.mem_append] at listed
      rcases listed with (opening | inMembers) | closing
      · rw [List.mem_singleton.1 opening]
        decide
      · clear inside
        induction members with
        | nil => cases inMembers
        | cons member rest ihRest =>
            rw [signatures, String.toList_append, List.mem_append] at inMembers
            rcases inMembers with inFirst | later
            · exact ih member List.mem_cons_self c inFirst
            · exact ihRest (fun other listed => ih other (List.mem_cons_of_mem _ listed)) later
      · rw [List.mem_singleton.1 closing]
        decide
  | @entry code content known inside ih =>
      intro c listed
      simp only [signature, String.toList_append, List.mem_append] at listed
      rcases listed with (opening | inKey | inContent) | closing
      · rw [List.mem_singleton.1 opening]
        decide
      · exact ofBasic code known c inKey
      · exact ih c inContent
      · rw [List.mem_singleton.1 closing]
        decide

/-- What follows the stem in the name of a C struct that is spelt after a signature. -/
def structTail (node : Node) : String :=
  (if node.isEntry then "_entry_" else "_") ++ Options.mangle node.signature

theorem underscore_mem_structTail (node : Node) : '_' ∈ node.structTail.toList := by
  rw [structTail, String.toList_append, List.mem_append]
  apply Or.inl
  cases node.isEntry <;> decide

theorem Marshallable.isWordPart_structTail {node : Node} (marshallable : node.Marshallable) :
    ∀ c ∈ node.structTail.toList, CType.isWordPart c = true := by
  intro c listed
  rw [structTail, String.toList_append, List.mem_append] at listed
  rcases listed with inJoint | inMangled
  · have joints : (if node.isEntry then "_entry_" else "_").toList.all CType.isWordPart =
        true := by
      cases node.isEntry <;> decide
    exact List.all_eq_true.1 joints c inJoint
  · rw [Options.mangle, String.toList_ofList] at inMangled
    obtain ⟨written, inside, same⟩ := List.mem_map.1 inMangled
    rw [← same]
    exact marshallable.isWordPart_signature written
      (List.mem_of_mem_drop ((List.dropLast_sublist _).subset inside))

theorem Marshallable.structName_of_chosen {node : Node} (marshallable : node.Marshallable)
    {options : Options} {own : String}
    (chosen : options.chosenName node.signature = some own) :
    options.structName node = .ok own := by
  unfold Options.structName
  rw [marshallable.signature?]
  simp only [bind, Except.bind, chosen]
  rfl

theorem structName_of_none {node : Node} (whole : node.hasStray = false) {options : Options}
    (none : options.chosenName node.signature = none) :
    options.structName node = .ok (options.structStem ++ node.structTail) := by
  have written : node.signature? = .ok node.signature := by
    rw [Node.signature?, whole]
    rfl
  unfold Options.structName
  rw [written]
  simp only [bind, Except.bind, none]
  rw [String.append_assoc]
  rfl

theorem Marshallable.isIdentifier_structName {node : Node} (marshallable : node.Marshallable)
    {options : Options} (sound : options.Sound) {name : String}
    (named : options.structName node = .ok name) : CType.isIdentifier name = true := by
  cases chosen : options.chosenName node.signature with
  | some own =>
      rw [marshallable.structName_of_chosen chosen] at named
      cases named
      exact sound.chosenName chosen
  | none =>
      rw [structName_of_none marshallable.hasStray chosen] at named
      cases named
      exact CType.isIdentifier_append sound.stem marshallable.isWordPart_structTail
        node.underscore_mem_structTail

end Node

/-- The pointer to every C struct is qualified in front. -/
def Options.Qualifies (options : Options) : Prop :=
  ∀ node : Node, node.Marshallable → ∀ name, options.structName node = .ok name →
    CType.toConst (CType.toPointer ("struct " ++ name)) = "const struct " ++ name ++ " *"

theorem Options.Sound.qualifies {options : Options} (sound : options.Sound) :
    options.Qualifies := by
  intro node marshallable name named
  exact CType.toConst_toPointer_struct (marshallable.isIdentifier_structName sound named)

/-- Where the caller chooses no names, any stem will do. -/
theorem Options.qualifies_of_unnamed {options : Options} (unnamed : options.structNames = []) :
    options.Qualifies := by
  intro node marshallable name named
  have none : options.chosenName node.signature = none := by
    rw [chosenName, unnamed]
    rfl
  rw [Node.structName_of_none marshallable.hasStray none] at named
  cases named
  exact CType.toConst_toPointer_append options.structStem marshallable.isWordPart_structTail
    node.underscore_mem_structTail

end DBusMarshal
