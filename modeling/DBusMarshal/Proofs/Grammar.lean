import DBusMarshal.Signature.Reader

/-!
The grammar of signatures, and the types that can be marshalled.

Reading keeps an invariant: everything read so far, and everything that an open construct holds,
belongs to the grammar, and a dict entry is only open directly inside an array. So every type that
can be read is complete, and one without variants can be marshalled.
-/

set_option autoImplicit false

namespace DBusMarshal

namespace Node

/-- A complete type: known codes, structs with members, and dict entries with a basic key that
stand directly inside an array. -/
inductive Complete : Node → Prop where
  | basic {code : String} (known : code ∈ basicCodes) : Complete (.basic code)
  | variant : Complete .variant
  | array {element : Node} (complete : Complete element) : Complete (.array element)
  | dictionary {code : String} {value : Node} (known : code ∈ basicCodes)
      (complete : Complete value) : Complete (.array (.entry (.basic code) value))
  | struct {members : List Node} (filled : members ≠ [])
      (complete : ∀ member ∈ members, Complete member) : Complete (.struct members)

theorem Complete.known {code : String} (complete : Complete (.basic code)) :
    code ∈ basicCodes := by
  cases complete with
  | basic known => exact known

end Node

/-! ### What a reader holds -/

namespace OpenType

def Sound : OpenType → Prop
  | .array => True
  | .struct _ members => ∀ member ∈ members, member.Complete
  | .entryKey _ => True
  | .entryValue _ key => ∃ code ∈ Node.basicCodes, key = .basic code
  | .entryEnd _ key value => (∃ code ∈ Node.basicCodes, key = .basic code) ∧ value.Complete

/-- Only inside an array may the construct be open. -/
def needsArray : OpenType → Bool
  | .array => false
  | .struct _ _ => false
  | _ => true

/-- The open constructs are sound, and dict entries stand directly inside arrays. -/
def AllSound : List OpenType → Prop
  | [] => True
  | part :: outer =>
    part.Sound ∧ (part.needsArray = true → outer.head? = some .array) ∧ AllSound outer

end OpenType

namespace Reader

/-- All that a reader holds belongs to the grammar. -/
structure Sound (r : Reader) : Prop where
  done : ∀ node ∈ r.done, node.Complete
  opened : OpenType.AllSound r.opened

theorem sound_empty : empty.Sound where
  done := by
    intro node member
    cases member
  opened := trivial

/-- What may end inside the given open constructs: a complete type anywhere, and a dict entry
where an array waits for it. -/
def MayEnd (opened : List OpenType) (node : Node) : Prop :=
  node.Complete ∨
    opened.head? = some .array ∧
      ∃ code ∈ Node.basicCodes, ∃ value : Node, value.Complete ∧ node = .entry (.basic code) value

theorem MayEnd.complete {part : OpenType} {outer : List OpenType} {node : Node}
    (ends : MayEnd (part :: outer) node) (other : part ≠ .array) : node.Complete := by
  rcases ends with complete | ⟨isArray, _⟩
  · exact complete
  · exact absurd (Option.some.inj isArray) other

theorem MayEnd.array {outer : List OpenType} {node : Node}
    (ends : MayEnd (.array :: outer) node) : MayEnd outer (.array node) := by
  rcases ends with complete | ⟨_, code, known, value, complete, same⟩
  · exact Or.inl (.array complete)
  · subst same
    exact Or.inl (.dictionary known complete)

theorem sound_of_complete {done : List Node} {opened : List OpenType} {node : Node} {r : Reader}
    (doneSound : ∀ other ∈ done, other.Complete) (openedSound : OpenType.AllSound opened)
    (ends : MayEnd opened node) (ended : complete done opened node = .ok r) : r.Sound := by
  induction opened generalizing node with
  | nil =>
      have isComplete : node.Complete := by
        rcases ends with isComplete | ⟨impossible, _⟩
        · exact isComplete
        · cases impossible
      cases ended
      exact ⟨List.forall_mem_cons.2 ⟨isComplete, doneSound⟩, trivial⟩
  | cons part outer ih =>
      obtain ⟨partSound, place, outerSound⟩ := openedSound
      cases part with
      | array => exact ih outerSound ends.array ended
      | struct start members =>
          have isComplete := ends.complete (by simp)
          cases ended
          exact ⟨doneSound, List.forall_mem_cons.2 ⟨isComplete, partSound⟩, place, outerSound⟩
      | entryKey start =>
          have isComplete := ends.complete (by simp)
          cases node with
          | basic code =>
              cases ended
              exact ⟨doneSound, ⟨code, isComplete.known, rfl⟩, place, outerSound⟩
          | _ => cases ended
      | entryValue start key =>
          have isComplete := ends.complete (by simp)
          cases ended
          exact ⟨doneSound, ⟨partSound, isComplete⟩, place, outerSound⟩
      | entryEnd start key value => cases ended

/-! ### Steps keep the invariant -/

theorem Sound.openStruct {r next : Reader} {index : Nat} {part : OpenType} (sound : r.Sound)
    (partSound : part.Sound) (place : part.needsArray = true → r.opened.head? = some .array)
    (opens : r.openStruct index part = .ok next) : next.Sound := by
  unfold Reader.openStruct at opens
  split at opens
  · cases opens
  · cases opens
    exact ⟨sound.done, partSound, place, sound.opened⟩

theorem Sound.beginType {r next : Reader} {index : Nat} {c : Char} (sound : r.Sound)
    (begins : r.beginType index c = .ok next) : next.Sound := by
  unfold Reader.beginType at begins
  split at begins
  · rename_i known
    have isComplete : (Node.basic (.singleton c)).Complete :=
      .basic (List.contains_iff_mem.1 known)
    exact sound_of_complete sound.done sound.opened (Or.inl isComplete) begins
  · split at begins
    · exact sound_of_complete sound.done sound.opened (Or.inl .variant) begins
    · split at begins
      · split at begins
        · cases begins
        · cases begins
          exact ⟨sound.done, trivial, by simp [OpenType.needsArray], sound.opened⟩
      · split at begins
        · refine sound.openStruct ?_ (by simp [OpenType.needsArray]) begins
          intro member impossible
          cases impossible
        · split at begins
          · split at begins
            · rename_i outer opened
              have partSound : OpenType.Sound (.entryKey index) := trivial
              exact sound.openStruct partSound (fun _ => by rw [opened]; rfl) begins
            · cases begins
          · split at begins
            · cases begins
            · cases begins

theorem Sound.step {r next : Reader} {index : Nat} {c : Char} (sound : r.Sound)
    (steps : r.step index c = .ok next) : next.Sound := by
  have openedSound := sound.opened
  unfold Reader.step at steps
  split at steps
  · rename_i start members outer opened
    rw [opened] at openedSound
    obtain ⟨membersSound, _, outerSound⟩ := openedSound
    split at steps
    · cases members with
      | nil => cases steps
      | cons first others =>
          have isComplete : (Node.struct (first :: others).reverse).Complete :=
            .struct (by simp) (fun member listed =>
              membersSound member (List.mem_reverse.1 listed))
          exact sound_of_complete sound.done outerSound (Or.inl isComplete) steps
    · exact sound.beginType steps
  · split at steps
    · cases steps
    · exact sound.beginType steps
  · split at steps
    · cases steps
    · exact sound.beginType steps
  · rename_i start key value outer opened
    rw [opened] at openedSound
    obtain ⟨⟨⟨code, known, sameKey⟩, valueComplete⟩, place, outerSound⟩ := openedSound
    subst sameKey
    split at steps
    · have ends : MayEnd outer (.entry (.basic code) value) :=
        Or.inr ⟨place rfl, code, known, value, valueComplete, rfl⟩
      exact sound_of_complete sound.done outerSound ends steps
    · cases steps
  · exact sound.beginType steps

theorem Sound.steps {r next : Reader} {index : Nat} {text : List Char} (sound : r.Sound)
    (taken : r.steps index text = .ok next) : next.Sound := by
  induction text generalizing r index with
  | nil =>
      cases taken
      exact sound
  | cons c rest ih =>
      rw [Reader.steps] at taken
      cases stepped : r.step index c with
      | error fault =>
          rw [stepped] at taken
          cases taken
      | ok between =>
          rw [stepped] at taken
          exact ih (sound.step stepped) taken

end Reader

namespace Node

theorem complete_of_readAll {text : String} {nodes : List Node}
    (read : readAll text = .ok nodes) : ∀ node ∈ nodes, node.Complete := by
  unfold readAll at read
  split at read
  · cases read
  · split at read
    · rename_i r taken
      have sound : r.Sound := Reader.sound_empty.steps taken
      unfold Reader.finish at read
      split at read
      · cases read
        intro node member
        exact sound.done node (List.mem_reverse.1 member)
      all_goals cases read
    · cases read

/-- Whatever can be read belongs to the grammar. -/
theorem complete_of_read {text : String} {node : Node} (read : Node.read text = .ok node) :
    node.Complete := by
  unfold Node.read at read
  split at read
  · cases read
  · rename_i single
    cases read
    exact complete_of_readAll single node List.mem_cons_self
  · cases read
  · cases read

/-! ### Types that can be marshalled -/

/-- A type made of known codes, arrays, structs, and dict entries with a basic key. -/
inductive Marshallable : Node → Prop where
  | basic {code : String} (known : code ∈ basicCodes) : Marshallable (.basic code)
  | array {element : Node} (inside : Marshallable element) : Marshallable (.array element)
  | struct {members : List Node} (inside : ∀ member ∈ members, Marshallable member) :
      Marshallable (.struct members)
  | entry {code : String} {value : Node} (known : code ∈ basicCodes)
      (inside : Marshallable value) : Marshallable (.entry (.basic code) value)

theorem any_of_mem {test : Node → Bool} {members : List Node} {member : Node}
    (listed : member ∈ members) (none : anyOf test members = false) : member.any test = false := by
  induction members with
  | nil => cases listed
  | cons first rest ih =>
      rw [anyOf, Bool.or_eq_false_iff] at none
      rcases List.mem_cons.1 listed with same | later
      · rw [same]
        exact none.1
      · exact ih later none.2

theorem Complete.marshallable {node : Node} (complete : node.Complete)
    (plain : node.hasVariant = false) : node.Marshallable := by
  unfold hasVariant at plain
  induction complete with
  | basic known => exact .basic known
  | variant => simp [any, isVariant] at plain
  | array _ ih =>
      rw [any, Bool.or_eq_false_iff] at plain
      exact .array (ih plain.2)
  | dictionary known _ ih =>
      simp only [any, Bool.or_eq_false_iff] at plain
      exact .array (.entry known (ih plain.2.2.2))
  | struct _ _ ih =>
      rw [any, Bool.or_eq_false_iff] at plain
      exact .struct (fun member listed => ih member listed (any_of_mem listed plain.2))

/-- A type without variants that can be read can be marshalled. -/
theorem marshallable_of_read {text : String} {node : Node} (read : Node.read text = .ok node)
    (plain : node.hasVariant = false) : node.Marshallable :=
  (complete_of_read read).marshallable plain

theorem anyOf_eq_false {test : Node → Bool} {members : List Node}
    (none : ∀ member ∈ members, member.any test = false) : anyOf test members = false := by
  induction members with
  | nil => rfl
  | cons first rest ih =>
      rw [anyOf, none first List.mem_cons_self,
        ih (fun member listed => none member (List.mem_cons_of_mem _ listed))]
      rfl

/-- A type whose letters are all known, and whose dict entries have basic keys. -/
inductive Spelt : Node → Prop where
  | basic {code : String} (known : code ∈ basicCodes) : Spelt (.basic code)
  | variant : Spelt .variant
  | array {element : Node} (inside : Spelt element) : Spelt (.array element)
  | struct {members : List Node} (inside : ∀ member ∈ members, Spelt member) :
      Spelt (.struct members)
  | entry {code : String} {value : Node} (known : code ∈ basicCodes) (inside : Spelt value) :
      Spelt (.entry (.basic code) value)

theorem Marshallable.spelt {node : Node} (marshallable : node.Marshallable) : node.Spelt := by
  induction marshallable with
  | basic known => exact .basic known
  | array _ ih => exact .array ih
  | struct _ ih => exact .struct ih
  | entry known _ ih => exact .entry known ih

theorem Complete.spelt {node : Node} (complete : node.Complete) : node.Spelt := by
  induction complete with
  | basic known => exact .basic known
  | variant => exact .variant
  | array _ ih => exact .array ih
  | dictionary known _ ih => exact .array (.entry known ih)
  | struct _ _ ih => exact .struct ih

theorem Spelt.hasStray {node : Node} (spelt : node.Spelt) : node.hasStray = false := by
  unfold Node.hasStray
  induction spelt with
  | basic _ => rfl
  | variant => rfl
  | array _ ih => simp [any, isStray, ih]
  | struct _ ih => simp [any, isStray, anyOf_eq_false ih]
  | entry _ _ ih => simp [any, isStray, ih]

theorem Marshallable.hasStray {node : Node} (marshallable : node.Marshallable) :
    node.hasStray = false :=
  marshallable.spelt.hasStray

theorem Marshallable.hasVariant {node : Node} (marshallable : node.Marshallable) :
    node.hasVariant = false := by
  unfold Node.hasVariant
  induction marshallable with
  | basic _ => rfl
  | array _ ih => simp [any, isVariant, ih]
  | struct _ ih => simp [any, isVariant, anyOf_eq_false ih]
  | entry _ _ ih => simp [any, isVariant, ih]

/-! ### Structs and dict entries at once -/

/-- The type is a struct or a dict entry: its members are marshalled one after the other. -/
def isGroup : Node → Bool
  | struct _ => true
  | entry _ _ => true
  | _ => false

theorem Marshallable.child {node member : Node} (marshallable : node.Marshallable)
    (listed : member ∈ node.children) : member.Marshallable := by
  cases marshallable with
  | basic _ => cases listed
  | array inside =>
      rw [List.mem_singleton.1 listed]
      exact inside
  | struct inside => exact inside member listed
  | entry known inside =>
      rcases List.mem_cons.1 listed with same | later
      · rw [same]
        exact .basic known
      · rw [List.mem_singleton.1 later]
        exact inside

/-- Induction over the types that can be marshalled, where structs and dict entries are one case. -/
theorem Marshallable.byKind {motive : (node : Node) → node.Marshallable → Prop}
    (basic : ∀ (code : String) (known : code ∈ basicCodes), motive (.basic code) (.basic known))
    (array : ∀ (element : Node) (inside : element.Marshallable),
      motive element inside → motive (.array element) (.array inside))
    (group : ∀ (node : Node) (marshallable : node.Marshallable), node.isGroup = true →
      (∀ (member : Node) (listed : member ∈ node.children),
        motive member (marshallable.child listed)) → motive node marshallable)
    {node : Node} (marshallable : node.Marshallable) : motive node marshallable := by
  induction marshallable with
  | basic known => exact basic _ known
  | array inside ih => exact array _ inside ih
  | struct inside ih => exact group _ (.struct inside) rfl ih
  | entry known inside ih =>
      apply group _ (.entry known inside) rfl
      intro member listed
      rcases List.mem_cons.1 listed with same | later
      · subst same
        exact basic _ known
      · have same := List.mem_singleton.1 later
        subst same
        exact ih

end Node

/-- Rows of dictionaries, the values of which are arrays of numbers. -/
def tableType : Node :=
  .array (.struct [.array (.entry (.basic "s") (.array (.basic "d"))), .basic "i"])

theorem read_tableType : Node.read "a(a\x7bsad\x7di)" = .ok tableType := rfl

end DBusMarshal
