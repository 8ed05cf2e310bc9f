import DBusMarshal.Proofs.Grammar

/-!
What a reader holds of the text in front of it.

`Reader.Outcome` lists all that a step can come to: a type of one character, a construct that opens
or closes, or a refusal. From it one invariant follows. Written out, what a reader holds is the text
that it has taken; nothing in it stands too deep; and every open construct began at a character that
was taken.
-/

set_option autoImplicit false

namespace DBusMarshal

namespace Node

/-! ### Nesting -/

def isArray : Node → Bool
  | array _ => true
  | _ => false

mutual

/-- The most types on one path from the root of a tree to a leaf that satisfy a test. -/
def nesting (test : Node → Bool) (node : Node) : Nat :=
  (test node).toNat +
    match node with
    | array element => element.nesting test
    | struct members => nestingOf test members
    | entry key value => max (key.nesting test) (value.nesting test)
    | _ => 0

def nestingOf (test : Node → Bool) : List Node → Nat
  | [] => 0
  | node :: rest => max (node.nesting test) (nestingOf test rest)

end

theorem nestingOf_le_iff {test : Node → Bool} {members : List Node} {bound : Nat} :
    nestingOf test members ≤ bound ↔ ∀ member ∈ members, member.nesting test ≤ bound := by
  induction members with
  | nil => simp [nestingOf]
  | cons member rest ih => rw [nestingOf, Nat.max_le, ih, List.forall_mem_cons]

theorem nesting_of_isGroup (test : Node → Bool) {node : Node} (group : node.isGroup = true) :
    node.nesting test = (test node).toNat + nestingOf test node.children := by
  cases node with
  | struct members => rfl
  | entry key value => simp [nesting, nestingOf, children]
  | _ => cases group

theorem signatures_append (first second : List Node) :
    signatures (first ++ second) = signatures first ++ signatures second := by
  induction first with
  | nil => simp [signatures]
  | cons node rest ih => rw [List.cons_append, signatures, ih, signatures, String.append_assoc]

end Node

/-! ### Room inside open constructs -/

/-- So many more arrays, and so many more structs and dict entries, may open inside. -/
structure Room (opened : List OpenType) (arrays groups : Nat) : Prop where
  arrays : opened.countP OpenType.isArray + arrays ≤ maxArrayDepth
  groups : opened.countP (fun part => !part.isArray) + groups ≤ maxStructDepth

/-- There is room for the type inside the open constructs. -/
def Within (opened : List OpenType) (node : Node) : Prop :=
  Room opened (node.nesting Node.isArray) (node.nesting Node.isGroup)

section Room

variable {outer : List OpenType} {node : Node} {arrays groups : Nat}

theorem room_array_iff :
    Room (.array :: outer) arrays groups ↔ Room outer (arrays + 1) groups := by
  constructor
  · rintro ⟨more, others⟩
    rw [List.countP_cons_of_pos rfl] at more
    rw [List.countP_cons_of_neg (by decide)] at others
    exact ⟨by omega, others⟩
  · rintro ⟨more, others⟩
    refine ⟨?_, ?_⟩
    · rw [List.countP_cons_of_pos rfl]
      omega
    · rw [List.countP_cons_of_neg (by decide)]
      exact others

theorem room_group_iff {part : OpenType} (notArray : part.isArray = false) :
    Room (part :: outer) arrays groups ↔ Room outer arrays (groups + 1) := by
  constructor
  · rintro ⟨others, more⟩
    rw [List.countP_cons_of_neg (by simp [notArray])] at others
    rw [List.countP_cons_of_pos (by simp [notArray])] at more
    exact ⟨others, by omega⟩
  · rintro ⟨others, more⟩
    refine ⟨?_, ?_⟩
    · rw [List.countP_cons_of_neg (by simp [notArray])]
      exact others
    · rw [List.countP_cons_of_pos (by simp [notArray])]
      omega

theorem Room.mono {fewerArrays fewerGroups : Nat} (room : Room outer arrays groups)
    (less : fewerArrays ≤ arrays) (lessGroups : fewerGroups ≤ groups) :
    Room outer fewerArrays fewerGroups :=
  ⟨Nat.le_trans (Nat.add_le_add_left less _) room.arrays,
    Nat.le_trans (Nat.add_le_add_left lessGroups _) room.groups⟩

theorem within_array_iff {element : Node} :
    Within outer (.array element) ↔ Within (.array :: outer) element := by
  have arrays : (Node.array element).nesting Node.isArray = element.nesting Node.isArray + 1 :=
    Nat.add_comm 1 _
  have groups : (Node.array element).nesting Node.isGroup = element.nesting Node.isGroup :=
    Nat.zero_add _
  rw [Within, arrays, groups, Within, room_array_iff]

theorem Within.exchange {part other : OpenType} (notArray : part.isArray = false)
    (alike : other.isArray = false) (within : Within (part :: outer) node) :
    Within (other :: outer) node :=
  (room_group_iff alike).2 ((room_group_iff notArray).1 within)

/-- A struct or dict entry fits where each of its members fits inside it. -/
theorem within_group_iff {part : OpenType} (notArray : part.isArray = false)
    (group : node.isGroup = true) :
    Within outer node ↔
      Room (part :: outer) 0 0 ∧ ∀ member ∈ node.children, Within (part :: outer) member := by
  have arrays : node.nesting Node.isArray = Node.nestingOf Node.isArray node.children := by
    rw [Node.nesting_of_isGroup _ group]
    cases node with
    | array element => cases group
    | _ => exact Nat.zero_add _
  have groups : node.nesting Node.isGroup = Node.nestingOf Node.isGroup node.children + 1 := by
    rw [Node.nesting_of_isGroup _ group, group, Nat.add_comm]
    rfl
  rw [Within, arrays, groups, ← room_group_iff notArray]
  constructor
  · intro room
    refine ⟨room.mono (Nat.zero_le _) (Nat.zero_le _), ?_⟩
    intro member listed
    exact room.mono (Node.nestingOf_le_iff.1 (Nat.le_refl _) member listed)
      (Node.nestingOf_le_iff.1 (Nat.le_refl _) member listed)
  · rintro ⟨room, inside⟩
    have fewArrays : Node.nestingOf Node.isArray node.children ≤
        maxArrayDepth - (part :: outer).countP OpenType.isArray := by
      rw [Node.nestingOf_le_iff]
      intro member listed
      exact Nat.le_sub_of_add_le' (inside member listed).arrays
    have fewGroups : Node.nestingOf Node.isGroup node.children ≤
        maxStructDepth - (part :: outer).countP (fun part => !part.isArray) := by
      rw [Node.nestingOf_le_iff]
      intro member listed
      exact Nat.le_sub_of_add_le' (inside member listed).groups
    have own := room.arrays
    have ownGroups := room.groups
    exact ⟨by omega, by omega⟩

end Room

/-! ### What a step does -/

namespace OpenType

/-- The types that the construct holds already. -/
def held : OpenType → List Node
  | struct _ members => members
  | entryValue _ key => [key]
  | entryEnd _ key value => [key, value]
  | _ => []

/-- What has been read of the construct. -/
def written : OpenType → String
  | array => "a"
  | struct _ members => "(" ++ Node.signatures members.reverse
  | entryKey _ => "\x7b"
  | entryValue _ key => "\x7b" ++ key.signature
  | entryEnd _ key value => "\x7b" ++ (key.signature ++ value.signature)

def writtenAll : List OpenType → String
  | [] => ""
  | part :: outer => writtenAll outer ++ part.written

def StartsBefore (index : Nat) : OpenType → Prop
  | array => True
  | struct start _ => start < index
  | entryKey start => start < index
  | entryValue start _ => start < index
  | entryEnd start _ _ => start < index

def AllWithin : List OpenType → Prop
  | [] => True
  | part :: outer =>
    Room (part :: outer) 0 0 ∧ (∀ node ∈ part.held, Within (part :: outer) node) ∧ AllWithin outer

theorem AllWithin.room {opened : List OpenType} (within : AllWithin opened) :
    Room opened 0 0 := by
  cases opened with
  | nil => exact ⟨Nat.zero_le _, Nat.zero_le _⟩
  | cons part outer => exact within.1

/-- A construct takes the place of another one when it holds no more than what fits in there. -/
theorem AllWithin.exchange {part other : OpenType} {outer : List OpenType}
    (notArray : part.isArray = false) (alike : other.isArray = false)
    (within : AllWithin (part :: outer))
    (held : ∀ node ∈ other.held, node ∈ part.held ∨ Within (part :: outer) node) :
    AllWithin (other :: outer) := by
  obtain ⟨room, heldWithin, outerWithin⟩ := within
  refine ⟨(room_group_iff alike).2 ((room_group_iff notArray).1 room), ?_, outerWithin⟩
  intro node listed
  rcases held node listed with before | now
  · exact (heldWithin node before).exchange notArray alike
  · exact now.exchange notArray alike

theorem StartsBefore.mono {part : OpenType} {index later : Nat} (starts : part.StartsBefore index)
    (atMost : index ≤ later) : part.StartsBefore later := by
  cases part with
  | array => trivial
  | _ => exact Nat.lt_of_lt_of_le starts atMost

end OpenType

namespace Reader

/-- All that a step can come to. -/
inductive Outcome (r : Reader) (index : Nat) : Char → Except SignatureError Reader → Prop where
  | basic {c : Char} (known : String.singleton c ∈ Node.basicCodes) :
      Outcome r index c (complete r.done r.opened (.basic (.singleton c)))
  | variant : Outcome r index 'v' (complete r.done r.opened .variant)
  | array (room : r.arrayDepth + 1 ≤ maxArrayDepth) : Outcome r index 'a' (.ok (r.push .array))
  | struct (room : r.structDepth + 1 ≤ maxStructDepth) :
      Outcome r index '(' (.ok (r.push (.struct index [])))
  | entry (room : r.structDepth + 1 ≤ maxStructDepth) :
      Outcome r index '{' (.ok (r.push (.entryKey index)))
  | structEnd {start : Nat} {members : List Node} {outer : List OpenType}
      (innermost : r.opened = .struct start members :: outer) :
      Outcome r index ')' (complete r.done outer (.struct members.reverse))
  | entryEnd {start : Nat} {key value : Node} {outer : List OpenType}
      (innermost : r.opened = .entryEnd start key value :: outer) :
      Outcome r index '}' (complete r.done outer (.entry key value))
  | refused {c : Char} (fault : SignatureFault) {place : Nat}
      (known : (∀ part ∈ r.opened, part.StartsBefore index) → place ≤ index) :
      Outcome r index c (.error ⟨fault, place⟩)

theorem outcome_here (r : Reader) (index : Nat) (c : Char) (fault : SignatureFault) :
    r.Outcome index c (.error ⟨fault, index⟩) :=
  .refused fault fun _ => Nat.le_refl index

theorem outcome_start {r : Reader} {index start : Nat} {c : Char} {part : OpenType}
    {outer : List OpenType} (innermost : r.opened = part :: outer)
    (began : part.StartsBefore index → start < index) (fault : SignatureFault) :
    r.Outcome index c (.error ⟨fault, start⟩) := by
  refine .refused fault fun starts => Nat.le_of_lt (began (starts part ?_))
  rw [innermost]
  exact List.mem_cons_self

theorem openStruct_outcome {r : Reader} {index : Nat} {c : Char} {part : OpenType}
    (opens : r.structDepth + 1 ≤ maxStructDepth → r.Outcome index c (.ok (r.push part))) :
    r.Outcome index c (r.openStruct index part) := by
  unfold openStruct
  split
  · exact r.outcome_here index c _
  · exact opens (by omega)

theorem beginType_outcome (r : Reader) (index : Nat) (c : Char) :
    r.Outcome index c (r.beginType index c) := by
  unfold beginType
  by_cases isCode : Node.basicCodes.contains (.singleton c) = true
  · rw [if_pos isCode]
    exact .basic (List.contains_iff_mem.1 isCode)
  rw [if_neg isCode]
  by_cases isVariant : c = 'v'
  · subst isVariant
    exact .variant
  rw [if_neg isVariant]
  by_cases isArray : c = 'a'
  · subst isArray
    rw [if_pos rfl]
    split
    · exact r.outcome_here index 'a' _
    · exact .array (by omega)
  rw [if_neg isArray]
  by_cases isStruct : c = '('
  · subst isStruct
    exact openStruct_outcome .struct
  rw [if_neg isStruct]
  by_cases isEntry : c = '{'
  · subst isEntry
    rw [if_pos rfl]
    split
    · exact openStruct_outcome .entry
    · exact r.outcome_here index '{' _
  rw [if_neg isEntry]
  split
  · exact r.outcome_here index c _
  · exact r.outcome_here index c _

theorem step_outcome (r : Reader) (index : Nat) (c : Char) :
    r.Outcome index c (r.step index c) := by
  unfold step
  split
  · rename_i start members outer innermost
    split
    · rename_i isEnd
      subst isEnd
      cases members with
      | nil => exact outcome_start innermost id _
      | cons first others => exact .structEnd innermost
    · exact r.beginType_outcome index c
  · rename_i start outer innermost
    split
    · exact outcome_start innermost id _
    · exact r.beginType_outcome index c
  · rename_i start key outer innermost
    split
    · exact outcome_start innermost id _
    · exact r.beginType_outcome index c
  · rename_i start key value outer innermost
    split
    · rename_i isEnd
      subst isEnd
      exact .entryEnd innermost
    · exact r.outcome_here index c _
  · exact r.beginType_outcome index c

/-! ### The invariant -/

/-- What has been read of everything that a reader holds. -/
def written (r : Reader) : String := Node.signatures r.done.reverse ++ OpenType.writtenAll r.opened

/-- A reader holds the text in front of it, and nothing else. -/
structure Reflects (r : Reader) (front : List Char) : Prop where
  written : r.written.toList = front
  done : ∀ node ∈ r.done, Within [] node
  opened : OpenType.AllWithin r.opened
  starts : ∀ part ∈ r.opened, part.StartsBefore front.length

theorem reflects_empty : empty.Reflects [] where
  written := rfl
  done := by
    intro node impossible
    cases impossible
  opened := trivial
  starts := by
    intro part impossible
    cases impossible

theorem written_of_complete {done : List Node} {opened : List OpenType} {node : Node}
    {next : Reader} (ended : complete done opened node = .ok next) :
    next.written = Reader.written ⟨done, opened⟩ ++ node.signature := by
  induction opened generalizing node with
  | nil =>
      cases ended
      simp [written, OpenType.writtenAll, Node.signatures_append, Node.signatures]
  | cons part outer ih =>
      cases part with
      | array =>
          rw [ih ended]
          simp [written, OpenType.writtenAll, OpenType.written, Node.signature, String.append_assoc]
      | struct start members =>
          cases ended
          simp [written, OpenType.writtenAll, OpenType.written, Node.signatures_append,
            Node.signatures, String.append_assoc]
      | entryKey start =>
          cases node with
          | basic code =>
              cases ended
              simp [written, OpenType.writtenAll, OpenType.written, String.append_assoc]
          | _ => cases ended
      | entryValue start key =>
          cases ended
          simp [written, OpenType.writtenAll, OpenType.written, String.append_assoc]
      | entryEnd start key value => cases ended

theorem within_of_complete {done : List Node} {opened : List OpenType} {node : Node}
    {next : Reader} (doneWithin : ∀ other ∈ done, Within [] other)
    (openedWithin : OpenType.AllWithin opened) (within : Within opened node)
    (ended : complete done opened node = .ok next) :
    (∀ other ∈ next.done, Within [] other) ∧ OpenType.AllWithin next.opened := by
  induction opened generalizing node with
  | nil =>
      cases ended
      exact ⟨List.forall_mem_cons.2 ⟨within, doneWithin⟩, trivial⟩
  | cons part outer ih =>
      cases part with
      | array => exact ih openedWithin.2.2 (within_array_iff.2 within) ended
      | struct start members =>
          cases ended
          refine ⟨doneWithin, openedWithin.exchange rfl rfl ?_⟩
          intro other listed
          rcases List.mem_cons.1 listed with same | before
          · exact Or.inr (same ▸ within)
          · exact Or.inl before
      | entryKey start =>
          cases node with
          | basic code =>
              cases ended
              refine ⟨doneWithin, openedWithin.exchange rfl rfl ?_⟩
              intro other listed
              exact Or.inr (List.mem_singleton.1 listed ▸ within)
          | _ => cases ended
      | entryValue start key =>
          cases ended
          refine ⟨doneWithin, openedWithin.exchange rfl rfl ?_⟩
          intro other listed
          rcases List.mem_cons.1 listed with isKey | isValue
          · exact Or.inl (List.mem_singleton.2 isKey)
          · exact Or.inr (List.mem_singleton.1 isValue ▸ within)
      | entryEnd start key value => cases ended

theorem starts_of_complete {done : List Node} {opened : List OpenType} {node : Node}
    {next : Reader} {index : Nat} (starts : ∀ part ∈ opened, part.StartsBefore index)
    (ended : complete done opened node = .ok next) :
    ∀ part ∈ next.opened, part.StartsBefore index := by
  induction opened generalizing node with
  | nil =>
      cases ended
      exact starts
  | cons part outer ih =>
      obtain ⟨first, others⟩ := List.forall_mem_cons.1 starts
      cases part with
      | array => exact ih others ended
      | struct start members =>
          cases ended
          exact List.forall_mem_cons.2 ⟨first, others⟩
      | entryKey start =>
          cases node with
          | basic code =>
              cases ended
              exact List.forall_mem_cons.2 ⟨first, others⟩
          | _ => cases ended
      | entryValue start key =>
          cases ended
          exact List.forall_mem_cons.2 ⟨first, others⟩
      | entryEnd start key value => cases ended

namespace Reflects

variable {r next : Reader} {front : List Char} {c : Char}

theorem startsLater (reflects : r.Reflects front) :
    ∀ part ∈ r.opened, part.StartsBefore (front ++ [c]).length := by
  intro part listed
  exact (reflects.starts part listed).mono (by simp)

/-- A type that ends leaves a reader that holds one character more. -/
theorem complete {opened : List OpenType} {node : Node} (reflects : r.Reflects front)
    (inside : ∃ inner, r.opened = inner ++ opened) (openedWithin : OpenType.AllWithin opened)
    (within : Within opened node)
    (spelt : (Reader.written ⟨r.done, opened⟩ ++ node.signature).toList = front ++ [c])
    (ended : Reader.complete r.done opened node = .ok next) : next.Reflects (front ++ [c]) := by
  obtain ⟨doneWithin, laterWithin⟩ := within_of_complete reflects.done openedWithin within ended
  obtain ⟨inner, whole⟩ := inside
  refine ⟨?_, doneWithin, laterWithin, starts_of_complete ?_ ended⟩
  · rw [written_of_complete ended, spelt]
  · intro part listed
    exact reflects.startsLater part (whole ▸ List.mem_append_right inner listed)

theorem leaf {node : Node} (reflects : r.Reflects front) (within : Within r.opened node)
    (spelt : node.signature = .singleton c)
    (ended : Reader.complete r.done r.opened node = .ok next) : next.Reflects (front ++ [c]) := by
  refine reflects.complete ⟨[], rfl⟩ reflects.opened within ?_ ended
  rw [String.toList_append, spelt, String.toList_singleton]
  exact congrArg (· ++ [c]) reflects.written

theorem push {part : OpenType} (reflects : r.Reflects front) (fresh : part.held = [])
    (room : Room (part :: r.opened) 0 0) (spelt : part.written = .singleton c)
    (starts : part.StartsBefore (front ++ [c]).length) : (r.push part).Reflects (front ++ [c]) where
  written := by
    have whole : (r.push part).written = r.written ++ part.written := by
      simp [Reader.written, Reader.push, OpenType.writtenAll, String.append_assoc]
    rw [whole, String.toList_append, reflects.written, spelt, String.toList_singleton]
  done := reflects.done
  opened := by
    refine ⟨room, ?_, reflects.opened⟩
    rw [fresh]
    intro node impossible
    cases impossible
  starts := List.forall_mem_cons.2 ⟨starts, reflects.startsLater⟩

/-- One step keeps the invariant. -/
theorem step (reflects : r.Reflects front) (stepped : r.step front.length c = .ok next) :
    next.Reflects (front ++ [c]) := by
  have here : front.length < (front ++ [c]).length := by simp
  have outcome := r.step_outcome front.length c
  generalize r.step front.length c = result at outcome stepped
  cases outcome with
  | basic known =>
      have within : Within r.opened (.basic (.singleton c)) := reflects.opened.room
      exact reflects.leaf within rfl stepped
  | variant =>
      have within : Within r.opened .variant := reflects.opened.room
      exact reflects.leaf within rfl stepped
  | array room =>
      cases stepped
      refine reflects.push rfl (room_array_iff.2 ⟨?_, reflects.opened.room.groups⟩) rfl trivial
      exact room
  | struct room =>
      cases stepped
      refine reflects.push rfl ((room_group_iff rfl).2 ⟨reflects.opened.room.arrays, ?_⟩) rfl here
      exact room
  | entry room =>
      cases stepped
      refine reflects.push rfl ((room_group_iff rfl).2 ⟨reflects.opened.room.arrays, ?_⟩) rfl here
      exact room
  | @structEnd start members outer innermost =>
      obtain ⟨room, held, outerWithin⟩ := innermost ▸ reflects.opened
      have within : Within outer (.struct members.reverse) :=
        (within_group_iff rfl rfl).2
          ⟨room, fun member listed => held member (List.mem_reverse.1 listed)⟩
      refine reflects.complete ⟨[_], innermost⟩ outerWithin within ?_ stepped
      have whole : r.written = _ :=
        congrArg (fun opened => Reader.written ⟨r.done, opened⟩) innermost
      rw [← reflects.written, whole]
      simp [Reader.written, OpenType.writtenAll, OpenType.written, Node.signature]
  | @entryEnd start key value outer innermost =>
      obtain ⟨room, held, outerWithin⟩ := innermost ▸ reflects.opened
      have within : Within outer (.entry key value) := (within_group_iff rfl rfl).2 ⟨room, held⟩
      refine reflects.complete ⟨[_], innermost⟩ outerWithin within ?_ stepped
      have whole : r.written = _ :=
        congrArg (fun opened => Reader.written ⟨r.done, opened⟩) innermost
      rw [← reflects.written, whole]
      simp [Reader.written, OpenType.writtenAll, OpenType.written, Node.signature]
  | refused fault known => cases stepped

/-- Taking text keeps the invariant. -/
theorem steps {text : List Char} (reflects : r.Reflects front)
    (taken : r.steps front.length text = .ok next) : next.Reflects (front ++ text) := by
  induction text generalizing r front with
  | nil =>
      cases taken
      rw [List.append_nil]
      exact reflects
  | cons c rest ih =>
      rw [Reader.steps] at taken
      cases stepped : r.step front.length c with
      | error fault =>
          rw [stepped] at taken
          cases taken
      | ok between =>
          rw [stepped] at taken
          have length : (front ++ [c]).length = front.length + 1 := by simp
          rw [← length] at taken
          have whole := ih (reflects.step stepped) taken
          rwa [List.append_assoc, List.singleton_append] at whole

end Reflects

end Reader

end DBusMarshal
