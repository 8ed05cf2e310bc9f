import DBusMarshal.Proofs.Reading

/-!
The texts that are signatures.

Reading accepts a text exactly when it is the signature of well-formed types, and gives back these
types. One half is the invariant of reading. For the other half, the signature of a type takes a
reader to where the finished type would be handed to it. A text that is refused is refused at one
of its characters or at its end.
-/

set_option autoImplicit false

namespace DBusMarshal

namespace Node

/-- A type that a signature may hold: it belongs to the grammar, and on no path from its root to a
leaf there are more than 32 arrays, or more than 32 structs and dict entries. -/
structure WellFormed (node : Node) : Prop where
  complete : node.Complete
  arrays : node.nesting isArray ≤ 32
  groups : node.nesting isGroup ≤ 32

theorem within_nil_iff (node : Node) :
    Within [] node ↔ node.nesting isArray ≤ 32 ∧ node.nesting isGroup ≤ 32 := by
  constructor
  · rintro ⟨arrays, groups⟩
    rw [List.countP_nil, Nat.zero_add] at arrays groups
    exact ⟨arrays, groups⟩
  · rintro ⟨arrays, groups⟩
    constructor
    · rw [List.countP_nil, Nat.zero_add]
      exact arrays
    · rw [List.countP_nil, Nat.zero_add]
      exact groups

theorem basicCodes_eq :
    basicCodes = ['y', 'b', 'n', 'q', 'i', 'u', 'x', 't', 'd', 'h', 's', 'o', 'g'].map
      String.singleton := by
  decide

/-- A code is one character, and none that ends a construct. -/
theorem exists_char_of_code {code : String} (known : code ∈ basicCodes) :
    ∃ c : Char, code = .singleton c ∧ c ≠ ')' ∧ c ≠ '}' := by
  rw [basicCodes_eq] at known
  obtain ⟨c, listed, same⟩ := List.mem_map.1 known
  have notEnd : ∀ c ∈ ['y', 'b', 'n', 'q', 'i', 'u', 'x', 't', 'd', 'h', 's', 'o', 'g'],
      c ≠ ')' ∧ c ≠ '}' := by
    simp
  exact ⟨c, same.symm, notEnd c listed⟩

end Node

namespace Reader

/-! ### Where a type may begin -/

/-- The innermost open construct still waits for a type. -/
def Awaits (r : Reader) : Prop :=
  ∀ (start : Nat) (key value : Node), r.opened.head? ≠ some (.entryEnd start key value)

variable {r : Reader} {index : Nat} {c : Char}

theorem step_of_awaits (awaits : r.Awaits) (notEnd : c ≠ ')') (notEntryEnd : c ≠ '}') :
    r.step index c = r.beginType index c := by
  unfold step
  split
  · rw [if_neg notEnd]
  · rw [if_neg notEntryEnd]
  · rw [if_neg notEntryEnd]
  · rename_i start key value outer innermost
    exact absurd (by rw [innermost]; rfl) (awaits start key value)
  · rfl

theorem steps_singleton (r : Reader) (index : Nat) (c : Char) :
    r.steps index [c] = r.step index c := by
  rw [steps]
  cases r.step index c <;> rfl

theorem steps_append_of_ok {first : List Char} {between : Reader} (second : List Char)
    (taken : r.steps index first = .ok between) :
    r.steps index (first ++ second) = between.steps (index + first.length) second := by
  rw [steps_append, taken]

theorem steps_cons_of_ok {between : Reader} (rest : List Char)
    (stepped : r.step index c = .ok between) :
    r.steps index (c :: rest) = between.steps (index + 1) rest := by
  rw [steps, stepped]

theorem step_basic (awaits : r.Awaits) {code : String} (known : code ∈ Node.basicCodes) :
    r.steps index code.toList = complete r.done r.opened (.basic code) := by
  obtain ⟨c, spelt, notEnd, notEntryEnd⟩ := Node.exists_char_of_code known
  subst spelt
  rw [String.toList_singleton, steps_singleton, step_of_awaits awaits notEnd notEntryEnd, beginType,
    if_pos (List.contains_iff_mem.2 known)]

theorem step_variant (awaits : r.Awaits) :
    r.step index 'v' = complete r.done r.opened .variant := by
  rw [step_of_awaits awaits (by decide) (by decide)]
  rfl

theorem step_array (awaits : r.Awaits) (room : r.arrayDepth + 1 ≤ maxArrayDepth) :
    r.step index 'a' = .ok (r.push .array) := by
  rw [step_of_awaits awaits (by decide) (by decide)]
  change (if maxArrayDepth < r.arrayDepth + 1 then _ else _) = _
  rw [if_neg (by omega)]

theorem openStruct_of_room {part : OpenType} (room : r.structDepth + 1 ≤ maxStructDepth) :
    r.openStruct index part = .ok (r.push part) := by
  rw [openStruct, if_neg (by omega)]

theorem step_struct (awaits : r.Awaits) (room : r.structDepth + 1 ≤ maxStructDepth) :
    r.step index '(' = .ok (r.push (.struct index [])) := by
  rw [step_of_awaits awaits (by decide) (by decide)]
  exact openStruct_of_room room

theorem step_entry {outer : List OpenType} (place : r.opened = .array :: outer)
    (room : r.structDepth + 1 ≤ maxStructDepth) :
    r.step index '{' = .ok (r.push (.entryKey index)) := by
  have awaits : r.Awaits := by
    intro start key value
    rw [place]
    simp
  rw [step_of_awaits awaits (by decide) (by decide)]
  unfold beginType
  rw [place]
  exact openStruct_of_room room

theorem step_structEnd {start : Nat} {members : List Node} {outer : List OpenType}
    (innermost : r.opened = .struct start members :: outer) (filled : members ≠ []) :
    r.step index ')' = complete r.done outer (.struct members.reverse) := by
  unfold step
  rw [innermost]
  cases members with
  | nil => exact absurd rfl filled
  | cons first others => rfl

theorem step_entryEnd {start : Nat} {key value : Node} {outer : List OpenType}
    (innermost : r.opened = .entryEnd start key value :: outer) :
    r.step index '}' = complete r.done outer (.entry key value) := by
  unfold step
  rw [innermost]
  rfl

end Reader

/-! ### Signatures take a reader to where their type ends -/

open Reader (Awaits)

/-- Where one type after the other is taken, the types join those that were taken before. -/
theorem steps_signatures (place : List Node → Reader) (members : List Node)
    (takes : ∀ (before : List Node), ∀ member ∈ members, ∀ index : Nat,
      (place before).steps index member.signature.toList = .ok (place (member :: before)))
    (before : List Node) (index : Nat) :
    (place before).steps index (Node.signatures members).toList =
      .ok (place (members.reverse ++ before)) := by
  induction members generalizing before index with
  | nil => rfl
  | cons member rest ih =>
      have first := takes before member List.mem_cons_self index
      have others := ih
        (fun before other listed => takes before other (List.mem_cons_of_mem _ listed))
        (member :: before) (index + member.signature.toList.length)
      rw [Node.signatures, String.toList_append, Reader.steps_append_of_ok _ first, others]
      simp

namespace Node

/-- The signature of a type takes a reader to where the type is handed to the open constructs. -/
def Spells (node : Node) : Prop :=
  ∀ (r : Reader) (index : Nat), r.Awaits → Within r.opened node →
    r.steps index node.signature.toList = Reader.complete r.done r.opened node

theorem spells_array {element : Node} (spells : element.Spells) : (array element).Spells := by
  intro r index awaits within
  have inside := within_array_iff.1 within
  have room : r.arrayDepth + 1 ≤ maxArrayDepth :=
    ((room_array_iff.1 inside).mono (Nat.le_add_left 1 _) (Nat.le_refl _)).arrays
  have awaitsInside : (r.push .array).Awaits := by
    intro start key value impossible
    cases impossible
  have text : (array element).signature.toList = 'a' :: element.signature.toList := by
    simp [signature]
  rw [text, Reader.steps_cons_of_ok _ (Reader.step_array awaits room),
    spells (r.push .array) (index + 1) awaitsInside inside]
  rfl

theorem spells_dictionary {code : String} {value : Node} (known : code ∈ basicCodes)
    (spells : value.Spells) : (array (entry (basic code) value)).Spells := by
  intro r index awaits within
  have inside := within_array_iff.1 within
  obtain ⟨room, members⟩ :=
    (within_group_iff (rfl : (OpenType.entryKey (index + 1)).isArray = false) rfl).1 inside
  have arrayRoom : r.arrayDepth + 1 ≤ maxArrayDepth :=
    ((room_array_iff.1 inside).mono (Nat.le_add_left 1 _) (Nat.le_refl _)).arrays
  have entryRoom : (r.push .array).structDepth + 1 ≤ maxStructDepth :=
    ((room_group_iff rfl).1 room).groups
  let withKey : Reader :=
    ⟨r.done, .entryValue (index + 1) (.basic code) :: .array :: r.opened⟩
  let withBoth : Reader :=
    ⟨r.done, .entryEnd (index + 1) (.basic code) value :: .array :: r.opened⟩
  have awaitsKey : ((r.push .array).push (.entryKey (index + 1))).Awaits := by
    intro start key value impossible
    cases impossible
  have awaitsValue : withKey.Awaits := by
    intro start key value impossible
    cases impossible
  have valueWithin : Within withKey.opened value :=
    (members value (by simp [children])).exchange rfl rfl
  have takesKey : ((r.push .array).push (.entryKey (index + 1))).steps (index + 1 + 1) code.toList =
      .ok withKey := Reader.step_basic awaitsKey known
  have takesValue := spells withKey (index + 1 + 1 + code.toList.length) awaitsValue valueWithin
  have takesBoth : withKey.steps (index + 1 + 1 + code.toList.length) value.signature.toList =
      .ok withBoth := takesValue
  have text : (array (entry (basic code) value)).signature.toList =
      'a' :: '{' :: (code.toList ++ (value.signature.toList ++ ['}'])) := by
    simp [signature]
  rw [text, Reader.steps_cons_of_ok _ (Reader.step_array awaits arrayRoom),
    Reader.steps_cons_of_ok _ (Reader.step_entry rfl entryRoom),
    Reader.steps_append_of_ok _ takesKey, Reader.steps_append_of_ok _ takesBoth,
    Reader.steps_singleton, Reader.step_entryEnd rfl]
  rfl

theorem spells_struct {members : List Node} (filled : members ≠ [])
    (spells : ∀ member ∈ members, member.Spells) : (struct members).Spells := by
  intro r index awaits within
  obtain ⟨room, inside⟩ :=
    (within_group_iff (rfl : (OpenType.struct index []).isArray = false) rfl).1 within
  have structRoom : r.structDepth + 1 ≤ maxStructDepth := ((room_group_iff rfl).1 room).groups
  let place (before : List Node) : Reader := ⟨r.done, .struct index before :: r.opened⟩
  have takes : ∀ (before : List Node), ∀ member ∈ members, ∀ index : Nat,
      (place before).steps index member.signature.toList = .ok (place (member :: before)) := by
    intro before member listed index
    refine spells member listed (place before) index ?_ ((inside member listed).exchange rfl rfl)
    intro start key value impossible
    cases impossible
  have takesAll := steps_signatures place members takes [] (index + 1)
  have reversed : members.reverse ++ [] ≠ [] := by
    simpa using filled
  have text : (struct members).signature.toList =
      '(' :: ((signatures members).toList ++ [')']) := by
    simp [signature]
  rw [text, Reader.steps_cons_of_ok _ (Reader.step_struct awaits structRoom)]
  change (place []).steps (index + 1) _ = _
  rw [Reader.steps_append_of_ok _ takesAll, Reader.steps_singleton,
    Reader.step_structEnd rfl reversed, List.append_nil, List.reverse_reverse]

/-- The signature of every type of the grammar is read as the type, where there is room for it. -/
theorem Complete.spells {node : Node} (complete : node.Complete) : node.Spells := by
  induction complete with
  | basic known =>
      intro r index awaits _
      exact Reader.step_basic awaits known
  | variant =>
      intro r index awaits _
      exact (Reader.steps_singleton r index 'v').trans (Reader.step_variant awaits)
  | array _ ih => exact spells_array ih
  | dictionary known _ ih => exact spells_dictionary known ih
  | struct filled _ ih => exact spells_struct filled ih

end Node

/-! ### Where a text is refused -/

namespace Reader

variable {r : Reader} {index : Nat} {c : Char} {error : SignatureError}

theorem index_le_of_complete {done : List Node} {opened : List OpenType} {node : Node}
    (starts : ∀ part ∈ opened, part.StartsBefore index)
    (refused : complete done opened node = .error error) : error.index ≤ index := by
  induction opened generalizing node with
  | nil => cases refused
  | cons part outer ih =>
      obtain ⟨first, others⟩ := List.forall_mem_cons.1 starts
      cases part with
      | array => exact ih others refused
      | struct start members => cases refused
      | entryKey start =>
          cases node with
          | basic code => cases refused
          | _ =>
              cases refused
              exact first
      | entryValue start key => cases refused
      | entryEnd start key value =>
          cases refused
          exact Nat.le_of_lt first

theorem index_le_of_step (starts : ∀ part ∈ r.opened, part.StartsBefore index)
    (refused : r.step index c = .error error) : error.index ≤ index := by
  have outcome := r.step_outcome index c
  generalize r.step index c = result at outcome refused
  cases outcome with
  | basic known => exact index_le_of_complete starts refused
  | variant => exact index_le_of_complete starts refused
  | array room => cases refused
  | struct room => cases refused
  | entry room => cases refused
  | structEnd innermost =>
      exact index_le_of_complete (List.forall_mem_cons.1 (innermost ▸ starts)).2 refused
  | entryEnd innermost =>
      exact index_le_of_complete (List.forall_mem_cons.1 (innermost ▸ starts)).2 refused
  | refused fault known =>
      cases refused
      exact known starts

theorem Reflects.index_le_of_steps {front text : List Char} (reflects : r.Reflects front)
    (refused : r.steps front.length text = .error error) :
    error.index ≤ (front ++ text).length := by
  induction text generalizing r front with
  | nil => cases refused
  | cons c rest ih =>
      rw [Reader.steps] at refused
      cases stepped : r.step front.length c with
      | error fault =>
          rw [stepped] at refused
          cases refused
          have here := index_le_of_step reflects.starts stepped
          rw [List.length_append]
          omega
      | ok between =>
          rw [stepped] at refused
          have length : (front ++ [c]).length = front.length + 1 := by simp
          rw [← length] at refused
          have later := ih (reflects.step stepped) refused
          rwa [List.append_assoc, List.singleton_append] at later

theorem Reflects.index_le_of_finish {front : List Char} (reflects : r.Reflects front)
    (refused : r.finish front.length = .error error) : error.index ≤ front.length := by
  have starts := reflects.starts
  unfold finish at refused
  split at refused
  · cases refused
  · cases refused
    exact Nat.le_refl _
  all_goals
    rename_i innermost
    rw [innermost] at starts
    cases refused
    exact Nat.le_of_lt (List.forall_mem_cons.1 starts).1

end Reader

/-! ### Reading a text -/

namespace Node

theorem within_of_readAll {text : String} {nodes : List Node} (read : readAll text = .ok nodes) :
    text.length ≤ 255 ∧ text = signatures nodes ∧ ∀ node ∈ nodes, Within [] node := by
  unfold readAll at read
  split at read
  · cases read
  · rename_i short
    split at read
    · rename_i r taken
      have reflects : r.Reflects text.toList := Reader.reflects_empty.steps taken
      unfold Reader.finish at read
      split at read
      · rename_i opened
        cases read
        refine ⟨Nat.not_lt.1 short, ?_, ?_⟩
        · have spelt := reflects.written
          rw [Reader.written, opened, OpenType.writtenAll, String.append_empty] at spelt
          exact (String.toList_inj.1 spelt).symm
        · intro node listed
          exact reflects.done node (List.mem_reverse.1 listed)
      all_goals cases read
    · cases read

theorem readAll_of_wellFormed {nodes : List Node} (short : (signatures nodes).length ≤ 255)
    (wellFormed : ∀ node ∈ nodes, node.WellFormed) : readAll (signatures nodes) = .ok nodes := by
  have takes : ∀ (before : List Node), ∀ node ∈ nodes, ∀ index : Nat,
      Reader.steps ⟨before, []⟩ index node.signature.toList = .ok ⟨node :: before, []⟩ := by
    intro before node listed index
    obtain ⟨complete, arrays, groups⟩ := wellFormed node listed
    refine complete.spells ⟨before, []⟩ index ?_ ((within_nil_iff node).2 ⟨arrays, groups⟩)
    intro start key value impossible
    cases impossible
  have taken : Reader.empty.steps 0 (signatures nodes).toList = .ok ⟨nodes.reverse ++ [], []⟩ :=
    steps_signatures (fun before => ⟨before, []⟩) nodes takes [] 0
  have notLong : ¬ maxSignatureLength < (signatures nodes).length := Nat.not_lt.2 short
  rw [readAll, if_neg notLong, taken]
  change Except.ok (nodes.reverse ++ []).reverse = _
  rw [List.append_nil, List.reverse_reverse]

theorem index_le_of_readAll {text : String} {error : SignatureError}
    (refused : readAll text = .error error) : error.index ≤ text.length := by
  unfold readAll at refused
  split at refused
  · rename_i long
    cases refused
    exact Nat.le_of_lt long
  · rw [← String.length_toList] at refused ⊢
    split at refused
    · rename_i r taken
      have reflects : r.Reflects text.toList := Reader.reflects_empty.steps taken
      exact reflects.index_le_of_finish refused
    · rename_i fault stopped
      cases refused
      exact Reader.reflects_empty.index_le_of_steps stopped

theorem wellFormed_of_readAll {text : String} {nodes : List Node}
    (read : readAll text = .ok nodes) : ∀ node ∈ nodes, node.WellFormed := by
  intro node listed
  obtain ⟨-, -, within⟩ := within_of_readAll read
  obtain ⟨arrays, groups⟩ := (within_nil_iff node).1 (within node listed)
  exact ⟨complete_of_readAll read node listed, arrays, groups⟩

/-- Reading gives back the types whose signature the text is, as long as they are well formed and
the text is not too long. Every other text is refused at one of its characters or at its end. -/
theorem readAll_accepts (text : String) :
    (∀ nodes : List Node, readAll text = .ok nodes ↔
      text.length ≤ 255 ∧ text = signatures nodes ∧ ∀ node ∈ nodes, node.WellFormed) ∧
    ((∃ nodes, readAll text = .ok nodes) ∨
      ∃ error, readAll text = .error error ∧ error.index ≤ text.length) := by
  refine ⟨fun nodes => ⟨?_, ?_⟩, ?_⟩
  · intro read
    obtain ⟨short, spelt, -⟩ := within_of_readAll read
    exact ⟨short, spelt, wellFormed_of_readAll read⟩
  · rintro ⟨short, spelt, wellFormed⟩
    subst spelt
    exact readAll_of_wellFormed short wellFormed
  · cases result : readAll text with
    | ok nodes => exact Or.inl ⟨nodes, rfl⟩
    | error error => exact Or.inr ⟨error, rfl, index_le_of_readAll result⟩

end Node

end DBusMarshal
