import DBusMarshal.Proofs.Acceptance

/-!
Signatures one after the other.

A reader decides from left to right. What it does with a text does not depend on the types that were
done before, nor on the index at which the text begins: both come back unchanged in what it reads
and in where it refuses. So a text behind complete types is read as it is read alone. A text that is
refused at one of its characters stays refused, whatever follows; only a text that ends too early
may still become a signature.
-/

set_option autoImplicit false

namespace DBusMarshal

/-! ### Readers behind other types -/

/-- The error of a text that so many characters stand in front of. -/
def SignatureError.behind (offset : Nat) (error : SignatureError) : SignatureError :=
  { error with index := error.index + offset }

/-- The construct in a text that so many characters stand in front of. -/
def OpenType.behind (offset : Nat) : OpenType → OpenType
  | array => array
  | struct start members => struct (start + offset) members
  | entryKey start => entryKey (start + offset)
  | entryValue start key => entryValue (start + offset) key
  | entryEnd start key value => entryEnd (start + offset) key value

theorem OpenType.isArray_behind (offset : Nat) (part : OpenType) :
    (part.behind offset).isArray = part.isArray := by
  cases part <;> rfl

namespace Reader

/-- The reader of a text that complete types of so many characters stand in front of. -/
def behind (before : List Node) (offset : Nat) (r : Reader) : Reader :=
  ⟨r.done ++ before, r.opened.map (OpenType.behind offset)⟩

/-- What a reader comes to, behind complete types of so many characters. -/
def resultBehind (before : List Node) (offset : Nat) :
    Except SignatureError Reader → Except SignatureError Reader
  | .ok next => .ok (next.behind before offset)
  | .error error => .error (error.behind offset)

section

variable (before : List Node) (offset : Nat)

theorem arrayDepth_behind (r : Reader) : (r.behind before offset).arrayDepth = r.arrayDepth := by
  rw [arrayDepth, behind, List.countP_map]
  exact List.countP_congr fun part _ => by rw [Function.comp_apply, OpenType.isArray_behind]

theorem structDepth_behind (r : Reader) :
    (r.behind before offset).structDepth = r.structDepth := by
  rw [structDepth, behind, List.countP_map]
  exact List.countP_congr fun part _ => by rw [Function.comp_apply, OpenType.isArray_behind]

theorem complete_behind (done : List Node) (opened : List OpenType) (node : Node) :
    complete (done ++ before) (opened.map (OpenType.behind offset)) node =
      resultBehind before offset (complete done opened node) := by
  induction opened generalizing node with
  | nil => rfl
  | cons part outer ih =>
      cases part with
      | array => exact ih (.array node)
      | struct start members => rfl
      | entryKey start =>
          have place : start + offset + 1 = start + 1 + offset := by omega
          cases node with
          | basic code => rfl
          | _ =>
              change Except.error (SignatureError.mk .entryKeyNotBasic (start + offset + 1)) = _
              rw [place]
              rfl
      | entryValue start key => rfl
      | entryEnd start key value => rfl

theorem openStruct_behind (r : Reader) (index : Nat) (part : OpenType) :
    (r.behind before offset).openStruct (index + offset) (part.behind offset) =
      resultBehind before offset (r.openStruct index part) := by
  unfold openStruct
  rw [structDepth_behind]
  split
  · rfl
  · rfl

theorem beginType_behind (r : Reader) (index : Nat) (c : Char) :
    (r.behind before offset).beginType (index + offset) c =
      resultBehind before offset (r.beginType index c) := by
  unfold beginType
  rw [arrayDepth_behind]
  by_cases isCode : Node.basicCodes.contains (.singleton c) = true
  · rw [if_pos isCode, if_pos isCode]
    exact complete_behind before offset r.done r.opened _
  rw [if_neg isCode, if_neg isCode]
  by_cases isVariant : c = 'v'
  · rw [if_pos isVariant, if_pos isVariant]
    exact complete_behind before offset r.done r.opened _
  rw [if_neg isVariant, if_neg isVariant]
  by_cases isArray : c = 'a'
  · rw [if_pos isArray, if_pos isArray]
    split
    · rfl
    · rfl
  rw [if_neg isArray, if_neg isArray]
  by_cases isStruct : c = '('
  · rw [if_pos isStruct, if_pos isStruct]
    exact openStruct_behind before offset r index (.struct index [])
  rw [if_neg isStruct, if_neg isStruct]
  by_cases isEntry : c = '{'
  · rw [if_pos isEntry, if_pos isEntry]
    obtain ⟨done, opened⟩ := r
    cases opened with
    | nil => rfl
    | cons part outer =>
        cases part with
        | array => exact openStruct_behind before offset _ index (.entryKey index)
        | _ => rfl
  rw [if_neg isEntry, if_neg isEntry]
  split
  · rfl
  · rfl

/-- A reader goes on in the same way behind complete types. -/
theorem step_behind (r : Reader) (index : Nat) (c : Char) :
    (r.behind before offset).step (index + offset) c =
      resultBehind before offset (r.step index c) := by
  have begins := beginType_behind before offset r index c
  obtain ⟨done, opened⟩ := r
  cases opened with
  | nil => exact begins
  | cons part outer =>
      cases part with
      | array => exact begins
      | struct start members =>
          by_cases isEnd : c = ')'
          · subst isEnd
            cases members with
            | nil => rfl
            | cons first others => exact complete_behind before offset done outer _
          · change (if c = ')' then _ else _) =
              resultBehind before offset (if c = ')' then _ else _)
            rw [if_neg isEnd, if_neg isEnd]
            exact begins
      | entryKey start =>
          change (if c = '}' then _ else _) = resultBehind before offset (if c = '}' then _ else _)
          split
          · rfl
          · exact begins
      | entryValue start key =>
          change (if c = '}' then _ else _) = resultBehind before offset (if c = '}' then _ else _)
          split
          · rfl
          · exact begins
      | entryEnd start key value =>
          change (if c = '}' then _ else _) = resultBehind before offset (if c = '}' then _ else _)
          split
          · exact complete_behind before offset done outer _
          · rfl

theorem steps_behind (r : Reader) (index : Nat) (text : List Char) :
    (r.behind before offset).steps (index + offset) text =
      resultBehind before offset (r.steps index text) := by
  induction text generalizing r index with
  | nil => rfl
  | cons c rest ih =>
      have place : index + offset + 1 = index + 1 + offset := by omega
      rw [steps, steps, step_behind, place]
      cases r.step index c with
      | error error => rfl
      | ok next => exact ih next (index + 1)

theorem finish_behind (r : Reader) (index : Nat) :
    (r.behind before offset).finish (index + offset) =
      match r.finish index with
      | .ok nodes => .ok (before.reverse ++ nodes)
      | .error error => .error (error.behind offset) := by
  obtain ⟨done, opened⟩ := r
  cases opened with
  | nil => exact congrArg Except.ok List.reverse_append
  | cons part outer => cases part <;> rfl

end

end Reader

/-! ### Faults that no further text mends -/

/-- The fault is told by a character that has been read, whatever follows. -/
def SignatureFault.isFinal : SignatureFault → Bool
  | arrayTooDeep => true
  | structTooDeep => true
  | structEmpty => true
  | entryOutsideArray => true
  | entryKeyNotBasic => true
  | entryOverfull => true
  | unexpectedBracket _ => true
  | unknownCode _ => true
  | _ => false

theorem Reader.not_isFinal_of_finish {r : Reader} {index : Nat} {error : SignatureError}
    (refused : r.finish index = .error error) : error.fault.isFinal = false := by
  unfold finish at refused
  split at refused
  · cases refused
  all_goals
    cases refused
    rfl

namespace Node

/-! ### Reading two texts as one -/

variable {s t : String}

theorem readAll_of_short {text : String} (short : text.length ≤ 255) :
    readAll text =
      match Reader.empty.steps 0 text.toList with
      | .ok r => r.finish text.length
      | .error error => .error error :=
  if_neg (Nat.not_lt.2 short)

/-- The reader that has read complete types holds them, and nothing is open. -/
theorem steps_of_readAll {nodes : List Node} (read : readAll s = .ok nodes) :
    Reader.empty.steps 0 s.toList = .ok (Reader.empty.behind nodes.reverse s.length) := by
  unfold readAll at read
  split at read
  · cases read
  · split at read
    · rename_i r taken
      rw [taken]
      obtain ⟨done, opened⟩ := r
      cases opened with
      | nil =>
          cases read
          rw [List.reverse_reverse]
          rfl
      | cons part outer => cases part <;> cases read
    · cases read

/-- Behind complete types a text is read as it is read alone. -/
theorem readAll_append_of_ok (short : (s ++ t).length ≤ 255) {nodes : List Node}
    (read : readAll s = .ok nodes) :
    readAll (s ++ t) =
      match readAll t with
      | .ok more => .ok (nodes ++ more)
      | .error error => .error (error.behind s.length) := by
  have length : (s ++ t).length = t.length + s.length := by
    rw [String.length_append, Nat.add_comm]
  have shortBehind : t.length ≤ 255 := by omega
  rw [readAll_of_short short, readAll_of_short shortBehind, String.toList_append,
    Reader.steps_append, steps_of_readAll read, String.length_toList]
  dsimp only
  rw [Reader.steps_behind, length]
  cases Reader.empty.steps 0 t.toList with
  | error error => rfl
  | ok r =>
      change (r.behind nodes.reverse s.length).finish (t.length + s.length) = _
      rw [Reader.finish_behind, List.reverse_reverse]

/-- A text that is refused at one of its characters is refused there, whatever follows. -/
theorem readAll_append_of_final (short : (s ++ t).length ≤ 255) {error : SignatureError}
    (refused : readAll s = .error error) (final : error.fault.isFinal = true) :
    readAll (s ++ t) = .error error := by
  have shortFront : s.length ≤ 255 := by
    rw [String.length_append] at short
    omega
  rw [readAll_of_short shortFront] at refused
  rw [readAll_of_short short, String.toList_append, Reader.steps_append]
  cases taken : Reader.empty.steps 0 s.toList with
  | error stopped =>
      rw [taken] at refused
      cases refused
      rfl
  | ok r =>
      rw [taken] at refused
      have notFinal := Reader.not_isFinal_of_finish refused
      rw [final] at notFinal
      cases notFinal

/-- A text of several types is cut where the second one starts. -/
theorem exists_cut_of_readAll {text : String} {first second : Node} {rest : List Node}
    (read : readAll text = .ok (first :: second :: rest)) :
    ∃ front back, text = front ++ back ∧ front.length = first.signature.length ∧
      readAll front = .ok [first] ∧ readAll back = .ok (second :: rest) := by
  obtain ⟨short, spelt, -⟩ := within_of_readAll read
  obtain ⟨firstWellFormed, othersWellFormed⟩ :=
    List.forall_mem_cons.1 (wellFormed_of_readAll read)
  have single : signatures [first] = first.signature := String.append_empty
  have whole : text = signatures [first] ++ signatures (second :: rest) := by
    rw [spelt, single, signatures]
  have length := congrArg String.length whole
  rw [String.length_append] at length
  refine ⟨signatures [first], signatures (second :: rest), whole, congrArg _ single, ?_, ?_⟩
  · exact readAll_of_wellFormed (by omega) (List.forall_mem_singleton.2 firstWellFormed)
  · exact readAll_of_wellFormed (by omega) othersWellFormed

/-- Reading goes from left to right. Behind complete types a text is read, or refused, as it is
alone, with its indices counted on. A fault that is told by a character stays what it is, whatever
follows. And a text of several types, where one is expected, is refused where the second one
starts. -/
theorem readAll_append (s t : String) (short : (s ++ t).length ≤ 255) :
    (∀ nodes, readAll s = .ok nodes →
      (∀ more, readAll (s ++ t) = .ok (nodes ++ more) ↔ readAll t = .ok more) ∧
      ∀ fault index, readAll t = .error ⟨fault, index⟩ →
        readAll (s ++ t) = .error ⟨fault, index + s.length⟩) ∧
    (∀ error, readAll s = .error error → error.fault.isFinal = true →
      readAll (s ++ t) = .error error) ∧
    ∀ first second rest, readAll (s ++ t) = .ok (first :: second :: rest) →
      ∃ front back, s ++ t = front ++ back ∧ Node.read front = .ok first ∧
        readAll back = .ok (second :: rest) ∧
        Node.read (s ++ t) = .error ⟨.notSingle (rest.length + 2), front.length⟩ := by
  refine ⟨?_, fun error => readAll_append_of_final short, ?_⟩
  · intro nodes read
    have whole := readAll_append_of_ok short read
    constructor
    · intro more
      rw [whole]
      cases readAll t with
      | error error => simp
      | ok others => simp
    · intro fault index refused
      rw [whole, refused]
      rfl
  · intro first second rest read
    obtain ⟨front, back, cut, length, readFront, readBack⟩ := exists_cut_of_readAll read
    refine ⟨front, back, cut, ?_, readBack, ?_⟩
    · rw [Node.read, readFront]
    · rw [Node.read, read, length]
      rfl

/-- A number and a dictionary in front, and texts behind them that end too early, hold an empty
struct or hold more types. -/
theorem readAll_append_dictionary :
    readAll "ia\x7bsad\x7d" = .ok [.basic "i", .array (.entry (.basic "s") (.array (.basic "d")))] ∧
    readAll ("ia\x7bsad\x7d" ++ "u(v") = .error ⟨.structOpen, 1 + 7⟩ ∧
    readAll ("ia\x7bsad\x7du()" ++ ")") = .error ⟨.structEmpty, 8⟩ ∧
    ∃ front back, "ia\x7bsad\x7d" ++ "u" = front ++ back ∧ Node.read front = .ok (.basic "i") ∧
      readAll back = .ok [.array (.entry (.basic "s") (.array (.basic "d"))), .basic "u"] ∧
      Node.read ("ia\x7bsad\x7d" ++ "u") = .error ⟨.notSingle 3, front.length⟩ := by
  have types : readAll "ia\x7bsad\x7d" =
      .ok [.basic "i", .array (.entry (.basic "s") (.array (.basic "d")))] := by rfl
  refine ⟨types, ?_, ?_, ?_⟩
  · have behind := readAll_append "ia\x7bsad\x7d" "u(v" (by decide)
    exact (behind.1 _ types).2 .structOpen 1 (by rfl)
  · have behind := readAll_append "ia\x7bsad\x7du()" ")" (by decide)
    exact behind.2.1 ⟨.structEmpty, 8⟩ (by rfl) rfl
  · have behind := readAll_append "ia\x7bsad\x7d" "u" (by decide)
    exact behind.2.2 _ _ _ (((behind.1 _ types).1 [.basic "u"]).2 (by rfl))

end Node

end DBusMarshal
