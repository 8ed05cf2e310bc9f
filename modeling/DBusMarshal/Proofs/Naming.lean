import DBusMarshal.VarName

/-!
Names below names, and the fields that they stand for.

A name lies below the names that it is built on. Names below different parts of one variable
differ, which is all that keeps the variables of generated code apart. The field of a struct member
shows the position of the member, and what follows it begins with an underscore.

The segments that generation uses are spelt as an underscore and a word without underscores, and the
word tells the segment. So the spelling of a path falls apart into its segments in one way only,
although some words are the front of others.
-/

set_option autoImplicit false

namespace DBusMarshal

namespace VarName

/-! ### Names below a name -/

/-- A name is another one, or is built on it. -/
def Below (name origin : VarName) : Prop := ∃ path, name = origin.append path

theorem below_self (name : VarName) : name.Below name := by
  refine ⟨[], ?_⟩
  unfold append
  rw [List.append_nil]

theorem below_append (name : VarName) (path : List Segment) : (name.append path).Below name :=
  ⟨path, rfl⟩

theorem below_child (name : VarName) (segment : Segment) : (name.child segment).Below name :=
  below_append name [segment]

theorem Below.trans {name between origin : VarName} (upper : name.Below between)
    (lower : between.Below origin) : name.Below origin := by
  obtain ⟨back, sameName⟩ := upper
  obtain ⟨front, sameBetween⟩ := lower
  refine ⟨front ++ back, ?_⟩
  rw [sameName, sameBetween, append_append]

theorem Below.of_child {name origin : VarName} {segment : Segment}
    (below : name.Below (origin.child segment)) : name.Below origin :=
  below.trans (below_child origin segment)

theorem Below.base {name origin : VarName} (below : name.Below origin) :
    name.base = origin.base := by
  obtain ⟨path, same⟩ := below
  rw [same]
  rfl

theorem append_injective {origin : VarName} {left right : List Segment}
    (same : origin.append left = origin.append right) : left = right :=
  List.append_cancel_left (congrArg VarName.path same)

theorem child_append (name : VarName) (segment : Segment) (path : List Segment) :
    (name.child segment).append path = name.append (segment :: path) := by
  rw [child_eq_append, append_append]
  rfl

theorem append_nil (name : VarName) : name.append [] = name := by
  unfold append
  rw [List.append_nil]

theorem Below.ne_of_child {name origin : VarName} {segment : Segment}
    (below : name.Below (origin.child segment)) : name ≠ origin := by
  obtain ⟨path, same⟩ := below
  intro equal
  rw [same, child_append] at equal
  have lengths := congrArg (fun other => other.path.length) equal
  simp [append] at lengths

theorem child_ne (origin : VarName) (segment : Segment) : origin.child segment ≠ origin :=
  (below_self (origin.child segment)).ne_of_child

/-- A name lies below one part of a variable only. -/
theorem Below.segment_eq {name origin : VarName} {left right : Segment}
    (belowLeft : name.Below (origin.child left)) (belowRight : name.Below (origin.child right)) :
    left = right := by
  obtain ⟨leftPath, sameLeft⟩ := belowLeft
  obtain ⟨rightPath, sameRight⟩ := belowRight
  rw [sameLeft, child_append, child_append] at sameRight
  exact (List.cons.inj (append_injective sameRight)).1

theorem Below.ne {left right origin : VarName} {first second : Segment}
    (belowLeft : left.Below (origin.child first)) (belowRight : right.Below (origin.child second))
    (different : first ≠ second) : left ≠ right := by
  intro same
  subst same
  exact different (belowLeft.segment_eq belowRight)

theorem not_below_child (origin : VarName) (segment : Segment) :
    ¬ origin.Below (origin.child segment) := by
  intro below
  exact below.ne_of_child rfl

theorem child_not_below {origin : VarName} {first second : Segment} (different : first ≠ second) :
    ¬ (origin.child first).Below (origin.child second) := by
  intro below
  exact different ((below_self (origin.child first)).segment_eq below)

theorem startsWith_eq_true_iff (name origin : VarName) :
    name.startsWith origin = true ↔ name.Below origin := by
  constructor
  · intro starts
    simp only [startsWith, Bool.and_eq_true, beq_iff_eq, List.isPrefixOf_iff_prefix] at starts
    obtain ⟨sameBase, path, samePath⟩ := starts
    refine ⟨path, ?_⟩
    cases name with
    | mk base steps =>
        cases sameBase
        cases samePath
        rfl
  · rintro ⟨path, same⟩
    rw [same]
    exact startsWith_append origin path

end VarName

/-! ### The parts of a variable differ -/

namespace Segment

theorem item_inj {left right : Nat} (same : item left = item right) : left = right := by
  have numbers := congrArg Segment.number same
  exact Int.ofNat.inj (Option.some.inj numbers)

theorem item_ne_iter (position : Nat) : item position ≠ iter := by
  simp [item, iter]

end Segment

/-! ### Fields -/

/-- The field at the end of a path through a struct. -/
def fieldText (path : List Segment) : String := .ofList ((pathText path).toList.drop 1)

theorem VarName.fieldOf_append (aggregate : VarName) {path : List Segment} (moves : path ≠ []) :
    (aggregate.append path).fieldOf aggregate = .ok (fieldText path) := by
  unfold VarName.fieldOf
  rw [VarName.pathFrom_append]
  cases path with
  | nil => exact absurd rfl moves
  | cons segment rest => rfl

theorem Segment.text_toList (segment : Segment) :
    ∃ rest, segment.text.toList = '_' :: rest := by
  unfold Segment.text
  split
  · simp only [String.toList_append, String.reduceToList, List.cons_append]
    exact ⟨_, rfl⟩
  · split
    · exact ⟨['i'], rfl⟩
    · simp only [String.toList_append, String.reduceToList, List.cons_append]
      exact ⟨_, rfl⟩

theorem pathText_toList (path : List Segment) :
    (pathText path).toList = [] ∨ ∃ rest, (pathText path).toList = '_' :: rest := by
  cases path with
  | nil => exact Or.inl rfl
  | cons segment rest =>
      obtain ⟨more, spelt⟩ := segment.text_toList
      refine Or.inr ⟨more ++ (pathText rest).toList, ?_⟩
      rw [pathText, String.toList_append, spelt]
      rfl

theorem Segment.text_item (position : Nat) :
    (Segment.item position).text.toList = "_item".toList ++ Nat.toDigits 10 position := by
  have spelt : (Segment.item position).text = "_item" ++ Nat.repr position := rfl
  rw [spelt, String.toList_append, Nat.toList_repr]

/-- A word without underscores ends where an underscore or nothing follows. -/
theorem word_append_inj {left right front back : List Char} (leftWord : '_' ∉ left)
    (rightWord : '_' ∉ right) (frontEnds : front = [] ∨ ∃ rest, front = '_' :: rest)
    (backEnds : back = [] ∨ ∃ rest, back = '_' :: rest) (same : left ++ front = right ++ back) :
    left = right ∧ front = back := by
  have stop : ∀ word tail : List Char, '_' ∉ word → (tail = [] ∨ ∃ rest, tail = '_' :: rest) →
      (word ++ tail).takeWhile (· ≠ '_') = word := by
    intro word tail isWord ends
    have letters : ∀ c ∈ word, decide (c ≠ '_') = true := by
      intro c listed
      apply decide_eq_true
      intro underscore
      subst underscore
      exact isWord listed
    rw [List.takeWhile_append_of_pos letters]
    rcases ends with none | ⟨rest, some⟩
    · rw [none, List.takeWhile_nil, List.append_nil]
    · rw [some, List.takeWhile_cons_of_neg (by simp), List.append_nil]
  have words : left = right := by
    rw [← stop left front leftWord frontEnds, same, stop right back rightWord backEnds]
  rw [words] at same
  exact ⟨words, List.append_cancel_left same⟩

theorem digits_append_inj {left right : Nat} {front back : List Char}
    (frontEnds : front = [] ∨ ∃ rest, front = '_' :: rest)
    (backEnds : back = [] ∨ ∃ rest, back = '_' :: rest)
    (same : Nat.toDigits 10 left ++ front = Nat.toDigits 10 right ++ back) :
    left = right ∧ front = back := by
  obtain ⟨digits, tails⟩ := word_append_inj Nat.underscore_not_in_toDigits
    Nat.underscore_not_in_toDigits frontEnds backEnds same
  refine ⟨?_, tails⟩
  have values := congrArg (fun digits => Nat.ofDigitChars 10 digits 0) digits
  simpa only [Nat.ofDigitChars_ten_toDigits] using values

/-- The field of a struct member tells the position of the member and the path inside it. -/
theorem fieldText_item_inj {left right : Nat} {front back : List Segment}
    (same : fieldText (.item left :: front) = fieldText (.item right :: back)) :
    left = right ∧ pathText front = pathText back := by
  have chars : (pathText (.item left :: front)).toList.drop 1 =
      (pathText (.item right :: back)).toList.drop 1 := by
    simpa only [fieldText, String.toList_ofList] using congrArg String.toList same
  simp only [pathText, String.toList_append, Segment.text_item] at chars
  have rest : Nat.toDigits 10 left ++ (pathText front).toList =
      Nat.toDigits 10 right ++ (pathText back).toList := by
    simpa using chars
  obtain ⟨positions, tails⟩ :=
    digits_append_inj (pathText_toList front) (pathText_toList back) rest
  exact ⟨positions, String.toList_inj.1 tails⟩

/-! ### Words -/

/-- The segments that generated names are built from. -/
inductive Segment.Regular : Segment → Prop where
  | element : Regular .element
  | len : Regular .len
  | iter : Regular .iter
  | index : Regular .index
  | item (position : Nat) : Regular (.item position)

/-- A path of regular segments. -/
def RegularPath (path : List Segment) : Prop := ∀ segment ∈ path, segment.Regular

namespace Segment

/-- The spelling of a segment behind its underscore. -/
def word (segment : Segment) : List Char := segment.text.toList.tail

theorem toList_text (segment : Segment) : segment.text.toList = '_' :: segment.word := by
  obtain ⟨rest, spelt⟩ := segment.text_toList
  rw [word, spelt, List.tail_cons]

theorem word_item (position : Nat) :
    (item position).word = "item".toList ++ Nat.toDigits 10 position := by
  rw [word, text_item]
  rfl

/-- The segment that a word is the spelling of. -/
def ofWord (written : List Char) : Segment :=
  if written = "element".toList then element
  else if written = "len".toList then len
  else if written = "iter".toList then iter
  else if written = "i".toList then index
  else item (Nat.ofDigitChars 10 (written.drop 4) 0)

namespace Regular

variable {segment : Segment}

theorem underscore_not_mem_word (regular : segment.Regular) : '_' ∉ segment.word := by
  cases regular with
  | item position =>
      rw [word_item, List.mem_append, not_or]
      exact ⟨by decide, Nat.underscore_not_in_toDigits⟩
  | _ => decide

/-- The word of a regular segment tells the segment. -/
theorem ofWord_word (regular : segment.Regular) : ofWord segment.word = segment := by
  cases regular with
  | item position =>
      have apart : ∀ written ∈ ["element", "len", "iter", "i"],
          (Segment.item position).word ≠ written.toList := by
        rw [word_item]
        simp
      simp only [List.forall_mem_cons] at apart
      obtain ⟨notElement, notLen, notIter, notIndex, _⟩ := apart
      rw [ofWord, if_neg notElement, if_neg notLen, if_neg notIter, if_neg notIndex, word_item]
      exact congrArg Segment.item (Nat.ofDigitChars_ten_toDigits)
  | _ => rfl

end Regular

end Segment

/-! ### Paths and fields -/

theorem RegularPath.cons {segment : Segment} {path : List Segment} (first : segment.Regular)
    (others : RegularPath path) : RegularPath (segment :: path) :=
  List.forall_mem_cons.2 ⟨first, others⟩

theorem toList_pathText_cons (segment : Segment) (path : List Segment) :
    (pathText (segment :: path)).toList = '_' :: (segment.word ++ (pathText path).toList) := by
  rw [pathText, String.toList_append, Segment.toList_text, List.cons_append]

theorem pathText_append (front back : List Segment) :
    pathText (front ++ back) = pathText front ++ pathText back := by
  induction front with
  | nil => exact String.empty_append.symm
  | cons segment rest ih => rw [List.cons_append, pathText, pathText, ih, String.append_assoc]

/-- The spelling of a regular path tells the path. -/
theorem pathText_inj {left right : List Segment} (leftRegular : RegularPath left)
    (rightRegular : RegularPath right) (same : pathText left = pathText right) : left = right := by
  have chars := congrArg String.toList same
  induction left generalizing right with
  | nil =>
      cases right with
      | nil => rfl
      | cons other more =>
          rw [toList_pathText_cons] at chars
          cases chars
  | cons segment rest ih =>
      cases right with
      | nil =>
          rw [toList_pathText_cons] at chars
          cases chars
      | cons other more =>
          obtain ⟨first, others⟩ := List.forall_mem_cons.1 leftRegular
          obtain ⟨otherFirst, otherOthers⟩ := List.forall_mem_cons.1 rightRegular
          rw [toList_pathText_cons, toList_pathText_cons] at chars
          obtain ⟨words, tails⟩ := word_append_inj first.underscore_not_mem_word
            otherFirst.underscore_not_mem_word (pathText_toList rest) (pathText_toList more)
            (List.cons.inj chars).2
          have sameSegment : segment = other := by
            rw [← first.ofWord_word, words, otherFirst.ofWord_word]
          rw [sameSegment, ih others otherOthers (String.toList_inj.1 tails) tails]

theorem toList_pathText {path : List Segment} (moves : path ≠ []) :
    (pathText path).toList = '_' :: (fieldText path).toList := by
  cases path with
  | nil => exact absurd rfl moves
  | cons segment rest =>
      rw [fieldText, String.toList_ofList, toList_pathText_cons, List.drop_succ_cons,
        List.drop_zero]

namespace VarName

theorem text_append (origin : VarName) (path : List Segment) :
    (origin.append path).text = origin.text ++ pathText path := by
  rw [text, text, append, pathText_append, String.append_assoc]

theorem exists_of_fieldOf {name aggregate : VarName} {field : String}
    (found : name.fieldOf aggregate = .ok field) :
    ∃ path, path ≠ [] ∧ name = aggregate.append path ∧ fieldText path = field := by
  cases starts : name.startsWith aggregate with
  | false =>
      rw [fieldOf, pathFrom, starts] at found
      cases found
  | true =>
      obtain ⟨path, rfl⟩ := (startsWith_eq_true_iff name aggregate).1 starts
      cases path with
      | nil =>
          rw [fieldOf, pathFrom_append] at found
          cases found
      | cons segment rest =>
          rw [fieldOf_append aggregate (List.cons_ne_nil _ _)] at found
          exact ⟨segment :: rest, List.cons_ne_nil _ _, rfl, Except.ok.inj found⟩

/-- A field tells which variable of the aggregate it stands for. -/
theorem eq_of_fieldOf {name other aggregate : VarName} {field : String}
    (regular : RegularPath name.path) (otherRegular : RegularPath other.path)
    (found : name.fieldOf aggregate = .ok field)
    (otherFound : other.fieldOf aggregate = .ok field) :
    name = other := by
  obtain ⟨path, moves, rfl, spelt⟩ := exists_of_fieldOf found
  obtain ⟨otherPath, otherMoves, rfl, otherSpelt⟩ := exists_of_fieldOf otherFound
  have same : pathText path = pathText otherPath := by
    apply String.toList_inj.1
    rw [toList_pathText moves, toList_pathText otherMoves, spelt, otherSpelt]
  rw [pathText_inj (List.forall_mem_append.1 regular).2 (List.forall_mem_append.1 otherRegular).2
    same]

end VarName

end DBusMarshal
