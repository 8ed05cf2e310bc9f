import Mathlib.Data.List.Nodup
import DBusMarshal.CommandLine.Command

/-!
Options that carry their values.

An option with its value behind an equals sign is one word. It is read as this option and this
value, whatever the value is made of, as long as no option is spelt with an equals sign of its own.
So a command line of such words tells settings, one for each word, and settings of different options
may be told in any order.
-/

set_option autoImplicit false

namespace DBusMarshal.CommandLine

/-! ### One word -/

/-- The word of an option with its value behind an equals sign. -/
def assignment (spelling value : String) : String := spelling ++ "=" ++ value

theorem toList_assignment (spelling value : String) :
    (assignment spelling value).toList = spelling.toList ++ '=' :: value.toList := by
  simp [assignment]

/-- No option is spelt with an equals sign. -/
def Spaced {ι : Type} (rules : List (OptionRule ι)) : Prop :=
  ∀ rule ∈ rules, '=' ∉ rule.spelling.toList

theorem splitValue_assignment {front : List Char} (plain : '=' ∉ front) (value : List Char) :
    splitValue (front ++ '=' :: value) = (front, .value (.ofList value)) := by
  have others : ∀ c ∈ front, decide (c ≠ '=') = true := by
    intro c listed
    exact decide_eq_true (fun same => plain (same ▸ listed))
  have taken : (front ++ '=' :: value).takeWhile (· ≠ '=') = front := by
    rw [List.takeWhile_append_of_pos others]
    simp
  have left : (front ++ '=' :: value).dropWhile (· ≠ '=') = '=' :: value := by
    rw [List.dropWhile_append_of_pos others]
    simp
  rw [splitValue, left, taken]

section

variable {ι : Type} {rules : List (OptionRule ι)} {spelling : String}

theorem findOption_eq_none (spaced : Spaced rules) {word : List Char} (equals : '=' ∈ word) :
    findOption rules word = none := by
  apply List.find?_eq_none.2
  intro rule listed same
  have spelt : rule.spelling.toList = word := of_decide_eq_true same
  exact spaced rule listed (spelt ▸ equals)

/-- A word that starts with a dash and holds an equals sign is no option by itself. -/
theorem classify_assignment_eq (spaced : Spaced rules) (value : String) {rest : List Char}
    (dashed : spelling.toList = '-' :: rest) :
    classify rules (assignment spelling value) =
      classifyDashed rules (assignment spelling value) := by
  have word : (assignment spelling value).toList = '-' :: (rest ++ '=' :: value.toList) := by
    rw [toList_assignment, dashed, List.cons_append]
  have none : findOption rules ('-' :: (rest ++ '=' :: value.toList)) = none :=
    findOption_eq_none spaced (by simp)
  have filled : rest ++ '=' :: value.toList ≠ [] := by simp
  rw [classify, word]
  split
  · rename_i other same
    obtain ⟨-, rfl⟩ := List.cons.inj same
    rw [none, if_neg filled]
  · rename_i noDash
    exact absurd rfl (noDash _)

/-- The word is read as the option that it begins with, and the value that follows. -/
theorem classify_assignment (spaced : Spaced rules) {rule : OptionRule ι} {rest : List Char}
    (dashed : spelling.toList = '-' :: rest) (found : findOption rules spelling.toList = some rule)
    (value : String) :
    classify rules (assignment spelling value) = .option rule (.value value) := by
  have plain : '=' ∉ spelling.toList := by
    intro equals
    rw [findOption_eq_none spaced equals] at found
    cases found
  rw [classify_assignment_eq spaced value dashed, classifyDashed, toList_assignment,
    splitValue_assignment plain]
  dsimp only
  rw [found, String.ofList_toList]

/-- For a program without such an option, the word is not short for several options at once. -/
theorem not_isAmbiguous_assignment (spaced : Spaced rules) {rest : List Char}
    (dashed : spelling.toList = '-' :: '-' :: rest) (plain : '=' ∉ spelling.toList)
    (foreign : ∀ rule ∈ rules, spelling.toList.isPrefixOf rule.spelling.toList = false)
    (value : String) : (classify rules (assignment spelling value)).isAmbiguous = false := by
  have noCandidate : candidates rules (spelling.toList ++ '=' :: value.toList) = [] := by
    have long : ['-', '-'].isPrefixOf (spelling.toList ++ '=' :: value.toList) = true := by
      rw [dashed]
      simp
    have none : rules.filter (fun rule => spelling.toList.isPrefixOf rule.spelling.toList) = [] :=
      List.filter_eq_nil_iff.2 fun rule listed => Bool.eq_false_iff.1 (foreign rule listed)
    rw [candidates, if_pos long, splitValue_assignment plain]
    dsimp only
    rw [none, List.map_nil]
  rw [classify_assignment_eq spaced value dashed, classifyDashed, toList_assignment, noCandidate,
    splitValue_assignment plain]
  dsimp only
  cases findOption rules spelling.toList with
  | some rule => rfl
  | none =>
      dsimp only
      split
      · rfl
      · rfl

theorem assignment_ne_separator (spelling value : String) : assignment spelling value ≠ "--" := by
  intro same
  have equals : '=' ∈ (assignment spelling value).toList := by
    rw [toList_assignment]
    simp
  rw [same] at equals
  exact absurd equals (by decide)

/-- Without two dashes among them, words are classified one by one. -/
theorem classifyAll_eq_map {line : List String} (together : "--" ∉ line) :
    classifyAll rules line = line.map (classify rules) := by
  induction line with
  | nil => rfl
  | cons text rest ih =>
      rw [List.mem_cons, not_or] at together
      rw [classifyAll, if_neg (fun same => together.1 same.symm), ih together.2, List.map_cons]

theorem wordsOf_eq_map {line : List String} (together : "--" ∉ line)
    (clear : ∀ text ∈ line, (classify rules text).isAmbiguous = false) :
    wordsOf rules line = .ok (line.map (classify rules)) := by
  have none : (line.map (classify rules)).any Word.isAmbiguous = false := by
    rw [List.any_map, List.any_eq_false]
    exact fun text listed => Bool.eq_false_iff.1 (clear text listed)
  rw [wordsOf, classifyAll_eq_map together, none, if_neg Bool.false_ne_true]

end

/-! ### Options of the command -/

def Format.text : Format → String
  | listing => "c"
  | envelope => "envelope"

namespace GenOption

def spelling : GenOption → String
  | help => "--help"
  | signature => "--signature"
  | name => "--name"
  | iter => "--iter"
  | recovery => "--oom"
  | structStem => "--struct-prefix"
  | format => "--format"
  | output => "--out"

/-- An option with a value, as the command knows it. -/
def rule (option : GenOption) : OptionRule GenOption := ⟨option.spelling, option, true⟩

theorem spaced_genRules : Spaced genRules := by
  unfold Spaced
  decide

theorem spaced_topRules : Spaced topRules := by
  unfold Spaced
  decide

theorem exists_spelling (option : GenOption) :
    ∃ rest, option.spelling.toList = '-' :: '-' :: rest := by
  have dashed : ['-', '-'] <+: option.spelling.toList := by
    cases option <;> decide
  obtain ⟨rest, same⟩ := dashed
  exact ⟨rest, same.symm⟩

theorem equals_not_mem_spelling (option : GenOption) : '=' ∉ option.spelling.toList := by
  cases option <;> decide

variable {option : GenOption} (takesValue : option ≠ help)
include takesValue

theorem findOption_spelling : findOption genRules option.spelling.toList = some option.rule := by
  cases option with
  | help => exact absurd rfl takesValue
  | _ => decide

/-- No option that stands in front of the command begins like the option. -/
theorem foreign_topRules :
    ∀ rule ∈ topRules, option.spelling.toList.isPrefixOf rule.spelling.toList = false := by
  cases option with
  | help => exact absurd rfl takesValue
  | _ => decide

theorem classify_spelling (value : String) :
    classify genRules (assignment option.spelling value) = .option option.rule (.value value) := by
  obtain ⟨rest, dashed⟩ := option.exists_spelling
  exact classify_assignment spaced_genRules dashed (findOption_spelling takesValue) value

/-- In front of the command, the word is not taken for several options at once. -/
theorem not_isAmbiguous_spelling (value : String) :
    (classify topRules (assignment option.spelling value)).isAmbiguous = false := by
  obtain ⟨rest, dashed⟩ := option.exists_spelling
  exact not_isAmbiguous_assignment spaced_topRules dashed option.equals_not_mem_spelling
    (foreign_topRules takesValue) value

end GenOption

/-! ### Settings -/

/-- A setting of `gen` as it is told on a command line. -/
inductive Setting where
  | signature (text : String)
  | name (text : String)
  | iter (text : String)
  | recovery (code : String)
  | structStem (stem : String)
  | format (format : Format)
  | output (path : String)
deriving DecidableEq, Repr

namespace Setting

def option : Setting → GenOption
  | signature _ => .signature
  | name _ => .name
  | iter _ => .iter
  | recovery _ => .recovery
  | structStem _ => .structStem
  | format _ => .format
  | output _ => .output

def value : Setting → String
  | signature text => text
  | name text => text
  | iter text => text
  | recovery code => code
  | structStem stem => stem
  | format chosen => chosen.text
  | output path => path

def word (setting : Setting) : String := assignment setting.option.spelling setting.value

/-- The value is taken as it stands in the word. -/
def HandedOver (setting : Setting) : Prop := valueOf setting.value = some setting.value

instance (setting : Setting) : Decidable setting.HandedOver :=
  inferInstanceAs (Decidable (_ = _))

/-- Settings with one more of them told. -/
def enter (settings : GenSettings) : Setting → GenSettings
  | signature text => { settings with signature := some (.signature text) }
  | name text => { settings with name := some (.text text) }
  | iter text => { settings with iter := .text text }
  | recovery code => { settings with recovery := some code }
  | structStem stem => { settings with structStem := some stem }
  | format chosen => { settings with format := chosen }
  | output path => { settings with output := some path }

/-- Settings of different options do not depend on which of them is told first. -/
theorem enter_enter {first second : Setting} (apart : first.option ≠ second.option)
    (settings : GenSettings) :
    enter (enter settings first) second = enter (enter settings second) first := by
  cases first <;> cases second <;> first | rfl | exact absurd rfl apart

theorem foldl_enter_of_perm {told others : List Setting} (sameTold : told.Perm others)
    (distinct : (told.map option).Nodup) (settings : GenSettings) :
    told.foldl enter settings = others.foldl enter settings := by
  apply sameTold.foldl_eq'
  intro first firstTold second secondTold settings
  by_cases same : first = second
  · rw [same]
  · refine enter_enter (fun alike => ?_) _
    exact same (List.inj_on_of_nodup_map distinct firstTold secondTold alike)

/-! ### Reading settings -/

theorem option_ne_help (setting : Setting) : setting.option ≠ .help := by
  cases setting <;> exact fun same => by cases same

theorem separator_not_mem_words (told : List Setting) : "--" ∉ told.map word := by
  intro listed
  obtain ⟨setting, -, same⟩ := List.mem_map.1 listed
  exact assignment_ne_separator _ _ same

/-- What the words of settings are, behind the name of the command. -/
theorem wordsOf_words (told : List Setting) :
    wordsOf genRules (told.map word) =
      .ok (told.map fun setting => .option setting.option.rule (.value setting.value)) := by
  have each : ∀ setting : Setting, classify genRules setting.word =
      .option setting.option.rule (.value setting.value) :=
    fun setting => GenOption.classify_spelling setting.option_ne_help setting.value
  have clear : ∀ text ∈ told.map word, (classify genRules text).isAmbiguous = false := by
    intro text listed
    obtain ⟨setting, -, rfl⟩ := List.mem_map.1 listed
    rw [each]
    rfl
  rw [wordsOf_eq_map (separator_not_mem_words told) clear, List.map_map]
  exact congrArg Except.ok (List.map_congr_left fun setting _ => each setting)

theorem applyGen_of_handedOver {setting : Setting} (handedOver : setting.HandedOver)
    (settings : GenSettings) :
    applyGen settings setting.option (valueOf setting.value) = .ok (enter settings setting) := by
  rw [handedOver]
  cases setting with
  | format chosen => cases chosen <;> rfl
  | _ => rfl

/-- One setting after the other is entered. -/
theorem readWords_settings {told : List Setting} (handedOver : ∀ setting ∈ told, setting.HandedOver)
    (settings : GenSettings) :
    readWords genRules applyGen { state := settings }
        (told.map fun setting => .option setting.option.rule (.value setting.value)) =
      .ok { state := told.foldl enter settings } := by
  induction told generalizing settings with
  | nil => rfl
  | cons setting rest ih =>
      obtain ⟨first, others⟩ := List.forall_mem_cons.1 handedOver
      have later := ih others (enter settings setting)
      rw [List.map_cons, readWords, GenOption.rule, if_pos rfl, attachedText]
      · dsimp only
        rw [applyGen_of_handedOver first]
        exact later
      · intro text others _ impossible
        cases impossible

/-- In front of the command stands nothing. -/
theorem wordsOf_command (told : List Setting) :
    wordsOf topRules ("gen" :: told.map word) =
      .ok (.argument "gen" :: (told.map word).map (classify topRules)) := by
  have together : "--" ∉ "gen" :: told.map word := by
    rw [List.mem_cons, not_or]
    exact ⟨by decide, separator_not_mem_words told⟩
  have clear : ∀ text ∈ "gen" :: told.map word, (classify topRules text).isAmbiguous = false := by
    intro text listed
    rcases List.mem_cons.1 listed with rfl | isWord
    · rfl
    · obtain ⟨setting, -, rfl⟩ := List.mem_map.1 isWord
      exact GenOption.not_isAmbiguous_spelling setting.option_ne_help setting.value
  exact wordsOf_eq_map together clear

/-- The words of settings behind the name of the command are read as these settings. -/
theorem readInvocation_settings {told : List Setting}
    (handedOver : ∀ setting ∈ told, setting.HandedOver) {source : Source} {name : GivenName}
    (sourceTold : (told.foldl enter {}).signature = some source)
    (nameTold : (told.foldl enter {}).name = some name) :
    readInvocation ("gen" :: told.map word) =
      .ok { verbose := false, command := .gen source name (told.foldl enter {}) } := by
  have line : readLine genRules applyGen {} (told.map word) =
      .ok { state := told.foldl enter {} } := by
    rw [readLine, wordsOf_words]
    exact readWords_settings handedOver {}
  have command : readCommand "gen" (told.map word) =
      .ok (.gen source name (told.foldl enter {})) := by
    unfold readCommand
    rw [if_neg (by decide), if_pos rfl, line]
    simp only [bind, Except.bind]
    rw [sourceTold, nameTold]
    rfl
  unfold readInvocation
  rw [wordsOf_command]
  simp only [bind, Except.bind, splitAtCommand, readWords, command]
  rfl

end Setting

end DBusMarshal.CommandLine
