import DBusMarshal.Text.Digit

/-!
The words of a command line.

Every word is an argument, an option, or two dashes, behind which every word is an argument. An
option of two dashes may be shortened as long as only one option starts that way, and may carry its
value behind an equals sign. A word that starts with a dash is an argument after all when it is the
dash alone, a negative number or holds a space.
-/

set_option autoImplicit false

namespace DBusMarshal.CommandLine

/-- An option as it is spelt, what it stands for, and whether a value follows it. -/
structure OptionRule (ι : Type) where
  spelling : String
  meaning : ι
  takesValue : Bool
deriving DecidableEq

def OptionRule.isLong {ι : Type} (rule : OptionRule ι) : Bool :=
  ['-', '-'].isPrefixOf rule.spelling.toList

/-- What stands behind an option in the same word. -/
inductive Attached where
  | nothing
  /-- Text behind an equals sign. -/
  | value (text : String)
  /-- Letters directly behind an option of one dash. -/
  | letters (text : String)
deriving DecidableEq, Repr

inductive Word (ι : Type) where
  | argument (text : String)
  | separator
  | option (rule : OptionRule ι) (attached : Attached)
  /-- An option that there is not. -/
  | unknown
  /-- A shortened option that several options start with. -/
  | ambiguous

def Word.isAmbiguous {ι : Type} : Word ι → Bool
  | .ambiguous => true
  | _ => false

variable {ι : Type}

/-! ### Numbers -/

/-- Digits, with or without a point before the last group of them. -/
def isUnsignedNumber (text : List Char) : Bool :=
  let whole := text.takeWhile Text.isDigit
  match text.dropWhile Text.isDigit with
  | [] => whole ≠ []
  | '.' :: fraction => fraction ≠ [] && fraction.all Text.isDigit
  | _ => false

/-- A dash and a number; a newline may end the word. -/
def isNegativeNumber : List Char → Bool
  | '-' :: number =>
    isUnsignedNumber (if number.getLast? = some '\n' then number.dropLast else number)
  | _ => false

/-! ### Options -/

def findOption (rules : List (OptionRule ι)) (spelling : List Char) : Option (OptionRule ι) :=
  rules.find? fun rule => rule.spelling.toList = spelling

def splitValue (word : List Char) : List Char × Attached :=
  match word.dropWhile (· ≠ '=') with
  | _ :: value => (word.takeWhile (· ≠ '='), .value (.ofList value))
  | [] => (word, .nothing)

/-- The options that a word may be short for. -/
def candidates (rules : List (OptionRule ι)) (word : List Char) : List (OptionRule ι × Attached) :=
  if ['-', '-'].isPrefixOf word then
    let (front, attached) := splitValue word
    (rules.filter fun rule => front.isPrefixOf rule.spelling.toList).map
      fun rule => (rule, attached)
  else
    rules.filterMap fun rule =>
      if rule.spelling.toList = word.take 2 then some (rule, .letters (.ofList (word.drop 2)))
      else if word.isPrefixOf rule.spelling.toList then some (rule, .nothing)
      else none

/-- What a word is that starts with a dash and has more behind it. -/
def classifyDashed (rules : List (OptionRule ι)) (text : String) : Word ι :=
  let word := text.toList
  let (front, attached) := splitValue word
  match findOption rules front, attached with
  | some rule, .value value => .option rule (.value value)
  | _, _ =>
    match candidates rules word with
    | [(rule, attached)] => .option rule attached
    | [] => if isNegativeNumber word || word.contains ' ' then .argument text else .unknown
    | _ => .ambiguous

/-- What a word is, when no two dashes stand before it. -/
def classify (rules : List (OptionRule ι)) (text : String) : Word ι :=
  match text.toList with
  | '-' :: rest =>
    match findOption rules ('-' :: rest) with
    | some rule => .option rule .nothing
    | none => if rest = [] then .argument text else classifyDashed rules text
  | _ => .argument text

def classifyAll (rules : List (OptionRule ι)) : List String → List (Word ι)
  | [] => []
  | text :: rest =>
    if text = "--" then .separator :: rest.map .argument
    else classify rules text :: classifyAll rules rest

/-! ### Examples -/

example : isNegativeNumber ['-', '1', '.', '5'] = true := by decide +kernel

example : isNegativeNumber ['-', '1', '.'] = false := by decide +kernel

end DBusMarshal.CommandLine
