import DBusMarshal.CommandLine.Word

/-!
Reading options from the words of a command line.

Words are taken from left to right. An option with a value takes it from its own word or from the
argument behind it; two dashes are dropped even there, which leaves the option without a value. A
flag takes no value, but further flags may stand in its word. A word that no option takes is left
over. Reading stops where help is asked for or an option is misused.
-/

set_option autoImplicit false

namespace DBusMarshal.CommandLine

inductive Stop where
  | help
  | misuse
deriving DecidableEq, Repr

/-- What has been read: the settings, and whether a word was left over. -/
structure Settings (σ : Type) where
  state : σ
  leftOver : Bool := false

variable {ι σ : Type}

/-! ### Values and flags -/

/-- The value that a text stands for: two dashes alone are dropped. -/
def valueOf (text : String) : Option String := if text = "--" then none else some text

/-- The text behind an option in its own word. -/
def attachedText : Attached → Option String
  | .nothing => none
  | .value text => some text
  | .letters text => some text

/-- The flags that letters stand for, each of them behind a dash of its own. -/
def flagsOf (rules : List (OptionRule ι)) (letters : List Char) : Option (List (OptionRule ι)) :=
  letters.mapM fun letter => (findOption rules ['-', letter]).filter fun rule => !rule.takesValue

/-- The flags in the word of a flag: the flag itself, and one for every letter behind it. Letters
stand behind a flag of one dash only, and an equals sign in front of them is skipped. -/
def flagsIn (rules : List (OptionRule ι)) (flag : OptionRule ι) (attached : Attached) :
    Option (List (OptionRule ι)) :=
  match attachedText attached with
  | none => some [flag]
  | some text =>
    if flag.isLong || text = "" then none else (flagsOf rules text.toList).map (flag :: ·)

/-! ### Words -/

/-- Take words one after the other; `apply` enters an option and its value into the state. -/
def readWords (rules : List (OptionRule ι)) (apply : σ → ι → Option String → Except Stop σ)
    (settings : Settings σ) : List (Word ι) → Except Stop (Settings σ)
  | [] => .ok settings
  | .option rule .nothing :: .argument text :: rest => do
    if rule.takesValue then
      let state ← apply settings.state rule.meaning (valueOf text)
      readWords rules apply { settings with state } rest
    else
      let state ← apply settings.state rule.meaning none
      readWords rules apply { settings with state } (.argument text :: rest)
  | .option rule attached :: rest => do
    if rule.takesValue then
      match attachedText attached with
      | some text =>
        let state ← apply settings.state rule.meaning (valueOf text)
        readWords rules apply { settings with state } rest
      | none => throw .misuse
    else
      match flagsIn rules rule attached with
      | some flags =>
        let state ← flags.foldlM (fun state flag => apply state flag.meaning none) settings.state
        readWords rules apply { settings with state } rest
      | none => throw .misuse
  | .ambiguous :: _ => .error .misuse
  | _ :: rest => readWords rules apply { settings with leftOver := true } rest

/-- Classify the words of a command line; a shortened option that several options start with is
misuse, wherever it stands. -/
def wordsOf (rules : List (OptionRule ι)) (line : List String) : Except Stop (List (Word ι)) :=
  let words := classifyAll rules line
  if words.any Word.isAmbiguous then .error .misuse else .ok words

def readLine (rules : List (OptionRule ι)) (apply : σ → ι → Option String → Except Stop σ)
    (state : σ) (line : List String) : Except Stop (Settings σ) := do
  readWords rules apply { state } (← wordsOf rules line)

/-- The words before the first argument or separator, and the words of the line from there on. -/
def splitAtCommand : List (Word ι) → List String → List (Word ι) × List String
  | .argument _ :: _, line => ([], line)
  | .separator :: _, line => ([], line)
  | word :: words, _ :: line =>
    let (before, behind) := splitAtCommand words line
    (word :: before, behind)
  | _, _ => ([], [])

end DBusMarshal.CommandLine
