import DBusMarshal.CommandLine.OutputPath
import DBusMarshal.CommandLine.Parsing
import DBusMarshal.Envelope

/-!
The commands of the program, and what each of them answers.

`version` prints the version. `gen` generates the code for one variable and puts it out as a C
listing or as an envelope, to a file or to the standard output.

A word of the command line that is no UTF-8 is read as a text with surrogates that stand alone.
Such texts go through the generator as all others do, but no UTF-8 encodes them, and both formats
and the standard output are strict about that.
-/

set_option autoImplicit false

namespace DBusMarshal.CommandLine

/-! ### Commands -/

/-- The form in which generated code is put out. -/
inductive Format where
  | listing
  | envelope
deriving DecidableEq, Repr

/-- What `gen` is told. The signature and the name have to be told; a source without a type, an
absent name and no recovery code stand for options whose value is dropped. -/
structure GenSettings where
  signature : Option Source := none
  name : Option GivenName := none
  iter : GivenName := .text "iter"
  recovery : Option String := some "return -1;"
  structStem : Option String := none
  format : Format := .listing
  output : Option String := none
deriving Repr

inductive Command where
  | version
  | gen (signature : Source) (name : GivenName) (settings : GenSettings)
deriving Repr

/-- A command, and whether the course of it is logged. -/
structure Invocation where
  verbose : Bool
  command : Command
deriving Repr

/-! ### Options -/

inductive TopOption where
  | help
  | verbose
deriving DecidableEq, Repr

def topRules : List (OptionRule TopOption) :=
  [⟨"-h", .help, false⟩, ⟨"--help", .help, false⟩, ⟨"--verbose", .verbose, false⟩]

inductive GenOption where
  | help
  | signature
  | name
  | iter
  | recovery
  | structStem
  | format
  | output
deriving DecidableEq, Repr

def genRules : List (OptionRule GenOption) :=
  [⟨"-h", .help, false⟩, ⟨"--help", .help, false⟩, ⟨"--signature", .signature, true⟩,
    ⟨"--name", .name, true⟩, ⟨"--iter", .iter, true⟩, ⟨"--oom", .recovery, true⟩,
    ⟨"--struct-prefix", .structStem, true⟩, ⟨"--format", .format, true⟩, ⟨"--out", .output, true⟩]

def versionRules : List (OptionRule Unit) := [⟨"-h", (), false⟩, ⟨"--help", (), false⟩]

def applyTop (_verbose : Bool) (option : TopOption) (_value : Option String) : Except Stop Bool :=
  match option with
  | .help => .error .help
  | .verbose => .ok true

/-- The format of a name; without a name it is the listing. -/
def formatOf : Option String → Except Stop Format
  | none => .ok .listing
  | some "c" => .ok .listing
  | some "envelope" => .ok .envelope
  | some _ => .error .misuse

/-- The source of a value; without a value there is no type. -/
def sourceOf : Option String → Source
  | none => .tree (.stray none)
  | some text => .signature text

/-- The name of a value; without a value there is none. -/
def nameOf : Option String → GivenName
  | none => .absent
  | some text => .text text

/-- Enter an option of `gen`; of several values the last one counts. -/
def applyGen (settings : GenSettings) (option : GenOption) (value : Option String) :
    Except Stop GenSettings :=
  match option with
  | .help => .error .help
  | .signature => .ok { settings with signature := sourceOf value }
  | .name => .ok { settings with name := nameOf value }
  | .iter => .ok { settings with iter := nameOf value }
  | .recovery => .ok { settings with recovery := value }
  | .structStem => .ok { settings with structStem := value }
  | .format => do return { settings with format := ← formatOf value }
  | .output => .ok { settings with output := value }

/-! ### Reading a command line -/

/-- Read what stands behind the name of a command; no word may be left over. -/
def readCommand (name : String) (line : List String) : Except Stop Command := do
  if name = "version" then
    let read ← readLine versionRules (fun _ _ _ => .error .help) () line
    if read.leftOver then throw .misuse
    return .version
  else if name = "gen" then
    let read ← readLine genRules applyGen {} line
    match read.state.signature, read.state.name with
    | some signature, some name =>
      if read.leftOver then throw .misuse
      return .gen signature name read.state
    | _, _ => throw .misuse
  else throw .misuse

def readInvocation (line : List String) : Except Stop Invocation := do
  let (before, behind) := splitAtCommand (← wordsOf topRules line) line
  let top ← readWords topRules applyTop { state := false } before
  match behind with
  | name :: rest =>
    let command ← readCommand name rest
    if top.leftOver then throw .misuse
    return { verbose := top.state, command }
  | [] => throw .misuse

/-! ### Answers -/

/-- What a command puts out: its log, and a content for the standard output or for a file. -/
structure Output where
  log : String
  content : List UInt8
  file : Option OutputPath
deriving Repr

inductive Ending where
  /-- The command line was not understood, or help was asked for. -/
  | stopped (stop : Stop)
  /-- The signature was refused. -/
  | refused (message : String)
  | done (output : Output)
deriving Repr

/-- The bytes that go to the standard output: a file takes all of the content. -/
def Ending.printed : Ending → List UInt8
  | .done { content, file := none, .. } => content
  | _ => []

/-- The file that is written, and what it holds in the end. -/
def Ending.written : Ending → Option (OutputPath × List UInt8)
  | .done { content, file := some path, .. } => some (path, content)
  | _ => none

/-- What goes to the standard error: the log, or the reason of a refusal. -/
def Ending.told : Ending → String
  | .stopped _ => ""
  | .refused message => message ++ "\n"
  | .done output => output.log

/-- The exit status of the program. -/
def Ending.status : Ending → UInt32
  | .stopped .help => 0
  | .stopped .misuse => 2
  | .refused _ => 1
  | .done _ => 0

def programVersion : String := "0.1.0"

/-- The line of the log for a type that code is generated for. -/
def visitLine (visit : Visit) : String :=
  "sigmarshal.marshal: marshal " ++ visit.signature ++ " from " ++ visit.name.text ++ " onto "
    ++ visit.iter.text ++ "\n"

def logOf (node : Node) (iter name : GivenName) : String :=
  match iter.resolve, name.resolve with
  | some iter, some name => String.join ((node.visits iter name).map visitLine)
  | _, _ => ""

/-- A generated fragment with a comment in front that lists its variables. -/
def listing (generated : Generated) : Except Fault String := do
  let line (label : String) (entry : TypedVar) : String :=
    "/* " ++ label ++ ": " ++ CType.declaration entry.type entry.name.text ++ " */"
  let heading := ["/* Marshal " ++ generated.signature ++ " */"]
    ++ generated.inputs.map (line "input") ++ generated.locals.map (line "local") ++ [""]
  return joinLines heading ++ (← generated.code)

def endLine (code : String) : String :=
  if code.toList.getLast? = some '\n' then code else code ++ "\n"

/-- The choices that `gen` makes: an empty stem counts as none. -/
def GenSettings.options (settings : GenSettings) (outerStem : Option String) : Options :=
  match settings.structStem with
  | some stem => if stem = "" then .standard outerStem else { structStem := stem }
  | none => .standard outerStem

/-- An error in a signature or its types is the caller's; any other fault is not handled here. -/
def refusal (fault : Fault) : Option String :=
  match fault with
  | .signature _ => fault.message
  | .variantValue _ => fault.message
  | .noCType _ => fault.message
  | _ => none

/-- The file that is named; an empty name is none. -/
def GenSettings.file (settings : GenSettings) : Except Fault (Option OutputPath) :=
  match settings.output.filter (· ≠ "") with
  | none => .ok none
  | some text => (OutputPath.ofText text).map some

/-! ### Putting out -/

/-- Why a command breaks off: for a fault, or for a text that no UTF-8 encodes. A file that was
opened for the text is left empty. -/
inductive Failure where
  | fault (fault : Fault)
  | unencodable (emptied : Option OutputPath)
deriving DecidableEq, Repr

/-- What a fault is raised as, and whether a text is encoded when it is to go into an open file, or
into none. -/
structure Encoder (ε : Type) where
  raise : Fault → ε
  check : Option OutputPath → String → Except ε Unit

namespace Encoder

/-- All texts are encoded: none of their letters stands for a surrogate. -/
def total : Encoder Fault := { raise := id, check := fun _ _ => .ok () }

/-- The letters that are told stand for surrogates that stand alone, and no text with one of them is
encoded. -/
def strict (lone : Char → Bool) : Encoder Failure where
  raise := .fault
  check := fun opened text =>
    if text.toList.any lone then .error (.unencodable opened) else .ok ()

end Encoder

/-- The content that generated code is put out as, and the file for it. A listing is encoded into
the open file; an envelope is packed, text by text, before its file is opened. -/
def outputOf {ε : Type} (encoder : Encoder ε) (generated : Generated) (settings : GenSettings) :
    Except ε (List UInt8 × Option OutputPath) :=
  match settings.format with
  | .listing => do
    let text ← (listing generated).mapError encoder.raise
    let file ← settings.file.mapError encoder.raise
    encoder.check file text
    return (MessagePack.utf8 text, file)
  | .envelope => do
    let envelope ← (Envelope.ofGenerated generated).mapError encoder.raise
    envelope.texts.forM (encoder.check none)
    let file ← settings.file.mapError encoder.raise
    return (envelope.encode, file)

/-! ### Running -/

def runGen {ε : Type} (encoder : Encoder ε) (outerStem : Option String) (verbose : Bool)
    (source : Source) (name : GivenName) (settings : GenSettings) : Except ε Ending := do
  let some recovery := settings.recovery | throw (encoder.raise .noSuchPart)
  match generate (settings.options outerStem) source settings.iter name
      (some (endLine recovery)) with
  | .error fault =>
    match refusal fault with
    | some message => return .refused ("sigmarshal: " ++ message)
    | none => throw (encoder.raise fault)
  | .ok generated =>
    let node ← source.node.mapError encoder.raise
    let (content, file) ← outputOf encoder generated settings
    return .done { log := if verbose then logOf node settings.iter name else "", content, file }

/-- Run a command line, with the struct stem that is set from outside. -/
def runWith {ε : Type} (encoder : Encoder ε) (outerStem : Option String) (line : List String) :
    Except ε Ending :=
  match readInvocation line with
  | .error stop => .ok (.stopped stop)
  | .ok { command := .version, .. } =>
    .ok (.done { log := "", content := MessagePack.utf8 (programVersion ++ "\n"), file := none })
  | .ok { verbose, command := .gen source name settings } =>
    runGen encoder outerStem verbose source name settings

/-- Run a command line of words that are all valid UTF-8. -/
def run (outerStem : Option String) (line : List String) : Except Fault Ending :=
  runWith .total outerStem line

end DBusMarshal.CommandLine
