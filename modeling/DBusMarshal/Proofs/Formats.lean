import DBusMarshal.Proofs.Arguments
import DBusMarshal.Proofs.Outcomes
import DBusMarshal.Proofs.Outputs

/-!
The two formats of the output.

Generated code is put out as a C listing or as an envelope. Where one format is refused, the other
one is refused with the same message, and nothing is put out. Where there is code, both formats are
put out from one envelope, and in both it makes no difference to the content whether a file is named
for it. Where a text cannot be encoded or no file can be named, both of them break off.
-/

set_option autoImplicit false

namespace DBusMarshal

namespace CommandLine

/-! ### Endings -/

namespace Ending

/-- The command is refused with a message, and puts nothing out. -/
structure Refuses (ending : Ending) (message : String) : Prop where
  status : ending.status = 1
  told : ending.told = message ++ "\n"
  printed : ending.printed = []
  written : ending.written = none

/-- The command puts out a content: to the file, if there is one, or else to the standard output. -/
structure Delivers (ending : Ending) (content : List UInt8) (file : Option OutputPath) : Prop where
  status : ending.status = 0
  told : ending.told = ""
  printed : ending.printed = match file with
    | none => content
    | some _ => []
  written : ending.written = file.map fun path => (path, content)

theorem refuses_refused (message : String) : (refused message).Refuses message :=
  ⟨rfl, rfl, rfl, rfl⟩

theorem delivers_done (content : List UInt8) (file : Option OutputPath) :
    (done { log := "", content, file }).Delivers content file := by
  cases file <;> exact ⟨rfl, rfl, rfl, rfl⟩

end Ending

/-! ### Faults -/

/-- The fault lies in the signature: the text is none, or the signature is one of a type that cannot
be marshalled. -/
inductive LiesIn (signature : String) : Fault → Prop where
  | unreadable (error : SignatureError) : LiesIn signature (.signature error)
  | variant : LiesIn signature (.variantValue signature)

/-- Such a fault is the caller's, and it has a message. -/
theorem LiesIn.exists_message {signature : String} {fault : Fault} (lies : LiesIn signature fault) :
    ∃ message, fault.message = some message ∧ refusal fault = some message := by
  cases lies with
  | unreadable error => exact ⟨error.fault.message, rfl, rfl⟩
  | variant => exact ⟨_, rfl, rfl⟩

/-! ### Command lines that tell everything -/

/-- What code is generated from. -/
structure GenArguments where
  signature : String
  name : String
  iter : String
  recovery : String
  structStem : String
deriving DecidableEq, Repr

namespace GenArguments

/-- All that a command line tells: the arguments, a format, and a file if one is named. -/
def told (arguments : GenArguments) (format : Format) (output : Option String) : List Setting :=
  [.signature arguments.signature, .name arguments.name, .iter arguments.iter,
    .recovery arguments.recovery, .structStem arguments.structStem, .format format] ++
    (output.map Setting.output).toList

/-- The command line tells all of it and nothing else, in any order, and every value is taken as it
stands. -/
structure ToldBy (arguments : GenArguments) (line : List String) (format : Format)
    (output : Option String) : Prop where
  words : ∃ settings : List Setting, line = "gen" :: settings.map Setting.word ∧
    settings.Perm (arguments.told format output)
  handedOver : ∀ setting ∈ arguments.told format output, setting.HandedOver

def settings (arguments : GenArguments) (format : Format) (output : Option String) : GenSettings :=
  { signature := some (.signature arguments.signature)
    name := some (.text arguments.name)
    iter := .text arguments.iter
    recovery := some arguments.recovery
    structStem := some arguments.structStem
    format
    output }

/-- The code for the arguments, with the struct stem that is set from outside. -/
def generated (arguments : GenArguments) (outerStem : Option String) : Except Fault Generated :=
  generate (GenSettings.options { structStem := some arguments.structStem } outerStem)
    (.signature arguments.signature) (.text arguments.iter) (.text arguments.name)
    (some (endLine arguments.recovery))

variable {arguments : GenArguments} {line : List String} {format : Format} {output : Option String}
  {outerStem : Option String}

theorem nodup_told (arguments : GenArguments) (format : Format) (output : Option String) :
    ((arguments.told format output).map Setting.option).Nodup := by
  cases output with
  | none =>
      change [GenOption.signature, .name, .iter, .recovery, .structStem, .format].Nodup
      decide
  | some path =>
      change [GenOption.signature, .name, .iter, .recovery, .structStem, .format, .output].Nodup
      decide

theorem foldl_told (arguments : GenArguments) (format : Format) (output : Option String) :
    (arguments.told format output).foldl Setting.enter {} = arguments.settings format output := by
  cases output <;> rfl

theorem ToldBy.run_eq {ε : Type} (toldBy : arguments.ToldBy line format output)
    (encoder : Encoder ε) (outerStem : Option String) :
    runWith encoder outerStem line =
      runGen encoder outerStem false (.signature arguments.signature) (.text arguments.name)
        (arguments.settings format output) := by
  obtain ⟨settings, rfl, sameTold⟩ := toldBy.words
  have distinct : (settings.map Setting.option).Nodup :=
    (sameTold.map Setting.option).nodup_iff.2 (arguments.nodup_told format output)
  have entered : settings.foldl Setting.enter {} = arguments.settings format output :=
    (Setting.foldl_enter_of_perm sameTold distinct {}).trans
      (arguments.foldl_told format output)
  have handedOver : ∀ setting ∈ settings, setting.HandedOver := by
    intro setting listed
    exact toldBy.handedOver setting (sameTold.mem_iff.1 listed)
  have read := Setting.readInvocation_settings handedOver (by rw [entered]; rfl)
    (by rw [entered]; rfl)
  rw [runWith, read, entered]

theorem recovery_settings (arguments : GenArguments) (format : Format) (output : Option String) :
    (arguments.settings format output).recovery = some arguments.recovery := rfl

theorem generate_settings (arguments : GenArguments) (format : Format)
    (output outerStem : Option String) :
    generate ((arguments.settings format output).options outerStem)
        (.signature arguments.signature) (arguments.settings format output).iter
        (.text arguments.name) (some (endLine arguments.recovery)) =
      arguments.generated outerStem := rfl

theorem ToldBy.run_of_refused {ε : Type} (toldBy : arguments.ToldBy line format output)
    (encoder : Encoder ε) {fault : Fault} {message : String}
    (ended : arguments.generated outerStem = .error fault)
    (refused : refusal fault = some message) :
    runWith encoder outerStem line = .ok (.refused ("sigmarshal: " ++ message)) := by
  rw [toldBy.run_eq]
  unfold runGen
  rw [recovery_settings]
  dsimp only
  rw [generate_settings, ended]
  dsimp only
  rw [refused]
  rfl

theorem ToldBy.run_of_generated {ε : Type} (toldBy : arguments.ToldBy line format output)
    (encoder : Encoder ε) {node : Node} {generated : Generated}
    (read : Node.read arguments.signature = .ok node)
    (ended : arguments.generated outerStem = .ok generated) :
    runWith encoder outerStem line =
      (outputOf encoder generated (arguments.settings format output)).map fun out =>
        .done { log := "", content := out.1, file := out.2 } := by
  have node : (Source.signature arguments.signature).node = .ok node := by
    rw [Source.node, read]
    rfl
  rw [toldBy.run_eq]
  unfold runGen
  rw [recovery_settings]
  dsimp only
  rw [generate_settings, ended]
  dsimp only
  rw [mapError_ok node]
  rfl

theorem generated_cases (named : arguments.name ≠ "") (iterNamed : arguments.iter ≠ "")
    (outerStem : Option String) :
    (∃ fault, arguments.generated outerStem = .error fault ∧ LiesIn arguments.signature fault) ∨
    ∃ node generated, Node.read arguments.signature = .ok node ∧
      arguments.generated outerStem = .ok generated ∧
      generated.signature = arguments.signature := by
  have iterGiven := GivenName.resolve_text iterNamed
  have nameGiven := GivenName.resolve_text named
  rcases generate_cases (GenSettings.options { structStem := some arguments.structStem } outerStem)
    arguments.signature (endLine arguments.recovery) iterGiven nameGiven with
    ⟨error, -, ended⟩ | ⟨node, -, -, ended⟩ | ⟨node, generated, read, -, ended, same⟩
  · exact Or.inl ⟨_, ended, .unreadable error⟩
  · exact Or.inl ⟨_, ended, .variant⟩
  · exact Or.inr ⟨node, generated, read, ended, same⟩

/-- What comes of an envelope that a command is to put out in a format. -/
structure PutsOut (lone : Char → Bool) (envelope : Envelope) (format : Format)
    (output : Option String) (result : Except Failure Ending) : Prop where
  delivers : ∀ file, NamesFile output file → (∀ text ∈ envelope.texts, Encodable lone text) →
    ∃ ending, result = .ok ending ∧ ending.Delivers (format.content envelope) file
  /-- A text that is not encodable ends the command; a file is emptied by then for a listing, and is
  not touched for an envelope. -/
  breaksOff : ∀ file, NamesFile output file → (∃ text ∈ envelope.texts, ¬ Encodable lone text) →
    result = .error (.unencodable (format.emptied file))
  /-- A name with a null character names no file. This is found out before a listing is encoded, and
  after an envelope is. -/
  noFile : ∀ text, output = some text → '\x00' ∈ text.toList →
    (format = .listing ∨ (∀ text ∈ envelope.texts, Encodable lone text) →
      result = .error (.fault .nullInPath)) ∧
    (format = .envelope ∧ (∃ text ∈ envelope.texts, ¬ Encodable lone text) →
      result = .error (.unencodable none))

/-- How the command ends that is told the arguments, in one format or the other. -/
structure Agreement (lone : Char → Bool) (arguments : GenArguments) (outerStem : Option String) :
    Prop where
  /-- A fault lies in the signature, and its message is the same for every command line. -/
  refused : ∀ fault, arguments.generated outerStem = .error fault →
    LiesIn arguments.signature fault ∧
    ∃ message, fault.message = some message ∧
      ∀ format output line, arguments.ToldBy line format output →
        ∃ ending, runWith (.strict lone) outerStem line = .ok ending ∧
          ending.Refuses ("sigmarshal: " ++ message)
  /-- Generated code has one envelope, which can be read again, and both formats are written from
  it. -/
  delivered : ∀ generated, arguments.generated outerStem = .ok generated →
    ∃ envelope, Envelope.ofGenerated generated = .ok envelope ∧
      envelope.signature = arguments.signature ∧
      (envelope.Fits → Envelope.decode (Format.envelope.content envelope) = .ok envelope) ∧
      ∀ format output line, arguments.ToldBy line format output →
        PutsOut lone envelope format output (runWith (.strict lone) outerStem line)

variable {lone : Char → Bool}

theorem agreement_of_error {fault : Fault} (ended : arguments.generated outerStem = .error fault)
    (lies : LiesIn arguments.signature fault) : arguments.Agreement lone outerStem := by
  obtain ⟨message, worded, refused⟩ := lies.exists_message
  constructor
  · intro other otherEnded
    obtain rfl : fault = other := Except.error.inj (ended.symm.trans otherEnded)
    refine ⟨lies, message, worded, ?_⟩
    intro format output line toldBy
    exact ⟨_, toldBy.run_of_refused _ ended refused, Ending.refuses_refused _⟩
  · intro generated otherEnded
    rw [ended] at otherEnded
    cases otherEnded

theorem ToldBy.putsOut (toldBy : arguments.ToldBy line format output)
    (ascii : ∀ letter : Char, letter.toNat < 128 → lone letter = false) {node : Node}
    {generated : Generated} {envelope : Envelope} (read : Node.read arguments.signature = .ok node)
    (ended : arguments.generated outerStem = .ok generated)
    (made : Envelope.ofGenerated generated = .ok envelope) :
    PutsOut lone envelope format output (runWith (.strict lone) outerStem line) := by
  rw [toldBy.run_of_generated _ read ended]
  constructor
  · intro file names encodable
    rw [outputOf_of_encodable ascii made names.file_eq encodable]
    exact ⟨_, rfl, Ending.delivers_done _ _⟩
  · intro file names unencodable
    rw [outputOf_of_unencodable ascii made names.file_eq unencodable]
    rfl
  · intro text told null
    have unnamed : (arguments.settings format output).file = .error .nullInPath :=
      file_of_null told null
    obtain ⟨nullFirst, nullLast⟩ := outputOf_of_null lone made unnamed
    constructor
    · intro found
      rw [nullFirst found]
      rfl
    · intro found
      rw [nullLast found]
      rfl

theorem agreement_of_ok (ascii : ∀ letter : Char, letter.toNat < 128 → lone letter = false)
    {node : Node} {generated : Generated} (read : Node.read arguments.signature = .ok node)
    (ended : arguments.generated outerStem = .ok generated)
    (same : generated.signature = arguments.signature) : arguments.Agreement lone outerStem := by
  obtain ⟨code, printed⟩ := exists_code_of_generate ended
  have made := Envelope.ofGenerated_of_code printed
  constructor
  · intro fault otherEnded
    rw [ended] at otherEnded
    cases otherEnded
  · intro other otherEnded
    obtain rfl : generated = other := Except.ok.inj (ended.symm.trans otherEnded)
    refine ⟨_, made, same, fun fits => fits.decode_encode, ?_⟩
    intro format output line toldBy
    exact toldBy.putsOut ascii read ended made

end GenArguments

/-- Arguments that have more bytes than letters. -/
def accentArguments : GenArguments where
  signature := "(s)"
  name := "données"
  iter := "ité"
  recovery := "return -1; /* échec */"
  structStem := "größe"

/-- Arguments that are refused, with the struct stem left to the outside. -/
def variantArguments : GenArguments where
  signature := "a\x7bsv\x7d"
  name := "table"
  iter := "iter"
  recovery := "goto fail;"
  structStem := ""

def accentLine (format : Format) : List String :=
  ["gen", "--out=out/s", assignment "--format" format.text, "--signature=(s)",
    "--struct-prefix=größe", "--oom=return -1; /* échec */", "--name=données", "--iter=ité"]

def variantLine (format : Format) : List String :=
  ["gen", "--struct-prefix=", "--name=table", "--iter=iter", "--signature=a\x7bsv\x7d",
    assignment "--format" format.text, "--oom=goto fail;"]

theorem accentArguments_toldBy (format : Format) :
    accentArguments.ToldBy (accentLine format) format (some "out/s") where
  words := by
    refine ⟨[.output "out/s", .format format, .signature "(s)", .structStem "größe",
      .recovery "return -1; /* échec */", .name "données", .iter "ité"], rfl, ?_⟩
    cases format <;> decide
  handedOver := by
    cases format <;> decide

theorem variantArguments_toldBy (format : Format) :
    variantArguments.ToldBy (variantLine format) format none where
  words := by
    refine ⟨[.structStem "", .name "table", .iter "iter", .signature "a\x7bsv\x7d",
      .format format, .recovery "goto fail;"], rfl, ?_⟩
    cases format <;> decide
  handedOver := by
    cases format <;> decide

/-- The letters of the private use area that stand for the surrogates, in the order of both. -/
def standsIn (letter : Char) : Bool := 0xE000 ≤ letter.toNat && letter.toNat < 0xE800

theorem standsIn_ascii (letter : Char) (small : letter.toNat < 128) : standsIn letter = false := by
  have below : ¬ 0xE000 ≤ letter.toNat := by omega
  simp [standsIn, below]

theorem accentArguments_fits {generated : Generated} {envelope : Envelope}
    (ended : accentArguments.generated none = .ok generated)
    (made : Envelope.ofGenerated generated = .ok envelope) : envelope.Fits := by
  have sizes : ∀ other ∈ (accentArguments.generated none >>= Envelope.ofGenerated).toOption,
      other.Fits := by
    decide +kernel
  rw [ended] at sizes
  change ∀ other ∈ (Envelope.ofGenerated generated).toOption, other.Fits at sizes
  rw [made] at sizes
  exact sizes envelope rfl

/-- Arguments with the word of the bytes 66 6f ff for a name: the last byte is read as a surrogate
that stands alone. -/
def strayArguments : GenArguments where
  signature := "s"
  name := "fo\uE4FF"
  iter := "iter"
  recovery := "return -1;"
  structStem := ""

def strayLine (format : Format) : List String :=
  ["gen", "--signature=s", "--name=fo\uE4FF", "--iter=iter", "--oom=return -1;",
    "--struct-prefix=", assignment "--format" format.text, "--out=a/b"]

theorem strayArguments_toldBy (format : Format) :
    strayArguments.ToldBy (strayLine format) format (some "a/b") where
  words := ⟨strayArguments.told format (some "a/b"), rfl, .refl _⟩
  handedOver := by
    cases format <;> decide

theorem strayArguments_unencodable {generated : Generated} {envelope : Envelope}
    (ended : strayArguments.generated none = .ok generated)
    (made : Envelope.ofGenerated generated = .ok envelope) :
    ∃ text ∈ envelope.texts, ¬ Encodable standsIn text := by
  have stray : ∀ other ∈ (strayArguments.generated none >>= Envelope.ofGenerated).toOption,
      (other.texts.any fun text => text.toList.any standsIn) = true := by
    decide +kernel
  rw [ended] at stray
  change ∀ other ∈ (Envelope.ofGenerated generated).toOption, _ at stray
  rw [made] at stray
  obtain ⟨text, listed, stands⟩ := List.any_eq_true.1 (stray envelope rfl)
  refine ⟨text, listed, ?_⟩
  rw [encodable_iff, stands]
  exact Bool.noConfusion

def plainArguments : GenArguments := { strayArguments with name := "foo" }

def nullLine (format : Format) : List String :=
  ["gen", "--signature=s", "--name=foo", "--iter=iter", "--oom=return -1;", "--struct-prefix=",
    assignment "--format" format.text, "--out=a\x00b"]

theorem plainArguments_toldBy (format : Format) :
    plainArguments.ToldBy (nullLine format) format (some "a\x00b") where
  words := ⟨plainArguments.told format (some "a\x00b"), rfl, .refl _⟩
  handedOver := by
    cases format <;> decide

end CommandLine

end DBusMarshal
