import DBusMarshal.CommandLine.Command
import DBusMarshal.Proofs.Envelope
import DBusMarshal.Proofs.Pieces

/-!
What generated code is put out as.

The envelope of generated code tells all that the listing shows: the listing can be written again
from the envelope that is read. Letters that stand for surrogates pass the generator as others do,
but a text that shows one of them cannot be encoded. The listing shows the letters of the texts of
the envelope and no others but ASCII, so both formats break off then, or none.
-/

set_option autoImplicit false

namespace DBusMarshal

/-! ### Listings -/

namespace Envelope

/-- The line of a listing that declares a variable: the type and the name, with a blank between them
unless the type ends with the star of a pointer. -/
def declarationLine (label : String) (pair : String × String) : String :=
  "/* " ++ label ++ ": " ++ pair.1 ++ (if pair.1.toList.getLast? = some '*' then "" else " ")
    ++ pair.2 ++ " */\n"

/-- The listing of an envelope: a line for its signature, one for each input and then for each local
variable, an empty line, and the code. -/
def listing (envelope : Envelope) : String :=
  "/* Marshal " ++ envelope.signature ++ " */\n"
    ++ String.join (envelope.inputs.map (declarationLine "input"))
    ++ String.join (envelope.locals.map (declarationLine "local"))
    ++ "\n" ++ envelope.code

end Envelope

theorem Envelope.toList_declarationLine (label : String) (entry : TypedVar) :
    (declarationLine label (pairOf entry)).toList =
      ("/* " ++ label ++ ": " ++ CType.declaration entry.type entry.name.text ++ " */").toList ++
        ['\n'] := by
  by_cases pointer : entry.type.toList.getLast? = some '*'
  · simp [declarationLine, pairOf, CType.declaration, CType.isPointer, pointer]
  · simp [declarationLine, pairOf, CType.declaration, CType.isPointer, pointer]

namespace CommandLine

theorem listing_of_envelope {generated : Generated} {envelope : Envelope}
    (made : Envelope.ofGenerated generated = .ok envelope) :
    listing generated = .ok envelope.listing := by
  cases printed : generated.code with
  | error fault =>
      rw [Envelope.ofGenerated, printed] at made
      cases made
  | ok code =>
      rw [Envelope.ofGenerated_of_code printed] at made
      cases made
      rw [listing, printed]
      have heading : " */\n".toList = " */".toList ++ ['\n'] := by decide
      have empty : "\n".toList = "".toList ++ ['\n'] := by decide
      apply congrArg Except.ok
      apply String.toList_injective
      rw [String.toList_append, Text.toList_joinLines
        (List.append_ne_nil_of_right_ne_nil _ (List.cons_ne_nil _ _))]
      unfold Envelope.listing
      simp only [String.toList_append, String.toList_join, List.flatMap_append, List.flatMap_map,
        List.flatMap_cons, List.flatMap_nil, Envelope.toList_declarationLine, heading, empty,
        List.append_assoc, List.append_nil]

/-- What an envelope is put out as. -/
def Format.content (contents : Envelope) : Format → List UInt8
  | listing => MessagePack.utf8 contents.listing
  | envelope => contents.encode

/-! ### Letters that are not encoded -/

section

variable {lone : Char → Bool}

/-- No letter of the text stands for a surrogate. -/
def Encodable (lone : Char → Bool) (text : String) : Prop :=
  ∀ letter ∈ text.toList, lone letter = false

theorem encodable_iff (text : String) : Encodable lone text ↔ text.toList.any lone = false := by
  simp [Encodable]

theorem encodable_append (first second : String) :
    Encodable lone (first ++ second) ↔ Encodable lone first ∧ Encodable lone second := by
  simp [Encodable, or_imp, forall_and]

theorem encodable_join (texts : List String) :
    Encodable lone (String.join texts) ↔ ∀ text ∈ texts, Encodable lone text := by
  simp only [Encodable, String.toList_join, List.mem_flatMap]
  grind

def isAscii (text : String) : Bool := text.toList.all fun letter => letter.toNat < 128

/-- Letters of ASCII stand for themselves. -/
theorem encodable_ascii (ascii : ∀ letter : Char, letter.toNat < 128 → lone letter = false)
    {text : String} (small : isAscii text = true) : Encodable lone text :=
  fun letter listed => ascii letter (of_decide_eq_true (List.all_eq_true.1 small letter listed))

theorem encodable_declarationLine
    (ascii : ∀ letter : Char, letter.toNat < 128 → lone letter = false) {label : String}
    (small : isAscii label = true) (pair : String × String) :
    Encodable lone (Envelope.declarationLine label pair) ↔
      Encodable lone pair.1 ∧ Encodable lone pair.2 := by
  have opening : Encodable lone "/* " := encodable_ascii ascii (by decide)
  have colon : Encodable lone ": " := encodable_ascii ascii (by decide)
  have closing : Encodable lone " */\n" := encodable_ascii ascii (by decide)
  have between : Encodable lone (if pair.1.toList.getLast? = some '*' then "" else " ") := by
    split
    · exact encodable_ascii ascii (by decide)
    · exact encodable_ascii ascii (by decide)
  have labelled : Encodable lone label := encodable_ascii ascii small
  simp only [Envelope.declarationLine, encodable_append, opening, colon, closing, between, labelled,
    true_and, and_true]

/-- The listing of an envelope is encoded exactly when all its texts are. -/
theorem encodable_listing (ascii : ∀ letter : Char, letter.toNat < 128 → lone letter = false)
    (envelope : Envelope) :
    Encodable lone envelope.listing ↔ ∀ text ∈ envelope.texts, Encodable lone text := by
  have heading : Encodable lone "/* Marshal " := encodable_ascii ascii (by decide)
  have closing : Encodable lone " */\n" := encodable_ascii ascii (by decide)
  have newline : Encodable lone "\n" := encodable_ascii ascii (by decide)
  have lines : ∀ label, isAscii label = true → ∀ pairs : List (String × String),
      Encodable lone (String.join (pairs.map (Envelope.declarationLine label))) ↔
        ∀ pair ∈ pairs, Encodable lone pair.1 ∧ Encodable lone pair.2 := by
    intro label small pairs
    rw [encodable_join, List.forall_mem_map]
    exact forall₂_congr fun pair _ => encodable_declarationLine ascii small pair
  unfold Envelope.listing Envelope.texts
  simp only [encodable_append, heading, closing, newline, lines "input" (by decide),
    lines "local" (by decide), true_and, and_true]
  simp only [List.forall_mem_cons, List.forall_mem_flatMap, List.forall_mem_append]
  grind

theorem check_of_encodable (opened : Option OutputPath) {text : String}
    (encodable : Encodable lone text) : (Encoder.strict lone).check opened text = .ok () :=
  if_neg (Bool.eq_false_iff.1 ((encodable_iff text).1 encodable))

theorem check_of_unencodable (opened : Option OutputPath) {text : String}
    (unencodable : ¬ Encodable lone text) :
    (Encoder.strict lone).check opened text = .error (.unencodable opened) := by
  rw [encodable_iff, Bool.not_eq_false] at unencodable
  exact if_pos unencodable

theorem forM_check {ε : Type} {encoder : Encoder ε} {opened : Option OutputPath}
    {texts : List String} (passes : ∀ text ∈ texts, encoder.check opened text = .ok ()) :
    texts.forM (encoder.check opened) = .ok () := by
  induction texts with
  | nil => rfl
  | cons text rest ih =>
      rw [List.forall_mem_cons] at passes
      rw [List.forM, passes.1]
      exact ih passes.2

theorem forM_check_of_encodable (opened : Option OutputPath) {texts : List String}
    (encodable : ∀ text ∈ texts, Encodable lone text) :
    texts.forM ((Encoder.strict lone).check opened) = .ok () :=
  forM_check fun text listed => check_of_encodable opened (encodable text listed)

/-- The first text that is not encodable ends the encoding of all of them. -/
theorem forM_check_of_unencodable (opened : Option OutputPath) {texts : List String}
    (unencodable : ∃ text ∈ texts, ¬ Encodable lone text) :
    texts.forM ((Encoder.strict lone).check opened) = .error (.unencodable opened) := by
  induction texts with
  | nil =>
      obtain ⟨_, listed, _⟩ := unencodable
      cases listed
  | cons text rest ih =>
      rw [List.forM]
      by_cases first : Encodable lone text
      · rw [check_of_encodable opened first]
        apply ih
        rw [List.exists_mem_cons_iff] at unencodable
        exact unencodable.resolve_left (not_not_intro first)
      · rw [check_of_unencodable opened first]
        rfl

end

/-! ### Named files -/

/-- The file that an output is named by. No name and an empty one name none; any other one is cut at
its slashes, and empty parts and single dots lead nowhere. -/
inductive NamesFile : Option String → Option OutputPath → Prop where
  | nothing : NamesFile none none
  | empty : NamesFile (some "") none
  | path {text : String} (named : text ≠ "") (noNull : '\x00' ∉ text.toList) :
      NamesFile (some text) (some {
        fromRoot := text.toList.head? = some '/'
        parts := ((text.toList.splitOn '/').filter fun part =>
          part ≠ [] && part ≠ ['.']).map .ofList })

theorem cutAt_eq_splitOn (mark : Char) (text : List Char) :
    Text.cutAt mark text = text.splitOn mark := by
  induction text with
  | nil => rfl
  | cons letter rest ih =>
      have first : ∀ pieces : List (List Char), pieces ≠ [] →
          Text.consToFirst letter pieces = pieces.modifyHead (List.cons letter) := by
        intro pieces filled
        cases pieces with
        | nil => exact absurd rfl filled
        | cons piece others => rfl
      rw [Text.cutAt, List.splitOn, List.splitOnP_cons_eq_if_modifyHead,
        first _ (Text.cutAt_ne_nil mark rest), ih, List.splitOn]
      simp

theorem NamesFile.file_eq {settings : GenSettings} {file : Option OutputPath}
    (names : NamesFile settings.output file) : settings.file = .ok file := by
  unfold GenSettings.file
  generalize settings.output = output at names
  cases names with
  | nothing => rfl
  | empty => rfl
  | @path text named noNull =>
      have given : (some text).filter (· ≠ "") = some text := by simp [named]
      rw [given]
      dsimp only
      rw [OutputPath.ofText, if_neg (by simpa using noNull), cutAt_eq_splitOn]
      rfl

theorem file_of_null {settings : GenSettings} {text : String} (told : settings.output = some text)
    (null : '\x00' ∈ text.toList) : settings.file = .error .nullInPath := by
  have named : text ≠ "" := by
    rintro rfl
    cases null
  have given : (some text).filter (· ≠ "") = some text := by simp [named]
  rw [GenSettings.file, told, given]
  dsimp only
  rw [OutputPath.ofText, if_pos (by simpa using null)]
  rfl

/-! ### Outputs -/

/-- The file that is left empty when the content cannot be encoded: a listing is encoded into the
open file. -/
def Format.emptied (file : Option OutputPath) : Format → Option OutputPath
  | listing => file
  | envelope => none

section

variable {lone : Char → Bool} {generated : Generated} {envelope : Envelope}
  {settings : GenSettings} {file : Option OutputPath}

theorem mapError_ok {ε φ α : Type} {action : Except ε α} {result : α} (isOk : action = .ok result)
    (raise : ε → φ) : action.mapError raise = .ok result := by
  rw [isOk]
  rfl

theorem outputOf_of_encodable (ascii : ∀ letter : Char, letter.toNat < 128 → lone letter = false)
    (made : Envelope.ofGenerated generated = .ok envelope) (named : settings.file = .ok file)
    (encodable : ∀ text ∈ envelope.texts, Encodable lone text) :
    outputOf (.strict lone) generated settings =
      .ok (settings.format.content envelope, file) := by
  unfold outputOf
  cases settings.format with
  | listing =>
      have listed := (encodable_listing ascii envelope).2 encodable
      rw [mapError_ok (listing_of_envelope made), mapError_ok named]
      simp only [bind, Except.bind, check_of_encodable file listed]
      rfl
  | envelope =>
      rw [mapError_ok made, mapError_ok named]
      simp only [bind, Except.bind, forM_check_of_encodable none encodable]
      rfl

/-- Both formats break off where one of the texts is not encodable: the listing shows all of them. -/
theorem outputOf_of_unencodable
    (ascii : ∀ letter : Char, letter.toNat < 128 → lone letter = false)
    (made : Envelope.ofGenerated generated = .ok envelope) (named : settings.file = .ok file)
    (unencodable : ∃ text ∈ envelope.texts, ¬ Encodable lone text) :
    outputOf (.strict lone) generated settings =
      .error (.unencodable (settings.format.emptied file)) := by
  unfold outputOf
  cases settings.format with
  | listing =>
      have unlisted : ¬ Encodable lone envelope.listing := by
        obtain ⟨text, listed, stray⟩ := unencodable
        exact fun all => stray ((encodable_listing ascii envelope).1 all text listed)
      rw [mapError_ok (listing_of_envelope made), mapError_ok named]
      simp only [bind, Except.bind, check_of_unencodable file unlisted]
      rfl
  | envelope =>
      rw [mapError_ok made, mapError_ok named]
      simp only [bind, Except.bind, forM_check_of_unencodable none unencodable]
      rfl

/-- A path with a null character is found out before a listing is encoded, and after an envelope
is. -/
theorem outputOf_of_null (lone : Char → Bool)
    (made : Envelope.ofGenerated generated = .ok envelope)
    (null : settings.file = .error .nullInPath) :
    (settings.format = .listing ∨ (∀ text ∈ envelope.texts, Encodable lone text) →
      outputOf (.strict lone) generated settings = .error (.fault .nullInPath)) ∧
    (settings.format = .envelope ∧ (∃ text ∈ envelope.texts, ¬ Encodable lone text) →
      outputOf (.strict lone) generated settings = .error (.unencodable none)) := by
  unfold outputOf
  cases settings.format with
  | listing =>
      rw [mapError_ok (listing_of_envelope made), null]
      exact ⟨fun _ => rfl, nofun⟩
  | envelope =>
      rw [mapError_ok made, null]
      constructor
      · rintro (other | encodable)
        · cases other
        · simp only [bind, Except.bind, forM_check_of_encodable none encodable]
          rfl
      · rintro ⟨_, unencodable⟩
        simp only [bind, Except.bind, forM_check_of_unencodable none unencodable]

end

/-! ### Texts without surrogates -/

theorem outputOf_strict_none (generated : Generated) (settings : GenSettings) :
    outputOf (.strict fun _ => false) generated settings =
      (outputOf .total generated settings).mapError .fault := by
  have encodable : ∀ text, Encodable (fun _ => false) text := fun _ _ _ => rfl
  unfold outputOf
  cases settings.format with
  | listing =>
      cases listing generated with
      | error fault => rfl
      | ok text =>
          cases settings.file with
          | error fault => rfl
          | ok file =>
              simp only [bind, Except.bind, Except.mapError,
                check_of_encodable file (encodable text)]
              rfl
  | envelope =>
      cases Envelope.ofGenerated generated with
      | error fault => rfl
      | ok envelope =>
          have strict := forM_check_of_encodable none fun text (_ : text ∈ envelope.texts) =>
            encodable text
          have total : envelope.texts.forM (Encoder.total.check none) = .ok () :=
            forM_check fun _ _ => rfl
          simp only [bind, Except.bind, Except.mapError, strict, total]
          cases settings.file <;> rfl

/-- Where no letter stands for a surrogate, a strict encoder lets all texts through. -/
theorem runWith_strict_none (outerStem : Option String) (line : List String) :
    runWith (.strict fun _ => false) outerStem line = (run outerStem line).mapError .fault := by
  unfold run runWith
  cases readInvocation line with
  | error stop => rfl
  | ok invocation =>
      obtain ⟨verbose, _ | ⟨source, name, settings⟩⟩ := invocation
      · rfl
      · dsimp only
        unfold runGen
        cases settings.recovery with
        | none => rfl
        | some recovery =>
            dsimp only
            cases generate (settings.options outerStem) source settings.iter name
                (some (endLine recovery)) with
            | error fault =>
                dsimp only
                cases refusal fault <;> rfl
            | ok generated =>
                dsimp only
                rw [outputOf_strict_none]
                cases source.node with
                | error fault => rfl
                | ok node => cases outputOf .total generated settings <;> rfl

end CommandLine

end DBusMarshal
