import DBusMarshal.Envelope
import DBusMarshal.Proofs.Packing
import DBusMarshal.Proofs.Printing

/-!
Envelopes arrive as they were sent.

Every fragment that is generated has an envelope. Written and read again, the envelope is the same,
unless a text or a list is longer than MessagePack can tell.
-/

set_option autoImplicit false

namespace DBusMarshal

open MessagePack (Object Reads sizeLimit utf8 writeText)

namespace Envelope

/-! ### Sizes -/

/-- The sizes of all texts, in bytes, and the lengths of both lists can be written down. -/
structure Fits (envelope : Envelope) : Prop where
  texts : ∀ text ∈ envelope.texts, (utf8 text).length < sizeLimit
  inputs : envelope.inputs.length < sizeLimit
  locals : envelope.locals.length < sizeLimit

instance (envelope : Envelope) : Decidable envelope.Fits :=
  decidable_of_iff
    ((∀ text ∈ envelope.texts, (utf8 text).length < sizeLimit) ∧
      envelope.inputs.length < sizeLimit ∧ envelope.locals.length < sizeLimit)
    ⟨fun ⟨texts, inputs, locals⟩ => ⟨texts, inputs, locals⟩,
      fun fits => ⟨fits.texts, fits.inputs, fits.locals⟩⟩

theorem Fits.pair {envelope : Envelope} (fits : envelope.Fits) {pair : String × String}
    (listed : pair ∈ envelope.inputs ++ envelope.locals) :
    (utf8 pair.1).length < sizeLimit ∧ (utf8 pair.2).length < sizeLimit := by
  have inTexts : ∀ text ∈ [pair.1, pair.2], text ∈ envelope.texts := by
    intro text inPair
    apply List.mem_cons_of_mem
    apply List.mem_cons_of_mem
    exact List.mem_flatMap.2 ⟨pair, listed, inPair⟩
  exact ⟨fits.texts _ (inTexts _ (by simp)), fits.texts _ (inTexts _ (by simp))⟩

/-! ### Lists of variables -/

/-- The object that a list of variables is written as. -/
def pairObject (pair : String × String) : Object := .array [.text pair.1, .text pair.2]

theorem reads_pair {pair : String × String} (typeFits : (utf8 pair.1).length < sizeLimit)
    (nameFits : (utf8 pair.2).length < sizeLimit) (depth : Nat) :
    Reads (depth + 1) (MessagePack.writeArray [writeText pair.1, writeText pair.2])
      (pairObject pair) := by
  have each : ∀ text ∈ [pair.1, pair.2], Reads depth (writeText text) (.text text) := by
    intro text inPair
    rcases List.mem_cons.1 inPair with isType | isName
    · rw [isType]
      exact MessagePack.reads_text typeFits depth
    · rw [List.mem_singleton.1 isName]
      exact MessagePack.reads_text nameFits depth
  have count : [pair.1, pair.2].length < sizeLimit := by
    change 2 < sizeLimit
    decide
  have read := MessagePack.reads_array writeText Object.text each count
  exact read

theorem reads_pairs {pairs : List (String × String)}
    (each : ∀ pair ∈ pairs, (utf8 pair.1).length < sizeLimit ∧ (utf8 pair.2).length < sizeLimit)
    (fits : pairs.length < sizeLimit) (depth : Nat) :
    Reads (depth + 2) (writePairs pairs) (.array (pairs.map pairObject)) := by
  apply MessagePack.reads_array _ _ _ fits
  intro pair listed
  obtain ⟨typeFits, nameFits⟩ := each pair listed
  exact reads_pair typeFits nameFits depth

theorem readPairs_pairs (what : String) (pairs : List (String × String)) :
    readPairs what (some (.array (pairs.map pairObject))) = .ok pairs := by
  have each : ∀ pair ∈ pairs, (readPair what ∘ pairObject) pair = .ok pair := fun _ _ => rfl
  rw [readPairs, List.mapM_map, Node.mapM_of_ok _ each, List.map_id']

/-! ### Whole envelopes -/

/-- The fields of an envelope, each with its bytes and with its object. -/
def fields (envelope : Envelope) : List (String × List UInt8 × Object) :=
  [("v", MessagePack.writeSmall currentVersion, .int currentVersion),
    ("signature", writeText envelope.signature, .text envelope.signature),
    ("code", writeText envelope.code, .text envelope.code),
    ("inputs", writePairs envelope.inputs, .array (envelope.inputs.map pairObject)),
    ("locals", writePairs envelope.locals, .array (envelope.locals.map pairObject))]

theorem Fits.reads_field {envelope : Envelope} (fits : envelope.Fits) (depth : Nat) :
    ∀ field ∈ envelope.fields, Reads (depth + 2) field.2.1 field.2.2 := by
  intro field listed
  simp only [fields, List.mem_cons, List.not_mem_nil, or_false] at listed
  rcases listed with same | same | same | same | same <;> rw [same]
  · exact MessagePack.reads_small (by decide) _
  · exact MessagePack.reads_text (fits.texts envelope.signature List.mem_cons_self) _
  · exact MessagePack.reads_text
      (fits.texts envelope.code (List.mem_cons_of_mem _ List.mem_cons_self)) _
  · exact reads_pairs (fun pair listed => fits.pair (List.mem_append_left _ listed)) fits.inputs _
  · exact reads_pairs (fun pair listed => fits.pair (List.mem_append_right _ listed)) fits.locals _

/-- The entries of the map that an envelope is written as. -/
def entries (envelope : Envelope) : List (MessagePack.Key × Object) :=
  envelope.fields.map fun field => (.text field.1, field.2.2)

theorem mapOf_entries (envelope : Envelope) :
    Object.mapOf envelope.entries = .map envelope.entries := by
  simp [Object.mapOf, MessagePack.insert, entries, fields]

theorem Fits.reads_encode {envelope : Envelope} (fits : envelope.Fits) (depth : Nat) :
    Reads (depth + 3) envelope.encode (.map envelope.entries) := by
  have named : ∀ field ∈ envelope.fields, (utf8 field.1).length < sizeLimit := by
    have short : ∀ name ∈ ["v", "signature", "code", "inputs", "locals"],
        (utf8 name).length < sizeLimit := by
      decide
    intro field listed
    exact short field.1 (List.mem_map_of_mem listed)
  have count : envelope.fields.length < sizeLimit := by
    change 5 < sizeLimit
    decide
  have read := MessagePack.reads_map Prod.fst (fun field => field.2.1) (fun field => field.2.2)
    named (fits.reads_field depth) count
  have written : MessagePack.writeMap (envelope.fields.map fun field => (field.1, field.2.1)) =
      envelope.encode := rfl
  rw [written] at read
  rw [← mapOf_entries]
  exact read

/-- Only the objects of the five fields matter. -/
theorem ofEntries_of_fields {envelope : Envelope} {entries : List (MessagePack.Key × Object)}
    (version : MessagePack.field "v" entries = some (.int currentVersion))
    (signature : MessagePack.field "signature" entries = some (.text envelope.signature))
    (code : MessagePack.field "code" entries = some (.text envelope.code))
    (inputs : MessagePack.field "inputs" entries = some (.array (envelope.inputs.map pairObject)))
    (locals : MessagePack.field "locals" entries = some (.array (envelope.locals.map pairObject))) :
    ofEntries entries = .ok envelope := by
  have current : checkVersion (some (.int currentVersion)) = .ok () := rfl
  unfold ofEntries
  rw [code, version, signature, inputs, locals]
  simp only [current, readPairs_pairs, bind, Except.bind]
  rfl

/-- The entries are read as the envelope. -/
theorem ofEntries_entries (envelope : Envelope) : ofEntries envelope.entries = .ok envelope :=
  ofEntries_of_fields rfl rfl rfl rfl rfl

/-- An envelope takes three levels of the depth that can be read. -/
theorem Fits.reads {envelope : Envelope} (fits : envelope.Fits) :
    Reads MessagePack.maxDepth envelope.encode (.map envelope.entries) :=
  fits.reads_encode 1021

/-- An envelope that fits is read as it was written. -/
theorem Fits.decode_encode {envelope : Envelope} (fits : envelope.Fits) :
    decode envelope.encode = .ok envelope := by
  rw [decode, MessagePack.ofBytes?_of_reads fits.reads]
  exact ofEntries_entries envelope

end Envelope

/-! ### Generated code -/

/-- What the envelope of a fragment tells, once the code of the fragment is printed. -/
theorem Envelope.ofGenerated_of_code {generated : Generated} {code : String}
    (printed : generated.code = .ok code) :
    Envelope.ofGenerated generated =
      .ok { signature := generated.signature
            code
            inputs := generated.inputs.map Envelope.pairOf
            locals := generated.locals.map Envelope.pairOf } := by
  rw [Envelope.ofGenerated, printed]
  rfl

/-- Every generated fragment has an envelope, and reading what was written gives back its
signature, its code and its variables. -/
theorem generated_envelope {options : Options} {source : Source} {iter name : GivenName}
    {recovery : Option String} {generated : Generated}
    (ended : generate options source iter name recovery = .ok generated) :
    ∃ code envelope, generated.code = .ok code ∧
      Envelope.ofGenerated generated = .ok envelope ∧
      (envelope.Fits →
        Envelope.decode envelope.encode =
          .ok { signature := generated.signature
                code
                inputs := generated.inputs.map Envelope.pairOf
                locals := generated.locals.map Envelope.pairOf }) := by
  obtain ⟨code, printed⟩ := exists_code_of_generate ended
  have made := Envelope.ofGenerated_of_code printed
  exact ⟨code, _, printed, made, fun fits => fits.decode_encode⟩

/-- Code for a struct of one text, under names that have more bytes than letters. -/
def accents : Generated where
  signature := "(s)"
  fragment := (Node.struct [.basic "s"]).code { structStem := "größe" } "return -1; /* échec */"
    { base := "ité" } { base := "données" }
  inputs := (Node.struct [.basic "s"]).inputs { structStem := "größe" } { base := "données" }
  locals := (Node.struct [.basic "s"]).locals { structStem := "größe" } { base := "données" }
  options := { structStem := "größe" }

theorem generate_accents :
    generate { structStem := "größe" } (.tree (.struct [.basic "s"])) (.text "ité")
      (.text "données") (some "return -1; /* échec */") = .ok accents := by
  have marshallable : (Node.struct [.basic "s"]).Marshallable :=
    .struct (List.forall_mem_singleton.2 (.basic (by decide)))
  exact marshallable.generate _ _ (GivenName.resolve_text (by decide))
    (GivenName.resolve_text (by decide))

theorem fits_accents {envelope : Envelope} (made : Envelope.ofGenerated accents = .ok envelope) :
    envelope.Fits := by
  have sizes : ∀ other ∈ (Envelope.ofGenerated accents).toOption, other.Fits := by
    decide +kernel
  rw [made] at sizes
  exact sizes envelope rfl

theorem generated_envelope_accents :
    ∃ code envelope, accents.code = .ok code ∧ Envelope.ofGenerated accents = .ok envelope ∧
      Envelope.decode envelope.encode =
        .ok { signature := "(s)"
              code
              inputs := [("const struct größe_s *", "données")]
              locals := [("DBusMessageIter", "données_iter"),
                ("const char *", "données_item0")] } := by
  obtain ⟨code, envelope, printed, made, read⟩ := generated_envelope generate_accents
  have inputs : accents.inputs.map Envelope.pairOf = [("const struct größe_s *", "données")] := by
    decide +kernel
  have locals : accents.locals.map Envelope.pairOf =
      [("DBusMessageIter", "données_iter"), ("const char *", "données_item0")] := by
    decide +kernel
  rw [inputs, locals] at read
  exact ⟨code, envelope, printed, made, read (fits_accents made)⟩

end DBusMarshal
