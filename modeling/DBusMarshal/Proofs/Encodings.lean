import DBusMarshal.Proofs.Envelope

/-!
Whatever MessagePack allows is read.

One object may be written in many ways: its numbers and sizes have heads of several widths, and the
entries of a map stand in any order, some of them repeated. `Packed` relates an object to all the
bytes that it may be written as. Each of them is read as the object, where the last entry of a
repeated key counts.
-/

set_option autoImplicit false

namespace DBusMarshal

namespace MessagePack

/-! ### Scalars -/

/-- The bytes of a number in two's complement. -/
def twosComplement (width : Nat) (number : Int) : List UInt8 :=
  bigEndian width (number % (Nat.pow 256 width : Nat)).toNat

/-- A number lies between the bounds of two's complement in some bytes. -/
def FitsSigned (width : Nat) (number : Int) : Prop :=
  -(Nat.pow 256 width : Int) ≤ 2 * number ∧ 2 * number < (Nat.pow 256 width : Int)

def signedForms : List (UInt8 × Nat) := [(0xd0, 1), (0xd1, 2), (0xd2, 4), (0xd3, 8)]

/-- The first number of nanoseconds that is a whole second. -/
def nanosPerSecond : Nat := 1000000000

/-- The content of an extension that is a point in time: seconds alone, nanoseconds in the upper 30
of 64 bits, or nanoseconds and signed seconds one behind the other. -/
inductive Time : Object → List UInt8 → Prop where
  | seconds {seconds : Nat} (fits : seconds < Nat.pow 256 4) :
      Time (.timestamp seconds 0) (bigEndian 4 seconds)
  | joined {seconds nanoseconds : Nat} (fits : seconds < 0x400000000)
      (below : nanoseconds < nanosPerSecond) :
      Time (.timestamp seconds nanoseconds)
        (bigEndian 8 (nanoseconds * 0x400000000 + seconds))
  | apart {seconds : Int} {nanoseconds : Nat} (fits : FitsSigned 8 seconds)
      (below : nanoseconds < nanosPerSecond) :
      Time (.timestamp seconds nanoseconds)
        (bigEndian 4 nanoseconds ++ twosComplement 8 seconds)

/-- The bytes that an object without parts may be written as. -/
inductive Scalar : Object → List UInt8 → Prop where
  | nil : Scalar .nil [0xc0]
  | no : Scalar (.bool false) [0xc2]
  | yes : Scalar (.bool true) [0xc3]
  | natural {number : Nat} {head : List UInt8} (headed : naturals.Writes number head) :
      Scalar (.int number) head
  | negative {number : Int} (low : -32 ≤ number) (high : number < 0) :
      Scalar (.int number) (twosComplement 1 number)
  | signed {number : Int} {form : UInt8 × Nat} (listed : form ∈ signedForms)
      (fits : FitsSigned form.2 number) :
      Scalar (.int number) (form.1 :: twosComplement form.2 number)
  | single {bits : Nat} (fits : bits < Nat.pow 256 4) :
      Scalar (.float (widen bits)) (0xca :: bigEndian 4 bits)
  | double (number : Binary64) :
      Scalar (.float number) (0xcb :: bigEndian 8 number.bits.toNat)
  | text (written : String) {head : List UInt8} (headed : texts.Writes (utf8 written).length head) :
      Scalar (.text written) (head ++ utf8 written)
  | bytes (octets : List UInt8) {head : List UInt8}
      (headed : byteStrings.Writes octets.length head) : Scalar (.bytes octets) (head ++ octets)
  | extension {code : Nat} (known : code < 128) (octets : List UInt8) {head : List UInt8}
      (headed : ExtensionHead octets.length head) :
      Scalar (.extension code octets) (head ++ UInt8.ofNat code :: octets)
  | time {object : Object} {octets : List UInt8} (isTime : Time object octets) {head : List UInt8}
      (headed : ExtensionHead octets.length head) : Scalar object (head ++ 0xff :: octets)

/-! ### Reading scalars -/

theorem unsigned_twosComplement (width : Nat) (number : Int) :
    (unsigned (twosComplement width number) : Int) = number % (Nat.pow 256 width : Nat) := by
  have positive : (0 : Int) < (Nat.pow 256 width : Nat) :=
    Int.natCast_pos.2 (Nat.pow_pos (by decide))
  have low := Int.emod_nonneg number (Int.ne_of_gt positive)
  have high := Int.emod_lt_of_pos number positive
  rw [twosComplement, unsigned_bigEndian (by omega), Int.toNat_of_nonneg low]

theorem signed_twosComplement {width : Nat} {number : Int} (fits : FitsSigned width number) :
    signed (twosComplement width number) = number := by
  obtain ⟨low, high⟩ := fits
  rw [signed, unsigned_twosComplement, twosComplement, length_bigEndian, Int.emod_bmod]
  exact Int.bmod_eq_of_le_mul_two (by omega) (by omega)

theorem takeSigned_twosComplement {width : Nat} {number : Int} (fits : FitsSigned width number)
    (rest : List UInt8) :
    takeSigned width (twosComplement width number ++ rest) = some (.int number, rest) := by
  have taken := takeBytes_bigEndian width (number % (Nat.pow 256 width : Nat)).toNat rest
  rw [← twosComplement] at taken
  rw [takeSigned, taken, Option.map_some]
  dsimp only
  rw [signed_twosComplement fits]

/-- A small negative number is its own tag. -/
theorem takeHead_negative {number : Int} (low : -32 ≤ number) (high : number < 0)
    (rest : List UInt8) :
    takeHead (twosComplement 1 number ++ rest) = some (.scalar (.int number), rest) := by
  obtain ⟨tag, isTag⟩ : ∃ tag : Nat, number + 256 = tag := Int.eq_ofNat_of_zero_le (by omega)
  have spelt : twosComplement 1 number = [UInt8.ofNat tag] := by
    have remainder : number % (Nat.pow 256 1 : Nat) = tag := by
      change number % 256 = tag
      omega
    rw [twosComplement, remainder]
    rfl
  have value : (tag : Int) - 256 = number := by omega
  rw [spelt, List.singleton_append, takeHead, toNat_tag (by omega), if_neg (by omega),
    if_neg (by omega), if_neg (by omega), if_neg (by omega)]
  -- No tag with a meaning of its own is as large as this one.
  split
  case h_33 => rw [value]
  all_goals omega

theorem timestamp?_of_time {object : Object} {octets : List UInt8} (isTime : Time object octets) :
    timestamp? octets = some object := by
  cases isTime with
  | seconds fits =>
      rw [timestamp?, length_bigEndian]
      dsimp only
      rw [unsigned_bigEndian fits]
      rfl
  | @joined seconds nanoseconds fits below =>
      have whole : nanoseconds * 0x400000000 + seconds < Nat.pow 256 8 := by
        change _ < 0x10000000000000000
        unfold nanosPerSecond at below
        omega
      have upper : (nanoseconds * 0x400000000 + seconds) / 0x400000000 = nanoseconds := by omega
      have lower : (nanoseconds * 0x400000000 + seconds) % 0x400000000 = seconds := by omega
      rw [timestamp?, length_bigEndian]
      dsimp only
      rw [unsigned_bigEndian whole, upper, lower]
      exact if_pos below
  | @apart seconds nanoseconds fits below =>
      have size : (bigEndian 4 nanoseconds ++ twosComplement 8 seconds).length = 12 := by
        rw [List.length_append, twosComplement, length_bigEndian, length_bigEndian]
      have fitsNanos : nanoseconds < Nat.pow 256 4 := by
        change _ < 0x100000000
        unfold nanosPerSecond at below
        omega
      have front : (bigEndian 4 nanoseconds ++ twosComplement 8 seconds).take 4 =
          bigEndian 4 nanoseconds :=
        List.take_left' (length_bigEndian 4 nanoseconds)
      have back : (bigEndian 4 nanoseconds ++ twosComplement 8 seconds).drop 4 =
          twosComplement 8 seconds :=
        List.drop_left' (length_bigEndian 4 nanoseconds)
      rw [timestamp?, size]
      dsimp only
      rw [front, back, unsigned_bigEndian fitsNanos, signed_twosComplement fits]
      exact if_pos below

theorem takeExtension_append (type : UInt8) (octets rest : List UInt8) :
    takeExtension octets.length (type :: octets ++ rest) =
      if signed [type] = -1 then (timestamp? octets).map fun time => (time, rest)
      else if 0 ≤ signed [type] then
        some (.extension (signed [type]).toNat octets, rest)
      else none := by
  have taken := takeBytes_append (type :: octets) rest
  rw [List.length_cons] at taken
  rw [takeExtension, taken]

/-- Whichever of its forms a scalar is written in, it is read. -/
theorem takeHead_scalar {object : Object} {bytes : List UInt8} (scalar : Scalar object bytes)
    (rest : List UInt8) : takeHead (bytes ++ rest) = some (.scalar object, rest) := by
  cases scalar with
  | nil => rfl
  | no => rfl
  | yes => rfl
  | natural headed => exact takeHead_naturals headed rest
  | negative low high => exact takeHead_negative low high rest
  | @signed number form listed fits =>
      have taken := congrArg asHead (takeSigned_twosComplement fits rest)
      simp only [signedForms, List.mem_cons, List.not_mem_nil, or_false] at listed
      rcases listed with rfl | rfl | rfl | rfl <;> exact taken
  | single fits =>
      have read := congrArg asHead (sized_bigEndian 4 fits rest
        fun bits rest => some (Object.float (widen bits), rest))
      exact read
  | double number =>
      have fits : number.bits.toNat < Nat.pow 256 8 := number.bits.toNat_lt
      have read := congrArg asHead (sized_bigEndian 8 fits rest
        fun bits rest => some (Object.float ⟨UInt64.ofNat bits⟩, rest))
      rw [UInt64.ofNat_toNat] at read
      exact read
  | text written headed =>
      rw [List.append_assoc, takeHead_texts headed, takeText_utf8]
      rfl
  | bytes octets headed =>
      rw [List.append_assoc, takeHead_byteStrings headed, takeOctets, takeBytes_append]
      rfl
  | @extension code known octets head headed =>
      have value : signed [UInt8.ofNat code] = code := by
        have fits : FitsSigned 1 code := by
          change -(256 : Int) ≤ 2 * code ∧ 2 * (code : Int) < 256
          omega
        have remainder : ((code : Int) % (Nat.pow 256 1 : Nat)).toNat = code := by
          change ((code : Int) % 256).toNat = code
          omega
        have read := signed_twosComplement fits
        rw [twosComplement, remainder] at read
        exact read
      rw [List.append_assoc, takeHead_extensions headed, takeExtension_append, value,
        if_neg (by omega), if_pos (by omega), Int.toNat_natCast]
      rfl
  | @time object octets isTime head headed =>
      have value : signed [0xff] = -1 := by decide
      rw [List.append_assoc, takeHead_extensions headed, takeExtension_append, value, if_pos rfl,
        timestamp?_of_time isTime]
      rfl

/-! ### Objects with parts -/

/-- A key is written as the text or byte string that it is. -/
def Key.object : Key → Object
  | text written => .text written
  | bytes octets => .bytes octets

theorem readKey_scalar {key : Key} {bytes : List UInt8} (scalar : Scalar key.object bytes)
    (rest : List UInt8) : readKey (bytes ++ rest) = some (key, rest) := by
  have taken := takeHead_scalar scalar rest
  cases key <;> rw [readKey, taken] <;> rfl

/-- An entry of a map with the bytes of its key and of its object. -/
structure WrittenEntry where
  key : Key
  keyBytes : List UInt8
  object : Object
  bytes : List UInt8

/-- The bytes that an object may be written as when arrays and maps stand at most so deep in it. The
entries of a map are those that are written, repeated keys included. -/
inductive Packed : (depth : Nat) → Object → List UInt8 → Prop where
  | scalar {depth : Nat} {object : Object} {bytes : List UInt8} (scalar : Scalar object bytes) :
      Packed depth object bytes
  | array {depth : Nat} {items : List (Object × List UInt8)} {head : List UInt8}
      (headed : arrays.Writes items.length head)
      (each : ∀ item ∈ items, Packed depth item.1 item.2) :
      Packed (depth + 1) (.array (items.map Prod.fst)) (head ++ items.flatMap Prod.snd)
  | map {depth : Nat} {entries : List WrittenEntry} {head : List UInt8}
      (headed : maps.Writes entries.length head)
      (keyed : ∀ entry ∈ entries, Scalar entry.key.object entry.keyBytes)
      (each : ∀ entry ∈ entries, Packed depth entry.object entry.bytes) :
      Packed (depth + 1) (.map (entries.map fun entry => (entry.key, entry.object)))
        (head ++ entries.flatMap fun entry => entry.keyBytes ++ entry.bytes)

mutual

/-- The object with the repeated keys of its maps settled: the last object of a key counts. -/
def Object.settled : Object → Object
  | .array items => .array (Object.settledAll items)
  | .map entries => .mapOf (Object.settledEntries entries)
  | object => object

def Object.settledAll : List Object → List Object
  | [] => []
  | item :: rest => item.settled :: Object.settledAll rest

def Object.settledEntries : List (Key × Object) → List (Key × Object)
  | [] => []
  | (key, object) :: rest => (key, object.settled) :: Object.settledEntries rest

end

theorem settledAll_eq_map (items : List Object) :
    Object.settledAll items = items.map Object.settled := by
  induction items with
  | nil => rfl
  | cons item rest ih => rw [Object.settledAll, ih, List.map_cons]

theorem settledEntries_eq_map (entries : List (Key × Object)) :
    Object.settledEntries entries = entries.map fun entry => (entry.1, entry.2.settled) := by
  induction entries with
  | nil => rfl
  | cons entry rest ih =>
      obtain ⟨key, object⟩ := entry
      rw [Object.settledEntries, ih, List.map_cons]

theorem Scalar.settled {object : Object} {bytes : List UInt8} (scalar : Scalar object bytes) :
    object.settled = object := by
  cases scalar with
  | time isTime headed => cases isTime <;> rfl
  | _ => rfl

/-- Whatever bytes an object is written as, they are read as the object. -/
theorem Packed.reads {depth : Nat} {object : Object} {bytes : List UInt8}
    (packed : Packed depth object bytes) : Reads depth bytes object.settled := by
  induction packed with
  | scalar scalar =>
      intro rest
      rw [scalar.settled]
      exact readObject_scalar (takeHead_scalar scalar rest) _
  | array headed each ih =>
      rw [Object.settled, settledAll_eq_map, List.map_map]
      exact reads_of_arrays Prod.snd (fun item => item.1.settled) ih headed
  | map headed keyed each ih =>
      rw [Object.settled, settledEntries_eq_map, List.map_map]
      exact reads_of_maps WrittenEntry.keyBytes WrittenEntry.key WrittenEntry.bytes
        (fun entry => entry.object.settled)
        (fun entry listed => readKey_scalar (keyed entry listed)) ih headed

theorem scalar_writeText {written : String} (fits : (utf8 written).length < sizeLimit) :
    Scalar (.text written) (writeText written) :=
  .text written (texts_textHead fits)

/-! ### Repeated keys -/

/-- The object is the one of the last entry with that text as its key. -/
def Last (name : String) (object : Object) (entries : List (Key × Object)) : Prop :=
  ∃ before after, entries = before ++ (.text name, object) :: after ∧
    ∀ entry ∈ after, entry.1 ≠ .text name

theorem lookup_cons_of_ne {key other : Key} (different : other ≠ key) (object : Object)
    (rest : List (Key × Object)) :
    List.lookup other ((key, object) :: rest) = rest.lookup other := by
  rw [List.lookup_cons, beq_eq_false_iff_ne.2 different]

theorem lookup_insert_self (key : Key) (object : Object) (known : List (Key × Object)) :
    (insert key object known).lookup key = some object := by
  induction known with
  | nil => exact List.lookup_cons_self
  | cons entry rest ih =>
      obtain ⟨first, old⟩ := entry
      rw [insert]
      split
      · rename_i same
        rw [same]
        exact List.lookup_cons_self
      · rename_i different
        rw [lookup_cons_of_ne (Ne.symm different)]
        exact ih

theorem lookup_insert_of_ne {key other : Key} (different : other ≠ key) (object : Object)
    (known : List (Key × Object)) :
    (insert key object known).lookup other = known.lookup other := by
  induction known with
  | nil => exact lookup_cons_of_ne different object []
  | cons entry rest ih =>
      obtain ⟨first, old⟩ := entry
      rw [insert]
      split
      · rename_i same
        rw [same, lookup_cons_of_ne different, lookup_cons_of_ne different]
      · rw [List.lookup_cons, List.lookup_cons, ih]

theorem lookup_foldl_insert {key : Key} {entries : List (Key × Object)}
    (absent : ∀ entry ∈ entries, entry.1 ≠ key) (known : List (Key × Object)) :
    (entries.foldl (fun known entry => insert entry.1 entry.2 known) known).lookup key =
      known.lookup key := by
  induction entries generalizing known with
  | nil => rfl
  | cons entry rest ih =>
      obtain ⟨first, others⟩ := List.forall_mem_cons.1 absent
      rw [List.foldl_cons, ih others, lookup_insert_of_ne first.symm]

/-- The last object of a key is the one that is found in the map. -/
theorem Last.field {name : String} {object : Object} {entries : List (Key × Object)}
    (last : Last name object entries) :
    field name (entries.foldl (fun known entry => insert entry.1 entry.2 known) []) =
      some object := by
  obtain ⟨before, after, rfl, absent⟩ := last
  rw [MessagePack.field, List.foldl_append, List.foldl_cons, lookup_foldl_insert absent]
  exact lookup_insert_self _ _ _

theorem Last.settled {name : String} {object : Object} {entries : List (Key × Object)}
    (last : Last name object entries) :
    Last name object.settled (Object.settledEntries entries) := by
  obtain ⟨before, after, rfl, absent⟩ := last
  rw [settledEntries_eq_map, List.map_append, List.map_cons]
  exact ⟨_, _, rfl, List.forall_mem_map.2 absent⟩

end MessagePack

open MessagePack (Object Packed Last maxDepth)

namespace Envelope

theorem settled_pairs (pairs : List (String × String)) :
    (Object.array (pairs.map pairObject)).settled = .array (pairs.map pairObject) := by
  rw [Object.settled, MessagePack.settledAll_eq_map, List.map_map]
  rfl

/-- An envelope is read from any bytes that stand for one map in which the last objects of its five
keys are the version, the texts and the lists of the envelope: in whatever order its entries stand,
whatever else it holds, whatever its keys meant before, and in whatever widths it is written. -/
theorem decode_of_packed {entries : List (MessagePack.Key × Object)} {bytes : List UInt8}
    (packed : Packed maxDepth (.map entries) bytes) {envelope : Envelope}
    (version : Last "v" (.int 0) entries)
    (signature : Last "signature" (.text envelope.signature) entries)
    (code : Last "code" (.text envelope.code) entries)
    (inputs : Last "inputs" (.array (envelope.inputs.map pairObject)) entries)
    (locals : Last "locals" (.array (envelope.locals.map pairObject)) entries) :
    decode bytes = .ok envelope := by
  have inputsField := inputs.settled.field
  have localsField := locals.settled.field
  rw [settled_pairs] at inputsField localsField
  rw [decode, MessagePack.ofBytes?_of_reads packed.reads]
  exact ofEntries_of_fields version.settled.field signature.settled.field code.settled.field
    inputsField localsField

open MessagePack (WrittenEntry Scalar writeText utf8 scalar_writeText)

/-- Entries in an order of their own, with a byte string spelt like a field, a field that is
repeated, and heads that are wider than they need to be. -/
def foreignEntries : List WrittenEntry :=
  [⟨.bytes [0x76], [0xc4, 1] ++ [0x76], .bool true, [0xc3]⟩,
    ⟨.text "locals", writeText "locals", .nil, [0xc0]⟩,
    ⟨.text "code", [0xd9, 4] ++ utf8 "code", .text "x;", writeText "x;"⟩,
    ⟨.text "v", writeText "v", .int 0, [0xd1, 0, 0]⟩,
    ⟨.text "inputs", writeText "inputs", .array [pairObject ("int", "x")],
      [0xdc, 0, 1] ++ ([0xdd, 0, 0, 0, 2] ++ (writeText "int" ++ (writeText "x" ++ [])) ++ [])⟩,
    ⟨.text "locals", writeText "locals", .array [], [0x90]⟩,
    ⟨.text "signature", writeText "signature", .text "i", [0xda, 0, 1] ++ utf8 "i"⟩]

theorem packed_foreignEntries :
    Packed maxDepth (.map (foreignEntries.map fun entry => (entry.key, entry.object)))
      ([0xde, 0, 7] ++ foreignEntries.flatMap fun entry => entry.keyBytes ++ entry.bytes) := by
  have text : ∀ written ∈ ["locals", "x;", "v", "inputs", "int", "x", "signature"],
      Scalar (.text written) (writeText written) := by
    intro written listed
    have short : ∀ other ∈ ["locals", "x;", "v", "inputs", "int", "x", "signature"],
        (utf8 other).length < MessagePack.sizeLimit := by
      decide +kernel
    exact scalar_writeText (short written listed)
  have code : Scalar (.text "code") ([0xd9, 4] ++ utf8 "code") :=
    .text "code" (Or.inr ⟨(0xd9, 1), by decide, by decide +kernel, by decide +kernel⟩)
  have signature : Scalar (.text "i") ([0xda, 0, 1] ++ utf8 "i") :=
    .text "i" (Or.inr ⟨(0xda, 2), by decide, by decide +kernel, by decide +kernel⟩)
  have spelt : Scalar (.bytes [0x76]) ([0xc4, 1] ++ [0x76]) :=
    .bytes [0x76] (Or.inr ⟨(0xc4, 1), by decide, by decide, rfl⟩)
  have listed : ((0xd1, 2) : UInt8 × Nat) ∈ MessagePack.signedForms := by decide
  have version : Scalar (.int 0) [0xd1, 0, 0] := .signed listed ⟨by decide, by decide⟩
  have items : ∀ item ∈ [(Object.text "int", writeText "int"), (.text "x", writeText "x")],
      Packed 1021 item.1 item.2 := by
    simp only [List.forall_mem_cons]
    exact ⟨.scalar (text _ (by simp)), .scalar (text _ (by simp)), List.forall_mem_nil _⟩
  have pairs : ∀ item ∈ [(pairObject ("int", "x"),
      [0xdd, 0, 0, 0, 2] ++ (writeText "int" ++ (writeText "x" ++ [])))],
      Packed 1022 item.1 item.2 :=
    List.forall_mem_singleton.2 (.array (Or.inr ⟨(0xdd, 4), by decide, by decide, rfl⟩) items)
  have inputs : Packed 1023 (.array [pairObject ("int", "x")])
      ([0xdc, 0, 1] ++ ([0xdd, 0, 0, 0, 2] ++ (writeText "int" ++ (writeText "x" ++ [])) ++ [])) :=
    .array (Or.inr ⟨(0xdc, 2), by decide, by decide, rfl⟩) pairs
  have locals : Packed 1023 (.array []) [0x90] :=
    .array (Or.inl ⟨by decide, rfl⟩) (List.forall_mem_nil _)
  change Packed (1023 + 1) _ _
  refine .map (Or.inr ⟨(0xde, 2), by decide, by decide, rfl⟩) ?_ ?_
  · simp only [foreignEntries, List.forall_mem_cons]
    exact ⟨spelt, text _ (by simp), code, text _ (by simp), text _ (by simp), text _ (by simp),
      text _ (by simp), List.forall_mem_nil _⟩
  · simp only [foreignEntries, List.forall_mem_cons]
    exact ⟨.scalar .yes, .scalar .nil, .scalar (text _ (by simp)), .scalar version, inputs,
      locals, .scalar signature, List.forall_mem_nil _⟩

theorem decode_of_packed_foreignEntries :
    decode ([0xde, 0, 7] ++ foreignEntries.flatMap fun entry => entry.keyBytes ++ entry.bytes) =
      .ok { signature := "i", code := "x;", inputs := [("int", "x")], locals := [] } := by
  let front (count : Nat) : List (MessagePack.Key × Object) :=
    (foreignEntries.take count).map fun entry => (entry.key, entry.object)
  apply decode_of_packed packed_foreignEntries
  · exact ⟨front 3, _, rfl, by decide⟩
  · exact ⟨front 6, _, rfl, by decide⟩
  · exact ⟨front 2, _, rfl, by decide⟩
  · exact ⟨front 4, _, rfl, by decide⟩
  · exact ⟨front 5, _, rfl, by decide⟩

end Envelope

end DBusMarshal
