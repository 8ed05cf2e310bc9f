import DBusMarshal.Proofs.Heads

/-!
What is written in MessagePack is read again.

A written object is read off the front of the bytes, whatever stands behind it, as long as its texts
and its lists have sizes that a head can hold.
-/

set_option autoImplicit false

namespace DBusMarshal.MessagePack

/-! ### Texts -/

theorem fromUTF8?_utf8 (written : String) :
    String.fromUTF8? (utf8 written).toByteArray = some written := by
  have bytes : (utf8 written).toByteArray = written.toUTF8 := by
    apply ByteArray.ext
    simp [utf8]
  rw [bytes, String.fromUTF8?]
  exact dif_pos written.isValidUTF8

theorem takeText_utf8 (written : String) (rest : List UInt8) :
    takeText (utf8 written).length (utf8 written ++ rest) = some (.text written, rest) := by
  rw [takeText, takeBytes_append]
  dsimp only
  rw [fromUTF8?_utf8, Option.map_some]

/-! ### Heads -/

theorem takeHead_small {number : Nat} (small : number < 0x80) (rest : List UInt8) :
    takeHead (writeSmall number ++ rest) = some (.scalar (.int number), rest) := by
  have writes : naturals.Writes number (writeSmall number) := by
    refine Or.inl ⟨small, ?_⟩
    change [UInt8.ofNat number] = [UInt8.ofNat (0 + number)]
    rw [Nat.zero_add]
  exact takeHead_naturals writes rest

theorem takeHead_text {written : String} (fits : (utf8 written).length < sizeLimit)
    (rest : List UInt8) :
    takeHead (writeText written ++ rest) = some (.scalar (.text written), rest) := by
  dsimp only [writeText]
  rw [List.append_assoc, takeHead_texts (texts_textHead fits), takeText_utf8]
  rfl

/-! ### Objects -/

/-- The bytes are read as the object, whatever stands behind them. -/
def Reads (depth : Nat) (bytes : List UInt8) (object : Object) : Prop :=
  ∀ rest, readObject depth (bytes ++ rest) = some (object, rest)

theorem readObject_scalar {bytes rest : List UInt8} {object : Object}
    (taken : takeHead bytes = some (.scalar object, rest)) (depth : Nat) :
    readObject depth bytes = some (object, rest) := by
  cases depth <;> rw [readObject, taken]

theorem reads_small {number : Nat} (small : number < 0x80) (depth : Nat) :
    Reads depth (writeSmall number) (.int number) :=
  fun rest => readObject_scalar (takeHead_small small rest) depth

theorem reads_text {written : String} (fits : (utf8 written).length < sizeLimit) (depth : Nat) :
    Reads depth (writeText written) (.text written) :=
  fun rest => readObject_scalar (takeHead_text fits rest) depth

theorem readMany_flatMap {α β : Type} {read : List UInt8 → Reading β} (write : α → List UInt8)
    (result : α → β) {items : List α}
    (each : ∀ item ∈ items, ∀ rest, read (write item ++ rest) = some (result item, rest))
    (rest : List UInt8) :
    readMany read items.length (items.flatMap write ++ rest) = some (items.map result, rest) := by
  induction items with
  | nil => rfl
  | cons item others ih =>
      have later := ih (fun other listed => each other (List.mem_cons_of_mem _ listed))
      rw [List.length_cons, List.flatMap_cons, List.append_assoc, readMany,
        each item List.mem_cons_self]
      dsimp only
      rw [later]
      rfl

/-- Items that can be read are read as an array behind any head that holds their number. -/
theorem reads_of_arrays {α : Type} {depth : Nat} (write : α → List UInt8) (result : α → Object)
    {items : List α} (each : ∀ item ∈ items, Reads depth (write item) (result item))
    {head : List UInt8} (headed : arrays.Writes items.length head) :
    Reads (depth + 1) (head ++ items.flatMap write) (.array (items.map result)) := by
  intro rest
  rw [List.append_assoc, readObject, takeHead_arrays headed]
  dsimp only
  rw [readMany_flatMap write result each, Option.map_some]

theorem reads_array {α : Type} {depth : Nat} (write : α → List UInt8) (result : α → Object)
    {items : List α} (each : ∀ item ∈ items, Reads depth (write item) (result item))
    (fits : items.length < sizeLimit) :
    Reads (depth + 1) (writeArray (items.map write)) (.array (items.map result)) := by
  rw [writeArray, List.length_map, ← List.flatMap_def]
  exact reads_of_arrays write result each (arrays_arrayHead fits)

/-- Entries that can be read are read as a map behind any head that holds their number; the last
object of a key counts. -/
theorem reads_of_maps {α : Type} {depth : Nat} (keyBytes : α → List UInt8) (key : α → Key)
    (write : α → List UInt8) (result : α → Object) {items : List α}
    (keyed : ∀ item ∈ items, ∀ rest, readKey (keyBytes item ++ rest) = some (key item, rest))
    (each : ∀ item ∈ items, Reads depth (write item) (result item))
    {head : List UInt8} (headed : maps.Writes items.length head) :
    Reads (depth + 1) (head ++ items.flatMap fun item => keyBytes item ++ write item)
      (.mapOf (items.map fun item => (key item, result item))) := by
  intro rest
  have entries : ∀ item ∈ items, ∀ rest,
      readEntry (readObject depth) (keyBytes item ++ write item ++ rest) =
        some ((key item, result item), rest) := by
    intro item listed rest
    rw [List.append_assoc, readEntry, keyed item listed]
    dsimp only
    rw [each item listed rest]
  rw [List.append_assoc, readObject, takeHead_maps headed]
  dsimp only
  rw [readMany_flatMap _ _ entries, Option.map_some]

theorem readKey_text {written : String} (fits : (utf8 written).length < sizeLimit)
    (rest : List UInt8) : readKey (writeText written ++ rest) = some (.text written, rest) := by
  rw [readKey, takeHead_text fits]

/-- A map is read as its entries. -/
theorem reads_map {α : Type} {depth : Nat} (name : α → String) (write : α → List UInt8)
    (result : α → Object) {items : List α}
    (named : ∀ item ∈ items, (utf8 (name item)).length < sizeLimit)
    (each : ∀ item ∈ items, Reads depth (write item) (result item))
    (fits : items.length < sizeLimit) :
    Reads (depth + 1) (writeMap (items.map fun item => (name item, write item)))
      (.mapOf (items.map fun item => (.text (name item), result item))) := by
  rw [writeMap, List.length_map, List.flatMap_map]
  exact reads_of_maps (fun item => writeText (name item)) (fun item => .text (name item)) write
    result (fun item listed => readKey_text (named item listed)) each (maps_mapHead fits)

theorem ofBytes?_of_reads {bytes : List UInt8} {object : Object}
    (reads : Reads maxDepth bytes object) : Object.ofBytes? bytes = some object := by
  have whole := reads []
  rw [List.append_nil] at whole
  rw [Object.ofBytes?, whole]

end DBusMarshal.MessagePack
