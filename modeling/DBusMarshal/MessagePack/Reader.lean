import DBusMarshal.MessagePack.Object

/-!
Reading MessagePack.

Every object begins with a head. The head of a scalar is the whole object; the head of an array or
a map says how many objects follow. A reader takes an object from the front of a list of bytes and
gives back the rest. `Object.ofBytes?` demands that there is no rest. Arrays and maps may stand one
inside the other only so deep, and the keys of a map are texts or byte strings.
-/

set_option autoImplicit false

namespace DBusMarshal.MessagePack

/-- What is read from the front of some bytes, and the bytes behind it. -/
abbrev Reading (α : Type) := Option (α × List UInt8)

/-! ### Fields of a head -/

def takeBytes : (count : Nat) → List UInt8 → Reading (List UInt8)
  | 0, bytes => some ([], bytes)
  | _ + 1, [] => none
  | count + 1, octet :: rest =>
    match takeBytes count rest with
    | some (taken, behind) => some (octet :: taken, behind)
    | none => none

/-- As many bytes are taken as asked for, from the front. -/
theorem takeBytes_append (taken rest : List UInt8) :
    takeBytes taken.length (taken ++ rest) = some (taken, rest) := by
  induction taken with
  | nil => rfl
  | cons octet taken ih =>
    simp only [List.length_cons, List.cons_append, takeBytes, ih]

/-- The number that some bytes are, the most significant first. -/
def unsigned (bytes : List UInt8) : Nat :=
  bytes.foldl (fun number octet => 256 * number + octet.toNat) 0

/-- The number that some bytes are in two's complement. -/
def signed (bytes : List UInt8) : Int :=
  Int.bmod (unsigned bytes) (Nat.pow 256 bytes.length)

def takeNat (width : Nat) (bytes : List UInt8) : Reading Nat :=
  (takeBytes width bytes).map fun (taken, rest) => (unsigned taken, rest)

/-- The double-precision number of the same value as a single-precision one. What is no number
stays so, marked quiet. -/
def widen (bits : Nat) : Binary64 :=
  let sign := bits / 0x80000000 % 2
  let exponent := bits / 0x800000 % 0x100
  let fraction := bits % 0x800000
  let wide := fraction * 0x20000000
  let magnitude :=
    if exponent = 255 then
      2047 * Binary64.exponentWeight +
        if fraction = 0 ∨ 0x400000 ≤ fraction then wide else wide + 0x8000000000000
    else if exponent ≠ 0 then (exponent + 896) * Binary64.exponentWeight + wide
    else if fraction = 0 then 0
    else
      let size := fraction.log2
      (size + 873) * Binary64.exponentWeight + fraction * Nat.pow 2 (52 - size)
  ⟨UInt64.ofNat (sign * Binary64.signWeight + magnitude)⟩

/-! ### Scalars -/

/-- Take a text of some bytes, which have to be valid. -/
def takeText (size : Nat) (bytes : List UInt8) : Reading Object :=
  match takeBytes size bytes with
  | some (taken, rest) =>
    (String.fromUTF8? taken.toByteArray).map fun written => (.text written, rest)
  | none => none

def takeOctets (size : Nat) (bytes : List UInt8) : Reading Object :=
  (takeBytes size bytes).map fun (taken, rest) => (.bytes taken, rest)

def takeUnsigned (width : Nat) (bytes : List UInt8) : Reading Object :=
  (takeBytes width bytes).map fun (taken, rest) => (.int (unsigned taken), rest)

def takeSigned (width : Nat) (bytes : List UInt8) : Reading Object :=
  (takeBytes width bytes).map fun (taken, rest) => (.int (signed taken), rest)

/-- The point in time that some bytes stand for: seconds alone, or with nanoseconds below one
second. -/
def timestamp? (octets : List UInt8) : Option Object :=
  match octets.length with
  | 4 => some (.timestamp (unsigned octets) 0)
  | 8 =>
    let number := unsigned octets
    let nanoseconds := number / 0x400000000
    if nanoseconds < 1000000000 then some (.timestamp (number % 0x400000000 : Nat) nanoseconds)
    else none
  | 12 =>
    let nanoseconds := unsigned (octets.take 4)
    if nanoseconds < 1000000000 then some (.timestamp (signed (octets.drop 4)) nanoseconds)
    else none
  | _ => none

/-- Take an extension of some bytes behind its type. The type -1 is a point in time; other negative
types are reserved. -/
def takeExtension (size : Nat) (bytes : List UInt8) : Reading Object :=
  match takeBytes (size + 1) bytes with
  | some (type :: octets, rest) =>
    let code := signed [type]
    if code = -1 then (timestamp? octets).map fun time => (time, rest)
    else if 0 ≤ code then some (.extension code.toNat octets, rest)
    else none
  | _ => none

/-! ### Heads -/

/-- The head of an object: a whole scalar, or the size of an array or a map. -/
inductive Head where
  | scalar (object : Object)
  | array (size : Nat)
  | map (size : Nat)

def asHead (reading : Reading Object) : Reading Head :=
  reading.map fun (object, rest) => (.scalar object, rest)

/-- Take a size of some bytes and go on with it. -/
def sized {α : Type} (width : Nat) (bytes : List UInt8)
    (next : Nat → List UInt8 → Reading α) : Reading α :=
  match takeNat width bytes with
  | some (size, rest) => next size rest
  | none => none

def takeHead : List UInt8 → Reading Head
  | [] => none
  | first :: rest =>
    let tag := first.toNat
    if tag < 0x80 then some (.scalar (.int tag), rest)
    else if tag < 0x90 then some (.map (tag - 0x80), rest)
    else if tag < 0xa0 then some (.array (tag - 0x90), rest)
    else if tag < 0xc0 then asHead (takeText (tag - 0xa0) rest)
    else
      match tag with
      | 0xc0 => some (.scalar .nil, rest)
      | 0xc2 => some (.scalar (.bool false), rest)
      | 0xc3 => some (.scalar (.bool true), rest)
      | 0xc4 => asHead (sized 1 rest takeOctets)
      | 0xc5 => asHead (sized 2 rest takeOctets)
      | 0xc6 => asHead (sized 4 rest takeOctets)
      | 0xc7 => asHead (sized 1 rest takeExtension)
      | 0xc8 => asHead (sized 2 rest takeExtension)
      | 0xc9 => asHead (sized 4 rest takeExtension)
      | 0xca => asHead (sized 4 rest fun bits rest => some (.float (widen bits), rest))
      | 0xcb => asHead (sized 8 rest fun bits rest => some (.float ⟨UInt64.ofNat bits⟩, rest))
      | 0xcc => asHead (takeUnsigned 1 rest)
      | 0xcd => asHead (takeUnsigned 2 rest)
      | 0xce => asHead (takeUnsigned 4 rest)
      | 0xcf => asHead (takeUnsigned 8 rest)
      | 0xd0 => asHead (takeSigned 1 rest)
      | 0xd1 => asHead (takeSigned 2 rest)
      | 0xd2 => asHead (takeSigned 4 rest)
      | 0xd3 => asHead (takeSigned 8 rest)
      | 0xd4 => asHead (takeExtension 1 rest)
      | 0xd5 => asHead (takeExtension 2 rest)
      | 0xd6 => asHead (takeExtension 4 rest)
      | 0xd7 => asHead (takeExtension 8 rest)
      | 0xd8 => asHead (takeExtension 16 rest)
      | 0xd9 => asHead (sized 1 rest takeText)
      | 0xda => asHead (sized 2 rest takeText)
      | 0xdb => asHead (sized 4 rest takeText)
      | 0xdc => sized 2 rest fun size rest => some (.array size, rest)
      | 0xdd => sized 4 rest fun size rest => some (.array size, rest)
      | 0xde => sized 2 rest fun size rest => some (.map size, rest)
      | 0xdf => sized 4 rest fun size rest => some (.map size, rest)
      | 0xc1 => none
      | _ => some (.scalar (.int (tag - 256 : Int)), rest)

/-! ### Objects -/

def readMany {α : Type} (read : List UInt8 → Reading α) :
    (count : Nat) → List UInt8 → Reading (List α)
  | 0, bytes => some ([], bytes)
  | count + 1, bytes =>
    match read bytes with
    | none => none
    | some (first, rest) =>
      match readMany read count rest with
      | none => none
      | some (others, behind) => some (first :: others, behind)

def readKey (bytes : List UInt8) : Reading Key :=
  match takeHead bytes with
  | some (.scalar (.text written), rest) => some (.text written, rest)
  | some (.scalar (.bytes octets), rest) => some (.bytes octets, rest)
  | _ => none

def readEntry (read : List UInt8 → Reading Object) (bytes : List UInt8) : Reading (Key × Object) :=
  match readKey bytes with
  | none => none
  | some (key, rest) =>
    match read rest with
    | none => none
    | some (object, behind) => some ((key, object), behind)

/-- Read an object in which arrays and maps stand at most `depth` deep. -/
def readObject : (depth : Nat) → List UInt8 → Reading Object
  | 0, bytes =>
    match takeHead bytes with
    | some (.scalar object, rest) => some (object, rest)
    | _ => none
  | depth + 1, bytes =>
    match takeHead bytes with
    | some (.scalar object, rest) => some (object, rest)
    | some (.array size, rest) =>
      (readMany (readObject depth) size rest).map fun (items, behind) => (.array items, behind)
    | some (.map size, rest) =>
      (readMany (readEntry (readObject depth)) size rest).map
        fun (entries, behind) => (.mapOf entries, behind)
    | none => none

/-- How deep arrays and maps may stand one inside the other. -/
def maxDepth : Nat := 1024

/-- The object that some bytes are, all of them. -/
def Object.ofBytes? (bytes : List UInt8) : Option Object :=
  match readObject maxDepth bytes with
  | some (object, []) => some object
  | _ => none

end DBusMarshal.MessagePack
