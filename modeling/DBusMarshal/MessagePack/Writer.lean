/-!
Writing MessagePack.

Texts, arrays and maps begin with a head that holds their size. Every head is written in its
shortest form.
-/

set_option autoImplicit false

namespace DBusMarshal.MessagePack

/-- The last `width` bytes of a number, the most significant first. -/
def bigEndian : (width : Nat) → Nat → List UInt8
  | 0, _ => []
  | width + 1, number => bigEndian width (number / 256) ++ [UInt8.ofNat number]

@[simp]
theorem length_bigEndian (width number : Nat) : (bigEndian width number).length = width := by
  induction width generalizing number with
  | zero => rfl
  | succ width ih => rw [bigEndian, List.length_append, ih, List.length_singleton]

def utf8 (written : String) : List UInt8 := written.toUTF8.data.toList

def textHead (size : Nat) : List UInt8 :=
  if size < 32 then [UInt8.ofNat (0xa0 + size)]
  else if size < 0x100 then 0xd9 :: bigEndian 1 size
  else if size < 0x10000 then 0xda :: bigEndian 2 size
  else 0xdb :: bigEndian 4 size

def arrayHead (size : Nat) : List UInt8 :=
  if size < 16 then [UInt8.ofNat (0x90 + size)]
  else if size < 0x10000 then 0xdc :: bigEndian 2 size
  else 0xdd :: bigEndian 4 size

def mapHead (size : Nat) : List UInt8 :=
  if size < 16 then [UInt8.ofNat (0x80 + size)]
  else if size < 0x10000 then 0xde :: bigEndian 2 size
  else 0xdf :: bigEndian 4 size

/-- A number below 128 is written as one byte. -/
def writeSmall (number : Nat) : List UInt8 := [UInt8.ofNat number]

def writeText (written : String) : List UInt8 :=
  let octets := utf8 written
  textHead octets.length ++ octets

def writeArray (items : List (List UInt8)) : List UInt8 :=
  arrayHead items.length ++ items.flatten

/-- A map with text keys, from its written objects. -/
def writeMap (entries : List (String × List UInt8)) : List UInt8 :=
  mapHead entries.length ++ entries.flatMap fun entry => writeText entry.1 ++ entry.2

end DBusMarshal.MessagePack
