import DBusMarshal.Signature.Error
import DBusMarshal.Signature.Node

/-!
Reading signatures.

A signature is read from left to right by a machine that takes one character at a time. Its state
is the list of types read so far and a stack of the constructs that are still open. A type that
ends closes the arrays that wait for it and then joins the construct around them. `Node.readAll`
reads any number of types, `Node.read` exactly one.
-/

set_option autoImplicit false

namespace DBusMarshal

/-! ### The state of the machine -/

inductive OpenType where
  /-- An array that waits for its element. -/
  | array
  /-- A struct that began at an index, with the members read so far, the last one first. -/
  | struct (start : Nat) (members : List Node)
  /-- A dict entry that began at an index and waits for its key. -/
  | entryKey (start : Nat)
  /-- A dict entry that has its key and waits for its value. -/
  | entryValue (start : Nat) (key : Node)
  /-- A dict entry that has both members and waits for its end. -/
  | entryEnd (start : Nat) (key value : Node)
deriving Repr

def OpenType.isArray : OpenType → Bool
  | .array => true
  | _ => false

/-- The types read so far, the last one first, and the open constructs, the innermost first. -/
structure Reader where
  done : List Node
  opened : List OpenType
deriving Repr

namespace Reader

/-- Nothing has been read. -/
def empty : Reader := ⟨[], []⟩

def arrayDepth (r : Reader) : Nat := r.opened.countP OpenType.isArray

def structDepth (r : Reader) : Nat := r.opened.countP fun part => !part.isArray

/-! ### Steps -/

def push (r : Reader) (part : OpenType) : Reader := { r with opened := part :: r.opened }

/-- Hand a type that has ended to the open constructs: arrays end with it, a struct takes it as a
member, a dict entry as its key or value. A key has to be basic. -/
def complete (done : List Node) : List OpenType → Node → Except SignatureError Reader
  | [], node => .ok ⟨node :: done, []⟩
  | .array :: outer, node => complete done outer (.array node)
  | .struct start members :: outer, node => .ok ⟨done, .struct start (node :: members) :: outer⟩
  | .entryKey start :: outer, node =>
    match node with
    | .basic _ => .ok ⟨done, .entryValue start node :: outer⟩
    | _ => .error ⟨.entryKeyNotBasic, start + 1⟩
  | .entryValue start key :: outer, node => .ok ⟨done, .entryEnd start key node :: outer⟩
  | .entryEnd start _ _ :: _, _ => .error ⟨.entryOverfull, start⟩

/-- Open a struct or a dict entry, unless it would stand too deep. -/
def openStruct (r : Reader) (index : Nat) (part : OpenType) : Except SignatureError Reader :=
  if maxStructDepth < r.structDepth + 1 then .error ⟨.structTooDeep, index⟩ else .ok (r.push part)

def beginType (r : Reader) (index : Nat) (c : Char) : Except SignatureError Reader :=
  if Node.basicCodes.contains (.singleton c) then complete r.done r.opened (.basic (.singleton c))
  else if c = 'v' then complete r.done r.opened .variant
  else if c = 'a' then
    if maxArrayDepth < r.arrayDepth + 1 then .error ⟨.arrayTooDeep, index⟩ else .ok (r.push .array)
  else if c = '(' then r.openStruct index (.struct index [])
  else if c = '{' then
    match r.opened with
    | .array :: _ => r.openStruct index (.entryKey index)
    | _ => .error ⟨.entryOutsideArray, index⟩
  else if c = ')' ∨ c = '}' then .error ⟨.unexpectedBracket c, index⟩
  else .error ⟨.unknownCode c, index⟩

/-- Take the next character: the end of the innermost construct, or the begin of a type. -/
def step (r : Reader) (index : Nat) (c : Char) : Except SignatureError Reader :=
  match r.opened with
  | .struct start members :: outer =>
    if c = ')' then
      match members with
      | [] => .error ⟨.structEmpty, start⟩
      | _ => complete r.done outer (.struct members.reverse)
    else r.beginType index c
  | .entryKey start :: _ =>
    if c = '}' then .error ⟨.entryIncomplete, start⟩ else r.beginType index c
  | .entryValue start _ :: _ =>
    if c = '}' then .error ⟨.entryIncomplete, start⟩ else r.beginType index c
  | .entryEnd _ key value :: outer =>
    if c = '}' then complete r.done outer (.entry key value) else .error ⟨.entryOverfull, index⟩
  | _ => r.beginType index c

/-- Take characters one after the other, the first of them at a given index. -/
def steps (r : Reader) (index : Nat) : List Char → Except SignatureError Reader
  | [] => .ok r
  | c :: rest =>
    match r.step index c with
    | .ok next => next.steps (index + 1) rest
    | .error e => .error e

/-- Taking one text and then another is taking both at once. -/
theorem steps_append (r : Reader) (index : Nat) (first second : List Char) :
    r.steps index (first ++ second) =
      match r.steps index first with
      | .ok next => next.steps (index + first.length) second
      | .error e => .error e := by
  induction first generalizing r index with
  | nil => rfl
  | cons c rest ih =>
    simp only [List.cons_append, steps, List.length_cons]
    cases r.step index c with
    | error e => rfl
    | ok next =>
      simp only [ih]
      rw [Nat.add_assoc, Nat.add_comm 1]

/-- End the text at an index: no construct may be open. -/
def finish (r : Reader) (index : Nat) : Except SignatureError (List Node) :=
  match r.opened with
  | [] => .ok r.done.reverse
  | .array :: _ => .error ⟨.unexpectedEnd, index⟩
  | .struct start _ :: _ => .error ⟨.structOpen, start⟩
  | .entryKey start :: _ => .error ⟨.entryIncomplete, start⟩
  | .entryValue start _ :: _ => .error ⟨.entryIncomplete, start⟩
  | .entryEnd start _ _ :: _ => .error ⟨.entryOpen, start⟩

end Reader

/-! ### Reading a text -/

namespace Node

/-- Read a signature of any number of complete types. -/
def readAll (text : String) : Except SignatureError (List Node) :=
  if maxSignatureLength < text.length then .error ⟨.tooLong, maxSignatureLength⟩
  else
    match Reader.empty.steps 0 text.toList with
    | .ok r => r.finish text.length
    | .error e => .error e

/-- Read a signature of exactly one complete type. A second type is reported where it starts. -/
def read (text : String) : Except SignatureError Node :=
  match readAll text with
  | .error e => .error e
  | .ok [node] => .ok node
  | .ok [] => .error ⟨.notSingle 0, 0⟩
  | .ok (first :: others) => .error ⟨.notSingle (others.length + 1), first.signature.length⟩

end Node

end DBusMarshal
