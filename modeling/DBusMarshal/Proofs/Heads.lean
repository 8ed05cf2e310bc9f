import DBusMarshal.MessagePack.Reader
import DBusMarshal.MessagePack.Writer

/-!
The heads of objects.

A head holds a number: the value of a small object, or the size of what follows. A small number goes
into the tag; any number may also stand behind a tag of its own, in each of the widths that can hold
it. The heads of a family are told apart by their tags, so whichever of them is written, it is read
as its number.
-/

set_option autoImplicit false

namespace DBusMarshal.MessagePack

/-! ### Numbers -/

theorem unsigned_append (front : List UInt8) (last : UInt8) :
    unsigned (front ++ [last]) = 256 * unsigned front + last.toNat := by
  rw [unsigned, List.foldl_append]
  rfl

/-- A number that fits into some bytes is read from them. -/
theorem unsigned_bigEndian {width number : Nat} (fits : number < Nat.pow 256 width) :
    unsigned (bigEndian width number) = number := by
  induction width generalizing number with
  | zero =>
      rw [Nat.lt_one_iff.1 fits]
      rfl
  | succ width ih =>
      have front : number / 256 < Nat.pow 256 width :=
        Nat.div_lt_of_lt_mul (Nat.mul_comm _ 256 ▸ fits)
      rw [bigEndian, unsigned_append, ih front, UInt8.toNat_ofNat']
      omega

theorem takeBytes_bigEndian (width number : Nat) (rest : List UInt8) :
    takeBytes width (bigEndian width number ++ rest) = some (bigEndian width number, rest) := by
  have taken := takeBytes_append (bigEndian width number) rest
  rwa [length_bigEndian] at taken

theorem sized_bigEndian {α : Type} (width : Nat) {number : Nat} (fits : number < Nat.pow 256 width)
    (rest : List UInt8) (next : Nat → List UInt8 → Reading α) :
    sized width (bigEndian width number ++ rest) next = next number rest := by
  rw [sized, takeNat, takeBytes_bigEndian, Option.map_some]
  dsimp only
  rw [unsigned_bigEndian fits]

/-! ### Families of heads -/

/-- How the numbers of one family are written: below `tiny` in the tag itself, counted from `base`
on, and otherwise behind a tag, in the width that belongs to it. -/
structure HeadForms where
  base : Nat
  tiny : Nat
  wide : List (UInt8 × Nat)

/-- The bytes are a head of the family that holds the number, in its shortest form or not. -/
def HeadForms.Writes (forms : HeadForms) (number : Nat) (head : List UInt8) : Prop :=
  (number < forms.tiny ∧ head = [UInt8.ofNat (forms.base + number)]) ∨
    ∃ form ∈ forms.wide, number < Nat.pow 256 form.2 ∧ head = form.1 :: bigEndian form.2 number

def naturals : HeadForms := ⟨0x00, 0x80, [(0xcc, 1), (0xcd, 2), (0xce, 4), (0xcf, 8)]⟩

def texts : HeadForms := ⟨0xa0, 32, [(0xd9, 1), (0xda, 2), (0xdb, 4)]⟩

def byteStrings : HeadForms := ⟨0x00, 0, [(0xc4, 1), (0xc5, 2), (0xc6, 4)]⟩

def arrays : HeadForms := ⟨0x90, 16, [(0xdc, 2), (0xdd, 4)]⟩

def maps : HeadForms := ⟨0x80, 16, [(0xde, 2), (0xdf, 4)]⟩

def extensions : HeadForms := ⟨0x00, 0, [(0xc7, 1), (0xc8, 2), (0xc9, 4)]⟩

/-- The tags of extensions that have one size only. -/
def fixedExtensions : List (UInt8 × Nat) :=
  [(0xd4, 1), (0xd5, 2), (0xd6, 4), (0xd7, 8), (0xd8, 16)]

def ExtensionHead (size : Nat) (head : List UInt8) : Prop :=
  (∃ form ∈ fixedExtensions, size = form.2 ∧ head = [form.1]) ∨ extensions.Writes size head

/-! ### Reading heads -/

theorem toNat_tag {tag : Nat} (small : tag < 256) : (UInt8.ofNat tag).toNat = tag :=
  UInt8.toNat_ofNat_of_lt' small

/-- Every head of a family is read alike when the tags of the family are. -/
theorem HeadForms.Writes.takeHead {forms : HeadForms} {number : Nat} {head : List UInt8}
    (writes : forms.Writes number head) (next : Nat → List UInt8 → Reading Head)
    (tiny : ∀ small < forms.tiny, ∀ rest,
      takeHead (UInt8.ofNat (forms.base + small) :: rest) = next small rest)
    (wide : ∀ form ∈ forms.wide, ∀ bytes, takeHead (form.1 :: bytes) = sized form.2 bytes next)
    (rest : List UInt8) : takeHead (head ++ rest) = next number rest := by
  rcases writes with ⟨small, rfl⟩ | ⟨form, listed, fits, rfl⟩
  · exact tiny number small rest
  · rw [List.cons_append, wide form listed]
    exact sized_bigEndian form.2 fits rest next

theorem asHead_sized (width : Nat) (bytes : List UInt8)
    (next : Nat → List UInt8 → Reading Object) :
    asHead (sized width bytes next) =
      sized width bytes fun size rest => asHead (next size rest) := by
  unfold sized
  cases takeNat width bytes <;> rfl

theorem takeUnsigned_eq_sized (width : Nat) (bytes : List UInt8) :
    takeUnsigned width bytes = sized width bytes fun number rest => some (.int number, rest) := by
  unfold takeUnsigned sized takeNat
  cases takeBytes width bytes <;> rfl

section

variable {number : Nat} {head : List UInt8}

theorem takeHead_naturals (writes : naturals.Writes number head) (rest : List UInt8) :
    takeHead (head ++ rest) = some (.scalar (.int number), rest) := by
  refine writes.takeHead (fun number rest => asHead (some (.int number, rest))) ?_ ?_ rest
  · intro small isTiny rest
    change small < 0x80 at isTiny
    change takeHead (UInt8.ofNat (0 + small) :: rest) = _
    rw [takeHead, Nat.zero_add, toNat_tag (by omega)]
    exact if_pos isTiny
  · intro form listed bytes
    rw [← asHead_sized, ← takeUnsigned_eq_sized]
    simp only [naturals, List.mem_cons, List.not_mem_nil, or_false] at listed
    rcases listed with rfl | rfl | rfl | rfl <;> rfl

theorem takeHead_texts (writes : texts.Writes number head) (rest : List UInt8) :
    takeHead (head ++ rest) = asHead (takeText number rest) := by
  refine writes.takeHead (fun size rest => asHead (takeText size rest)) ?_ ?_ rest
  · intro small isTiny rest
    change small < 32 at isTiny
    have offset : 0xa0 + small - 0xa0 = small := by omega
    change takeHead (UInt8.ofNat (0xa0 + small) :: rest) = _
    rw [takeHead, toNat_tag (by omega), if_neg (by omega), if_neg (by omega), if_neg (by omega),
      if_pos (by omega), offset]
  · intro form listed bytes
    rw [← asHead_sized]
    simp only [texts, List.mem_cons, List.not_mem_nil, or_false] at listed
    rcases listed with rfl | rfl | rfl <;> rfl

theorem takeHead_byteStrings (writes : byteStrings.Writes number head) (rest : List UInt8) :
    takeHead (head ++ rest) = asHead (takeOctets number rest) := by
  refine writes.takeHead (fun size rest => asHead (takeOctets size rest)) ?_ ?_ rest
  · exact fun small impossible => absurd impossible (Nat.not_lt_zero small)
  · intro form listed bytes
    rw [← asHead_sized]
    simp only [byteStrings, List.mem_cons, List.not_mem_nil, or_false] at listed
    rcases listed with rfl | rfl | rfl <;> rfl

theorem takeHead_arrays (writes : arrays.Writes number head) (rest : List UInt8) :
    takeHead (head ++ rest) = some (.array number, rest) := by
  refine writes.takeHead (fun size rest => some (.array size, rest)) ?_ ?_ rest
  · intro small isTiny rest
    change small < 16 at isTiny
    have offset : 0x90 + small - 0x90 = small := by omega
    change takeHead (UInt8.ofNat (0x90 + small) :: rest) = _
    rw [takeHead, toNat_tag (by omega), if_neg (by omega), if_neg (by omega), if_pos (by omega),
      offset]
  · intro form listed bytes
    simp only [arrays, List.mem_cons, List.not_mem_nil, or_false] at listed
    rcases listed with rfl | rfl <;> rfl

theorem takeHead_maps (writes : maps.Writes number head) (rest : List UInt8) :
    takeHead (head ++ rest) = some (.map number, rest) := by
  refine writes.takeHead (fun size rest => some (.map size, rest)) ?_ ?_ rest
  · intro small isTiny rest
    change small < 16 at isTiny
    have offset : 0x80 + small - 0x80 = small := by omega
    change takeHead (UInt8.ofNat (0x80 + small) :: rest) = _
    rw [takeHead, toNat_tag (by omega), if_neg (by omega), if_pos (by omega), offset]
  · intro form listed bytes
    simp only [maps, List.mem_cons, List.not_mem_nil, or_false] at listed
    rcases listed with rfl | rfl <;> rfl

theorem takeHead_extensions (headed : ExtensionHead number head) (rest : List UInt8) :
    takeHead (head ++ rest) = asHead (takeExtension number rest) := by
  rcases headed with ⟨form, listed, rfl, rfl⟩ | writes
  · simp only [fixedExtensions, List.mem_cons, List.not_mem_nil, or_false] at listed
    rcases listed with rfl | rfl | rfl | rfl | rfl <;> rfl
  · refine writes.takeHead (fun size rest => asHead (takeExtension size rest)) ?_ ?_ rest
    · exact fun small impossible => absurd impossible (Nat.not_lt_zero small)
    · intro form listed bytes
      rw [← asHead_sized]
      simp only [extensions, List.mem_cons, List.not_mem_nil, or_false] at listed
      rcases listed with rfl | rfl | rfl <;> rfl

end

/-! ### The shortest heads -/

/-- The first size that no head can hold. -/
def sizeLimit : Nat := 0x100000000

theorem texts_textHead {size : Nat} (fits : size < sizeLimit) :
    texts.Writes size (textHead size) := by
  unfold textHead
  split
  · rename_i tiny
    exact Or.inl ⟨tiny, rfl⟩
  · right
    split
    · rename_i short
      exact ⟨(0xd9, 1), by simp [texts], short, rfl⟩
    · split
      · rename_i long
        exact ⟨(0xda, 2), by simp [texts], long, rfl⟩
      · exact ⟨(0xdb, 4), by simp [texts], fits, rfl⟩

theorem arrays_arrayHead {size : Nat} (fits : size < sizeLimit) :
    arrays.Writes size (arrayHead size) := by
  unfold arrayHead
  split
  · rename_i tiny
    exact Or.inl ⟨tiny, rfl⟩
  · right
    split
    · rename_i long
      exact ⟨(0xdc, 2), by simp [arrays], long, rfl⟩
    · exact ⟨(0xdd, 4), by simp [arrays], fits, rfl⟩

theorem maps_mapHead {size : Nat} (fits : size < sizeLimit) :
    maps.Writes size (mapHead size) := by
  unfold mapHead
  split
  · rename_i tiny
    exact Or.inl ⟨tiny, rfl⟩
  · right
    split
    · rename_i long
      exact ⟨(0xde, 2), by simp [maps], long, rfl⟩
    · exact ⟨(0xdf, 4), by simp [maps], fits, rfl⟩

end DBusMarshal.MessagePack
