import Mathlib.Data.List.Nodup
import DBusMarshal.Value

/-!
How many parts a value has.

What can be selected by positions counted from zero is bounded by the size of the value, for
dictionaries as well, since a key is the same as one whole number at most. A part of a value is no
wider than the value.
-/

set_option autoImplicit false

namespace DBusMarshal

/-! ### Sizes of values -/

/-- The number of members that a value has; what has no members counts as empty. -/
def Value.size (value : Value) : Nat :=
  match value.members with
  | .ok items => items.length
  | .error _ => 0

mutual

/-- The greatest size of a value and of everything inside it. -/
def Value.widest : Value → Nat
  | .text written => written.toList.length
  | .bytes octets => octets.length
  | .list items => max items.length (Value.widestAll items)
  | .tuple items => max items.length (Value.widestAll items)
  | .dict entries => max entries.length (Value.widestEntries entries)
  | _ => 0

def Value.widestAll : List Value → Nat
  | [] => 0
  | item :: rest => max item.widest (Value.widestAll rest)

/-- The greatest size in the values of a dictionary. -/
def Value.widestEntries : List (Value × Value) → Nat
  | [] => 0
  | (_, value) :: rest => max value.widest (Value.widestEntries rest)

end

namespace Value

theorem size_le_widest (value : Value) : value.size ≤ value.widest := by
  cases value with
  | text written => simp [size, members, widest]
  | bytes octets => simp [size, members, widest]
  | list items => exact Nat.le_max_left _ _
  | tuple items => exact Nat.le_max_left _ _
  | dict entries =>
      have counted : (dict entries).size = entries.length := List.length_map _
      rw [counted]
      exact Nat.le_max_left _ _
  | _ => exact Nat.zero_le _

theorem widest_le_of_mem {items : List Value} {item : Value} (listed : item ∈ items) :
    item.widest ≤ widestAll items := by
  induction items with
  | nil => cases listed
  | cons first rest ih =>
      rw [widestAll]
      rcases List.mem_cons.1 listed with same | later
      · rw [same]
        exact Nat.le_max_left _ _
      · exact Nat.le_trans (ih later) (Nat.le_max_right _ _)

theorem widest_le_of_lookup {key part : Value} {entries : List (Value × Value)}
    (found : lookup key entries = some part) : part.widest ≤ widestEntries entries := by
  induction entries with
  | nil => cases found
  | cons entry rest ih =>
      obtain ⟨other, value⟩ := entry
      rw [lookup] at found
      rw [widestEntries]
      split at found
      · cases found
        exact Nat.le_max_left _ _
      · exact Nat.le_trans (ih found) (Nat.le_max_right _ _)

/-- An item is found at its place, counted from the front. -/
theorem exists_of_itemAt {items : List Value} {position : Int} {part : Value}
    (found : itemAt items position = .ok part) :
    ∃ place : Nat, items[place]? = some part ∧ (0 ≤ position → place = position.toNat) := by
  unfold itemAt at found
  extract_lets place at found
  have counted : 0 ≤ position → place = position := fun natural => if_neg (by omega)
  split at found
  · cases found
  · split at found
    · rename_i inside
      cases found
      refine ⟨place.toNat, inside, fun natural => ?_⟩
      rw [counted natural]
    · cases found

/-- A part that is selected outside of dictionaries is one of the members. -/
theorem exists_of_select {value index part : Value} (noDict : ∀ entries, value ≠ .dict entries)
    (selected : value.select index = .ok part) :
    ∃ items position, value.members = .ok items ∧ index.position? = some position ∧
      itemAt items position = .ok part := by
  unfold select at selected
  split at selected
  · exact absurd rfl (noDict _)
  · cases held : value.members with
    | error fault =>
        rw [held] at selected
        cases selected
    | ok items =>
        rw [held] at selected
        cases counted : index.position? with
        | none =>
            simp only [bind, Except.bind, counted] at selected
            cases selected
        | some position =>
            simp only [bind, Except.bind, counted] at selected
            exact ⟨items, position, rfl, rfl, selected⟩

theorem lookup_of_select {entries : List (Value × Value)} {index part : Value}
    (selected : (dict entries).select index = .ok part) : lookup index entries = some part := by
  rw [select] at selected
  split at selected
  · split at selected
    · rename_i found
      cases selected
      exact found
    · cases selected
  · cases selected

theorem widest_le_of_member {value item : Value} {items : List Value}
    (noDict : ∀ entries, value ≠ .dict entries) (held : value.members = .ok items)
    (listed : item ∈ items) : item.widest ≤ value.widest := by
  cases value with
  | dict entries => exact absurd rfl (noDict entries)
  | list own =>
      cases held
      exact Nat.le_trans (widest_le_of_mem listed) (Nat.le_max_right _ _)
  | tuple own =>
      cases held
      exact Nat.le_trans (widest_le_of_mem listed) (Nat.le_max_right _ _)
  | text written =>
      cases held
      obtain ⟨c, inText, rfl⟩ := List.mem_map.1 listed
      have single : (Value.text (.singleton c)).widest = 1 := by simp [widest]
      rw [single]
      exact List.length_pos_of_mem inText
  | bytes octets =>
      cases held
      obtain ⟨octet, _, rfl⟩ := List.mem_map.1 listed
      exact Nat.zero_le _
  | _ => cases held

/-- A part of a value is no wider than the value. -/
theorem widest_le_of_select {value index part : Value} (selected : value.select index = .ok part) :
    part.widest ≤ value.widest := by
  by_cases isDict : ∃ entries, value = .dict entries
  · obtain ⟨entries, rfl⟩ := isDict
    exact Nat.le_trans (widest_le_of_lookup (lookup_of_select selected)) (Nat.le_max_right _ _)
  · have noDict := not_exists.1 isDict
    obtain ⟨items, position, held, _, found⟩ := exists_of_select noDict selected
    obtain ⟨place, inside, _⟩ := exists_of_itemAt found
    exact widest_le_of_member noDict held (List.mem_of_getElem? inside)

/-! ### Whole numbers that select a part -/

theorem eq_of_equals_ofInt {numerator : Int} {denominator : Nat} (positive : 0 < denominator)
    {left right : Int} (isLeft : (Exact.fraction numerator denominator).equals (.ofInt left) = true)
    (isRight : (Exact.fraction numerator denominator).equals (.ofInt right) = true) :
    left = right := by
  simp only [Exact.equals, Exact.ofInt, decide_eq_true_eq] at isLeft isRight
  have nonzero : (denominator : Int) ≠ 0 := by omega
  exact Int.eq_of_mul_eq_mul_right nonzero (isLeft.symm.trans isRight)

/-- A key is the same as one whole number at most. -/
theorem eq_of_sameKey_int {key : Value} {left right : Int}
    (isLeft : key.sameKey (.int left) = true) (isRight : key.sameKey (.int right) = true) :
    left = right := by
  cases key with
  | bool truth => exact eq_of_equals_ofInt Nat.one_pos isLeft isRight
  | int number => exact eq_of_equals_ofInt Nat.one_pos isLeft isRight
  | float number =>
      have compared (whole : Int) : (Value.float number).sameKey (.int whole) =
          number.exact.equals (.ofInt whole) := rfl
      rw [compared] at isLeft isRight
      unfold Binary64.exact at isLeft isRight
      split at isLeft
      · cases isLeft
      · split at isLeft
        · split at isLeft <;> cases isLeft
        · rename_i isNumber isFinite
          rw [if_neg isNumber, if_neg isFinite] at isRight
          exact eq_of_equals_ofInt (Nat.pow_pos Nat.two_pos) isLeft isRight
  | _ => cases isLeft

/-- As many whole numbers as are keys of a dictionary, as many entries it has at least. -/
theorem length_le_of_lookup {entries : List (Value × Value)} {keys : List Int}
    (distinct : keys.Nodup)
    (each : ∀ key ∈ keys, ∃ part, lookup (.int key) entries = some part) :
    keys.length ≤ entries.length := by
  induction entries generalizing keys with
  | nil =>
      cases keys with
      | nil => exact Nat.le_refl 0
      | cons key rest =>
          obtain ⟨part, impossible⟩ := each key List.mem_cons_self
          cases impossible
  | cons entry rest ih =>
      obtain ⟨other, value⟩ := entry
      -- The first entry serves one of the keys at most; the other keys are found behind it.
      by_cases served : ∃ key ∈ keys, other.sameKey (.int key) = true
      · obtain ⟨key, listed, isKey⟩ := served
        have others : (keys.erase key).length ≤ rest.length := by
          refine ih (distinct.erase key) fun remaining inRest => ?_
          obtain ⟨different, inKeys⟩ := (distinct.mem_erase_iff).1 inRest
          obtain ⟨part, found⟩ := each remaining inKeys
          rw [lookup] at found
          split at found
          · rename_i same
            exact absurd (eq_of_sameKey_int same isKey) different
          · exact ⟨part, found⟩
        rw [List.length_erase_of_mem listed] at others
        rw [List.length_cons]
        omega
      · have others : keys.length ≤ rest.length := by
          refine ih distinct fun key listed => ?_
          obtain ⟨part, found⟩ := each key listed
          rw [lookup] at found
          split at found
          · rename_i same
            exact absurd ⟨key, listed, same⟩ served
          · exact ⟨part, found⟩
        exact Nat.le_trans others (Nat.le_succ _)

/-- When all positions below a count select a part, the value has as many members. -/
theorem le_size_of_select {value : Value} {count : Nat}
    (each : ∀ position < count, ∃ part, value.select (.int (position : Nat)) = .ok part) :
    count ≤ value.size := by
  by_cases isDict : ∃ entries, value = .dict entries
  · obtain ⟨entries, rfl⟩ := isDict
    have keys : ((List.range count).map fun position => ((position : Nat) : Int)).Nodup :=
      List.Nodup.map (fun _ _ same => Int.ofNat.inj same) List.nodup_range
    have short := length_le_of_lookup keys fun key listed => by
      obtain ⟨position, below, rfl⟩ := List.mem_map.1 listed
      obtain ⟨part, selected⟩ := each position (List.mem_range.1 below)
      exact ⟨part, lookup_of_select selected⟩
    simpa [size, members] using short
  · cases count with
    | zero => exact Nat.zero_le _
    | succ last =>
        obtain ⟨part, selected⟩ := each last (Nat.lt_succ_self last)
        obtain ⟨items, position, held, counted, found⟩ :=
          exists_of_select (not_exists.1 isDict) selected
        cases counted
        obtain ⟨place, inside, atPosition⟩ := exists_of_itemAt found
        obtain ⟨below, _⟩ := List.getElem?_eq_some_iff.1 inside
        have same := atPosition (Int.natCast_nonneg last)
        rw [size, held]
        rw [Int.toNat_natCast] at same
        simp only
        omega

end Value

end DBusMarshal
