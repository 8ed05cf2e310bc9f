import Mathlib.Data.List.Induction
import DBusMarshal.Proofs.Spelling

/-!
Pointers and `const` on arbitrary types.

Whatever stands for a type, every level of pointers adds one star to it, and `const` adds none. What
has been made const is settled: it is no pointer, or a pointer to what is no pointer and has `const`
at one of its ends. So to make it const again changes nothing. The exception is a star alone, which
points to nothing and takes one `const` more every time; no other type ever turns into it.
-/

set_option autoImplicit false

namespace DBusMarshal

/-! ### Trimming -/

namespace Text

section

variable {test : Char → Bool}

theorem dropTrailing_append_of_kept {back : List Char} (kept : dropTrailing test back ≠ [])
    (front : List Char) : dropTrailing test (front ++ back) = front ++ dropTrailing test back := by
  induction front with
  | nil => rfl
  | cons first rest ih =>
      obtain ⟨other, more, whole⟩ :=
        List.exists_cons_of_ne_nil (List.append_ne_nil_of_right_ne_nil rest kept)
      rw [List.cons_append, dropTrailing, ih, whole, List.cons_append, whole]

theorem not_dropped_of_last {text : List Char} {last : Char}
    (ends : (dropTrailing test text).getLast? = some last) : test last = false := by
  induction text using List.reverseRecOn with
  | nil => cases ends
  | append_singleton front c ih =>
      cases dropped : test c with
      | true =>
          rw [dropTrailing_append_of_true dropped] at ends
          exact ih ends
      | false =>
          rw [dropTrailing_append_of_false dropped, List.getLast?_concat] at ends
          rw [← Option.some.inj ends]
          exact dropped

variable {c : Char} (kept : test c = false)
include kept

theorem count_dropTrailing (text : List Char) :
    (dropTrailing test text).count c = text.count c := by
  induction text using List.reverseRecOn with
  | nil => rfl
  | append_singleton front last ih =>
      cases dropped : test last with
      | true =>
          have other : c ∉ [last] := by
            intro same
            rw [List.mem_singleton.1 same, dropped] at kept
            cases kept
          rw [dropTrailing_append_of_true dropped, ih, List.count_append,
            List.count_eq_zero_of_not_mem other, Nat.add_zero]
      | false => rw [dropTrailing_append_of_false dropped]

theorem count_dropWhile (text : List Char) : (text.dropWhile test).count c = text.count c := by
  induction text with
  | nil => rfl
  | cons first rest ih =>
      cases dropped : test first with
      | true =>
          have other : first ≠ c := by
            rintro rfl
            rw [dropped] at kept
            cases kept
          rw [List.dropWhile_cons_of_pos dropped, ih, List.count_cons_of_ne other]
      | false => rw [List.dropWhile_cons_of_neg (Bool.eq_false_iff.1 dropped)]

end

theorem count_trim {c : Char} (inked : isBlank c = false) (text : List Char) :
    (trim text).count c = text.count c := by
  rw [trim, trimEnd, count_dropTrailing inked, count_dropWhile inked]

/-- A text begins and ends, and not with blanks. -/
structure Tidy (text : List Char) : Prop where
  starts : StartsInked text
  ends : ∃ last, text.getLast? = some last ∧ isBlank last = false

theorem Tidy.trim_eq {text : List Char} (tidy : Tidy text) : trim text = text := by
  obtain ⟨last, isLast, inked⟩ := tidy.ends
  exact trim_eq_self tidy.starts isLast inked

theorem StartsInked.trimEnd {text : List Char} (starts : StartsInked text) :
    StartsInked (trimEnd text) := by
  obtain ⟨first, isFirst, inked⟩ := starts
  obtain ⟨rest, rfl⟩ := List.head?_eq_some_iff.1 isFirst
  refine ⟨first, ?_, inked⟩
  rw [Text.trimEnd, dropTrailing]
  cases dropTrailing isBlank rest with
  | nil => simp [inked]
  | cons other more => rfl

theorem tidy_trim {text : List Char} (filled : trim text ≠ []) : Tidy (trim text) where
  starts := by
    apply StartsInked.trimEnd
    cases whole : text.dropWhile isBlank with
    | nil =>
        rw [trim, whole] at filled
        exact absurd rfl filled
    | cons first rest =>
        have stops := List.head?_dropWhile_not isBlank text
        rw [whole] at stops
        exact ⟨first, rfl, stops⟩
  ends := by
    have ends := List.getLast?_eq_some_getLast filled
    exact ⟨_, ends, not_dropped_of_last ends⟩

end Text

namespace CType

/-! ### Types that something can point to -/

/-- No blanks stand around the type, and it is more than a star. -/
structure Promotable (spelling : List Char) : Prop where
  tidy : Text.Tidy spelling
  notStar : spelling ≠ ['*']

theorem isPointer_append {back : List Char} (filled : back ≠ []) (front : List Char) :
    isPointer (front ++ back) = isPointer back := by
  rw [isPointer, isPointer, List.getLast?_append, List.getLast?_eq_some_getLast filled]
  rfl

/-- What ends with a star behind something else can be pointed to. -/
theorem promotable_append_star {front : List Char} (starts : Text.StartsInked front) :
    Promotable (front ++ ['*']) where
  tidy := ⟨starts.append _, '*', List.getLast?_concat, by decide⟩
  notStar := by
    obtain ⟨first, isFirst, -⟩ := starts
    obtain ⟨rest, rfl⟩ := List.head?_eq_some_iff.1 isFirst
    simp

theorem Promotable.startsInked_front {front : List Char}
    (promotable : Promotable (front ++ ['*'])) : Text.StartsInked front := by
  cases front with
  | nil => exact absurd rfl promotable.notStar
  | cons first rest =>
      obtain ⟨other, isFirst, inked⟩ := promotable.tidy.starts
      exact ⟨other, isFirst, inked⟩

theorem Promotable.addStar {spelling : List Char} (promotable : Promotable spelling) :
    Promotable (addStar spelling) := by
  unfold CType.addStar
  split
  · exact promotable_append_star promotable.tidy.starts
  · have shape : spelling ++ [' ', '*'] = spelling ++ [' '] ++ ['*'] := by simp
    rw [shape]
    exact promotable_append_star (promotable.tidy.starts.append _)

/-! ### What is const already -/

theorem qualify_of_settled {spelling : List Char} (settled : Settled spelling) :
    qualify spelling = spelling := by
  have qualifies := qualifies_qualify spelling
  generalize qualify spelling = result at qualifies
  cases qualifies with
  | settled _ => rfl
  | pointer deeper =>
      rw [(settled _ rfl).1] at deeper
      cases deeper
  | target flat notYet =>
      rw [(settled _ rfl).2] at notYet
      cases notYet

/-- What has been qualified is settled. -/
theorem Promotable.settled_qualify {spelling : List Char} (promotable : Promotable spelling) :
    Settled (qualify spelling) := by
  have qualifies := qualifies_qualify spelling
  generalize qualify spelling = result at qualifies
  cases qualifies with
  | settled settled => exact settled
  | @pointer front deeper =>
      intro other same
      obtain ⟨rfl, -⟩ := List.append_inj' same rfl
      have blank : Text.isBlank ' ' = true := by decide
      have trimmed : Text.trimEnd (Text.trimEnd front ++ ' ' :: const ++ [' ']) =
          Text.trimEnd front ++ ' ' :: const := by
        have ends : (Text.trimEnd front ++ ' ' :: const).getLast? = some 't' := by
          rw [List.getLast?_append]
          rfl
        exact (Text.dropTrailing_append_of_true blank _).trans
          (Text.trimEnd_eq_self ends (by decide))
      rw [trimmed]
      refine ⟨isPointer_append (List.cons_ne_nil _ _) _, ?_⟩
      have suffix : (' ' :: const).isSuffixOf (Text.trimEnd front ++ ' ' :: const) = true :=
        List.isSuffixOf_iff_suffix.2 (List.suffix_append _ _)
      rw [carriesConst, suffix, Bool.true_or]
  | @target front flat notYet =>
      intro other same
      obtain ⟨rfl, -⟩ := List.append_inj' same rfl
      -- Something inked stands in front of the star, so the blank behind `const` stays.
      obtain ⟨first, isFirst, -⟩ := promotable.startsInked_front.trimEnd
      have filled : Text.trimEnd front ≠ [] := by
        intro none
        rw [none] at isFirst
        cases isFirst
      have trimmed : Text.trimEnd (const ++ [' '] ++ front) =
          const ++ [' '] ++ Text.trimEnd front :=
        Text.dropTrailing_append_of_kept filled _
      rw [trimmed, isPointer_append filled]
      refine ⟨flat, ?_⟩
      have isPrefix : (const ++ [' ']).isPrefixOf (const ++ [' '] ++ Text.trimEnd front) = true :=
        List.isPrefixOf_iff_prefix.2 (List.prefix_append _ _)
      rw [carriesConst, isPrefix, Bool.or_true]

theorem Promotable.qualify {spelling : List Char} (promotable : Promotable spelling) :
    Promotable (qualify spelling) := by
  have qualifies := qualifies_qualify spelling
  generalize CType.qualify spelling = result at qualifies
  cases qualifies with
  | settled _ => exact promotable
  | pointer _ =>
      have starts := promotable.startsInked_front.trimEnd
      exact promotable_append_star ((starts.append _).append _)
  | target _ _ =>
      have starts : Text.StartsInked const := ⟨'c', rfl, by decide⟩
      exact promotable_append_star ((starts.append _).append _)

/-! ### Stars -/

theorem count_qualify (spelling : List Char) :
    (qualify spelling).count '*' = spelling.count '*' := by
  have qualifies := qualifies_qualify spelling
  generalize qualify spelling = result at qualifies
  cases qualifies with
  | settled _ => rfl
  | @pointer front _ =>
      have same : (Text.trimEnd front).count '*' = front.count '*' :=
        Text.count_dropTrailing (by decide) front
      simp [List.count_append, same, const]
  | target _ _ => simp [List.count_append, const]

theorem count_addStar (spelling : List Char) :
    (addStar spelling).count '*' = spelling.count '*' + 1 := by
  unfold addStar
  split
  · simp
  · simp

/-! ### Steps one after the other -/

/-- A step on the way to the type of a variable. -/
inductive Promotion where
  /-- What is pointed to is made const. -/
  | const
  /-- One more level of pointers is added. -/
  | pointer
deriving DecidableEq, Repr

def Promotion.apply (type : String) : Promotion → String
  | const => toConst type
  | pointer => toPointer type

/-- Take steps one after the other, the first of them from the given type. -/
def promote (type : String) (steps : List Promotion) : String := steps.foldl Promotion.apply type

theorem count_toConst (type : String) :
    (toConst type).toList.count '*' = type.toList.count '*' := by
  rw [toConst, String.toList_ofList, count_qualify, Text.count_trim (by decide)]

theorem count_toPointer (type : String) :
    (toPointer type).toList.count '*' = type.toList.count '*' + 1 := by
  rw [toPointer, String.toList_ofList, count_addStar, Text.count_trim (by decide)]

theorem count_promote (type : String) (steps : List Promotion) :
    (promote type steps).toList.count '*' = type.toList.count '*' + steps.count .pointer := by
  induction steps generalizing type with
  | nil => rfl
  | cons step rest ih =>
      have later := ih (step.apply type)
      cases step with
      | const =>
          rw [Promotion.apply, count_toConst] at later
          rw [List.count_cons_of_ne (by decide)]
          exact later
      | pointer =>
          rw [Promotion.apply, count_toPointer] at later
          rw [List.count_cons_self]
          exact later.trans (by omega)

theorem promotable_trim_apply {type : String} (promotable : Promotable (Text.trim type.toList))
    (step : Promotion) : Promotable (Text.trim (step.apply type).toList) := by
  cases step with
  | const =>
      have next := promotable.qualify
      rw [Promotion.apply, toConst, String.toList_ofList, next.tidy.trim_eq]
      exact next
  | pointer =>
      have next := promotable.addStar
      rw [Promotion.apply, toPointer, String.toList_ofList, next.tidy.trim_eq]
      exact next

theorem promotable_trim_promote {type : String} (promotable : Promotable (Text.trim type.toList))
    (steps : List Promotion) : Promotable (Text.trim (promote type steps).toList) := by
  induction steps generalizing type with
  | nil => exact promotable
  | cons step rest ih => exact ih (promotable_trim_apply promotable step)

theorem toConst_toConst {type : String} (promotable : Promotable (Text.trim type.toList)) :
    toConst (toConst type) = toConst type := by
  have spelt : (toConst type).toList = qualify (Text.trim type.toList) := String.toList_ofList
  rw [toConst, spelt, promotable.qualify.tidy.trim_eq,
    qualify_of_settled promotable.settled_qualify, toConst]

/-- After any steps, what is made const stays as it is when it is made const again, and there are as
many stars as the type had and levels were added. -/
theorem promotions_settle (type : String) (steps : List Promotion)
    (filled : Text.trim type.toList ≠ []) (notStar : Text.trim type.toList ≠ ['*']) :
    toConst (toConst (promote type steps)) = toConst (promote type steps) ∧
    (promote type steps).toList.count '*' = type.toList.count '*' + steps.count .pointer := by
  have promotable : Promotable (Text.trim type.toList) := ⟨Text.tidy_trim filled, notStar⟩
  exact ⟨toConst_toConst (promotable_trim_promote promotable steps), count_promote type steps⟩

/-- A type with stars and blanks in odd places. -/
theorem promotions_settle_blanks :
    Text.trim "\u2003* const*\n".toList ≠ [] ∧ Text.trim "\u2003* const*\n".toList ≠ ['*'] ∧
    toConst (toConst (promote "\u2003* const*\n" [.pointer, .const, .const, .pointer])) =
      toConst (promote "\u2003* const*\n" [.pointer, .const, .const, .pointer]) ∧
    (promote "\u2003* const*\n" [.pointer, .const, .const, .pointer]).toList.count '*' = 2 + 2 := by
  have filled : Text.trim "\u2003* const*\n".toList ≠ [] := by decide
  have notStar : Text.trim "\u2003* const*\n".toList ≠ ['*'] := by decide
  exact ⟨filled, notStar, promotions_settle _ _ filled notStar⟩

end CType

end DBusMarshal
