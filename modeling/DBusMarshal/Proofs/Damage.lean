import DBusMarshal.Proofs.Envelope

/-!
Damaged payloads are refused.

A reader that succeeds does not depend on what stands behind the bytes that it takes. So if a front
of a payload were an object, the whole payload would be read as this object with bytes left over;
but it is read with none left over. Bytes behind the payload are left over, and noticed.
-/

set_option autoImplicit false

namespace DBusMarshal

namespace MessagePack

/-! ### Readers that do not look ahead -/

/-- A reader that succeeds does not depend on what stands behind the bytes that it takes. -/
def Steady {α : Type} (read : List UInt8 → Reading α) : Prop :=
  ∀ ⦃bytes rest : List UInt8⦄ ⦃value : α⦄, read bytes = some (value, rest) →
    ∀ more, read (bytes ++ more) = some (value, rest ++ more)

namespace Steady

variable {α β : Type}

theorem succeed (value : α) : Steady fun bytes => some (value, bytes) := by
  intro bytes rest other read more
  cases read
  rfl

theorem map {read : List UInt8 → Reading α} (steady : Steady read) (f : α → β) :
    Steady fun bytes => (read bytes).map fun (value, rest) => (f value, rest) := by
  intro bytes rest value ended more
  obtain ⟨⟨one, between⟩, taken, same⟩ := Option.map_eq_some_iff.1 ended
  cases same
  dsimp only
  rw [steady taken more]
  rfl

end Steady

/-! ### Fields and scalars -/

theorem steady_takeBytes (count : Nat) : Steady (takeBytes count) := by
  induction count with
  | zero => exact .succeed []
  | succ count ih =>
      intro bytes rest taken ended more
      cases bytes with
      | nil => cases ended
      | cons octet others =>
          rw [takeBytes] at ended
          split at ended
          · rename_i inner behind found
            cases ended
            rw [List.cons_append, takeBytes, ih found more]
          · cases ended

theorem steady_takeNat (width : Nat) : Steady (takeNat width) :=
  (steady_takeBytes width).map unsigned

theorem Steady.sized {α : Type} (width : Nat) {next : Nat → List UInt8 → Reading α}
    (later : ∀ size, Steady (next size)) : Steady fun bytes => sized width bytes next := by
  intro bytes rest value ended more
  dsimp only at ended ⊢
  unfold MessagePack.sized at ended ⊢
  split at ended
  · rename_i size between taken
    rw [steady_takeNat width taken more]
    exact later size ended more
  · cases ended

theorem steady_takeText (size : Nat) : Steady (takeText size) := by
  intro bytes rest object ended more
  unfold takeText at ended ⊢
  split at ended
  · rename_i octets between taken
    rw [steady_takeBytes size taken more]
    dsimp only
    obtain ⟨written, valid, same⟩ := Option.map_eq_some_iff.1 ended
    cases same
    rw [valid]
    rfl
  · cases ended

theorem steady_takeOctets (size : Nat) : Steady (takeOctets size) :=
  (steady_takeBytes size).map Object.bytes

theorem steady_takeUnsigned (width : Nat) : Steady (takeUnsigned width) :=
  (steady_takeBytes width).map fun taken => Object.int (unsigned taken)

theorem steady_takeSigned (width : Nat) : Steady (takeSigned width) :=
  (steady_takeBytes width).map fun taken => Object.int (signed taken)

theorem steady_takeExtension (size : Nat) : Steady (takeExtension size) := by
  intro bytes rest object ended more
  unfold takeExtension at ended ⊢
  split at ended
  · rename_i type octets behind taken
    rw [steady_takeBytes (size + 1) taken more]
    dsimp only at ended ⊢
    split at ended
    · rename_i isTime
      rw [if_pos isTime]
      obtain ⟨time, found, same⟩ := Option.map_eq_some_iff.1 ended
      cases same
      rw [found]
      rfl
    · rename_i notTime
      rw [if_neg notTime]
      split at ended
      · rename_i known
        cases ended
        rw [if_pos known]
      · cases ended
  · cases ended

/-! ### Heads -/

theorem Steady.asHead {read : List UInt8 → Reading Object} (steady : Steady read) :
    Steady fun bytes => asHead (read bytes) :=
  steady.map Head.scalar

theorem steady_takeHead : Steady takeHead := by
  intro bytes rest head ended more
  cases bytes with
  | nil => cases ended
  | cons first others =>
      rw [List.cons_append]
      unfold takeHead at ended ⊢
      dsimp only at ended ⊢
      generalize first.toNat = tag at ended ⊢
      by_cases isSmall : tag < 0x80
      · rw [if_pos isSmall] at ended ⊢
        exact Steady.succeed _ ended more
      rw [if_neg isSmall] at ended ⊢
      by_cases isMap : tag < 0x90
      · rw [if_pos isMap] at ended ⊢
        exact Steady.succeed _ ended more
      rw [if_neg isMap] at ended ⊢
      by_cases isArray : tag < 0xa0
      · rw [if_pos isArray] at ended ⊢
        exact Steady.succeed _ ended more
      rw [if_neg isArray] at ended ⊢
      by_cases isText : tag < 0xc0
      · rw [if_pos isText] at ended ⊢
        exact (steady_takeText _).asHead ended more
      rw [if_neg isText] at ended ⊢
      -- Every other tag leads to one of the readers above.
      split at ended
      all_goals first
        | exact Steady.succeed _ ended more
        | exact (Steady.sized _ steady_takeOctets).asHead ended more
        | exact (Steady.sized _ steady_takeText).asHead ended more
        | exact (Steady.sized _ steady_takeExtension).asHead ended more
        | exact (Steady.sized _ fun _ => .succeed _).asHead ended more
        | exact (Steady.sized _ fun _ => .succeed _) ended more
        | exact (steady_takeUnsigned _).asHead ended more
        | exact (steady_takeSigned _).asHead ended more
        | exact (steady_takeExtension _).asHead ended more
        | cases ended

/-! ### Objects -/

theorem Steady.readMany {α : Type} {read : List UInt8 → Reading α} (steady : Steady read)
    (count : Nat) : Steady (readMany read count) := by
  induction count with
  | zero => exact .succeed []
  | succ count ih =>
      intro bytes rest items ended more
      unfold MessagePack.readMany at ended ⊢
      split at ended
      · cases ended
      · rename_i first between taken
        rw [steady taken more]
        dsimp only
        split at ended
        · cases ended
        · rename_i others behind takenOthers
          cases ended
          rw [ih takenOthers more]

theorem steady_readKey : Steady readKey := by
  intro bytes rest key ended more
  unfold readKey at ended ⊢
  split at ended
  · rename_i taken
    cases ended
    rw [steady_takeHead taken more]
  · rename_i taken
    cases ended
    rw [steady_takeHead taken more]
  · cases ended

theorem Steady.readEntry {read : List UInt8 → Reading Object} (steady : Steady read) :
    Steady (readEntry read) := by
  intro bytes rest entry ended more
  unfold MessagePack.readEntry at ended ⊢
  split at ended
  · cases ended
  · rename_i key between taken
    rw [steady_readKey taken more]
    dsimp only
    split at ended
    · cases ended
    · rename_i object behind takenObject
      cases ended
      rw [steady takenObject more]

/-- Reading an object leaves alone whatever stands behind it. -/
theorem steady_readObject (depth : Nat) : Steady (readObject depth) := by
  induction depth with
  | zero =>
      intro bytes rest object ended more
      unfold readObject at ended ⊢
      split at ended
      · rename_i taken
        cases ended
        rw [steady_takeHead taken more]
      · cases ended
  | succ depth ih =>
      intro bytes rest object ended more
      unfold readObject at ended ⊢
      split at ended
      · rename_i taken
        cases ended
        rw [steady_takeHead taken more]
      · rename_i size between taken
        rw [steady_takeHead taken more]
        exact (ih.readMany size).map Object.array ended more
      · rename_i size between taken
        rw [steady_takeHead taken more]
        exact (ih.readEntry.readMany size).map Object.mapOf ended more
      · cases ended

/-! ### Objects cut short, and objects with more behind them -/

/-- No proper front of a written object is an object. -/
theorem ofBytes?_of_front {front behind : List UInt8} {object : Object}
    (reads : Reads maxDepth (front ++ behind) object) (cut : behind ≠ []) :
    Object.ofBytes? front = none := by
  have whole := reads []
  rw [List.append_nil] at whole
  rw [Object.ofBytes?]
  split
  · rename_i other read
    have longer := steady_readObject maxDepth read behind
    rw [whole] at longer
    cases longer
    exact absurd rfl cut
  · rfl

/-- What stands behind a written object is noticed. -/
theorem ofBytes?_of_extended {bytes extra : List UInt8} {object : Object}
    (reads : Reads maxDepth bytes object) (extended : extra ≠ []) :
    Object.ofBytes? (bytes ++ extra) = none := by
  rw [Object.ofBytes?, reads extra]
  split
  · rename_i other same
    cases same
    exact absurd rfl extended
  · rfl

end MessagePack

open MessagePack (ofBytes?_of_front ofBytes?_of_extended)

namespace Envelope

theorem Fits.decode_front {envelope : Envelope} (fits : envelope.Fits) {front : List UInt8}
    (isFront : front <+: envelope.encode) (proper : front ≠ envelope.encode) :
    decode front = .error .malformed := by
  obtain ⟨behind, whole⟩ := isFront
  have cut : behind ≠ [] := by
    intro nothing
    rw [nothing, List.append_nil] at whole
    exact proper whole
  have reads := fits.reads
  rw [← whole] at reads
  rw [decode, ofBytes?_of_front reads cut]

theorem Fits.decode_extended {envelope : Envelope} (fits : envelope.Fits) {extra : List UInt8}
    (extended : extra ≠ []) : decode (envelope.encode ++ extra) = .error .malformed := by
  rw [decode, ofBytes?_of_extended fits.reads extended]

end Envelope

/-- Every generated fragment has an envelope. Written down it is read again, but neither what is
left of it when bytes are missing at its end nor what it becomes when there are more bytes is an
envelope, or any object at all. -/
theorem generated_damaged {options : Options} {source : Source} {iter name : GivenName}
    {recovery : Option String} {generated : Generated}
    (ended : generate options source iter name recovery = .ok generated) :
    ∃ envelope, Envelope.ofGenerated generated = .ok envelope ∧
      (envelope.Fits →
        Envelope.decode envelope.encode = .ok envelope ∧
        (∀ front, front <+: envelope.encode → front ≠ envelope.encode →
          Envelope.decode front = .error .malformed) ∧
        ∀ extra, extra ≠ [] →
          Envelope.decode (envelope.encode ++ extra) = .error .malformed) := by
  obtain ⟨code, printed⟩ := exists_code_of_generate ended
  have made := Envelope.ofGenerated_of_code printed
  refine ⟨_, made, fun fits => ⟨fits.decode_encode, ?_, ?_⟩⟩
  · exact fun front isFront proper => fits.decode_front isFront proper
  · exact fun extra extended => fits.decode_extended extended

/-- A payload whose letters take two bytes each, so that a cut may fall inside a letter. -/
theorem generated_damaged_accents :
    ∃ envelope, Envelope.ofGenerated accents = .ok envelope ∧
      Envelope.decode envelope.encode = .ok envelope ∧
      (∀ front, front <+: envelope.encode → front ≠ envelope.encode →
        Envelope.decode front = .error .malformed) ∧
      ∀ extra, extra ≠ [] →
        Envelope.decode (envelope.encode ++ extra) = .error .malformed := by
  obtain ⟨envelope, made, damaged⟩ := generated_damaged generate_accents
  exact ⟨envelope, made, damaged (fits_accents made)⟩

end DBusMarshal
