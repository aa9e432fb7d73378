import PropertyExpr.Proofs.Numerals
import PropertyExpr.Proofs.Shortest
import PropertyExpr.Value.Rendered
/-!
# Numbers by way of text

A number that is rendered to text and read again is the same double, bit for bit, but for negative zero, whose sign
is not written (`toNumber_rendered_text`). The text is read as a decimal with the value of the shortest one
(`readUnsigned?_writeDecimal_text`), and that one was made to read back.
-/
namespace PropertyExpr

open Float.Model Float.Model.UnpackedFloat
open Float.Model.Format (binary64)

/-- The text of a decimal is read as one with the same double. -/
theorem readUnsigned?_writeDecimal_text (d : Decimal) :
    ∃ d', readUnsigned? (Layout.text.writeDecimal d) = some d' ∧ d'.toFloat = d.toFloat := by
  obtain ⟨n, exponent⟩ := d
  rw [Layout.writeDecimal]
  split
  · refine ⟨_, readUnsigned?_positional rfl n exponent, ?_⟩
    split
    · -- the zeros that were written are digits now
      rename_i hexp
      obtain ⟨k, rfl⟩ := Int.eq_ofNat_of_zero_le hexp
      rw [Decimal.toFloat_mk_zero, toFloat_natCast, Int.toNat_natCast]
    · rfl
  · exact ⟨_, readUnsigned?_scientific n exponent, rfl⟩

theorem Representable.unpack_neg {y : Float} {m : Nat} {w : Int} (h : Representable m w)
    (hy : y.toModel.unpack = .finite .positive m w h.pos) : (-y).toModel.unpack = .finite .negative m w h.pos := by
  show UnpackedFloat.unpack binary64 (UnpackedFloat.pack binary64 (UnpackedFloat.neg y.toModel.unpack)) = _
  rw [hy]
  exact h.unpack_pack .negative

namespace Number

variable {x : Float}

/-- The text of a magnitude is read as the double it is of, with either sign. -/
theorem unpack_ofText_write {m : Magnitude} (h : Representable m.mantissa m.exponent) :
    (ofText (String.ofList (Layout.text.write m))).toModel.unpack = .finite .positive m.mantissa m.exponent h.pos ∧
    (ofText (String.ofList ('-' :: Layout.text.write m))).toModel.unpack =
      .finite .negative m.mantissa m.exponent h.pos := by
  obtain ⟨d, hread, hsame⟩ := readUnsigned?_writeDecimal_text (m.shortest Layout.text.tie)
  obtain ⟨hplain, hminus, -⟩ := ofText_of_readUnsigned? isNumeralPart_of_mem_writeDecimal hread
  have hshortest := m.unpack_toFloat_shortest h Layout.text.tie
  rw [Layout.write, hplain, hminus, hsame]
  exact ⟨hshortest, h.unpack_neg hshortest⟩

/-- The words for what is no finite number are read, and so is zero. -/
theorem ofText_words : ofText (String.ofList "NaN".toList) = nan ∧ ofText (String.ofList "Infinity".toList) = infinity ∧
    ofText (String.ofList "-Infinity".toList) = -infinity ∧ ofText (String.ofList ['0']) = 0.0 := by
  decide +kernel

/-- The text of a double that is not zero is read as that double. -/
theorem ofText_text_of_ne_zero (hzero : ∀ s, x.toModel.unpack ≠ .zero s) : ofText (String.ofList (text x)) = x := by
  obtain ⟨hnan, hinfinity, hminus, -⟩ := ofText_words
  apply eq_of_unpack_eq
  rw [text]
  cases hx : x.toModel.unpack with
  | notANumber =>
    simp only [hnan]
    rfl
  | infinity s =>
    cases s with
    | positive =>
      simp only [hinfinity]
      rfl
    | negative =>
      simp only [hminus]
      rfl
  | zero s => exact absurd hx (hzero s)
  | finite s mantissa exponent hpos =>
    have hrep := representable_of_unpack hx
    cases s with
    | positive => exact (unpack_ofText_write (m := ⟨mantissa, exponent⟩) hrep).1
    | negative => exact (unpack_ofText_write (m := ⟨mantissa, exponent⟩) hrep).2

theorem ofText_text_of_zero {s : Sign} (h : x.toModel.unpack = .zero s) : ofText (String.ofList (text x)) = 0.0 := by
  rw [text, h]
  exact ofText_words.2.2.2

/-- The sign of negative zero is all that is lost. -/
theorem ofText_text (x : Float) : ofText (String.ofList (text x)) = if x = -0.0 then 0.0 else x := by
  by_cases hzero : ∃ s, x.toModel.unpack = .zero s
  · obtain ⟨s, hs⟩ := hzero
    rw [ofText_text_of_zero hs]
    cases s with
    | positive =>
      obtain rfl : x = 0.0 := eq_of_unpack_eq hs
      exact (ite_self _).symm
    | negative =>
      obtain rfl : x = -0.0 := eq_of_unpack_eq hs
      exact (if_pos rfl).symm
  · have hne : x ≠ -0.0 := by
      rintro rfl
      exact hzero ⟨.negative, rfl⟩
    rw [if_neg hne, ofText_text_of_ne_zero fun s hs => hzero ⟨s, hs⟩]

end Number

/-- **A number that is rendered and comes back as a text is the same operand**: the same bits, but for negative zero,
which becomes zero. -/
theorem toNumber_rendered_text (x : Float) :
    (Rendered.string (Rendered.number x).text).toNumber = (if x = -0.0 then 0.0 else x) ∧
    (Number.ofText (Rendered.number x).text).toBits = if x.toBits = 0x8000000000000000 then 0 else x.toBits := by
  refine ⟨Number.ofText_text x, ?_⟩
  have hbits : (-0.0 : Float).toBits = 0x8000000000000000 := by decide +kernel
  have hiff : x.toBits = 0x8000000000000000 ↔ x = -0.0 := by rw [← hbits, Float.toBits_inj]
  rw [Rendered.text, Number.ofText_text]
  by_cases hx : x = -0.0
  · rw [if_pos hx, if_pos (hiff.2 hx)]
    decide +kernel
  · rw [if_neg hx, if_neg (mt hiff.1 hx)]

end PropertyExpr
