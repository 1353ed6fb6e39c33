import Slideshow.Proofs.Decimal.Written
import Slideshow.Proofs.Text.Occurrence
import Slideshow.Proofs.Yaml.Mapping

/-! Which scalars have the same text. Within one kind only equal ones have; across kinds, a string has
that of any other scalar that it spells out, and a whole number that of the double-precision number of
the same value, while truth values and numbers never look alike. -/

namespace Slideshow.Yaml

open Binary64 (readDecimal?)

namespace Number

theorem readDecimal?_natural (n : Nat) : readDecimal? (Nat.toDigits 10 n) = some ⟨n, 0⟩ := by
  have hRead := readDecimal?_plain [] (allDigits_toDigits n) (by simp) Nat.toDigits_ne_nil
  rw [List.append_nil, ofDecimalDigits_toDigits] at hRead
  exact hRead

theorem readValue?_integer (n : Int) : readValue? (integer n).text.toList = some (n : ℚ) := by
  have hNatural (m : Nat) : (⟨m, 0⟩ : Decimal).value = m := by
    rw [Decimal.value, zpow_zero, mul_one]
  rw [text, Text.toList_toString]
  split
  · rename_i hSign
    have hCast : (n.natAbs : ℚ) = -n := by
      rw [Nat.cast_natAbs, abs_of_neg hSign, Int.cast_neg]
    rw [readValue?, readDecimal?_natural, Option.map_some, hNatural, hCast, neg_neg]
  · rename_i hSign
    have hCast : (n.natAbs : ℚ) = n := by
      rw [Nat.cast_natAbs, abs_of_nonneg (not_lt.1 hSign)]
    rw [readValue?_of_readDecimal? (readDecimal?_natural _), hNatural, hCast]

/-- The text of a finite number reads back as a number of the same sign that rounds to it. -/
theorem readValue?_real {x : Binary64} (hFinite : x.isFinite = true) :
    ∃ q, readValue? (real x).text.toList = some q ∧
      if x.isZero then q = 0 else x.rounding.Contains |q| ∧ (q < 0 ↔ x.isNegative = true) := by
  rw [text, Binary64.isNaN_of_isFinite hFinite, Binary64.isInfinite_of_isFinite hFinite]
  cases hZero : x.isZero with
  | true =>
    exact ⟨0, readValue?_integer 0, rfl⟩
  | false =>
    have hTail : layout.tail = [] ∨ layout.tail = ['.', '0'] := .inl rfl
    obtain ⟨q, hRead, hNumber⟩ := Decimal.Layout.readValue?_writeFinite hTail hFinite hZero
    refine ⟨q, ?_, hNumber⟩
    rw [← hRead]
    exact congrArg readValue? String.toList_ofList

theorem text_nan {x : Binary64} (h : x.isNaN = true) : (real x).text = "NaN" := by
  rw [text, if_pos h]

theorem text_infinite {x : Binary64} (h : x.isInfinite = true) :
    (real x).text = if x.isNegative then "-Infinity" else "Infinity" := by
  have hNaN : x.isNaN = false := by
    simp only [Binary64.isInfinite, Binary64.isNaN, beq_iff_eq, decide_eq_false_iff_not] at h ⊢
    omega
  rw [text, hNaN, h]
  rfl

theorem text_zero {x : Binary64} (h : x.isZero = true) : (real x).text = "0" := by
  have hNaN := Binary64.isNaN_of_isZero h
  have hInfinite : x.isInfinite = false := by
    simp only [Binary64.isZero, beq_iff_eq] at h
    simp [Binary64.isInfinite, h, Binary64.infiniteMagnitude]
  rw [text, hNaN, hInfinite, h]
  rfl

/-- The texts of the numbers that are not finite, which read back as no number. -/
def specialTexts : List String := ["NaN", "Infinity", "-Infinity"]

theorem readValue?_special : ∀ text ∈ specialTexts, readValue? text.toList = none := by
  decide

theorem isInfinite_of_not_finite {x : Binary64} (hFinite : x.isFinite = false)
    (hNaN : x.isNaN = false) : x.isInfinite = true := by
  simp only [Binary64.isFinite, Binary64.isNaN, Binary64.isInfinite, decide_eq_false_iff_not,
    beq_iff_eq] at hFinite hNaN ⊢
  omega

theorem text_mem_specialTexts {x : Binary64} (hFinite : x.isFinite = false) :
    (real x).text ∈ specialTexts := by
  cases hNaN : x.isNaN with
  | true =>
    rw [text_nan hNaN]
    decide
  | false =>
    rw [text_infinite (isInfinite_of_not_finite hFinite hNaN)]
    split <;> decide

theorem text_inj_integer {m n : Int} : (integer m).text = (integer n).text ↔ m = n := by
  refine ⟨fun h => ?_, fun h => h ▸ rfl⟩
  have hRead := readValue?_integer m
  rw [h, readValue?_integer n, Option.some.injEq] at hRead
  exact_mod_cast hRead.symm

theorem same_of_text_special {x y : Binary64} (hx : x.isFinite = false) (hy : y.isFinite = false)
    (h : (real x).text = (real y).text) : x.same y = true := by
  cases hxNaN : x.isNaN <;> cases hyNaN : y.isNaN
  · have hxInfinite := isInfinite_of_not_finite hx hxNaN
    have hyInfinite := isInfinite_of_not_finite hy hyNaN
    rw [text_infinite hxInfinite, text_infinite hyInfinite] at h
    have hSign : x.isNegative = y.isNegative := by
      cases hxSign : x.isNegative <;> cases hySign : y.isNegative <;> simp [hxSign, hySign] at h ⊢
    have hMagnitude := (beq_iff_eq.1 hxInfinite).trans (beq_iff_eq.1 hyInfinite).symm
    rw [Binary64.eq_of_magnitude hSign hMagnitude]
    exact Binary64.same_refl y
  · rw [text_infinite (isInfinite_of_not_finite hx hxNaN), text_nan hyNaN] at h
    split at h <;> exact absurd h (by decide)
  · rw [text_infinite (isInfinite_of_not_finite hy hyNaN), text_nan hxNaN] at h
    split at h <;> exact absurd h (by decide)
  · simp [Binary64.same, hxNaN, hyNaN]

theorem same_of_text_finite {x y : Binary64} (hx : x.isFinite = true) (hy : y.isFinite = true)
    (h : (real x).text = (real y).text) : x.same y = true := by
  obtain ⟨q, hReadX, hNumberX⟩ := readValue?_real hx
  obtain ⟨q', hReadY, hNumberY⟩ := readValue?_real hy
  rw [h, hReadY, Option.some.injEq] at hReadX
  subst hReadX
  -- Both numbers are rounded from the same one, which is zero for a zero only.
  have hNonzero {z : Binary64} (hz : z.isFinite = true) (hZero : z.isZero = false)
      (hContains : z.rounding.Contains |q'|) : q' ≠ 0 := by
    rintro rfl
    have hPos := (Binary64.bounds_of_contains hz hZero hContains).1
    rw [abs_zero] at hPos
    exact absurd hPos (not_le.2 (by positivity))
  cases hxZero : x.isZero <;> cases hyZero : y.isZero <;>
    simp only [hxZero, hyZero, Bool.false_eq_true, if_true, if_false] at hNumberX hNumberY
  · have hSign : x.isNegative = y.isNegative :=
      Bool.eq_iff_iff.2 (hNumberX.2.symm.trans hNumberY.2)
    have hMagnitude := Binary64.magnitude_eq_of_contains hxZero hyZero hNumberX.1 hNumberY.1
    rw [Binary64.eq_of_magnitude hSign hMagnitude]
    exact Binary64.same_refl y
  · exact absurd hNumberY (hNonzero hx hxZero hNumberX.1)
  · exact absurd hNumberX (hNonzero hy hyZero hNumberY.1)
  · simp [Binary64.same, hxZero, hyZero]

/-- Double-precision numbers have the same text if and only if they are equal as keys. -/
theorem text_inj_real {x y : Binary64} : (real x).text = (real y).text ↔ x.same y = true := by
  constructor
  · intro h
    cases hx : x.isFinite <;> cases hy : y.isFinite
    · exact same_of_text_special hx hy h
    · obtain ⟨q, hRead, -⟩ := readValue?_real hy
      rw [← h, readValue?_special _ (text_mem_specialTexts hx)] at hRead
      exact nomatch hRead
    · obtain ⟨q, hRead, -⟩ := readValue?_real hx
      rw [h, readValue?_special _ (text_mem_specialTexts hy)] at hRead
      exact nomatch hRead
    · exact same_of_text_finite hx hy h
  · intro h
    simp only [Binary64.same, Bool.or_eq_true, Bool.and_eq_true, beq_iff_eq] at h
    obtain (⟨hx, hy⟩ | ⟨hx, hy⟩) | rfl := h
    · rw [text_nan hx, text_nan hy]
    · rw [text_zero hx, text_zero hy]
    · rfl

/-- No number is written like a truth value. -/
theorem text_ne_bool (n : Number) (b : Bool) : n.text ≠ if b then "true" else "false" := by
  have hNone : readValue? (if b then "true" else "false").toList = none := by
    cases b <;> decide
  have hOther : (if b then "true" else "false") ∉ specialTexts := by
    cases b <;> decide
  intro h
  -- Every text of a number is one that reads back as a number, or a special one.
  cases n with
  | integer n =>
    rw [← h, readValue?_integer] at hNone
    exact nomatch hNone
  | real x =>
    cases hFinite : x.isFinite with
    | true =>
      obtain ⟨q, hRead, -⟩ := readValue?_real hFinite
      rw [h, hNone] at hRead
      exact nomatch hRead
    | false => exact hOther (h ▸ text_mem_specialTexts hFinite)

end Number

namespace Value

/-- Two scalars of different kinds have the same text: a string spells out the other one, or a whole
number is written like a double-precision number. -/
inductive Collides : Value → Value → Prop
  | spelled {s : String} {v : Value} : (∀ t, v ≠ string t) → v.scalarText? = some s →
      Collides (string s) v
  | written {n : Int} {x : Binary64} : (Number.integer n).text = (Number.real x).text →
      Collides (number (.integer n)) (number (.real x))

theorem Collides.text_eq {a b : Value} (h : Collides a b) : a.scalarText? = b.scalarText? := by
  cases h with
  | spelled _ hText => exact hText.symm
  | written hText => exact congrArg some hText

theorem Collides.ne {a b : Value} (h : Collides a b) : a ≠ b := by
  cases h with
  | spelled hKind _ => exact (hKind _).symm
  | written _ => exact fun h => nomatch h

theorem same_or_collides_number {m n : Number} (h : m.text = n.text) :
    (number m).same (number n) = true ∨ Collides (number m) (number n) ∨
      Collides (number n) (number m) := by
  cases m <;> cases n
  · exact .inl (beq_iff_eq.2 (Number.text_inj_integer.1 h))
  · exact .inr (.inl (.written h))
  · exact .inr (.inr (.written h.symm))
  · exact .inl (Number.text_inj_real.1 h)

/-- Scalars with the same text are equal as keys, or they collide. -/
theorem same_or_collides {a b : Value} {text : String} (ha : a.scalarText? = some text)
    (hb : b.scalarText? = some text) : a.same b = true ∨ Collides a b ∨ Collides b a := by
  have hBool (p q : Bool) (h : (if p then "true" else "false") = if q then "true" else "false") :
      p = q := by
    cases p <;> cases q <;> simp at h ⊢
  cases a with
  | string s =>
    obtain rfl := Option.some.inj ha
    cases b with
    | string t =>
      obtain rfl := Option.some.inj hb
      exact .inl (same_refl _)
    | _ => exact .inr (.inl (.spelled (by simp) hb))
  | bool p =>
    cases b with
    | string t =>
      obtain rfl := Option.some.inj hb
      exact .inr (.inr (.spelled (by simp) ha))
    | bool q => exact .inl (beq_iff_eq.2 (hBool p q (Option.some.inj (ha.trans hb.symm))))
    | number n => exact absurd (Option.some.inj (hb.trans ha.symm)) (n.text_ne_bool p)
    | _ => exact nomatch hb
  | number m =>
    cases b with
    | string t =>
      obtain rfl := Option.some.inj hb
      exact .inr (.inr (.spelled (by simp) ha))
    | bool q => exact absurd (Option.some.inj (ha.trans hb.symm)) (m.text_ne_bool q)
    | number n => exact same_or_collides_number (Option.some.inj (ha.trans hb.symm))
    | _ => exact nomatch hb
  | _ => exact nomatch ha

end Value

end Slideshow.Yaml
