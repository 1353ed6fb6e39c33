import Slideshow.Json.Basic
import Slideshow.Json.Reader
import Slideshow.Proofs.Decimal.Written
import Slideshow.Proofs.Text.Occurrence

/-! Numbers are written as the grammar of JSON has them: a whole part without zeros in front, then a
fraction, then a power of ten. So the reader finds their end. -/

namespace Slideshow

open JsonText

/-- At least one digit, and nothing else. -/
structure IsDigits (ds : List Char) : Prop where
  filled : ds ≠ []
  digit : ∀ c ∈ ds, c.isDigit = true

/-- A single zero, or digits that start with none. -/
def IsWhole (ds : List Char) : Prop := ds = ['0'] ∨ (IsDigits ds ∧ ds.head? ≠ some '0')

def IsFraction (cs : List Char) : Prop := cs = [] ∨ ∃ ds, cs = '.' :: ds ∧ IsDigits ds

def IsPower (cs : List Char) : Prop :=
  cs = [] ∨ ∃ sign ds, cs = 'e' :: sign :: ds ∧ (sign = '+' ∨ sign = '-') ∧ IsDigits ds

/-- A number without a sign. -/
inductive IsUnsigned : List Char → Prop
  | mk {whole fraction power : List Char} : IsWhole whole → IsFraction fraction → IsPower power →
      IsUnsigned (whole ++ (fraction ++ power))

inductive IsNumber : List Char → Prop
  | positive {cs : List Char} : IsUnsigned cs → IsNumber cs
  | negative {cs : List Char} : IsUnsigned cs → IsNumber ('-' :: cs)

/-- What can follow a value in a text without white space. -/
def Ends (rest : List Char) : Prop := ∀ c ∈ rest.head?, c = ',' ∨ c = ']' ∨ c = '\x7d'

/-! ### The end of a number -/

variable {ds cs rest : List Char}

theorem IsDigits.toDigits (n : Nat) : IsDigits (Nat.toDigits 10 n) :=
  ⟨Nat.toDigits_ne_nil, fun _ h => Nat.isDigit_of_mem_toDigits (by decide) (by decide) h⟩

theorem afterDigits?_append (hDigits : IsDigits ds) (hRest : ∀ c ∈ rest.head?, c.isDigit = false) :
    afterDigits? (ds ++ rest) = some rest := by
  have hDrop : (ds ++ rest).dropWhile Char.isDigit = rest := by
    rw [List.dropWhile_append_of_pos hDigits.digit]
    cases rest with
    | nil => rfl
    | cons c rest =>
      apply List.dropWhile_cons_of_neg
      rw [hRest c rfl]
      exact Bool.false_ne_true
  have hShorter : rest.length < (ds ++ rest).length := by
    have := List.length_pos_iff.2 hDigits.filled
    rw [List.length_append]
    omega
  simp only [afterDigits?, hDrop, hShorter, if_true]

theorem IsWhole.after (hWhole : IsWhole ds) (hRest : ∀ c ∈ rest.head?, c.isDigit = false) :
    afterWhole? (ds ++ rest) = some rest := by
  obtain rfl | ⟨hDigits, hFirst⟩ := hWhole
  · show (if rest.head?.any Char.isDigit then none else some rest) = _
    rw [if_neg]
    rw [Option.any_eq_true]
    rintro ⟨c, hc, hDigit⟩
    rw [hRest c hc] at hDigit
    exact Bool.false_ne_true hDigit
  · cases ds with
    | nil => exact absurd rfl hDigits.filled
    | cons c ds =>
      have hZero : c ≠ '0' := fun h => hFirst (congrArg some h)
      rw [List.cons_append, afterWhole?]
      · exact afterDigits?_append hDigits hRest
      · rintro _ ⟨⟩
        exact hZero rfl

theorem IsFraction.after (hFraction : IsFraction cs)
    (hRest : ∀ c ∈ rest.head?, c.isDigit = false ∧ c ≠ '.') :
    afterFraction? (cs ++ rest) = some rest := by
  obtain rfl | ⟨ds, rfl, hDigits⟩ := hFraction
  · rw [List.nil_append, afterFraction?]
    rintro _ rfl
    exact (hRest '.' rfl).2 rfl
  · exact afterDigits?_append hDigits fun c hc => (hRest c hc).1

theorem IsPower.after (hPower : IsPower cs)
    (hRest : ∀ c ∈ rest.head?, c.isDigit = false ∧ c ≠ 'e' ∧ c ≠ 'E') :
    afterExponent? (cs ++ rest) = some rest := by
  obtain rfl | ⟨sign, ds, rfl, hSign, hDigits⟩ := hPower
  · cases rest with
    | nil => rfl
    | cons c rest =>
      obtain ⟨-, he, hE⟩ := hRest c rfl
      show (if c = 'e' ∨ c = 'E' then _ else some (c :: rest)) = _
      rw [if_neg (not_or.2 ⟨he, hE⟩)]
  · have hAfter := afterDigits?_append hDigits fun c hc => (hRest c hc).1
    obtain rfl | rfl := hSign
    · exact hAfter
    · exact hAfter

theorem Ends.plain (h : Ends rest) {c : Char} (hc : c ∈ rest.head?) :
    c.isDigit = false ∧ c ≠ '.' ∧ c ≠ 'e' ∧ c ≠ 'E' := by
  obtain rfl | rfl | rfl := h c hc <;> decide

theorem IsPower.head (hPower : IsPower cs) (hRest : Ends rest) :
    ∀ c ∈ (cs ++ rest).head?, c.isDigit = false ∧ c ≠ '.' := by
  obtain rfl | ⟨sign, ds, rfl, -⟩ := hPower
  · intro c hc
    exact ⟨(hRest.plain hc).1, (hRest.plain hc).2.1⟩
  · rintro c ⟨⟩
    decide

theorem IsFraction.head {power : List Char} (hFraction : IsFraction cs) (hPower : IsPower power)
    (hRest : Ends rest) : ∀ c ∈ (cs ++ (power ++ rest)).head?, c.isDigit = false := by
  obtain rfl | ⟨ds, rfl, -⟩ := hFraction
  · intro c hc
    exact (hPower.head hRest c hc).1
  · rintro c ⟨⟩
    decide

theorem IsUnsigned.head (h : IsUnsigned cs) : ∃ c rest, cs = c :: rest ∧ c.isDigit = true := by
  obtain ⟨rfl | ⟨hDigits, -⟩, -, -⟩ := h
  · exact ⟨'0', _, rfl, rfl⟩
  · obtain ⟨c, ds, rfl⟩ := List.exists_cons_of_ne_nil hDigits.filled
    exact ⟨c, _, rfl, hDigits.digit c List.mem_cons_self⟩

theorem IsUnsigned.after (h : IsUnsigned cs) (hRest : Ends rest) :
    ((afterWhole? (cs ++ rest)).bind afterFraction?).bind afterExponent? = some rest := by
  obtain ⟨hWhole, hFraction, hPower⟩ := h
  rw [List.append_assoc, List.append_assoc, hWhole.after (hFraction.head hPower hRest),
    Option.bind_some, hFraction.after (hPower.head hRest), Option.bind_some]
  exact hPower.after fun c hc => ⟨(hRest.plain hc).1, (hRest.plain hc).2.2⟩

theorem IsNumber.after (h : IsNumber cs) (hRest : Ends rest) :
    afterNumber? (cs ++ rest) = some rest := by
  cases h with
  | negative h => exact h.after hRest
  | positive h =>
    obtain ⟨c, tail, rfl, hDigit⟩ := h.head
    have hMinus : c ≠ '-' := by
      rintro rfl
      exact absurd hDigit (by decide)
    rw [afterNumber?]
    · exact h.after hRest
    · rintro _ ⟨⟩
      exact hMinus rfl

theorem IsNumber.head (h : IsNumber cs) :
    ∃ c rest, cs = c :: rest ∧ (c = '-' ∨ c.isDigit = true) := by
  cases h with
  | negative _ => exact ⟨'-', _, rfl, .inl rfl⟩
  | positive h =>
    obtain ⟨c, rest, hCons, hDigit⟩ := h.head
    exact ⟨c, rest, hCons, .inr hDigit⟩

/-! ### Written numbers -/

theorem isWhole_toDigits (n : Nat) : IsWhole (Nat.toDigits 10 n) := by
  obtain rfl | hPos := n.eq_zero_or_pos
  · exact .inl (Nat.toDigits_zero 10)
  · exact .inr ⟨.toDigits n, head?_toDigits hPos⟩

theorem IsWhole.fraction (hWhole : IsWhole ds) (hFraction : IsFraction cs) :
    IsUnsigned (ds ++ cs) := by
  have hPlain : IsUnsigned (ds ++ (cs ++ [])) := ⟨hWhole, hFraction, .inl rfl⟩
  rwa [List.append_nil] at hPlain

theorem isNumber_integer (n : Int) : IsNumber (toString n).toList := by
  have hDigits : IsUnsigned (Nat.toDigits 10 n.natAbs) := by
    rw [← List.append_nil (Nat.toDigits 10 n.natAbs)]
    exact (isWhole_toDigits n.natAbs).fraction (.inl rfl)
  rw [Text.toList_toString]
  split
  · exact .negative hDigits
  · exact .positive hDigits

theorem isDigit_zeros (n : Nat) : ∀ c ∈ Decimal.zeros n, c.isDigit = true := by
  intro c hc
  rw [List.eq_of_mem_replicate hc]
  decide

theorem IsDigits.append_of (h : IsDigits ds) (hMore : ∀ c ∈ cs, c.isDigit = true) :
    IsDigits (ds ++ cs) :=
  ⟨List.append_ne_nil_of_left_ne_nil h.filled cs, List.forall_mem_append.2 ⟨h.digit, hMore⟩⟩

theorem IsDigits.of_append (h : IsDigits ds) (hMore : ∀ c ∈ cs, c.isDigit = true) :
    IsDigits (cs ++ ds) :=
  ⟨List.append_ne_nil_of_right_ne_nil cs h.filled, List.forall_mem_append.2 ⟨hMore, h.digit⟩⟩

theorem IsDigits.of_subset (h : IsDigits ds) (hSub : cs ⊆ ds) (hFilled : cs ≠ []) : IsDigits cs :=
  ⟨hFilled, fun c hc => h.digit c (hSub hc)⟩

/-- A decimal is written as a number in either form. -/
theorem isUnsigned_positional {d : Decimal} (hPos : 0 < d.significand) :
    IsUnsigned (d.positional ['.', '0']) := by
  have hDigits : IsDigits d.digits := .toDigits _
  have hFirst : d.digits.head? ≠ some '0' := head?_toDigits hPos
  simp only [Decimal.positional]
  split
  · apply IsWhole.fraction (.inl rfl)
    exact .inr ⟨_, rfl, hDigits.of_append (isDigit_zeros _)⟩
  split
  · apply IsWhole.fraction
    · refine .inr ⟨hDigits.append_of (isDigit_zeros _), ?_⟩
      rwa [List.head?_append_of_ne_nil _ hDigits.filled]
    · exact .inr ⟨['0'], rfl, .toDigits 0⟩
  · rename_i hLong
    apply IsWhole.fraction
    · refine .inr ⟨hDigits.of_subset (List.take_subset _ _) ?_, ?_⟩
      · simp [hDigits.filled]
      · rwa [List.head?_take, if_neg (Nat.succ_ne_zero _)]
    · refine .inr ⟨_, rfl, hDigits.of_subset (List.drop_subset _ _) ?_⟩
      rw [ne_eq, List.drop_eq_nil_iff]
      exact hLong

theorem isUnsigned_scientific {d : Decimal} (hPos : 0 < d.significand) :
    IsUnsigned d.scientific := by
  have hDigits : IsDigits d.digits := .toDigits _
  have hFirst : d.digits.head? ≠ some '0' := head?_toDigits hPos
  have hPower : IsPower ('e' :: (if d.leading < 0 then '-' else '+') ::
      Nat.toDigits 10 d.leading.natAbs) := by
    refine .inr ⟨_, _, rfl, ?_, .toDigits _⟩
    split
    · exact .inr rfl
    · exact .inl rfl
  simp only [Decimal.scientific]
  -- The mantissa has a point if there is a second digit.
  cases hCons : d.digits with
  | nil => exact absurd hCons hDigits.filled
  | cons first others =>
    rw [hCons] at hDigits hFirst
    have hWhole : IsWhole [first] := by
      refine .inr ⟨hDigits.of_subset ?_ (List.cons_ne_nil _ _), hFirst⟩
      exact List.cons_subset_cons _ (List.nil_subset _)
    cases others with
    | nil => exact ⟨hWhole, .inl rfl, hPower⟩
    | cons second others =>
      have hOthers : IsDigits (second :: others) :=
        hDigits.of_subset (List.subset_cons_self _ _) (List.cons_ne_nil _ _)
      exact ⟨hWhole, .inr ⟨_, rfl, hOthers⟩, hPower⟩

theorem isNumber_real {x : Binary64} (hFinite : x.isFinite = true) :
    IsNumber (Json.realText x) := by
  have hZero : IsUnsigned ['0', '.', '0'] :=
    IsWhole.fraction (.inl rfl) (.inr ⟨['0'], rfl, .toDigits 0⟩)
  rw [Json.realText]
  split
  · split
    · exact .negative hZero
    · exact .positive hZero
  · rename_i hNonzero
    have hPos := Binary64.significand_shortest_pos Json.layout.tie hFinite
      (Bool.eq_false_iff.2 hNonzero)
    have hText : IsUnsigned (Json.layout.write (x.shortest Json.layout.tie)) := by
      rw [Decimal.Layout.write]
      split
      · exact isUnsigned_positional hPos
      · exact isUnsigned_scientific hPos
    simp only [Decimal.Layout.writeFinite]
    split
    · exact .negative hText
    · exact .positive hText

end Slideshow
