import Mathlib.Data.String.Basic
import Mathlib.Tactic.SplitIfs

/-! The bytes of texts. UTF-8 writes a character as a first byte and bytes of six bits each, so that
characters, and with them texts, are in the order of their bytes. -/

namespace Slideshow

/-- The bytes of a text in UTF-8. -/
def bytes (text : String) : List UInt8 := text.toUTF8.data.toList

theorem bytes_eq_flatMap (text : String) :
    bytes text = text.toList.flatMap String.utf8EncodeChar := by
  obtain ⟨cs, rfl⟩ : ∃ cs, text = String.ofList cs := ⟨text.toList, String.ofList_toList.symm⟩
  rw [bytes, String.toUTF8_eq_toByteArray, String.toByteArray_ofList, List.utf8Encode,
    List.toList_data_toByteArray, String.toList_ofList]

/-! ### One character -/

/-- What is written for numbers below a bound is in their order, whatever follows. -/
def Ascending (bound : Nat) (written : Nat → List UInt8) : Prop :=
  ∀ v w, v < w → w < bound → ∀ x y, written v ++ x < written w ++ y

theorem cons_byte_lt {m n : Nat} (h : m < n) (hn : n < 256) (x y : List UInt8) :
    UInt8.ofNat m :: x < UInt8.ofNat n :: y := by
  refine List.cons_lt_cons_iff.2 (.inl ?_)
  rw [UInt8.lt_iff_toNat_lt, UInt8.toNat_ofNat', UInt8.toNat_ofNat']
  omega

theorem ascending_first (count start : Nat) (h : start + count ≤ 256) :
    Ascending count fun v => [UInt8.ofNat (v % count + start)] := by
  intro v w hLess hBound x y
  refine cons_byte_lt ?_ ?_ x y
  · rw [Nat.mod_eq_of_lt (hLess.trans hBound), Nat.mod_eq_of_lt hBound]
    omega
  · rw [Nat.mod_eq_of_lt hBound]
    omega

/-- A byte for six bits more keeps the order. -/
theorem Ascending.continued {bound : Nat} {written : Nat → List UInt8}
    (h : Ascending bound written) :
    Ascending (64 * bound) fun v => written (v / 64) ++ [UInt8.ofNat (v % 64 + 128)] := by
  intro v w hLess hBound x y
  rw [List.append_assoc, List.append_assoc]
  obtain hDiv | hDiv : v / 64 < w / 64 ∨ v / 64 = w / 64 := by omega
  · exact h _ _ hDiv (by omega) _ _
  · rw [hDiv]
    exact List.append_left_lt (cons_byte_lt (by omega) (by omega) x y)

theorem ascending_two : Ascending 2048 fun v =>
    [UInt8.ofNat (v / 64 % 32 + 192), UInt8.ofNat (v % 64 + 128)] :=
  (ascending_first 32 192 (by decide)).continued

theorem ascending_three : Ascending 65536 fun v =>
    [UInt8.ofNat (v / 4096 % 16 + 224), UInt8.ofNat (v / 64 % 64 + 128),
      UInt8.ofNat (v % 64 + 128)] := by
  simpa [Nat.div_div_eq_div_mul] using (ascending_first 16 224 (by decide)).continued.continued

theorem ascending_four : Ascending 2097152 fun v =>
    [UInt8.ofNat (v / 262144 % 8 + 240), UInt8.ofNat (v / 4096 % 64 + 128),
      UInt8.ofNat (v / 64 % 64 + 128), UInt8.ofNat (v % 64 + 128)] := by
  simpa [Nat.div_div_eq_div_mul] using
    (ascending_first 8 240 (by decide)).continued.continued.continued

theorem utf8EncodeChar_lt {c d : Char} (h : c < d) (x y : List UInt8) :
    String.utf8EncodeChar c ++ x < String.utf8EncodeChar d ++ y := by
  have hLess : c.val.toNat < d.val.toNat := h
  have hBound : d.val.toNat < 0x110000 := by
    obtain h | h := d.valid <;> omega
  simp only [String.utf8EncodeChar]
  generalize c.val.toNat = v at *
  generalize d.val.toNat = w at *
  -- As many bytes are in the order of the numbers, and fewer have a smaller first byte.
  by_cases hOne : v ≤ 0x7f
  · rw [if_pos hOne]
    split_ifs <;> exact cons_byte_lt (by omega) (by omega) _ _
  rw [if_neg hOne, if_neg (show ¬ w ≤ 0x7f by omega)]
  by_cases hTwo : v ≤ 0x7ff
  · rw [if_pos hTwo]
    by_cases hSame : w ≤ 0x7ff
    · rw [if_pos hSame]
      exact ascending_two v w hLess (by omega) x y
    · rw [if_neg hSame]
      split_ifs <;> exact cons_byte_lt (by omega) (by omega) _ _
  rw [if_neg hTwo, if_neg (show ¬ w ≤ 0x7ff by omega)]
  by_cases hThree : v ≤ 0xffff
  · rw [if_pos hThree]
    by_cases hSame : w ≤ 0xffff
    · rw [if_pos hSame]
      exact ascending_three v w hLess (by omega) x y
    · rw [if_neg hSame]
      exact cons_byte_lt (by omega) (by omega) _ _
  rw [if_neg hThree, if_neg (show ¬ w ≤ 0xffff by omega)]
  exact ascending_four v w hLess (by omega) x y

/-! ### Texts -/

theorem bytes_lt {a b : String} (h : a < b) : bytes a < bytes b := by
  rw [String.lt_iff_toList_lt] at h
  rw [bytes_eq_flatMap, bytes_eq_flatMap]
  generalize a.toList = cs at h ⊢
  generalize b.toList = ds at h ⊢
  induction cs generalizing ds with
  | nil =>
    cases ds with
    | nil => exact absurd h (List.lt_irrefl _)
    | cons d ds =>
      obtain ⟨first, rest, hFirst⟩ :=
        List.exists_cons_of_ne_nil (String.utf8EncodeChar_ne_nil (c := d))
      rw [List.flatMap_cons, hFirst]
      exact List.nil_lt_cons _ _
  | cons c cs ih =>
    cases ds with
    | nil => exact absurd h (List.not_lt_nil _)
    | cons d ds =>
      rw [List.flatMap_cons, List.flatMap_cons]
      obtain hFirst | ⟨rfl, hRest⟩ := List.cons_lt_cons_iff.1 h
      · exact utf8EncodeChar_lt hFirst _ _
      · exact List.append_left_lt (ih _ hRest)

end Slideshow
