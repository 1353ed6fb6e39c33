import Mathlib.Data.String.Basic
import Slideshow.Proofs.Text.Occurrence

/-! Parts of texts by offsets in bytes. A part starts and ends between two characters, so that offsets
beyond the end of a text, and offsets inside a character, give no part. -/

namespace Slideshow.Text

open String (utf8Len)

/-- The part of a text from one offset to another, if they are in order and in bounds and neither is
inside a character. -/
def slice? (text : String) (start stop : Nat) : Option String :=
  if start ≤ stop ∧ String.Pos.Raw.IsValid text ⟨start⟩ ∧ String.Pos.Raw.IsValid text ⟨stop⟩ then
    some (String.Pos.Raw.extract text ⟨start⟩ ⟨stop⟩)
  else none

/-- The part of a text from an offset to its end. -/
def sliceFrom? (text : String) (start : Nat) : Option String := slice? text start text.utf8ByteSize

/-- The offset of the first occurrence of a character. -/
def offset? (c : Char) (text : String) : Option Nat :=
  if c ∈ text.toList then some (utf8Len (text.toList.takeWhile (· ≠ c))) else none

variable {c : Char}

theorem isValid_utf8Len (cs ds : List Char) :
    String.Pos.Raw.IsValid (String.ofList (cs ++ ds)) ⟨utf8Len cs⟩ := by
  rw [String.ofList_append, String.Pos.Raw.isValid_iff_exists_append]
  refine ⟨_, _, rfl, ?_⟩
  rw [String.Pos.Raw.ext_iff, String.byteIdx_rawEndPos, String.utf8ByteSize_ofList]

/-- The part between two others is found by their sizes. -/
theorem slice?_ofList (before part after : List Char) :
    slice? (String.ofList (before ++ part ++ after)) (utf8Len before)
      (utf8Len before + utf8Len part) = some (String.ofList part) := by
  have hStart := isValid_utf8Len before (part ++ after)
  have hStop := isValid_utf8Len (before ++ part) after
  rw [← List.append_assoc] at hStart
  rw [String.utf8Len_append] at hStop
  rw [slice?, if_pos ⟨Nat.le_add_right _ _, hStart, hStop⟩, String.extract_of_valid]

theorem sliceFrom?_ofList (before part : List Char) :
    sliceFrom? (String.ofList (before ++ part)) (utf8Len before) = some (String.ofList part) := by
  have hPart := slice?_ofList before part []
  rw [List.append_nil] at hPart
  rw [sliceFrom?, String.utf8ByteSize_ofList, String.utf8Len_append, hPart]

theorem offset?_of_mem {cs : List Char} (rest : List Char) (h : c ∉ cs) :
    offset? c (String.ofList (cs ++ c :: rest)) = some (utf8Len cs) := by
  rw [offset?, String.toList_ofList, if_pos (by simp), takeWhile_ne h]

theorem offset?_of_not_mem {cs : List Char} (h : c ∉ cs) : offset? c (String.ofList cs) = none := by
  rw [offset?, String.toList_ofList, if_neg h]

end Slideshow.Text
