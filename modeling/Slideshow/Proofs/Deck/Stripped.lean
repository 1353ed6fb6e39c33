import Slideshow.Diagnostic
import Slideshow.Markup.Render

/-! Decks without what no output shows: styles, names, and the values of unrecognized elements. Their
markup is that of the full decks, and so is what is said about them but for the styles and places. -/

namespace Slideshow

open Markup

/-! ### Stripping -/

def Decoration.stripped (d : Decoration) : Decoration := ⟨d.classes, none⟩

def Element.stripped : Element → Element
  | scalar shown => scalar shown
  | marker d => marker d.stripped
  | text tag content d => text tag content d.stripped
  | image source d => image source d.stripped
  | list entries skipped d => list entries skipped d.stripped
  | custom tag v => custom tag v
  | unrecognized _ => unrecognized .null

def Subsection.stripped (s : Subsection) : Subsection := ⟨s.elements.map (·.stripped)⟩

def Section.stripped : Section → Section
  | flat content => flat content.stripped
  | divided d parts => divided (d.map (·.stripped)) (parts.map fun part => ("", part.2.stripped))

def Deck.stripped (d : Deck) : Deck := ⟨d.sections.map fun part => ("", part.2.stripped)⟩

/-! ### Markup -/

variable {rules : RuleSet}

theorem classesOf_stripped (d : Option Decoration) :
    classesOf (d.map (·.stripped)) = classesOf d := by
  cases d <;> rfl

@[simp] theorem Element.render_stripped (e : Element) : e.stripped.render rules = e.render rules := by
  cases e <;> rfl

@[simp] theorem Element.marker?_stripped (e : Element) :
    e.stripped.marker? = e.marker?.map (·.stripped) := by
  cases e <;> rfl

theorem Subsection.decoration?_stripped (s : Subsection) :
    s.stripped.decoration? = s.decoration?.map (·.stripped) := by
  simp [decoration?, stripped, List.findSome?_map, List.map_findSome?, Function.comp_def]

theorem Subsection.render_stripped (s : Subsection) : s.stripped.render rules = s.render rules := by
  rw [render, render, decoration?_stripped, classesOf_stripped]
  simp [stripped, Function.comp_def]

theorem Section.render_stripped (s : Section) : s.stripped.render rules = s.render rules := by
  cases s with
  | flat content => rw [stripped, render, render, Subsection.render_stripped]
  | divided d parts =>
    rw [stripped, render, render, classesOf_stripped]
    simp [Function.comp_def, Subsection.render_stripped]

theorem Deck.render_stripped (d : Deck) : d.stripped.render rules = d.render rules := by
  simp [render, stripped, Function.comp_def, Section.render_stripped]

/-! ### Diagnostics -/

/-- What diagnostics say but for unused styles, wherever they say it. -/
def seen (ds : List Diagnostic) : List Finding :=
  (ds.filter (·.finding.code != "D004")).map (·.finding)

theorem seen_append (ds ds' : List Diagnostic) : seen (ds ++ ds') = seen ds ++ seen ds' := by
  simp [seen]

theorem seen_at (place : String) (fs : List Finding) :
    seen (fs.map (Diagnostic.mk place)) = fs.filter (·.code != "D004") := by
  simp [seen, List.filter_map, Function.comp_def]

theorem seen_flatMap {α : Type} (f : α → List Diagnostic) (as : List α) :
    seen (as.flatMap f) = as.flatMap fun a => seen (f a) := by
  simp [seen, List.filter_flatMap, List.map_flatMap]

theorem Decoration.filter_findings (d : Decoration) :
    d.findings.filter (·.code != "D004") = [] := by
  rw [findings]
  split <;> simp [Finding.code]

theorem Element.losses_stripped (k m : Nat) (e : Element) :
    e.stripped.losses rules k m = (e.losses rules k m).filter (·.code != "D004") := by
  cases e with
  | marker d => by_cases hOne : m = 1 <;> simp [stripped, losses, Finding.code, hOne]
  | custom tag v => cases h : rules.contains tag <;> simp [stripped, losses, Finding.code, h]
  | list entries skipped d => by_cases h : 0 < skipped <;> simp [stripped, losses, Finding.code, h]
  | _ => simp [stripped, losses, Finding.code]

@[simp] theorem Decoration.findings_stripped (d : Decoration) : d.stripped.findings = [] := rfl

theorem Element.decoration?_stripped (e : Element) :
    e.stripped.decoration? = e.decoration?.map (·.stripped) := by
  cases e <;> rfl

theorem elementFindings_stripped (k m : Nat) (es : List Element) :
    elementFindings rules k m (es.map (·.stripped)) =
      (elementFindings rules k m es).filter (·.code != "D004") := by
  induction es generalizing k m with
  | nil => rfl
  | cons e es ih =>
    rw [List.map_cons, elementFindings, elementFindings, List.filter_append, List.filter_append, ih,
      Element.losses_stripped, Element.marker?_stripped, Element.decoration?_stripped,
      Option.isSome_map]
    congr 2
    cases e.decoration? with
    | none => rfl
    | some d => exact d.filter_findings.symm

theorem Subsection.findings_stripped (s : Subsection) :
    s.stripped.findings rules = (s.findings rules).filter (·.code != "D004") := by
  rw [findings, findings, stripped, elementFindings_stripped, List.filter_append, List.isEmpty_map]
  congr 1
  split <;> simp [Finding.code]

theorem Subsection.seen_diagnostics_stripped (place other : String) (s : Subsection) :
    seen (s.stripped.diagnostics rules other) = seen (s.diagnostics rules place) := by
  rw [diagnostics, diagnostics, seen_at, seen_at, findings_stripped]
  simp

theorem Section.seen_diagnostics_stripped (place other : String) (s : Section) :
    seen (s.stripped.diagnostics rules other) = seen (s.diagnostics rules place) := by
  cases s with
  | flat content => exact content.seen_diagnostics_stripped place other
  | divided d parts =>
    have hParts (part : String × Subsection) :
        seen (part.2.stripped.diagnostics rules (other ++ "." ++ "")) =
          seen (part.2.diagnostics rules (place ++ "." ++ part.1)) :=
      part.2.seen_diagnostics_stripped _ _
    rw [stripped]
    cases d <;>
      simp only [diagnostics, seen_append, seen_at, seen_flatMap, List.flatMap_map, hParts,
        Option.map_none, Option.map_some, List.filter_append, Decoration.filter_findings,
        Decoration.findings_stripped, List.filter_nil, List.isEmpty_map]

/-- A deck and the deck without what no output shows are told the same, unused styles apart. -/
theorem Deck.seen_diagnostics_stripped (d : Deck) :
    seen (d.stripped.diagnostics rules) = seen (d.diagnostics rules) := by
  rw [stripped, diagnostics, diagnostics, seen_flatMap, seen_flatMap, List.flatMap_map]
  congr 1
  funext part
  exact part.2.seen_diagnostics_stripped _ _

end Slideshow
