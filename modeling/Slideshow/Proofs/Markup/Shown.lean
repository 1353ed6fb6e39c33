import Slideshow.Markup.Render
import Slideshow.Proofs.Deck.Load

/-! What markup shows. The class names and the content of a wrapper stand in it as they are, and so
does every element in the markup of its deck. -/

namespace Slideshow

open Markup

/-- A text stands somewhere in another. -/
def Shown (part whole : String) : Prop := part.toList <:+: whole.toList

variable {a b c : String}

theorem Shown.refl (a : String) : Shown a a := List.infix_rfl

theorem Shown.trans (hab : Shown a b) (hbc : Shown b c) : Shown a c := List.IsInfix.trans hab hbc

theorem Shown.behind (h : Shown a b) (before : String) : Shown a (before ++ b) := by
  rw [Shown, String.toList_append]
  exact List.infix_append_of_infix_right h

theorem Shown.before (h : Shown a b) (after : String) : Shown a (b ++ after) := by
  rw [Shown, String.toList_append]
  exact List.infix_append_of_infix_left h

theorem shown_intercalate {separator : String} {texts : List String} (h : a ∈ texts) :
    Shown a (separator.intercalate texts) := by
  rw [Shown, String.toList_intercalate, List.intercalate]
  refine List.infix_of_mem_flatten ?_
  induction texts with
  | nil => exact absurd h List.not_mem_nil
  | cons first rest ih =>
    cases rest with
    | nil =>
      rw [List.mem_singleton.1 h]
      exact List.mem_cons_self
    | cons second rest =>
      obtain rfl | h := List.mem_cons.1 h
      · exact List.mem_cons_self
      · exact List.mem_cons_of_mem _ (List.mem_cons_of_mem _ (ih h))

theorem shown_lines {texts : List String} (h : a ∈ texts) : Shown a (lines texts) :=
  shown_intercalate h

/-! ### Wrappers -/

variable {content tag : String} {classes : List String} {attributes : List (String × String)}

theorem shown_wrap_content : Shown content (wrap content tag classes attributes) := by
  rw [wrap]
  exact ((((Shown.refl content).behind _).before _).before _).before _

theorem shown_wrap_class (h : a ∈ classes) : Shown a (wrap content tag classes attributes) := by
  have hClasses : Shown a (" ".intercalate classes) := shown_intercalate h
  rw [wrap]
  exact (((((((hClasses.behind _).before _).before _).before _).before _).before _).before _).before _

/-! ### Decks -/

variable {rules : RuleSet} {d : Deck} {s : Subsection} {e : Element} {place name : String}

theorem Subsection.shown_element (he : e ∈ s.elements) : Shown (e.render rules) (s.render rules) :=
  (shown_lines (List.mem_map_of_mem he)).trans shown_wrap_content

theorem Deck.shown_section {body : Section} (rules : RuleSet) (h : (name, body) ∈ d.sections) :
    Shown (body.render rules) (d.render rules) :=
  shown_lines (List.mem_map.2 ⟨_, h, rfl⟩)

/-- The markup of every subsection stands in that of its deck. -/
theorem Deck.SubsectionAt.shown (hs : d.SubsectionAt place s) :
    Shown (s.render rules) (d.render rules) := by
  cases hs with
  | flat h =>
    have hSection := Deck.shown_section rules h
    rw [Section.render] at hSection
    exact shown_wrap_content.trans hSection
  | @part name sub decoration parts s h hPart =>
    have hSection := Deck.shown_section rules h
    rw [Section.render] at hSection
    have hMem : s.render rules ∈ parts.map fun part => part.2.render rules :=
      List.mem_map.2 ⟨_, hPart, rfl⟩
    exact ((shown_lines hMem).trans shown_wrap_content).trans hSection

end Slideshow
