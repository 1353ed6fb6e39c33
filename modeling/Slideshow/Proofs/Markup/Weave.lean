import Slideshow.Markup.Render
import Slideshow.Proofs.Deck.Items
import Slideshow.Proofs.Markup.Escape

/-! The markup of a deck as the markup of its elements, in order, with wrapper texts before, between
and after them. The wrapper texts follow from the shape of the deck alone: which sections are
divided, how many elements each subsection has, and the class names of the wrappers. Escaping acts
on each of these texts by itself. -/

namespace Slideshow

open Markup

/-! ### Texts woven together -/

/-- The first piece, the first content, the second piece and so on. -/
def weave : List String → List String → String
  | piece :: pieces, content :: contents => piece ++ (content ++ weave pieces contents)
  | pieces, _ => String.join pieces

/-- Pieces followed by pieces: the last one of the former and the first one of the latter are one. -/
def glue : List String → List String → List String
  | [], others => others
  | [piece], other :: others => (piece ++ other) :: others
  | piece :: pieces, others => piece :: glue pieces others

/-- A text consists of contents with one piece more around and between them. -/
structure Woven (pieces contents : List String) (text : String) : Prop where
  length : pieces.length = contents.length + 1
  weave : weave pieces contents = text

theorem glue_cons {piece : String} {pieces others : List String} (h : pieces ≠ []) :
    glue (piece :: pieces) others = piece :: glue pieces others := by
  cases pieces with
  | nil => exact absurd rfl h
  | cons second pieces => cases others <;> rfl

namespace Woven

variable {pieces others contents more : List String} {text other : String}

theorem gap (content : String) : Woven ["", ""] [content] content := ⟨rfl, by simp [Slideshow.weave]⟩

theorem ofText (text : String) : Woven [text] [] text := ⟨rfl, by simp [Slideshow.weave]⟩

theorem append (h : Woven pieces contents text) (hMore : Woven others more other) :
    Woven (glue pieces others) (contents ++ more) (text ++ other) := by
  obtain ⟨hLength, rfl⟩ := h
  obtain ⟨hOthers, rfl⟩ := hMore
  induction contents generalizing pieces with
  | nil =>
    -- The only piece and the first one of the others become one.
    obtain ⟨piece, rfl⟩ := List.length_eq_one_iff.1 hLength
    obtain ⟨first, rest, rfl⟩ := List.exists_cons_of_length_eq_add_one hOthers
    refine ⟨by simpa [glue] using hOthers, ?_⟩
    cases more <;> simp [glue, Slideshow.weave, String.append_assoc]
  | cons content contents ih =>
    obtain ⟨piece, pieces, rfl⟩ := List.exists_cons_of_length_eq_add_one hLength
    simp only [List.length_cons, Nat.add_right_cancel_iff] at hLength
    obtain ⟨hGlued, hText⟩ := ih hLength
    rw [glue_cons (List.ne_nil_of_length_eq_add_one hLength)]
    refine ⟨by simpa using hGlued, ?_⟩
    rw [List.cons_append, Slideshow.weave, hText]
    simp [Slideshow.weave, String.append_assoc]

end Woven

/-! ### Wrappers -/

/-- The start tag of a section. -/
def openingTag (classes : List String) : String :=
  "<" ++ sectionTag ++ " class=\"" ++ " ".intercalate classes ++ "\"" ++ ">"

def closingTag : String := "</" ++ sectionTag ++ ">"

/-- Pieces inside a section with the given class names. -/
def enclosed (classes : List String) (pieces : List String) : List String :=
  glue [openingTag classes] (glue pieces [closingTag])

/-- The pieces of several parts on lines of their own. -/
def stacked : List (List String) → List String
  | [] => [""]
  | [pieces] => pieces
  | pieces :: second :: rest => glue pieces (glue ["\n"] (stacked (second :: rest)))

/-- What the wrapper of a subsection depends on. -/
structure SubsectionShape where
  classes : List String
  size : Nat

/-- What the wrappers of a section depend on. -/
inductive SectionShape
  | flat (content : SubsectionShape)
  | divided (classes : List String) (parts : List SubsectionShape)

def SubsectionShape.pieces (s : SubsectionShape) : List String :=
  enclosed s.classes (stacked (List.replicate s.size ["", ""]))

def SectionShape.pieces : SectionShape → List String
  | flat content => enclosed [] content.pieces
  | divided classes parts => enclosed classes (stacked (parts.map (·.pieces)))

/-- The texts around and between the elements of sections. -/
def piecesOf (sections : List SectionShape) : List String := stacked (sections.map (·.pieces))

/-- The class names of a subsection, which are those of its first marker, and how many elements it
has. -/
def Subsection.shape (s : Subsection) : SubsectionShape :=
  ⟨classesOf s.decoration?, s.elements.length⟩

def Section.shape : Section → SectionShape
  | flat content => .flat content.shape
  | divided d parts => .divided (classesOf d) (parts.map (·.2.shape))

def Deck.shape (d : Deck) : List SectionShape := d.sections.map (·.2.shape)

/-! ### Decks -/

namespace Woven

variable {pieces contents : List String} {text : String}

theorem enclosed (classes : List String) (h : Woven pieces contents text) :
    Woven (enclosed classes pieces) contents (wrap text sectionTag classes []) := by
  have hAll := (ofText (openingTag classes)).append (h.append (ofText closingTag))
  have hText : wrap text sectionTag classes [] = openingTag classes ++ (text ++ closingTag) := by
    simp only [wrap, openingTag, closingTag, List.map_nil, String.join_nil, String.append_assoc,
      String.empty_append]
  rw [List.nil_append, List.append_nil] at hAll
  rw [hText]
  exact hAll

/-- Parts on lines of their own, each of which is woven. -/
theorem stacked {α : Type} {pieces contents : α → List String} {text : α → String} {parts : List α}
    (h : ∀ part ∈ parts, Woven (pieces part) (contents part) (text part)) :
    Woven (stacked (parts.map pieces)) (parts.flatMap contents) (lines (parts.map text)) := by
  induction parts with
  | nil => exact ofText ""
  | cons part parts ih =>
    have ⟨hHead, hTail⟩ := List.forall_mem_cons.1 h
    cases parts with
    | nil => simpa [Slideshow.stacked, lines] using hHead
    | cons second rest =>
      have hAll := hHead.append ((ofText "\n").append (ih hTail))
      simpa [Slideshow.stacked, lines, String.append_assoc] using hAll

end Woven

theorem Subsection.woven (rules : RuleSet) (s : Subsection) :
    Woven s.shape.pieces (s.elements.map (·.render rules)) (s.render rules) := by
  have hElements : Woven (stacked (s.elements.map fun _ => ["", ""]))
      (s.elements.flatMap fun e => [e.render rules]) (lines (s.elements.map (·.render rules))) :=
    .stacked fun e _ => .gap (e.render rules)
  rw [List.map_const', ← List.map_eq_flatMap] at hElements
  exact hElements.enclosed (classesOf s.decoration?)

theorem Section.woven (rules : RuleSet) (s : Section) :
    Woven s.shape.pieces (s.elements.map (·.render rules)) (s.render rules) := by
  cases s with
  | flat content => exact (content.woven rules).enclosed []
  | divided d parts =>
    have hParts : Woven (stacked (parts.map (·.2.shape.pieces)))
        (parts.flatMap fun part => part.2.elements.map (·.render rules))
        (lines (parts.map (·.2.render rules))) :=
      .stacked fun part _ => part.2.woven rules
    rw [← List.map_flatMap] at hParts
    simpa [shape, SectionShape.pieces, elements, render, List.map_map, Function.comp_def] using
      hParts.enclosed (classesOf d)

theorem Deck.woven (rules : RuleSet) (d : Deck) :
    Woven (piecesOf d.shape) (d.elements.map (·.render rules)) (d.render rules) := by
  have hSections : Woven (stacked (d.sections.map (·.2.shape.pieces)))
      (d.sections.flatMap fun part => part.2.elements.map (·.render rules)) (d.render rules) :=
    .stacked fun part _ => part.2.woven rules
  rw [← List.map_flatMap] at hSections
  simpa [piecesOf, shape, elements, List.map_map, Function.comp_def] using hSections

/-! ### Escaping -/

theorem Markup.escape_append (a b : String) : escape (a ++ b) = escape a ++ escape b := by
  rw [escape, String.toList_append, escapeChars_append, String.ofList_append]
  rfl

theorem Markup.escape_join (texts : List String) :
    escape (String.join texts) = String.join (texts.map escape) := by
  induction texts with
  | nil => rfl
  | cons text texts ih => rw [String.join_cons, escape_append, ih, List.map_cons, String.join_cons]

theorem Markup.escape_weave (pieces contents : List String) :
    escape (weave pieces contents) = weave (pieces.map escape) (contents.map escape) := by
  induction contents generalizing pieces with
  | nil => cases pieces <;> simp only [weave, List.map_nil, List.map_cons, escape_join]
  | cons content contents ih =>
    cases pieces with
    | nil => rfl
    | cons piece pieces => simp only [weave, List.map_cons, escape_append, ih]

/-- The markup of a deck is that of its elements, once each and in order, woven with texts that
follow from the shape of the deck, and escaped markup is the same with each text escaped. -/
theorem Deck.render_eq_weave (rules : RuleSet) (d : Deck) :
    (piecesOf d.shape).length = d.elements.length + 1 ∧
    d.render rules = weave (piecesOf d.shape) (d.elements.map (·.render rules)) ∧
    d.compile rules =
      weave ((piecesOf d.shape).map escape) (d.elements.map fun e => escape (e.render rules)) := by
  have hWoven := d.woven rules
  have hLength := hWoven.length
  rw [List.length_map] at hLength
  refine ⟨hLength, hWoven.weave.symm, ?_⟩
  rw [Deck.compile, ← hWoven.weave, escape_weave, List.map_map]
  rfl

/-- The two elements of a flat section are a line each. -/
example : piecesOf [.flat ⟨["dark"], 2⟩] =
    ["<section class=\"\"><section class=\"dark\">", "\n", "</section></section>"] := by decide

end Slideshow
