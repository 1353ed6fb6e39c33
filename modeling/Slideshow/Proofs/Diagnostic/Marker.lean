import Mathlib.Data.List.Basic
import Slideshow.Proofs.Diagnostic

/-! The markers of a subsection. The wrapper has the class names of the first one, and if there is a
second one, it alone is reported as one too many; all others change nothing. -/

namespace Slideshow

open Yaml (Value Mapping)
open Markup

variable {rules : RuleSet} {e : Element} {es : List Element} {d : Decoration} {i k : Nat}

/-! ### Markers and their indices -/

theorem Element.marker?_eq_some : e.marker? = some d ↔ e = .marker d := by
  cases e <;> simp [marker?]

/-- A mapping of type `config` is a marker, whatever else is in it. -/
theorem Element.ofValue_config {m : Mapping} (h : m.field? "type" = some (.string configName)) :
    Element.ofValue (.mapping m) = .marker (.ofMapping m) := by
  simp [ofValue, h, ofTyped]

/-- The markers among elements that are counted from an index on, each with its index. -/
def markersFrom (k : Nat) (es : List Element) : List (Nat × Decoration) :=
  (es.zipIdx k).filterMap fun e => e.1.marker?.map (e.2, ·)

/-- The markers of a subsection, each with its index. -/
def Subsection.markers (s : Subsection) : List (Nat × Decoration) := markersFrom 0 s.elements

theorem markersFrom_cons (k : Nat) (e : Element) (es : List Element) :
    markersFrom k (e :: es) = (e.marker?.map (k, ·)).toList ++ markersFrom (k + 1) es := by
  cases h : e.marker? <;> simp [markersFrom, h]

theorem mem_markersFrom : (i, d) ∈ markersFrom k es ↔ k ≤ i ∧ es[i - k]? = some (.marker d) := by
  simp only [markersFrom, List.mem_filterMap, Prod.exists, Option.map_eq_some_iff, Prod.mk.injEq,
    List.mk_mem_zipIdx_iff_le_and_getElem?_sub]
  constructor
  · rintro ⟨e, _, ⟨hk, he⟩, _, hMarker, rfl, rfl⟩
    exact ⟨hk, Element.marker?_eq_some.1 hMarker ▸ he⟩
  · rintro ⟨hk, he⟩
    exact ⟨.marker d, i, ⟨hk, he⟩, d, rfl, rfl, rfl⟩

theorem Subsection.mem_markers {s : Subsection} :
    (i, d) ∈ s.markers ↔ s.elements[i]? = some (.marker d) := by
  simp [markers, mem_markersFrom]

/-- Markers are in the order of their elements. -/
theorem markersFrom_sorted (k : Nat) (es : List Element) :
    (markersFrom k es).Pairwise fun a b => a.1 < b.1 := by
  induction es generalizing k with
  | nil => exact .nil
  | cons e es ih =>
    rw [markersFrom_cons]
    cases e.marker? with
    | none => exact ih (k + 1)
    | some d => exact .cons (fun later hLater => (mem_markersFrom.1 hLater).1) (ih (k + 1))

/-- In front of every marker but the first there is another one. -/
theorem exists_earlier (h : (i, d) ∈ (markersFrom k es).drop 1) :
    ∃ j first, j < i ∧ (j, first) ∈ markersFrom k es := by
  induction es generalizing k with
  | nil => simp [markersFrom] at h
  | cons e es ih =>
    rw [markersFrom_cons] at h ⊢
    cases hMarker : e.marker? with
    | none =>
      rw [hMarker] at h
      exact ih h
    | some first =>
      rw [hMarker] at h
      have hLater : k + 1 ≤ i := (mem_markersFrom.1 h).1
      exact ⟨k, first, hLater, List.mem_cons_self⟩

/-! ### The wrapper -/

theorem findSome?_marker_eq (k : Nat) (es : List Element) :
    es.findSome? (·.marker?) = (markersFrom k es).head?.map (·.2) := by
  induction es generalizing k with
  | nil => rfl
  | cons e es ih =>
    rw [List.findSome?_cons, markersFrom_cons]
    cases e.marker? with
    | none => exact ih (k + 1)
    | some d => rfl

theorem Subsection.decoration?_eq (s : Subsection) : s.decoration? = s.markers.head?.map (·.2) :=
  findSome?_marker_eq 0 s.elements

/-- What is found first in a list is found as well with something else behind it. -/
theorem findSome?_set {α β : Type} {f : α → Option β} {l : List α} {j : Nat} {a : α} (x : α)
    (hj : j < i) (ha : l[j]? = some a) (hFound : (f a).isSome) :
    (l.set i x).findSome? f = l.findSome? f := by
  induction l generalizing i j with
  | nil => rfl
  | cons first l ih =>
    obtain ⟨i, rfl⟩ := Nat.exists_eq_succ_of_ne_zero (Nat.ne_of_gt (Nat.zero_lt_of_lt hj))
    rw [List.set_cons_succ, List.findSome?_cons, List.findSome?_cons]
    cases hFirst : f first with
    | some b => rfl
    | none =>
      cases j with
      | zero =>
        cases ha
        rw [hFirst] at hFound
        cases hFound
      | succ j => exact ih (by omega) ha

theorem wrap_section (content : String) (classes : List String) :
    wrap content sectionTag classes [] =
      "<section class=\"" ++ " ".intercalate classes ++ "\">" ++ content ++ "</section>" := by
  rw [← String.toList_inj]
  simp [wrap, sectionTag]

theorem Subsection.render_ofItems (rules : RuleSet) (items : List Value) :
    (ofItems items).render rules =
      "<section class=\"" ++
        " ".intercalate ((ofItems items).markers.head?.elim [] (·.2.classes)) ++ "\">" ++
        "\n".intercalate (items.map fun v => (Element.ofValue v).render rules) ++ "</section>" := by
  have hClasses : classesOf (ofItems items).decoration? =
      (ofItems items).markers.head?.elim [] (·.2.classes) := by
    rw [decoration?_eq]
    cases (ofItems items).markers.head? <;> rfl
  rw [render, wrap_section, hClasses, lines, ofItems, List.map_map]
  rfl

/-- A subsection that has one marker more in the place of another than the first looks the same. -/
theorem Subsection.render_set_marker {s : Subsection} (h : (i, d) ∈ s.markers.drop 1)
    (other : Decoration) :
    Subsection.render rules ⟨s.elements.set i (.marker other)⟩ = s.render rules := by
  obtain ⟨j, first, hj, hFirst⟩ := exists_earlier h
  have hHere := mem_markers.1 (List.mem_of_mem_drop h)
  have hDecoration : Subsection.decoration? ⟨s.elements.set i (.marker other)⟩ = s.decoration? :=
    findSome?_set _ hj (mem_markers.1 hFirst) rfl
  have hLines : (s.elements.set i (.marker other)).map (·.render rules) =
      s.elements.map (·.render rules) := by
    obtain ⟨hLength, hHere⟩ := List.getElem?_eq_some_iff.1 hHere
    -- Both markers are empty lines.
    have hLines : i < (s.elements.map (·.render rules)).length := by rwa [List.length_map]
    have hLine : Element.render rules (.marker other) = (s.elements.map (·.render rules))[i] := by
      rw [List.getElem_map, hHere]
      rfl
    rw [List.map_set, hLine, List.set_getElem_self]
  rw [render, render, hDecoration, hLines]

/-! ### The finding -/

theorem Finding.eq_secondMarker {f : Finding} (h : f.code = "D003") : ∃ i, f = .secondMarker i := by
  cases f <;> simp_all [code]

theorem Element.filter_losses (rules : RuleSet) (k m : Nat) (e : Element) :
    (e.losses rules k m).filter (·.code == "D003") =
      if e.marker?.isSome ∧ m = 1 then [.secondMarker k] else [] := by
  cases e with
  | marker d => by_cases hOne : m = 1 <;> simp [losses, marker?, Finding.code, hOne]
  | custom tag v => cases h : rules.contains tag <;> simp [losses, marker?, Finding.code, h]
  | list entries skipped d => by_cases h : 0 < skipped <;> simp [losses, marker?, Finding.code, h]
  | _ => simp [losses, marker?, Finding.code]

/-- Of all findings on elements, one or none says that there is a second marker: that on the marker in
front of which there is just one. -/
theorem filter_elementFindings_marker (rules : RuleSet) (k m : Nat) (es : List Element) :
    (elementFindings rules k m es).filter (·.code == "D003") =
      if 1 < m then [] else
        ((markersFrom k es)[1 - m]?).toList.map fun marker => .secondMarker marker.1 := by
  induction es generalizing k m with
  | nil => simp [elementFindings, markersFrom]
  | cons e es ih =>
    obtain ⟨own, hOwn, hCons⟩ := elementFindings_cons rules k m e es
    have hNone : own.filter (·.code == "D003") = [] := by
      rw [List.filter_eq_nil_iff]
      intro f hf hCode
      obtain ⟨i, rfl⟩ := Finding.eq_secondMarker (beq_iff_eq.1 hCode)
      cases hOwn _ hf
    rw [hCons, List.filter_append, List.filter_append, hNone, List.nil_append, ih, markersFrom_cons,
      Element.filter_losses]
    cases hMarker : e.marker? with
    | none => simp
    | some d =>
      -- This marker is the first one, the second one, or a later one.
      obtain rfl | rfl | hm : m = 0 ∨ m = 1 ∨ 1 < m := by omega
      · simp
      · simp
      · have hNext : 1 < m + 1 := by omega
        have hOther : m ≠ 1 := by omega
        simp [hm, hNext, hOther]

theorem Subsection.filter_diagnostics_marker (rules : RuleSet) (place : String) (s : Subsection) :
    (s.diagnostics rules place).filter (·.finding.code == "D003") =
      (s.markers[1]?).toList.map fun marker => ⟨place, .secondMarker marker.1⟩ := by
  have hEmpty : (if s.elements.isEmpty then [Finding.noElements] else []).filter
      (·.code == "D003") = [] := by
    split <;> simp [Finding.code]
  have hMap : (s.diagnostics rules place).filter (·.finding.code == "D003") =
      ((s.findings rules).filter (·.code == "D003")).map (Diagnostic.mk place) := by
    rw [diagnostics, List.filter_map]
    rfl
  rw [hMap, findings, List.filter_append, hEmpty, filter_elementFindings_marker, List.nil_append,
    markers]
  cases (markersFrom 0 s.elements)[1]? <;> rfl

/-! ### Subsections -/

/-- Whichever values a subsection is read from, its wrapper has the class names of its first marker;
each marker is an empty line; a marker in the place of another than the first changes nothing in the
markup; and the second marker, if there is one, is the only one reported. -/
theorem Subsection.first_marker_counts (rules : RuleSet) (place : String) (items : List Value) :
    ((ofItems items).markers.Pairwise (fun a b => a.1 < b.1) ∧
      ∀ i d, (i, d) ∈ (ofItems items).markers ↔
        ∃ v, items[i]? = some v ∧ Element.ofValue v = .marker d) ∧
    (∃ contents : List String,
      (ofItems items).render rules =
        "<section class=\"" ++
          " ".intercalate ((ofItems items).markers.head?.elim [] (·.2.classes)) ++ "\">" ++
          "\n".intercalate contents ++ "</section>" ∧
      contents = items.map (fun v => (Element.ofValue v).render rules) ∧
      ∀ i d, (i, d) ∈ (ofItems items).markers → contents[i]? = some "") ∧
    (∀ i d (m : Mapping), (i, d) ∈ (ofItems items).markers.drop 1 →
      m.field? "type" = some (.string "config") →
      (ofItems (items.set i (.mapping m))).render rules = (ofItems items).render rules) ∧
    ((ofItems items).diagnostics rules place).filter (·.finding.code == "D003") =
      ((ofItems items).markers[1]?).toList.map (fun marker => ⟨place, .secondMarker marker.1⟩) ∧
    ∀ deck : Deck, deck.SubsectionAt place (ofItems items) →
      (ofItems items).diagnostics rules place <:+: deck.diagnostics rules := by
  have hMarkers (i : Nat) (d : Decoration) : (i, d) ∈ (ofItems items).markers ↔
      ∃ v, items[i]? = some v ∧ Element.ofValue v = .marker d := by
    rw [mem_markers, ofItems, List.getElem?_map, Option.map_eq_some_iff]
  refine ⟨⟨markersFrom_sorted 0 _, hMarkers⟩,
    ⟨_, render_ofItems rules items, rfl, fun i d hMarker => ?_⟩, fun i d m hMarker hType => ?_,
    filter_diagnostics_marker rules place _, fun deck hDeck => hDeck.diagnostics_infix rules⟩
  · obtain ⟨v, hv, hMarker⟩ := (hMarkers i d).1 hMarker
    rw [List.getElem?_map, hv, Option.map_some, hMarker, Element.render]
  · have hItems : ofItems (items.set i (.mapping m)) =
        ⟨(ofItems items).elements.set i (.marker (.ofMapping m))⟩ := by
      rw [ofItems, ofItems, List.map_set, Element.ofValue_config hType]
    rw [hItems, render_set_marker hMarker]

/-- The mapping of a marker with one class name. -/
def markerOf (name : String) : Mapping :=
  [(.string "type", .string "config"), (.string "className", .string name)]

/-- A text in front of three markers. -/
def threeMarkers : List Value :=
  [.string "x", .mapping (markerOf "a"), .mapping (markerOf "b"), .mapping (markerOf "c")]

theorem Subsection.first_marker_counts_three :
    (ofItems threeMarkers).markers =
      [(1, ⟨["a"], none⟩), (2, ⟨["b"], none⟩), (3, ⟨["c"], none⟩)] ∧
    (ofItems threeMarkers).render .empty =
      "<section class=\"a\"><p class=\"\">x</p>\n\n\n</section>" ∧
    (ofItems (threeMarkers.set 2 (.mapping (markerOf "z")))).render .empty =
      "<section class=\"a\"><p class=\"\">x</p>\n\n\n</section>" ∧
    ((ofItems threeMarkers).diagnostics .empty "s").filter (·.finding.code == "D003") =
      [⟨"s", .secondMarker 2⟩] := by
  have hMarkers : (ofItems threeMarkers).markers =
      [(1, ⟨["a"], none⟩), (2, ⟨["b"], none⟩), (3, ⟨["c"], none⟩)] := by rfl
  obtain ⟨-, ⟨contents, hRender, hContents, -⟩, hSet, hSecond, -⟩ :=
    first_marker_counts .empty "s" threeMarkers
  have hMarkup : (ofItems threeMarkers).render .empty =
      "<section class=\"a\"><p class=\"\">x</p>\n\n\n</section>" := by
    rw [hRender, hContents, hMarkers]
    decide
  have hOther := hSet 2 ⟨["b"], none⟩ (markerOf "z") (by rw [hMarkers]; simp) (by rfl)
  exact ⟨hMarkers, hMarkup, hOther.trans hMarkup, by rw [hSecond, hMarkers]; rfl⟩

end Slideshow
