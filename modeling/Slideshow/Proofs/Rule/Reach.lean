import Slideshow.Diagnostic
import Slideshow.Proofs.Dictionary
import Slideshow.Proofs.Markup.Weave
import Slideshow.Rule.Template

/-! How far rules reach. A rule is asked for the custom elements of its type only, so what a deck
gives depends on the rules through these elements alone; and no custom element of a deck that was
read has a built-in type, so rules for built-in types are never asked. -/

namespace Slideshow

open Yaml (Value Mapping)

/-- Two rule sets do the same with a custom element: neither has a rule for its type, or their rules
give the same text. -/
inductive RuleSet.Agree (rules others : RuleSet) (tag : String) (v : Value) : Prop
  | absent : rules.get? tag = none → others.get? tag = none → Agree rules others tag v
  | present {rule other : Rule} : rules.get? tag = some rule → others.get? tag = some other →
      rule v = other v → Agree rules others tag v

/-- Under two rule sets a deck has the same markup, escaped or not, the same module and the same
diagnostics. -/
structure Deck.SameOutput (rules others : RuleSet) (d : Deck) : Prop where
  render : d.render rules = d.render others
  compile : d.compile rules = d.compile others
  toModule : d.toModule rules = d.toModule others
  diagnostics : d.diagnostics rules = d.diagnostics others

/-- The types that have a meaning of their own. -/
def builtInTypes : List String := configName :: "img" :: "ul" :: TextTag.all.map (·.name)

/-! ### Elements -/

/-- Two rule sets give an element the same markup and say the same about it. -/
structure Element.SameUnder (rules others : RuleSet) (e : Element) : Prop where
  render : e.render rules = e.render others
  losses : ∀ index markers, e.losses rules index markers = e.losses others index markers

variable {rules others : RuleSet}

theorem RuleSet.Agree.sameUnder {tag : String} {v : Value} (h : rules.Agree others tag v) :
    (Element.custom tag v).SameUnder rules others := by
  cases h with
  | absent hRule hOther =>
    refine ⟨?_, fun index markers => ?_⟩
    · simp only [Element.render, hRule, hOther]
    · simp only [Element.losses, Dictionary.contains, hRule, hOther]
  | present hRule hOther hSame =>
    refine ⟨?_, fun index markers => ?_⟩
    · simp only [Element.render, hRule, hOther, hSame]
    · simp only [Element.losses, Dictionary.contains, hRule, hOther, Option.isSome_some]

/-- Elements that are not custom are the same under all rules. -/
theorem Element.sameUnder_of_agree {e : Element}
    (h : ∀ tag v, e = .custom tag v → rules.Agree others tag v) : e.SameUnder rules others := by
  cases e with
  | custom tag v => exact (h tag v rfl).sameUnder
  | _ => exact ⟨rfl, fun _ _ => rfl⟩

/-! ### Decks -/

theorem elementFindings_congr {es : List Element} (h : ∀ e ∈ es, e.SameUnder rules others)
    (index markers : Nat) :
    elementFindings rules index markers es = elementFindings others index markers es := by
  induction es generalizing index markers with
  | nil => rfl
  | cons e es ih =>
    have ⟨hHead, hTail⟩ := List.forall_mem_cons.1 h
    simp only [elementFindings, hHead.losses, ih hTail]

theorem Subsection.diagnostics_congr {s : Subsection}
    (h : ∀ e ∈ s.elements, e.SameUnder rules others) (place : String) :
    s.diagnostics rules place = s.diagnostics others place := by
  rw [diagnostics, diagnostics, findings, findings, elementFindings_congr h]

theorem Section.diagnostics_congr {s : Section} (h : ∀ e ∈ s.elements, e.SameUnder rules others)
    (name : String) : s.diagnostics rules name = s.diagnostics others name := by
  cases s with
  | flat content => exact content.diagnostics_congr h name
  | divided decoration parts =>
    have hParts : ∀ part ∈ parts, part.2.diagnostics rules (name ++ "." ++ part.1) =
        part.2.diagnostics others (name ++ "." ++ part.1) := fun part hPart =>
      part.2.diagnostics_congr (fun e he => h e (List.mem_flatMap_of_mem hPart he)) _
    simp only [diagnostics, List.flatMap_congr hParts]

/-- What a deck gives follows from what its elements give. -/
theorem Deck.sameOutput_of_elements {d : Deck} (h : ∀ e ∈ d.elements, e.SameUnder rules others) :
    d.SameOutput rules others := by
  have hElements : d.elements.map (·.render rules) = d.elements.map (·.render others) :=
    List.map_congr_left fun e he => (h e he).render
  have hRender : d.render rules = d.render others := by
    rw [← (d.woven rules).weave, ← (d.woven others).weave, hElements]
  have hCompile : d.compile rules = d.compile others := by rw [compile, compile, hRender]
  refine ⟨hRender, hCompile, by rw [toModule, toModule, hCompile], ?_⟩
  exact List.flatMap_congr fun part hPart =>
    part.2.diagnostics_congr (fun e he => h e (List.mem_flatMap_of_mem hPart he)) part.1

/-! ### Built-in types -/

theorem TextTag.ofName?_eq_some {name : String} {tag : TextTag} :
    TextTag.ofName? name = some tag ↔ name = tag.name := by
  constructor
  · intro h
    have hName : (tag.name == name) = true := by
      rw [ofName?] at h
      exact List.find?_some (p := fun t : TextTag => t.name == name) h
    exact (beq_iff_eq.1 hName).symm
  · rintro rfl
    cases tag <;> rfl

theorem not_mem_builtInTypes {type : String} :
    type ∉ builtInTypes ↔
      type ≠ configName ∧ type ≠ "img" ∧ type ≠ "ul" ∧ TextTag.ofName? type = none := by
  have hTags : type ∉ TextTag.all.map (·.name) ↔ TextTag.ofName? type = none := by
    simp only [TextTag.ofName?, List.find?_eq_none, List.mem_map, beq_iff_eq, not_exists, not_and]
  rw [← hTags]
  simp only [builtInTypes, List.mem_cons, not_or, ne_eq]

/-- A mapping becomes a custom element only under a type that is not built in, whatever fields it
lacks. -/
theorem Element.ofTyped_eq_custom {type tag : String} {m : Mapping} {v : Value}
    (h : ofTyped type m = .custom tag v) : tag = type ∧ v = .mapping m ∧ type ∉ builtInTypes := by
  rw [ofTyped] at h
  -- Each built-in type is taken by a branch of its own, whatever the fields give.
  split at h
  · cases h
  rename_i hConfig
  split at h
  · split at h <;> cases h
  rename_i hText
  split at h
  · split at h <;> cases h
  rename_i hImage
  split at h
  · split at h <;> cases h
  rename_i hList
  cases h
  exact ⟨rfl, rfl, not_mem_builtInTypes.2 ⟨hConfig, hImage, hList, hText⟩⟩

theorem Element.ofValue_eq_custom {v w : Value} {tag : String} (h : Element.ofValue v = .custom tag w) :
    ∃ m : Mapping, v = .mapping m ∧ w = v ∧ m.field? "type" = some (.string tag) ∧
      tag ∉ builtInTypes := by
  cases v with
  | mapping m =>
    simp only [ofValue] at h
    split at h
    · rename_i type hType
      obtain ⟨rfl, rfl, hBuiltIn⟩ := ofTyped_eq_custom h
      exact ⟨m, rfl, rfl, hType, hBuiltIn⟩
    · cases h
  | _ => cases h

/-- No custom element of a deck that was read has a built-in type. -/
theorem Deck.not_builtIn_of_custom {v w : Value} {d : Deck} {tag : String}
    (hd : Deck.ofValue v = .ok d) (h : .custom tag w ∈ d.elements) : tag ∉ builtInTypes := by
  rw [(Deck.ofValue_eq_ok.1 hd).elements] at h
  obtain ⟨item, -, hItem⟩ := List.mem_map.1 h
  obtain ⟨m, -, -, -, hBuiltIn⟩ := Element.ofValue_eq_custom hItem
  exact hBuiltIn

theorem RuleSet.agree_of_get?_eq {tag : String} (h : rules.get? tag = others.get? tag) (v : Value) :
    rules.Agree others tag v := by
  cases hRule : rules.get? tag with
  | none => exact .absent hRule (h ▸ hRule)
  | some rule => exact .present hRule (h ▸ hRule) rfl

/-- A deck that was read gives the same under any two rule sets that agree on its custom elements,
and so under a rule set with a rule more for a built-in type. -/
theorem Deck.sameOutput_of_agree {v : Value} {d : Deck} (hd : Deck.ofValue v = .ok d) :
    (∀ rules others : RuleSet,
      (∀ tag w, .custom tag w ∈ d.elements → rules.Agree others tag w) →
        d.SameOutput rules others) ∧
    ∀ (rules : RuleSet) (tag : String) (rule : Rule), tag ∈ builtInTypes →
      d.SameOutput (rules.insert tag rule) rules := by
  have hAgree (rules others : RuleSet)
      (h : ∀ tag w, .custom tag w ∈ d.elements → rules.Agree others tag w) :
      d.SameOutput rules others :=
    sameOutput_of_elements fun e he =>
      Element.sameUnder_of_agree fun tag w hCustom => h tag w (hCustom ▸ he)
  refine ⟨hAgree, fun rules tag rule hTag => hAgree _ _ fun other w hCustom => ?_⟩
  have hne : other ≠ tag := fun h => not_builtIn_of_custom hd hCustom (h ▸ hTag)
  apply RuleSet.agree_of_get?_eq
  rw [Dictionary.get?_insert, if_neg hne]

def quote : Value := .mapping [(.string "type", .string "quote"), (.string "text", .string "hi")]

/-- A document with a quotation and a paragraph that lacks its content. -/
def quotation : Value :=
  .mapping [(.string "s", .list [quote, .mapping [(.string "type", .string "p")]])]

def plainRules : RuleSet := Dictionary.insert .empty "quote" fun _ => "<q>hi</q>"

/-- Rules that do the same with `quote`, and one for a type that has no element there. -/
def templateRules : RuleSet :=
  Dictionary.insert (Dictionary.insert .empty "quote" (Template.parse "<q>\x7btext\x7d</q>").render)
    "other" fun _ => "other"

theorem Deck.sameOutput_of_agree_quotation :
    ∃ d, Deck.ofValue quotation = .ok d ∧
      (∀ tag w, .custom tag w ∈ d.elements → plainRules.Agree templateRules tag w) ∧
      d.SameOutput plainRules templateRules ∧ "p" ∈ builtInTypes ∧
      d.SameOutput (plainRules.insert "p" fun _ => "rule") plainRules := by
  have hd : Deck.ofValue quotation = .ok ⟨[("s", .flat ⟨[.custom "quote" quote,
      .unrecognized (.mapping [(.string "type", .string "p")])]⟩)]⟩ := by rfl
  have hAgree (tag : String) (w : Value) (h : Element.custom tag w ∈ [.custom "quote" quote,
      .unrecognized (.mapping [(.string "type", .string "p")])]) :
      plainRules.Agree templateRules tag w := by
    obtain ⟨rfl, rfl⟩ : tag = "quote" ∧ w = quote := by simpa using h
    have hParts : Template.parse "<q>\x7btext\x7d</q>" =
        ⟨[.literal "<q>", .field "text", .literal "</q>"]⟩ := by decide +kernel
    have hSame : "<q>hi</q>" = (Template.parse "<q>\x7btext\x7d</q>").render quote := by
      rw [hParts]
      rfl
    exact .present (by rw [plainRules, Dictionary.get?_insert, if_pos rfl])
      (by rw [templateRules, Dictionary.get?_insert, if_neg (by decide), Dictionary.get?_insert,
        if_pos rfl]) hSame
  have hBuiltIn : "p" ∈ builtInTypes := by decide
  obtain ⟨hSame, hInsert⟩ := sameOutput_of_agree hd
  exact ⟨_, hd, hAgree, hSame _ _ hAgree, hBuiltIn, hInsert _ _ _ hBuiltIn⟩

end Slideshow
