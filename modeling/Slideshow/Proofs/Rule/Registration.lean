import Slideshow.Proofs.Rule.Reach
import Slideshow.Proofs.Text.Bytes

/-! Rules that are registered one after another. A rule set shows of the registrations the last one for
each type and nothing else, neither when it is asked nor in what decks give under it. So the templates
of a project may be registered in the order in which they are written or in any other that keeps the
last one for each type. -/

namespace Slideshow

open Dictionary (last? ofList)

namespace RuleSet

/-- What a rule set shows of the registrations that filled it. -/
structure Reflects (rules : RuleSet) (registrations : List (String × Rule)) : Prop where
  get? : ∀ tag, rules.get? tag = last? tag registrations
  contains : ∀ tag, rules.contains tag = true ↔ (rules.get? tag).isSome = true
  mem_keys : ∀ tag, tag ∈ rules.keys ↔ tag ∈ registrations.map (·.1)
  ascending : (rules.keys.map bytes).Pairwise (· < ·)
  size : rules.size = rules.keys.length

/-- Two rule sets answer alike, and no deck gives anything else under one than under the other. -/
structure Indistinguishable (rules others : RuleSet) : Prop where
  get? : ∀ tag, rules.get? tag = others.get? tag
  contains : ∀ tag, rules.contains tag = others.contains tag
  size : rules.size = others.size
  isEmpty : rules.isEmpty = others.isEmpty
  keys : rules.keys = others.keys
  output : ∀ d : Deck, d.SameOutput rules others

/-- Two sequences of registrations are for the same types and end with the same rule for each. -/
structure SameLast (registrations others : List (String × Rule)) : Prop where
  tags : ∀ tag, tag ∈ registrations.map (·.1) ↔ tag ∈ others.map (·.1)
  rules : ∀ tag ∈ registrations.map (·.1), last? tag registrations = last? tag others

/-! ### What a rule set shows -/

theorem ascending_keys (rules : RuleSet) : (rules.keys.map bytes).Pairwise (· < ·) := by
  rw [Dictionary.keys, List.map_map, List.pairwise_map]
  exact rules.sorted.imp bytes_lt

theorem reflects_ofList (registrations : List (String × Rule)) :
    Reflects (ofList registrations) registrations := by
  refine ⟨Dictionary.get?_ofList registrations, fun _ => Iff.rfl,
    fun _ => Dictionary.mem_keys_ofList, ascending_keys _, ?_⟩
  rw [Dictionary.size, Dictionary.keys, List.length_map]

/-! ### Other registrations -/

variable {rules others : RuleSet} {registrations more : List (String × Rule)}

/-- Whatever a deck gives, it asks the rule set for the rules of types only. -/
theorem sameOutput_of_get? (h : ∀ tag, rules.get? tag = others.get? tag) (d : Deck) :
    d.SameOutput rules others :=
  Deck.sameOutput_of_elements fun _ _ =>
    Element.sameUnder_of_agree fun tag v _ => agree_of_get?_eq (h tag) v

theorem indistinguishable_of_get? (h : ∀ tag, rules.get? tag = others.get? tag) :
    rules.Indistinguishable others := by
  have hSame : rules = others := Dictionary.eq_of_get? h
  refine ⟨h, fun tag => ?_, ?_, ?_, ?_, sameOutput_of_get? h⟩
  · rw [Dictionary.contains, h, Dictionary.contains]
  all_goals rw [hSame]

theorem sameLast_iff :
    SameLast registrations more ↔ ∀ tag, last? tag registrations = last? tag more := by
  constructor
  · rintro ⟨hTags, hRules⟩ tag
    by_cases hMem : tag ∈ registrations.map (·.1)
    · exact hRules tag hMem
    · have hNone : last? tag registrations = none := by
        rwa [← Option.not_isSome_iff_eq_none, Dictionary.isSome_last?]
      have hOther : last? tag more = none := by
        rwa [← Option.not_isSome_iff_eq_none, Dictionary.isSome_last?, ← hTags]
      rw [hNone, hOther]
  · intro h
    refine ⟨fun tag => ?_, fun tag _ => h tag⟩
    rw [← Dictionary.isSome_last?, h, Dictionary.isSome_last?]

theorem indistinguishable_iff_sameLast :
    Indistinguishable (ofList registrations) (ofList more) ↔ SameLast registrations more := by
  simp only [sameLast_iff, ← Dictionary.get?_ofList]
  exact ⟨fun h => h.get?, indistinguishable_of_get?⟩

/-- The rule of a template, under its type. -/
def registration (template : String × String) : String × Rule :=
  (template.1, (Template.parse template.2).render)

theorem ofTemplates_ofList (written : List (String × String)) :
    ofTemplates (ofList written) = ofList (written.map registration) :=
  Dictionary.map_ofList _ written

/-- A rule set that was filled by registrations holds the last one for each type, with the types in
the order of their bytes. It cannot be told from one that was filled by other registrations if and only
if these are for the same types and end with the same rule for each. The rules of templates are such a
rule set, so all registrations that end with the same template for each type make one like it. -/
theorem registrations_count_by_type (registrations : List (String × Rule)) :
    Reflects (ofList registrations) registrations ∧
      (∀ others, Indistinguishable (ofList registrations) (ofList others) ↔
        SameLast registrations others) ∧
      ∀ written : List (String × String),
        Indistinguishable (ofTemplates (ofList written)) (ofList registrations) ↔
          SameLast (written.map registration) registrations := by
  refine ⟨reflects_ofList registrations, fun others => indistinguishable_iff_sameLast,
    fun written => ?_⟩
  rw [ofTemplates_ofList]
  exact indistinguishable_iff_sameLast

theorem registrations_count_by_type_replaced :
    let bold : Rule := fun _ => "<b>"
    let quoted : Rule := fun _ => "<q>"
    let registrations := [("quote", bold), ("aside", bold), ("quote", quoted)]
    (ofList registrations : RuleSet).keys = ["aside", "quote"] ∧
      (ofList registrations : RuleSet).get? "quote" = some quoted ∧
      Indistinguishable (ofList registrations) (ofList [("quote", quoted), ("aside", bold)]) ∧
      ¬ Indistinguishable (ofList registrations)
        (ofList [("quote", quoted), ("aside", bold), ("quote", bold)]) ∧
      Indistinguishable (ofTemplates (ofList [("aside", "<b>"), ("quote", "<q>")]))
        (ofList registrations) := by
  intro bold quoted registrations
  obtain ⟨hReflects, hOthers, hTemplates⟩ := registrations_count_by_type registrations
  have hBoldParts : Template.parse "<b>" = ⟨[.literal "<b>"]⟩ := by decide +kernel
  have hQuotedParts : Template.parse "<q>" = ⟨[.literal "<q>"]⟩ := by decide +kernel
  have hBold : (Template.parse "<b>").render = bold := by
    rw [hBoldParts]
    rfl
  have hQuoted : (Template.parse "<q>").render = quoted := by
    rw [hQuotedParts]
    rfl
  have hQuote : last? "quote" registrations = some quoted := by simp [registrations, last?]
  refine ⟨by decide, (hReflects.get? "quote").trans hQuote, (hOthers _).2 ?_, fun h => ?_,
    (hTemplates _).2 ?_⟩
  · refine ⟨fun tag => ?_, by simp [registrations, last?]⟩
    simp only [registrations, List.map_cons, List.map_nil, List.mem_cons]
    tauto
  · have hLast := ((hOthers _).1 h).rules "quote" (by decide)
    have hSame : quoted = bold := by simpa [registrations, last?] using hLast
    exact absurd (congrFun hSame .null) (by decide)
  · refine ⟨fun tag => ?_, by simp [registrations, registration, last?, hBold, hQuoted]⟩
    simp only [registrations, registration, List.map_cons, List.map_nil, List.mem_cons]
    tauto

end RuleSet

end Slideshow
