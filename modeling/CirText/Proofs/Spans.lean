import CirText.Proofs.Soundness

/-!
# Spans

All spans of a module that is read and of the diagnostics stand in the source text, the texts that
are kept are what stands there, and spans nest as operations, regions and blocks do.
-/

namespace CirText

/-- Whether all spans of a module stand in a text and nest as operations, regions and blocks do. -/
structure Module.Laminar (text : List Char) (unit : Module) : Prop where
  header : ∀ header ∈ unit.header, header.Placed text
  items : unit.items.Pairwise fun first second => first.span.Before second.span
  operations : ∀ op ∈ unit.preorder, op.Placed text
  regions : ∀ region ∈ unit.allRegions, region.Placed text
  definitions : ∀ definition ∈ unit.symbols.entries, definition.span.On text

/-- The spans of what is read, with errors or without, are valid and nest, and those of the
diagnostics are valid. -/
theorem parse_spans (source : String) (options : Options) :
    (parse source options).unit.Laminar source.toList ∧
      ∀ diagnostic ∈ (parse source options).diagnostics, diagnostic.On source.toList := by
  have sound := parse_sound source options
  have everywhere : ∀ op ∈ (parse source options).unit.preorder, ∃ levels scope,
      op.Sound source.toList (parse source options).unit.symbols levels scope := by
    intro op member
    obtain ⟨around, encloses⟩ := Module.exists_encloses_iff.2 member
    exact ⟨_, _, (Operation.Throughout.of_encloses encloses sound.items).here⟩
  refine ⟨⟨sound.header, sound.ordered, ?_, ?_, sound.entries⟩, parse_diagnostics_on source options⟩
  · intro op member
    obtain ⟨levels, scope, here⟩ := everywhere op member
    exact here.placed
  · intro region member
    obtain ⟨op, inUnit, inOp⟩ := Module.mem_allRegions_iff.1 member
    obtain ⟨levels, scope, here⟩ := everywhere op inUnit
    exact (here.regions region inOp).placed

end CirText
