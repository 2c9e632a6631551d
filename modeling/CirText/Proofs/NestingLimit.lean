import CirText.Proofs.Parser.Depth
import CirText.Proofs.Soundness

/-!
# The limit on how deep regions nest

No region of a module nests deeper than the limit with which the module is read. A greater limit
makes no difference unless this is reported, which happens at most once, and then the items that
were complete before are the first ones of the module that is read with the greater limit.
-/

namespace CirText

/-- The same options with another limit on how deep regions nest. -/
def Options.limited (options : Options) (depth : Nat) : Options :=
  { options with maxDepth := depth }

section Limits

variable (source : String) (options : Options)

/-- The two runs of a source unit, with a limit and with a greater one. -/
theorem run_limited {depth deeper : Nat} (le : depth ≤ deeper) :
    Parser.run source (options.limited depth) = Parser.run source (options.limited deeper) ∧
        Parser.Rests ⟨source.toList, options.limited depth, .structural⟩
          (Parser.initial (tokenize source))
          (Parser.run source (options.limited depth)).2 ∨
      (∃ header ops more, (Parser.run source (options.limited depth)).1 = some (header, ops) ∧
          (Parser.run source (options.limited deeper)).1 = some (header, ops ++ more)) ∧
        Parser.Exceeds ⟨source.toList, options.limited depth, .structural⟩
          (Parser.initial (tokenize source))
          (Parser.run source (options.limited depth)).2 :=
  (Parser.LimitedWith.sourceUnit (.regionWithin le) (.regionWithin deeper)).runs
    ⟨source.toList, options.limited depth, .structural⟩ deeper (Parser.initial (tokenize source))

/-- The lexer does not know how deep regions nest. -/
theorem excesses_initial (depth : Nat) :
    (Parser.initial (tokenize source)).excesses depth = 0 := by
  apply List.countP_eq_zero.2
  intro diagnostic member
  simp only [Parser.initial, Diagnostics.append, Array.toList_appendList, List.nil_append,
    List.mem_map] at member
  obtain ⟨fault, _, rfl⟩ := member
  exact Bool.false_ne_true

/-- What is reported on how deep regions nest is reported while the source unit is read. -/
theorem parse_excesses (depth : Nat) :
    (parse source options).diagnostics.countP (·.isTooDeep depth) =
      (Parser.run source options).2.excesses depth := by
  rw [(parse_diagnostics_perm source options .structural).countP_eq, List.countP_append,
    Parser.LimitedWith.countP_ofUnresolved, Nat.add_zero, Parser.State.excesses]

/-- A region and the regions around it are at most as many as the limit. -/
theorem length_regions_le {around : List (Region Operation)} {op : Operation}
    (encloses : (parse source options).unit.Encloses around op) {region : Region Operation}
    (inOp : region ∈ op.regions) : (region :: around).length ≤ options.maxDepth := by
  have sound := (Operation.Throughout.of_encloses encloses (parse_sound source options).items).here
  exact Nat.lt_of_sub_pos (sound.regions region inOp).room

end Limits

/-- How a module that is read with a limit on how deep regions nest is related to the one that is
read with a greater limit. -/
structure Limits (depth : Nat) (shallow deep : Parsed) : Prop where
  regions : ∀ around op, shallow.unit.Encloses around op → ∀ region ∈ op.regions,
    (region :: around).length ≤ depth
  reported : shallow.diagnostics.countP (·.isTooDeep depth) ≤ 1
  same : (∀ diagnostic ∈ shallow.diagnostics, diagnostic.isTooDeep depth = false) → shallow = deep
  items : shallow.unit.items <+: deep.unit.items

/-- A limit only cuts the module off where regions nest deeper. -/
theorem parse_limits (source : String) (options : Options) {depth deeper : Nat}
    (le : depth ≤ deeper) :
    Limits depth (parse source (options.limited depth))
      (parse source (options.limited deeper)) := by
  have counted := parse_excesses source (options.limited depth) depth
  have initially := excesses_initial source depth
  have regions := fun around op encloses region inOp =>
    @length_regions_le source (options.limited depth) around op encloses region inOp
  rcases run_limited source options le with
    ⟨sameRun, rests⟩ | ⟨⟨header, ops, more, cut, full⟩, exceeds⟩
  · have same : parse source (options.limited depth) = parse source (options.limited deeper) := by
      rw [parse, sameRun]
      rfl
    have none : (parse source (options.limited depth)).diagnostics.countP (·.isTooDeep depth) = 0 :=
      counted.trans (rests.counted.trans initially)
    exact ⟨regions, none.trans_le (Nat.zero_le 1), fun _ => same, same ▸ List.prefix_refl _⟩
  · have one : (parse source (options.limited depth)).diagnostics.countP (·.isTooDeep depth) = 1 :=
      counted.trans (exceeds.counted.trans (congrArg (· + 1) initially))
    refine ⟨regions, one.le, fun never => ?_, more, ?_⟩
    · have none : (parse source (options.limited depth)).diagnostics.countP (·.isTooDeep depth) =
          0 :=
        List.countP_eq_zero.2 fun diagnostic member => Bool.eq_false_iff.1 (never diagnostic member)
      rw [one] at none
      cases none
    · simp only [parse, cut, full, Option.getD_some]

/-- A function without a body and one in which regions nest to a depth of two. -/
def nestedScope : String :=
  "cir.func @g()\ncir.func @f() { cir.scope { } cir.return }"

/-- With a limit of one, the second function is missing. -/
theorem parse_limits_nestedScope :
    1 ≤ 2 ∧ (parse nestedScope (Options.limited {} 1)).unit.items.length = 1 ∧
      (parse nestedScope (Options.limited {} 2)).unit.items.length = 2 ∧
      Limits 1 (parse nestedScope (Options.limited {} 1))
        (parse nestedScope (Options.limited {} 2)) :=
  ⟨by decide, by cbv, by cbv, parse_limits nestedScope {} (by decide)⟩

end CirText
