import CirText.Proofs.Grammar.Tables
import CirText.Proofs.Parser.Passage
import CirText.Proofs.Sublanguage.Grammar

/-!
# Modifiers as they are written

A modifier is written as a keyword, with an argument in brackets behind it unless it takes none or
leaves it out. In a run of modifiers a slot belongs to the first one that fills it; each later one
in the same slot repeats that.
-/

namespace CirText

/-! ## Complete modifiers -/

/-- Whether tokens in front of a closing bracket are an argument of a kind, and which one. Names are
used in the given scope. -/
inductive ArgumentKind.Writes (source : List Char) (scope : ScopeId) (closing : Token) :
    ArgumentKind → List Token → Argument → Prop where
  | word {token : Token} (isWord : token.kind = .identifier) :
      Writes source scope closing .word [token] (.lexeme ⟨token.text, token.span⟩)
  | integer {token : Token} (isInteger : token.kind = .integer) :
      Writes source scope closing .integer [token] (.lexeme ⟨token.text, token.span⟩)
  | symbol {token : Token} (isSymbol : token.kind = .symbol) :
      Writes source scope closing .symbol [token] (.symbol ⟨.symbol, token.name, token.span, scope⟩)
  | attribute {form : AttributeForm} {taken : List Token} {text : String} {span : Span}
      (named : form = .aliasName ∨ form = .dialect)
      (derives : Reader.Derives (.attributeOf form) taken [closing])
      (embedded : Embedded source taken text span) :
      Writes source scope closing .attribute taken (.attribute ⟨text, form, span⟩)

theorem ArgumentKind.Writes.takes {source : List Char} {scope : ScopeId} {closing : Token}
    {kind : ArgumentKind} {taken : List Token} {argument : Argument}
    (writes : kind.Writes source scope closing taken argument) : kind.Takes argument := by
  cases writes with
  | word | integer | «attribute» => trivial
  | «symbol» => rfl

/-- A modifier and the tokens that it is written with. -/
structure WrittenModifier where
  /-- The tokens. -/
  tokens : List Token
  /-- The modifier. -/
  modifier : Modifier

namespace WrittenModifier

/-- The slot that the modifier fills. -/
def slot (written : WrittenModifier) : String :=
  written.modifier.rule.slot

/-- The place of the modifier, from its first token to its last. -/
def span (written : WrittenModifier) : Span :=
  match written.tokens.head?, written.tokens.getLast? with
  | some first, some last => first.span.cover last.span
  | _, _ => .emptyAt 0

/-- Whether the tokens are a complete modifier by the rules of a table. -/
inductive Complete (rules : List ModifierRule) (source : List Char) (scope : ScopeId) :
    WrittenModifier → Prop where
  /-- A keyword by itself. -/
  | bare {word : Token} {rule : ModifierRule} (known : rule ∈ rules)
      (isWord : word.isWord rule.keyword = true)
      (leftOut : ∀ form ∈ rule.argument, form.optional = true) :
      Complete rules source scope ⟨[word], ⟨rule, none⟩⟩
  /-- A keyword with an argument in brackets. -/
  | bracketed {word opening closing : Token} {taken : List Token} {rule : ModifierRule}
      {form : ArgumentSyntax} {argument : Argument} (known : rule ∈ rules)
      (isWord : word.isWord rule.keyword = true) (takes : rule.argument = some form)
      (opens : opening.isPunct form.opening = true) (closes : closing.isPunct form.closing = true)
      (writes : form.kind.Writes source scope closing taken argument) :
      Complete rules source scope ⟨word :: opening :: (taken ++ [closing]), ⟨rule, some argument⟩⟩

/-! ## First and repeated modifiers -/

/-- The modifiers of a run that are the first ones in their slots, given those in front of the
run. -/
def firstsAfter (earlier : List WrittenModifier) : List WrittenModifier → List WrittenModifier
  | [] => []
  | written :: run =>
    if earlier.any (·.slot == written.slot) then firstsAfter (earlier ++ [written]) run
    else written :: firstsAfter (earlier ++ [written]) run

/-- The modifiers of a run that repeat a slot, each behind the one that has filled it, given the
modifiers in front of the run. -/
def repeatsAfter (earlier : List WrittenModifier) :
    List WrittenModifier → List (WrittenModifier × WrittenModifier)
  | [] => []
  | written :: run =>
    ((earlier.find? (·.slot == written.slot)).map fun first => (first, written)).toList ++
      repeatsAfter (earlier ++ [written]) run

/-- The modifiers of a run that are the first ones in their slots. -/
def firsts (run : List WrittenModifier) : List WrittenModifier :=
  firstsAfter [] run

/-- The modifiers of a run that count. -/
def kept (run : List WrittenModifier) : List Modifier :=
  (firsts run).map (·.modifier)

/-- The modifiers of a run that do not count, each behind the one that counts in its place. -/
def repeated (run : List WrittenModifier) : List (WrittenModifier × WrittenModifier) :=
  repeatsAfter [] run

variable {run earlier : List WrittenModifier}

theorem any_slot_eq_isSome_find? (earlier : List WrittenModifier) (slot : String) :
    earlier.any (·.slot == slot) = (earlier.find? (·.slot == slot)).isSome := by
  rw [Bool.eq_iff_iff, List.any_eq_true, List.find?_isSome]

/-- The first modifier in a slot counts. -/
theorem find?_firstsAfter (earlier run : List WrittenModifier) (slot : String) :
    (firstsAfter earlier run).find? (·.slot == slot) =
      if earlier.any (·.slot == slot) then none else run.find? (·.slot == slot) := by
  induction run generalizing earlier with
  | nil => split <;> rfl
  | cons written run ih =>
    rw [firstsAfter, List.find?_cons]
    by_cases same : written.slot = slot
    · subst same
      cases before : earlier.any (·.slot == written.slot) with
      | true => simp [ih, before]
      | false => simp
    · have other : (written.slot == slot) = false := beq_eq_false_iff_ne.2 same
      have later : (earlier ++ [written]).any (·.slot == slot) = earlier.any (·.slot == slot) := by
        simp [other]
      split
      · rw [ih, later, other]
      · rw [List.find?_cons, other, ih, later]

theorem filling?_kept (run : List WrittenModifier) (slot : String) :
    ModifierTable.filling? (kept run) slot = (run.find? (·.slot == slot)).map (·.modifier) := by
  rw [ModifierTable.filling?, kept, List.find?_map]
  exact congrArg (Option.map _) (find?_firstsAfter [] run slot)

/-- No two of the modifiers that count fill the same slot. -/
theorem nodup_slots_firstsAfter (earlier run : List WrittenModifier) :
    ((firstsAfter earlier run).map (·.slot)).Nodup := by
  induction run generalizing earlier with
  | nil => exact .nil
  | cons written run ih =>
    rw [firstsAfter]
    split
    · exact ih _
    · rw [List.map_cons, List.nodup_cons]
      refine ⟨fun again => ?_, ih _⟩
      obtain ⟨other, member, same⟩ := List.mem_map.1 again
      have nothing := find?_firstsAfter (earlier ++ [written]) run written.slot
      rw [if_pos (by simp), List.find?_eq_none] at nothing
      exact nothing other member (beq_iff_eq.2 same)

theorem firstsAfter_sublist (earlier run : List WrittenModifier) :
    List.Sublist (firstsAfter earlier run) run := by
  induction run generalizing earlier with
  | nil => exact .slnil
  | cons written run ih =>
    rw [firstsAfter]
    split
    · exact (ih _).cons _
    · exact (ih _).cons_cons _

/-- Every modifier of a run is either the first one in its slot or repeats it. -/
theorem firstsAfter_append_repeatsAfter (earlier run : List WrittenModifier) :
    (firstsAfter earlier run ++ (repeatsAfter earlier run).map Prod.snd).Perm run := by
  induction run generalizing earlier with
  | nil => exact .nil
  | cons written run ih =>
    rw [firstsAfter, repeatsAfter, any_slot_eq_isSome_find?]
    cases earlier.find? (·.slot == written.slot) with
    | none => exact (ih _).cons written
    | some first => exact List.perm_middle.trans ((ih _).cons written)

theorem firstsAfter_append (earlier first second : List WrittenModifier) :
    firstsAfter earlier (first ++ second) =
      firstsAfter earlier first ++ firstsAfter (earlier ++ first) second := by
  induction first generalizing earlier with
  | nil => rw [List.append_nil]; rfl
  | cons written first ih =>
    rw [List.cons_append, firstsAfter, firstsAfter, ih, ← List.append_cons]
    split <;> rfl

theorem repeatsAfter_append (earlier first second : List WrittenModifier) :
    repeatsAfter earlier (first ++ second) =
      repeatsAfter earlier first ++ repeatsAfter (earlier ++ first) second := by
  induction first generalizing earlier with
  | nil => rw [List.append_nil]; rfl
  | cons written first ih =>
    rw [List.cons_append, repeatsAfter, repeatsAfter, ih, ← List.append_cons, List.append_assoc]

/-- If no slot repeats, all modifiers count. -/
theorem after_of_nodup (distinct : ((earlier ++ run).map (·.slot)).Nodup) :
    firstsAfter earlier run = run ∧ repeatsAfter earlier run = [] := by
  induction run generalizing earlier with
  | nil => exact ⟨rfl, rfl⟩
  | cons written run ih =>
    have free : earlier.find? (·.slot == written.slot) = none := by
      rw [List.find?_eq_none]
      intro other member same
      rw [List.map_append, List.nodup_append] at distinct
      exact distinct.2.2 _ (List.mem_map_of_mem member) _ List.mem_cons_self (eq_of_beq same)
    rw [List.append_cons] at distinct
    obtain ⟨firsts, repeats⟩ := ih distinct
    constructor
    · rw [firstsAfter, any_slot_eq_isSome_find?, free, firsts]
      rfl
    · rw [repeatsAfter, free, repeats]
      rfl

theorem Complete.tokens_ne_nil {rules : List ModifierRule} {source : List Char} {scope : ScopeId}
    {written : WrittenModifier} (complete : Complete rules source scope written) :
    written.tokens ≠ [] := by
  cases complete <;> exact List.cons_ne_nil _ _

theorem Complete.fits {rules : List ModifierRule} {source : List Char} {scope : ScopeId}
    {written : WrittenModifier} (complete : Complete rules source scope written) :
    written.modifier.rule ∈ rules ∧ written.modifier.Fits := by
  cases complete with
  | @bare word rule known isWord leftOut =>
    refine ⟨known, ?_⟩
    unfold Modifier.Fits ArgumentSyntax.Admits
    cases argument : rule.argument with
    | none => trivial
    | some form => exact leftOut form argument
  | @bracketed word opening closing taken rule form argument known isWord takes
      opens closes writes =>
    refine ⟨known, ?_⟩
    unfold Modifier.Fits
    rw [takes]
    exact writes.takes

theorem kept_of_nodup (distinct : (run.map (·.slot)).Nodup) :
    kept run = run.map (·.modifier) ∧ repeated run = [] := by
  obtain ⟨firsts, repeats⟩ := @after_of_nodup run [] distinct
  exact ⟨congrArg (List.map _) firsts, repeats⟩

/-- The modifiers that count are a run of the table. -/
theorem run_kept {rules : List ModifierRule} {source : List Char} {scope : ScopeId}
    (complete : ∀ written ∈ run, Complete rules source scope written) :
    ModifierTable.Run rules (kept run) where
  fits modifier member := by
    obtain ⟨written, inside, rfl⟩ := List.mem_map.1 member
    exact (complete written ((firstsAfter_sublist [] run).subset inside)).fits
  distinct := by
    rw [kept, List.map_map]
    exact nodup_slots_firstsAfter [] run

end WrittenModifier

end CirText
