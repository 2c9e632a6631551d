import CirText.Grammar.Basic
import CirText.Layout

/-!
# Printing by a grammar

`Grammar.print` turns a grammar into the printer of what it describes, given a printer of regions.
Modifiers come out in a fixed order; everything else is printed as it is written.
-/

namespace CirText

/-- A modifier with a blank in front. -/
def Modifier.print (modifier : Modifier) : Layout :=
  .text (" " ++ modifier.rule.keyword) ++
    match modifier.argument, modifier.rule.argument with
    | some argument, some form =>
      .text form.opening.text ++ .text argument.text ++ .text form.closing.text
    | _, _ => []

/-- What is printed between the items of a bracketed list. -/
def Separator.text : Separator → String
  | comma => ", "
  | blank => " "

namespace Grammar

variable {R : Type}

/-- The layout of what a grammar describes. -/
def print (region : R → Layout) : {α : Type} → Grammar R α → α → Layout
  | _, .blank, _ => .text " "
  | _, .punct mark, _ => .text mark.text
  | _, .word text, _ => .text text
  | _, .lexeme _ _, a => .text a.text
  | _, .oneOf _ _, a => .text a.text
  | _, .name _, a => .text a.spelling
  | _, .definition _, a => .text a.spelling
  | _, .type, a => .text a.text
  | _, .attributeOf _, a => .text a.text
  | _, .namedAttribute, a => .text a.text
  | _, .trailingAttribute, none => []
  | _, .trailingAttribute, some a => .text (" " ++ a.text)
  | _, .seq first second, (a, b) => print region first a ++ print region second b
  | _, .view as inner, b =>
    match as.read b with
    | some a => print region inner a
    | none => []
  | _, .optional _ _, none => []
  | _, .optional _ inner, some a => print region inner a
  | _, .choice _ first _, .inl a => print region first a
  | _, .choice _ _ second, .inr b => print region second b
  | _, .separated item, (head, tail) => .join ", " ((head :: tail).map (print region item))
  | _, .listed item, items => .join ", " (items.map (print region item))
  | _, .listedWithEllipsis item, (items, ellipsis) =>
    .join ", " (items.map (print region item) ++
      if ellipsis then [.text Punct.ellipsis.text] else [])
  | _, .bracketed separator item, items =>
    .text "[" ++ .join separator.text (items.map (print region item)) ++ .text "]"
  | _, .repeated _ item, items => .join ", " (items.map (print region item))
  | _, .modifierRun table, a => (table.list a).flatMap Modifier.print
  | _, .spanned inner, (a, _) => print region inner a
  | _, .binder _ inner, (defined, a) => .text defined.spelling ++ print region inner a
  | _, .inScope inner, a => print region inner a
  | _, .region _ _, a => region a
  | _, .recommended _ _ inner, a => print region inner a

end Grammar

end CirText
