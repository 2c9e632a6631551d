import CirText.Grammar.Operation
import CirText.Grammar.Print
import CirText.Module

/-!
# Printing

Operations are printed in the form in which they were written, with two blanks of indentation for
each region around them; the label of a block stands two blanks to the left of its operations. Types
and attributes are printed as they were written, line breaks included.
-/

namespace CirText

/-- The columns by which what is inside braces is moved to the right. -/
def indentation : Nat := 2

/-- The label and the arguments of a block on a line of their own. -/
def Block.printHeader (block : Block Layout) : Layout :=
  match block.label with
  | none => []
  | some label =>
    Layout.line 0 ++ Grammar.blockHeader.print (R := Layout) id (label, block.args)

/-- A block of operations that have been laid out. -/
def Block.print (block : Block Layout) : Layout :=
  block.printHeader ++ block.ops.flatMap fun op => Layout.line indentation ++ op.shift indentation

/-- A region of operations that have been laid out. -/
def Region.print (region : Region Layout) : Layout :=
  Layout.text "\x7b" ++ region.blocks.flatMap Block.print ++ Layout.line 0 ++ Layout.text "\x7d"

/-- The names of the results with an equals sign. -/
def printResults (results : List Definition) : Layout :=
  if results.isEmpty then []
  else Layout.text (", ".intercalate (results.map Definition.spelling)) ++ Layout.text " = "

/-- An operation whose regions hold operations that have been laid out. -/
def Node.print (node : Node (Region Layout)) : Layout :=
  printResults node.results ++ Layout.text node.opcode.keyword ++
    (Grammar.body node.opcode node.form).print Region.print ⟨node.payload, node.extra⟩

/-- The layout of an operation. -/
def Operation.layout : Operation → Layout :=
  Operation.fold Node.print

/-- An operation as text. -/
def Operation.print (op : Operation) : String :=
  op.layout.render

namespace Module

/-- The header with the opening brace. -/
def printHeader (header : ModuleHeader) : Layout :=
  Layout.text "module" ++
    (match header.name with
      | none => []
      | some name => Layout.text (" " ++ name.text)) ++
    (match header.attributes with
      | none => []
      | some attributes => Layout.text (" attributes " ++ attributes.text)) ++
    Layout.text " \x7b"

/-- The layout of a module. -/
def layout (unit : Module) : Layout :=
  match unit.header with
  | none => unit.items.flatMap fun op => op.layout ++ Layout.line 0
  | some header =>
    printHeader header ++
      unit.items.flatMap (fun op => Layout.line indentation ++ op.layout.shift indentation) ++
      Layout.line 0 ++ Layout.text "\x7d" ++ Layout.line 0

/-- A module as text. -/
def print (unit : Module) : String :=
  unit.layout.render

end Module

end CirText
