import TapeMachine.Instruction

/-!
# Program layout

A program is laid out with every bracket on a line of its own, indented by two blanks for each
loop around it. All other instructions follow the bracket before them on its line.

## Main definitions

* `TapeMachine.Page` — a text under construction and the depth reached in it.
* `TapeMachine.layout` — the layout of a list of instructions.
-/

set_option autoImplicit false

namespace TapeMachine

/-- A new line that is indented by two blanks for each of `depth` loops. -/
def newLine (depth : Nat) : List UInt8 :=
  10 :: List.replicate (2 * depth) 32

/-- A layout under construction. -/
structure Page where
  /-- The number of loops that are open. A `]` without a partner leaves it at zero. -/
  depth : Nat
  /-- The text so far. -/
  text : Array UInt8

namespace Page

/-- The empty page. -/
def empty : Page := ⟨0, #[]⟩

/-- Adds an instruction to a page. -/
def add (page : Page) : Instruction → Page
  | .loopOpen =>
    ⟨page.depth + 1, (page.text ++ newLine page.depth).push Symbol.loopOpen.byte⟩
  | .loopClose =>
    ⟨page.depth - 1, (page.text ++ newLine (page.depth - 1)).push Symbol.loopClose.byte⟩
  | other => ⟨page.depth, page.text ++ other.source⟩

end Page

/-- The layout of a list of instructions. It is defined whether or not the brackets match. -/
def layout (instructions : List Instruction) : List UInt8 :=
  (instructions.foldl Page.add Page.empty).text.toList

end TapeMachine
