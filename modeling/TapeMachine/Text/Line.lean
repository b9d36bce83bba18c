import TapeMachine.Text.Cluster

/-!
# Lines

## Main definitions

* `TapeMachine.Text.chomp` — a line without its end.
* `TapeMachine.Text.eraseBackspaces` — a line after its backspaces have taken effect.
-/

set_option autoImplicit false

namespace TapeMachine.Text

/-- A line without the line feed at its end, and without a carriage return in front of that. -/
def chomp (line : String) : String :=
  match line.toList.reverse with
  | '\n' :: '\r' :: rest => String.ofList rest.reverse
  | '\n' :: rest => String.ofList rest.reverse
  | _ => line

/-- A line after its backspaces have taken effect: each of them takes back the grapheme cluster in
front of it, if there is one. -/
def eraseBackspaces (line : String) : String :=
  let kept :=
    (clusters line.toList).foldl
      (fun kept cluster => if cluster = ['\x08'] then kept.drop 1 else cluster :: kept) []
  String.ofList kept.reverse.flatten

end TapeMachine.Text
