/-!
# Outlines of values

An `Outline` is the shape of a value as it is shown for inspection: names applied to arguments,
records with named fields, lists and sets. It has two layouts, `inline` on one line and `stacked`
with every nested item on a line of its own.
-/

namespace Residual.Text

/-- The shape of a value that is shown for inspection. -/
inductive Outline where
  /-- A text that stands by itself. -/
  | atom (text : String)
  /-- A name and its arguments, of which there is at least one. -/
  | apply (head : String) (args : List Outline)
  /-- A name and its fields, in order. -/
  | record (head : String) (fields : List Outline)
  /-- A field of a record. -/
  | field (label : String) (value : Outline)
  | list (items : List Outline)
  | set (items : List Outline)

namespace Outline

/-- A number in decimal. -/
def nat (n : Nat) : Outline :=
  .atom (toString n)

/-- A truth value by its name. -/
def bool (b : Bool) : Outline :=
  .atom (if b then "true" else "false")

/-- A text between double quotes. The text has nothing in it to escape. -/
def text (s : String) : Outline :=
  .atom ("\"" ++ s ++ "\"")

/-- An optional value, as `None` or as an argument of `Some`. -/
def option {α : Type} (shape : α → Outline) : Option α → Outline
  | none => .atom "None"
  | some a => .apply "Some" [shape a]

/-- The layout on one line. -/
def inline : Outline → String
  | atom text => text
  | apply head args => head ++ "(" ++ ", ".intercalate (args.map fun a => a.inline) ++ ")"
  | record head fields =>
      head ++ " \x7b " ++ ", ".intercalate (fields.map fun a => a.inline) ++ " \x7d"
  | field label value => label ++ ": " ++ value.inline
  | list items => "[" ++ ", ".intercalate (items.map fun a => a.inline) ++ "]"
  | set items => "\x7b" ++ ", ".intercalate (items.map fun a => a.inline) ++ "\x7d"

/-- The column at which items nested `depth` deep start. -/
def indent (depth : Nat) : String :=
  String.ofList (List.replicate (4 * depth) ' ')

/-- Items between brackets that stand `depth` deep, each on a line of its own and followed by a
comma. Without items the brackets meet. -/
def bracket (depth : Nat) (left right : String) (items : List String) : String :=
  match items with
  | [] => left ++ right
  | items =>
      left ++ "\n" ++
        String.join (items.map fun item => indent (depth + 1) ++ item ++ ",\n") ++
        indent depth ++ right

/-- The layout with every nested item on a line of its own, for a value that stands `depth`
deep. -/
def stackedAt (depth : Nat) (outline : Outline) : String :=
  match outline with
  | atom text => text
  | apply head args =>
      head ++ bracket depth "(" ")" (args.map fun a => a.stackedAt (depth + 1))
  | record head fields =>
      head ++ " " ++ bracket depth "\x7b" "\x7d" (fields.map fun a => a.stackedAt (depth + 1))
  | field label value => label ++ ": " ++ value.stackedAt depth
  | list items => bracket depth "[" "]" (items.map fun a => a.stackedAt (depth + 1))
  | set items => bracket depth "\x7b" "\x7d" (items.map fun a => a.stackedAt (depth + 1))
termination_by outline

/-- The layout with every nested item on a line of its own. -/
def stacked (outline : Outline) : String :=
  outline.stackedAt 0

end Outline

end Residual.Text
