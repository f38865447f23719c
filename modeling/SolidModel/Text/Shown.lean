import SolidModel.Numeral.Shortest
import SolidModel.Point.Basic
import SolidModel.Raw
import SolidModel.Text.Quoted

/-!
# How values are shown in texts

Messages and descriptions show numbers, points and unchecked values. A type of numbers says in
`NumberText` how it is written; all else is built from that.
-/

namespace SolidModel

/-- How a number is written in a text. -/
class NumberText (K : Type) where
  numberText : K → String

export NumberText (numberText)

instance : NumberText Float := ⟨Numeral.shortest⟩

instance : NumberText Int := ⟨fun n => toString n⟩

variable {K : Type} [NumberText K]

/-- A flag as a word. -/
def flagText (b : Bool) : String := if b then "True" else "False"

/-- A point with its kind and named coordinates. -/
def Point2.text (p : Point2 K) : String :=
  s!"Pt2(x={numberText p.x}, y={numberText p.y})"

/-- A point with its kind and named coordinates. -/
def Point3.text (p : Point3 K) : String :=
  s!"Pt3(x={numberText p.x}, y={numberText p.y}, z={numberText p.z})"

/-- A point with its kind and named coordinates. -/
def Point4.text (p : Point4 K) : String :=
  s!"Pt4(x={numberText p.x}, y={numberText p.y}, z={numberText p.z}, w={numberText p.w})"

/-- A point of any kind. -/
def Position.text : Position K → String
  | .plane p => p.text
  | .space p => p.text
  | .homogeneous p => p.text

mutual

/-- A value as it stands inside a list: texts are quoted. -/
def Raw.nestedText : Raw K → String
  | .number x => numberText x
  | .text s => Text.quoted s
  | .flag b => flagText b
  | .nothing => "None"
  | .list items => Text.bracketed (Raw.nestedTexts items)

/-- The items of a list as they stand in it. -/
def Raw.nestedTexts : List (Raw K) → List String
  | [] => []
  | item :: rest => item.nestedText :: Raw.nestedTexts rest

end

/-- A value on its own: a text stands without quotes. -/
def Raw.shown : Raw K → String
  | .text s => s
  | value => value.nestedText

end SolidModel
