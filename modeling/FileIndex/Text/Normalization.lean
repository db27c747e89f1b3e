import FileIndex.Text.CombiningClass
import FileIndex.Text.Composition

/-!
# Normal forms of texts

* `decompose`: every character replaced by what it consists of, with marks in canonical order.
* `compose`: characters joined again as far as possible.
* `recompose`: the one after the other, so that texts which look the same become the same.
-/

namespace FileIndex.Text

/-- Puts a character in front of a text whose marks are in order, behind the marks that are to come
before it. -/
def placeMark (c : Char) : List Char → List Char
  | [] => [c]
  | d :: ds =>
    if 0 < combiningClass d ∧ combiningClass d < combiningClass c then d :: placeMark c ds
    else c :: d :: ds

/-- Every character replaced by what it consists of, with marks in canonical order. -/
def decompose (cs : List Char) : List Char := (cs.flatMap decomposition).foldr placeMark []

/-- Joins the characters of a text to `base` as far as possible. `marks` are the marks behind
`base` that could not be joined to it, backwards; a character is only joined to `base` if its class
is greater than that of the last of them. -/
def composeFrom (base : Char) (marks : List Char) : List Char → List Char
  | [] => base :: marks.reverse
  | c :: cs =>
    let reached := match marks with
      | [] => true
      | m :: _ => combiningClass m < combiningClass c
    match if reached then composition? base c else none with
    | some whole => composeFrom whole marks cs
    | none =>
      if combiningClass c = 0 then base :: marks.reverse ++ composeFrom c [] cs
      else composeFrom base (c :: marks) cs

/-- Joins the characters of a decomposed text as far as possible. Marks in front of the first
character that is none stay as they are. -/
def compose : List Char → List Char
  | [] => []
  | c :: cs => if combiningClass c = 0 then composeFrom c [] cs else c :: compose cs

/-- The text with all characters taken apart and joined again. -/
def recompose (cs : List Char) : List Char := compose (decompose cs)

end FileIndex.Text
