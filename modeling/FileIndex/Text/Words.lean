import FileIndex.Text.WordBreak

/-!
# Words of a text

A text is cut at its word boundaries. `WordBreak.breaksBefore` says where they are, looking at the
classes of the characters on both sides; marks and layout characters count with the character that
they follow.

* `segments`: the pieces between word boundaries.
* `words`: those pieces that hold a letter or a number.
-/

namespace FileIndex.Text

namespace WordBreak

/-- Whether a line ends here. -/
def endsLine : WordBreak → Bool
  | carriageReturn | lineFeed | newline => true
  | _ => false

/-- Whether the character counts with the one before it. -/
def attaches : WordBreak → Bool
  | extend | format | joiner => true
  | _ => false

/-- Letters that are written in words with boundaries. -/
def isLetter : WordBreak → Bool
  | letter | hebrewLetter => true
  | _ => false

/-- Characters that join letters when they are between them. -/
def joinsLetters : WordBreak → Bool
  | midLetter | midNumLetter | singleQuote => true
  | _ => false

/-- Characters that join digits when they are between them. -/
def joinsDigits : WordBreak → Bool
  | midNum | midNumLetter | singleQuote => true
  | _ => false

/-- Characters that connectors join. -/
def connects : WordBreak → Bool
  | letter | hebrewLetter | numeric | katakana => true
  | _ => false

/-- Leaves out characters that count with the one before them. -/
def skip (cs : List WordBreak) : List WordBreak := cs.dropWhile attaches

/-- The first class that does not count with the one before it. -/
def nearest (cs : List WordBreak) : WordBreak := (skip cs).headD .other

/-- The number of regional indicators at the beginning. -/
def indicators : List WordBreak → Nat
  | [] => 0
  | c :: cs =>
    if c = regionalIndicator then indicators cs + 1 else if c.attaches then indicators cs else 0

/-- Whether the characters with classes `left` and `right` belong together, where `left2` is the
class before and `right2` the one behind them. What joins letters or digits also stays with them
when a tied picture follows, which never begins a piece. -/
def joins (left2 left right right2 : WordBreak) : Bool :=
  (left.isLetter && right.isLetter) ||
  (left.isLetter && right.joinsLetters && (right2.isLetter || right2 = tiedPicture)) ||
  (left2.isLetter && left.joinsLetters && right.isLetter) ||
  (left = hebrewLetter && right = singleQuote) ||
  (left = hebrewLetter && right = doubleQuote && (right2 = hebrewLetter || right2 = tiedPicture)) ||
  (left2 = hebrewLetter && left = doubleQuote && right = hebrewLetter) ||
  (left = numeric && right = numeric) ||
  (left.isLetter && right = numeric) ||
  (left = numeric && right.isLetter) ||
  (left2 = numeric && left.joinsDigits && right = numeric) ||
  (left = numeric && right.joinsDigits && (right2 = numeric || right2 = tiedPicture)) ||
  (left = katakana && right = katakana) ||
  ((left.connects || left = extendNumLetter) && right = extendNumLetter) ||
  (left = extendNumLetter && right.connects)

/-- Whether there is a word boundary in front of a character of class `right`. `before` are the
classes in front of it, backwards, and `right2` is the nearest one behind it. -/
def breaksBefore (before : List WordBreak) (right right2 : WordBreak) : Bool :=
  match before with
  | [] => true
  | left :: _ =>
    if left = carriageReturn ∧ right = lineFeed then false
    else if left.endsLine ∨ right.endsLine then true
    else if right = tiedPicture then false
    else if left = space ∧ right = space then false
    else if right.attaches then false
    else
      let reached := skip before
      if joins (nearest reached.tail) (reached.headD .other) right right2 then false
      else !(right = regionalIndicator ∧ indicators reached % 2 = 1)

end WordBreak

/-- The pieces of a text between word boundaries. `before` are the classes of what comes in front
of it, backwards, and `piece` is the piece in which that ends, backwards. -/
def segmentsFrom (before : List WordBreak) (piece : List Char) :
    List (Char × WordBreak) → List (List Char)
  | [] => if piece.isEmpty then [] else [piece.reverse]
  | (c, right) :: rest =>
    let right2 := ((rest.find? (!·.2.attaches)).map (·.2)).getD .other
    if !piece.isEmpty && WordBreak.breaksBefore before right right2 then
      piece.reverse :: segmentsFrom (right :: before) [c] rest
    else segmentsFrom (right :: before) (c :: piece) rest

/-- The characters of a text with their classes; `left` is the class in front of the text. -/
def classify (left : WordBreak) : List Char → List (Char × WordBreak)
  | [] => []
  | c :: cs => (c, left.behind c) :: classify (left.behind c) cs

/-- The pieces of a text between word boundaries. -/
def segments (cs : List Char) : List (List Char) := segmentsFrom [] [] (classify .other cs)

/-- The words of a text. -/
def words (cs : List Char) : List (List Char) := (segments cs).filter (·.any isAlphanumeric)

end FileIndex.Text
