import FileIndex.Document
import FileIndex.Text.Terms

/-!
# Taking in text

* `Intake`: a document that is being fed with text, and the position of the next word.
* `Intake.index`: adds the terms of a text to a field. Positions go on counting from one text to
  the next and leave one out in between, so that words of different texts are never adjacent. A
  text of a single term gets no position.
-/

namespace FileIndex

/-- A document that is being fed with text. -/
structure Intake where
  doc : Document
  /-- The position of the next word. -/
  position : UInt32 := 1
  deriving DecidableEq

namespace Intake

/-- Adds a term at the next position. -/
def addNext (field : Field) (i : Intake) (term : Bytes) : Intake :=
  { doc := i.doc.addPosition field term i.position, position := i.position + 1 }

/-- Adds the terms of a text to a field, each with the bytes `lead` in front. -/
def index (tokens : Tokenizer) (field : Field) (lead : Bytes) (text : String) (i : Intake) :
    Intake :=
  match tokens text with
  | [term] => { i with doc := i.doc.addTerm field (lead ++ term) }
  | terms =>
    let i := (terms.map (lead ++ ·)).foldl (addNext field) i
    { i with position := i.position + 1 }

end Intake
end FileIndex
