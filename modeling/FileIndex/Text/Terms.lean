import FileIndex.Text.Lowercase
import FileIndex.Text.Normalization
import FileIndex.Text.Utf8
import FileIndex.Text.Words

/-!
# Terms of a text

* `Tokenizer`: what turns a text into terms.
* `normalize`: the common form of words that differ in case, in accents or in the shape of their
  characters.
* `terms`: the words of a text in that form.
-/

namespace FileIndex

/-- Turns a text into its terms, in the order of the text. -/
abbrev Tokenizer := String → List Bytes

namespace Text

/-- The greatest number of characters of a term, if nothing else is said. -/
def defaultTermLength : Nat := 25

/-- The word in lower case, without marks, and with at most `maxLength` characters. It is taken
apart before case and marks are looked at, and joined again afterwards. -/
def normalize (maxLength : Nat) (word : List Char) : List Char :=
  (recompose ((lowercase (decompose word)).filter fun c => !isMark c)).take maxLength

/-- The terms of a text; an underscore separates words. -/
def terms (maxLength : Nat) : Tokenizer := fun text =>
  let spaced := text.toList.map fun c => if c = '_' then ' ' else c
  (((words spaced).map (normalize maxLength)).filter (!·.isEmpty)).map Utf8.encode

end Text
end FileIndex
