import Capabilities.Text.Blank

/-!
# The documentation in a comment

`describe` takes a raw comment block and returns the text that documents what follows it: the
lines without comment marks and margins, up to the first line with a tag. A comment with an
`@ignore` tag, or without text, documents nothing.
-/

namespace Capabilities.Docs

open Text

/-- A line of a comment without its margin: one `//` and one `*` at the front, and the blanks
    around them. -/
def bareLine (line : List Char) : List Char :=
  let line := trim line
  let line := (dropLeading? ['/', '/'] line).getD line
  let line := (dropLeading? ['*'] line).getD line
  trim line

def isTagged (line : List Char) : Bool := ['@'].isPrefixOf line

def isIgnoring (line : List Char) : Bool := "@ignore".toList.isPrefixOf line

def describeLines (lines : List (List Char)) : Option (List Char) :=
  if lines.any isIgnoring then none
  else
    let text := trim (joinLines (lines.takeWhile (!isTagged ·)))
    if text.isEmpty then none else some text

def withoutMarks (comment : List Char) : List Char :=
  let body := trim comment
  let body := (dropLeading? "/**".toList body).getD ((dropLeading? "/*".toList body).getD body)
  (dropTrailing? "*/".toList body).getD body

/-- The documentation in a raw comment block, if there is any. -/
def describe (comment : String) : Option String :=
  (describeLines ((lines (withoutMarks comment.toList)).map bareLine)).map String.ofList

end Capabilities.Docs
