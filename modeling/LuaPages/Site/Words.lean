import LuaPages.Text.Blank
/-!
The words of a line. Blanks part words, except inside double quotes; there a backslash takes the next
character as it is. A word with quotes in it may be empty.
-/
namespace LuaPages.Site.Words

def finish (word : List Char) (quoted : Bool) : List (List Char) :=
  if word.isEmpty && !quoted then [] else [word.reverse]

/-- The words from a place on, where `word` has been read, back to front; `quoted` tells whether it has
had a quote, and `inside` whether the place is between quotes. -/
def scan (word : List Char) (quoted inside : Bool) : List Char → List (List Char)
  | [] => finish word quoted
  | '"' :: r => scan word true (!inside) r
  | ['\\'] => if inside then finish word quoted else finish ('\\' :: word) quoted
  | '\\' :: c :: r =>
    if inside then scan (c :: word) quoted true r else scan ('\\' :: word) quoted false (c :: r)
  | c :: r =>
    if Blank.isAsciiBlank c && !inside then finish word quoted ++ scan [] false false r
    else scan (c :: word) quoted inside r

def split (line : List Char) : List (List Char) := scan [] false false line

end LuaPages.Site.Words
