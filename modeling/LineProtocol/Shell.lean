import LineProtocol.Text.Basic
/-!
# Words of a shell

A command is logged in the form in which a shell reads it: a word stands as it
is if no character of it means anything to a shell, and between apostrophes
otherwise.  `Shell.split?` reads such a line back by the rules of a shell.
-/

namespace LineProtocol.Shell

/-- The mark between which every character stands for itself. -/
def apostrophe : CodePoint := ⟨0x27, by decide⟩

/-- The mark between which a backslash can take away a meaning. -/
def doubleQuote : CodePoint := ⟨0x22, by decide⟩

/-- The mark that takes away the meaning of the next character. -/
def backslash : CodePoint := ⟨0x5C, by decide⟩

def isAlphanumeric (c : CodePoint) : Bool :=
  (0x30 ≤ c.val && c.val ≤ 0x39) || (0x41 ≤ c.val && c.val ≤ 0x5A) ||
    (0x61 ≤ c.val && c.val ≤ 0x7A)

/-- Whether the character means nothing to a shell. -/
def isPlain (c : CodePoint) : Bool :=
  isAlphanumeric c || (Text.ofString "_@%+=:,./-").contains c

/-- How a character stands between apostrophes: an apostrophe ends the stretch, stands between
double quotes, and begins a new stretch. -/
def quoteWithin (c : CodePoint) : Text :=
  if c = apostrophe then [apostrophe, doubleQuote, apostrophe, doubleQuote, apostrophe] else [c]

/-- A form of the word that a shell reads as this one word. -/
def quote (word : Text) : Text :=
  if !word.isEmpty && word.all isPlain then word
  else apostrophe :: (word.flatMap quoteWithin ++ [apostrophe])

def line (words : List Text) : Text := Text.join " " (words.map quote)

/-- A variable that a command gets in addition to the inherited ones. -/
structure Assignment where
  name : Text
  value : Text
deriving DecidableEq, Repr

/-- The assignment as it stands in front of a command. -/
def Assignment.text (a : Assignment) : Text := a.name ++ "=" ++ quote a.value

/-- Whether the character separates words. -/
def isSeparator (c : CodePoint) : Bool := (Text.ofString " \t\r\n").contains c

/-- Where a reader of words stands. -/
inductive Reader where
  | between
  /-- In a word, outside of any marks. -/
  | bare (word : Text)
  /-- In a word, behind a backslash outside of any marks. -/
  | escaped (word : Text)
  /-- In a word, between apostrophes. -/
  | single (word : Text)
  /-- In a word, between double quotes. -/
  | double (word : Text)
  /-- In a word, behind a backslash between double quotes. -/
  | doubleEscaped (word : Text)

/-- The reader outside of any marks, at a character that continues `word` or begins a word. -/
def Reader.outside (word : Text) (c : CodePoint) : Reader :=
  if c = apostrophe then .single word
  else if c = doubleQuote then .double word
  else if c = backslash then .escaped word
  else .bare (word ++ [c])

/-- The words of the rest of a line; none if it ends before a mark is closed. -/
def Reader.read? : Reader → Text → Option (List Text)
  | .between, [] => some []
  | .bare word, [] => some [word]
  | _, [] => none
  | .between, c :: t => if isSeparator c then read? .between t else read? (.outside [] c) t
  | .bare word, c :: t =>
    if isSeparator c then (read? .between t).map (word :: ·) else read? (.outside word c) t
  | .escaped word, c :: t => read? (.bare (word ++ [c])) t
  | .single word, c :: t =>
    if c = apostrophe then read? (.bare word) t else read? (.single (word ++ [c])) t
  | .double word, c :: t =>
    if c = doubleQuote then read? (.bare word) t
    else if c = backslash then read? (.doubleEscaped word) t
    else read? (.double (word ++ [c])) t
  | .doubleEscaped word, c :: t =>
    if c = doubleQuote ∨ c = backslash then read? (.double (word ++ [c])) t
    else read? (.double (word ++ [backslash, c])) t

/-- The words of a line; none if it ends before a mark is closed. -/
def split? (t : Text) : Option (List Text) := Reader.read? .between t

example : quote "a-b" = Text.ofString "a-b" := by decide

example : quote "" = Text.ofString "''" := by decide

example : split? "A=1 'b c'\"d\\\"\"" =
    some [Text.ofString "A=1", Text.ofString "b cd\""] := by decide

end LineProtocol.Shell
