import JsxCalls.Toml.Number

/-!
# TOML strings, keys and line ends

Control characters other than the tab may not occur in strings and comments. A line ends with a line
feed, before which a carriage return may stand, or with the document.
-/

namespace JsxCalls.Toml

/-! ## Blanks, line ends and comments -/

/-- A space or a tab. -/
def isBlank (c : Char) : Bool :=
  c = ' ' || c = '\t'

/-- The text behind the blanks at its start. -/
def skipBlanks (text : Text) : Text :=
  text.dropWhile isBlank

/-- A character that may stand in comments and strings: anything but a control character, tabs
excepted. -/
def isPlain (c : Char) : Bool :=
  c = '\t' || (0x20 ≤ c.toNat && c.toNat ≠ 0x7F)

/-- The text behind a line break. -/
def afterNewline? : Text → Option Text
  | '\n' :: rest => some rest
  | '\r' :: '\n' :: rest => some rest
  | _ => none

/-- The text without a comment at its start. -/
def skipComment : Text → Text
  | '#' :: rest => rest.dropWhile isPlain
  | text => text

/-- The text behind the end of a line, on which blanks and a comment may still stand. -/
def afterLineEnd? (text : Text) : Option Text :=
  match skipComment (skipBlanks text) with
  | [] => some []
  | rest => afterNewline? rest

/-- The text behind blanks, line breaks and comments, given a bound on the number of lines. -/
def skipLines? : Nat → Text → Option Text
  | 0, text => some text
  | lines + 1, text =>
    match skipBlanks text with
    | '#' :: rest => (afterNewline? (rest.dropWhile isPlain)).bind (skipLines? lines)
    | '\n' :: rest => skipLines? lines rest
    | '\r' :: rest => (afterNewline? ('\r' :: rest)).bind (skipLines? lines)
    | rest => some rest

/-- The text behind blanks, line breaks and comments, as they may stand inside arrays. -/
def skipSpace? (text : Text) : Option Text :=
  skipLines? (text.length + 1) text

/-! ## Strings -/

/-- The character with a given code point, if there is one. -/
def charOfCode? (code : Nat) : Option Char :=
  if valid : code.isValidChar then some (Char.ofNatAux code valid) else none

/-- The character that a number of hexadecimal digits stands for. -/
def hexChar? (digits : Text) : Option Char :=
  if digits.all (isDigitOf 16) then charOfCode? (numberOf 16 digits) else none

/-- The character that a backslash and a letter stand for. -/
def escaped? (letter : Char) : Option Char :=
  match letter with
  | 'b' => some '\x08'
  | 't' => some '\t'
  | 'n' => some '\n'
  | 'f' => some '\x0c'
  | 'r' => some '\r'
  | '"' => some '"'
  | '\\' => some '\\'
  | _ => none

/-- The rest of a string on one line, in which a backslash starts an escape sequence. -/
def basicBody? : Reader Text
  | [] => none
  | '"' :: rest => some ([], rest)
  | '\\' :: 'u' :: a :: b :: c :: d :: rest => do
    let char ← hexChar? [a, b, c, d]
    let (body, rest) ← basicBody? rest
    some (char :: body, rest)
  | '\\' :: 'U' :: a :: b :: c :: d :: e :: f :: g :: h :: rest => do
    let char ← hexChar? [a, b, c, d, e, f, g, h]
    let (body, rest) ← basicBody? rest
    some (char :: body, rest)
  | '\\' :: letter :: rest => do
    let char ← escaped? letter
    let (body, rest) ← basicBody? rest
    some (char :: body, rest)
  | c :: rest => do
    if isPlain c && c ≠ '\\' then
      let (body, rest) ← basicBody? rest
      some (c :: body, rest)
    else none

/-- The rest of a string on one line without escape sequences. -/
def literalBody? : Reader Text
  | [] => none
  | '\'' :: rest => some ([], rest)
  | c :: rest => do
    if isPlain c then
      let (body, rest) ← literalBody? rest
      some (c :: body, rest)
    else none

/-- The end of a string of several lines: three quotes, before which up to two more quotes belong to
the string. -/
def multilineEnd? (quote : Char) (text : Text) : Option (Text × Text) :=
  let quotes := (text.takeWhile (· = quote)).length
  if quotes < 3 then none
  else
    let inside := min (quotes - 3) 2
    some (List.replicate inside quote, text.drop (inside + 3))

/-- Behind a backslash there are only blanks up to the end of the line. -/
def continuesLine (text : Text) : Bool :=
  (afterNewline? (skipBlanks text)).isSome

/-- The rest of a string of several lines with escape sequences. After a backslash at the end of a
line, all blanks and line breaks are passed over, which the flag records. -/
def multilineBasicBody? : Bool → Reader Text
  | _, [] => none
  | true, ' ' :: rest => multilineBasicBody? true rest
  | true, '\t' :: rest => multilineBasicBody? true rest
  | true, '\n' :: rest => multilineBasicBody? true rest
  | true, '\r' :: '\n' :: rest => multilineBasicBody? true rest
  | _, '\\' :: 'u' :: a :: b :: c :: d :: rest => do
    let char ← hexChar? [a, b, c, d]
    let (body, rest) ← multilineBasicBody? false rest
    some (char :: body, rest)
  | _, '\\' :: 'U' :: a :: b :: c :: d :: e :: f :: g :: h :: rest => do
    let char ← hexChar? [a, b, c, d, e, f, g, h]
    let (body, rest) ← multilineBasicBody? false rest
    some (char :: body, rest)
  | _, '\\' :: letter :: rest =>
    if continuesLine (letter :: rest) then
      multilineBasicBody? true (letter :: rest)
    else do
      let char ← escaped? letter
      let (body, rest) ← multilineBasicBody? false rest
      some (char :: body, rest)
  | _, '\r' :: '\n' :: rest => do
    let (body, rest) ← multilineBasicBody? false rest
    some ('\n' :: body, rest)
  | _, c :: rest =>
    match multilineEnd? '"' (c :: rest) with
    | some found => some found
    | none => do
      if (isPlain c || c = '\n') && c ≠ '\\' then
        let (body, rest) ← multilineBasicBody? false rest
        some (c :: body, rest)
      else none

/-- The rest of a string of several lines without escape sequences. -/
def multilineLiteralBody? : Reader Text
  | [] => none
  | '\r' :: '\n' :: rest => do
    let (body, rest) ← multilineLiteralBody? rest
    some ('\n' :: body, rest)
  | c :: rest =>
    match multilineEnd? '\'' (c :: rest) with
    | some found => some found
    | none => do
      if isPlain c || c = '\n' then
        let (body, rest) ← multilineLiteralBody? rest
        some (c :: body, rest)
      else none

/-- The text without a line break at its start. -/
def skipNewline (text : Text) : Text :=
  (afterNewline? text).getD text

/-- A string in one of the four notations. -/
def string? : Reader Text
  | '"' :: '"' :: '"' :: rest => multilineBasicBody? false (skipNewline rest)
  | '\'' :: '\'' :: '\'' :: rest => multilineLiteralBody? (skipNewline rest)
  | '"' :: rest => basicBody? rest
  | '\'' :: rest => literalBody? rest
  | _ => none

/-! ## Keys -/

/-- A character of a key without quotes. -/
def isBareKey (c : Char) : Bool :=
  c.isAlphanum || c = '-' || c = '_'

/-- One part of a key. -/
def simpleKey? : Reader Text
  | '"' :: rest => basicBody? rest
  | '\'' :: rest => literalBody? rest
  | text =>
    let name := text.takeWhile isBareKey
    if name = [] then none else some (name, text.dropWhile isBareKey)

/-- The parts of a dotted key, of which there are at most as many as the first argument says. -/
def keyParts? : Nat → Reader (List Text)
  | 0, _ => none
  | parts + 1, text => do
    let (first, rest) ← simpleKey? (skipBlanks text)
    match skipBlanks rest with
    | '.' :: rest => do
      let (others, rest) ← keyParts? parts rest
      some (first :: others, rest)
    | rest => some ([first], rest)

/-- Keys, arrays and inline tables nest less deeply than this. -/
def nestingLimit : Nat := 80

/-- A dotted key, with the blanks around its parts: the parts before the last one and the last
one. -/
def key? (text : Text) : Option ((List Text × Text) × Text) := do
  let (parts, rest) ← keyParts? (nestingLimit - 1) text
  let last ← parts.getLast?
  some ((parts.dropLast, last), rest)

end JsxCalls.Toml
