import CertEnrollment.Scanner
import CertEnrollment.Text.Digits

/-!
# Blanks, strings and keys of TOML

Comments, line ends, the four kinds of strings, and keys, which are names with dots
between them.
-/
namespace CertEnrollment.Toml
open Scanner

/-- A scanner of TOML text. -/
abbrev Reader (α : Type) := Scanner Char α

/-! ## Between the words -/

def isBlank (c : Char) : Bool := c == ' ' || c == '\t'

def blanks : Reader Unit := do
  let _ ← span isBlank

def lineFeed : Reader Unit := exactly ['\n'] <|> exactly ['\r', '\n']

/-- Whether a character may stand in a text as it is: no control character but the tab. -/
def isPlain (c : Char) : Bool := c == '\t' || (0x20 ≤ c.toNat && c.toNat != 0x7F)

def comment : Reader Unit := do
  exactly ['#']
  let _ ← span isPlain

/-- What may follow the last word of a line. -/
def lineRest : Reader Unit := do
  blanks
  let _ ← optional comment
  lineFeed <|> atEnd

/-- Blanks, line ends and comments, as they may stand inside an array. -/
def gap : Reader Unit := do
  let _ ← many do
    (do let _ ← run isBlank) <|> lineFeed <|> do
      comment
      lineFeed

/-! ## Strings -/

/-- A character given by so many hexadecimal digits. -/
def codePoint (digits : Nat) : Reader Char := do
  match Text.numberIn? 16 (← take digits) with
  | none => failure
  | some n => if h : n.isValidChar then return Char.ofNatAux n h else failure

/-- An escape sequence. -/
def escaped : Reader Char := do
  exactly ['\\']
  match ← next with
  | 'b' => return '\x08'
  | 't' => return '\t'
  | 'n' => return '\n'
  | 'f' => return '\x0c'
  | 'r' => return '\r'
  | '"' => return '"'
  | '\\' => return '\\'
  | 'u' => codePoint 4
  | 'U' => codePoint 8
  | _ => failure

/-- A backslash at the end of a line: all blanks and line ends after it are left out. -/
def foldedLine : Reader Unit := do
  exactly ['\\']
  blanks
  lineFeed
  let _ ← many ((do let _ ← run isBlank) <|> lineFeed)

/-- A piece of a basic string: characters as they are, or an escape sequence. -/
def basicPiece : Reader (List Char) :=
  run (fun c => isPlain c && c != '"' && c != '\\') <|> do return [← escaped]

def basicString : Reader String := do
  exactly ['"']
  let pieces ← many basicPiece
  exactly ['"']
  return String.ofList pieces.flatten

def literalString : Reader String := do
  exactly ['\'']
  let cs ← span fun c => isPlain c && c != '\''
  exactly ['\'']
  return String.ofList cs

/-- One or two quotes within a string of several lines. -/
def innerQuotes (quote : Char) : Reader (List Char) := do
  let quotes ← run (· == quote)
  if quotes.length ≤ 2 then return quotes else failure

/-- The three quotes at the end of a string of several lines, with one or two before
them that belong to the string. -/
def closingQuotes (quote : Char) : Reader (List Char) := do
  let quotes ← run (· == quote)
  if 3 ≤ quotes.length ∧ quotes.length ≤ 5 then return quotes.drop 3 else failure

/-- A string of several lines, made of such pieces. A line end right at the start does
not count. -/
def multiline (quote : Char) (piece : Reader (List Char)) : Reader String := do
  exactly [quote, quote, quote]
  let _ ← optional lineFeed
  let pieces ← many (piece <|> innerQuotes quote)
  return String.ofList (pieces.flatten ++ (← closingQuotes quote))

/-- A line end is a line feed, however it is written. -/
def lineBreak : Reader (List Char) := do
  lineFeed
  return ['\n']

def multilineBasic : Reader String := multiline '"' do
  (do foldedLine; return []) <|> basicPiece <|> lineBreak

def multilineLiteral : Reader String := multiline '\'' do
  run (fun c => isPlain c && c != '\'') <|> lineBreak

def string : Reader String :=
  multilineBasic <|> basicString <|> multilineLiteral <|> literalString

/-! ## Keys -/

/-- A character of a name without quotes. -/
def isNameChar (c : Char) : Bool := c.isAlphanum || c == '_' || c == '-'

def name : Reader String :=
  basicString <|> literalString <|> do return String.ofList (← run isNameChar)

/-- How deep keys and values may go. -/
def maxDepth : Nat := 79

/-- The names of a key with dots and blanks between them. -/
def key : Reader (List String) := do
  let part : Reader String := do
    blanks
    let part ← name
    blanks
    return part
  let parts ← separated part (exactly ['.'])
  if parts.length ≤ maxDepth then return parts else failure

end CertEnrollment.Toml
