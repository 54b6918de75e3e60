import Hierarchy.Output.Document
import Hierarchy.Output.Number

/-!
# Writing documents as JSON

Lists and records are spread over lines, one item or field each, two blanks deeper than what holds
them; empty ones stay on their line.  Text is escaped where JSON demands it and nowhere else.
-/

namespace Hierarchy.Json

def hexDigit (n : Nat) : Char := (Nat.toDigits 16 (n % 16)).headD '0'

/-- The escape of a control character that has no short form. -/
def unicodeEscape (n : Nat) : List Char :=
  ['\\', 'u', hexDigit (n / 4096), hexDigit (n / 256), hexDigit (n / 16), hexDigit n]

def escapeChar (c : Char) : List Char :=
  match c with
  | '"' => ['\\', '"']
  | '\\' => ['\\', '\\']
  | '\n' => ['\\', 'n']
  | '\r' => ['\\', 'r']
  | '\t' => ['\\', 't']
  | '\x08' => ['\\', 'b']
  | '\x0c' => ['\\', 'f']
  | c => if c.toNat < 0x20 then unicodeEscape c.toNat else [c]

def quote (s : String) : String :=
  "\"" ++ String.ofList (s.toList.flatMap escapeChar) ++ "\""

/-- A new line, indented. -/
def newline (indent : Nat) : String := "\n" ++ String.ofList (List.replicate indent ' ')

mutual

def write (indent : Nat) : Document → String
  | .null => "null"
  | .bool b => if b then "true" else "false"
  | .int n => toString n
  | .number x => x.documentText
  | .text s => quote s
  | .list [] => "[]"
  | .list (item :: items) =>
    "[" ++ writeItems (indent + 2) (item :: items) ++ newline indent ++ "]"
  | .record [] => "\x7b\x7d"
  | .record (field :: fields) =>
    "\x7b" ++ writeFields (indent + 2) (field :: fields) ++ newline indent ++ "\x7d"

def writeItems (indent : Nat) : List Document → String
  | [] => ""
  | [item] => newline indent ++ write indent item
  | item :: items => newline indent ++ write indent item ++ "," ++ writeItems indent items

def writeFields (indent : Nat) : List (String × Document) → String
  | [] => ""
  | [(key, value)] => newline indent ++ quote key ++ ": " ++ write indent value
  | (key, value) :: fields =>
    newline indent ++ quote key ++ ": " ++ write indent value ++ "," ++ writeFields indent fields

end

end Hierarchy.Json
