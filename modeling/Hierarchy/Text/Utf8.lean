/-!
# Texts as bytes

The encoding of a text in UTF-8, and a decoding of any bytes: the longest starts of characters that
are not continued as they should be, and bytes that start no character, are each shown as one
replacement character.
-/

namespace Hierarchy.Text

def utf8 (s : String) : List UInt8 := s.toList.flatMap String.utf8EncodeChar

/-- A character of which some bytes were read. -/
structure Started where
  /-- How many bytes are missing. -/
  missing : Nat
  /-- The least and the greatest byte that may come next. -/
  low : UInt8
  high : UInt8
  /-- The bits read so far. -/
  bits : Nat

def replacement : Char := '\ufffd'

/-- Reads the first byte of a character. -/
def begin (b : UInt8) : List Char × Option Started :=
  let start (missing : Nat) (low high : UInt8) (bits : Nat) : List Char × Option Started :=
    ([], some ⟨missing, low, high, bits⟩)
  let n := b.toNat
  if n < 0x80 then ([Char.ofNat n], none)
  else if n < 0xC2 then ([replacement], none)
  else if n < 0xE0 then start 1 0x80 0xBF (n - 0xC0)
  else if n < 0xF0 then
    start 2 (if n = 0xE0 then 0xA0 else 0x80) (if n = 0xED then 0x9F else 0xBF) (n - 0xE0)
  else if n < 0xF5 then
    start 3 (if n = 0xF0 then 0x90 else 0x80) (if n = 0xF4 then 0x8F else 0xBF) (n - 0xF0)
  else ([replacement], none)

/-- Reads one byte: the characters that are complete with it, and what is left open. -/
def decodeByte (started : Option Started) (b : UInt8) : List Char × Option Started :=
  match started with
  | none => begin b
  | some s =>
    if s.low ≤ b ∧ b ≤ s.high then
      let bits := 64 * s.bits + (b.toNat - 0x80)
      if s.missing ≤ 1 then ([Char.ofNat bits], none)
      else ([], some ⟨s.missing - 1, 0x80, 0xBF, bits⟩)
    else
      let (chars, started) := begin b
      (replacement :: chars, started)

def decodeFrom (started : Option Started) : List UInt8 → List Char
  | [] => if started.isSome then [replacement] else []
  | b :: bytes =>
    let (chars, started) := decodeByte started b
    chars ++ decodeFrom started bytes

/-- The text that bytes stand for. -/
def ofUtf8 (bytes : List UInt8) : String := String.ofList (decodeFrom none bytes)

end Hierarchy.Text
