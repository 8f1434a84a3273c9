/-!
# Payloads as text

A payload is a sequence of bytes. `Bytes.ofText` writes a text as UTF-8.
`Bytes.toText` reads any payload as UTF-8: where a sequence breaks off, the
bytes that could still have begun a character become one replacement
character, and reading goes on at the byte that did not fit. So every maximal
broken piece costs exactly one replacement character, and nothing else is lost.

The reader is a machine that takes one byte at a time. Between two characters
it owes nothing; after a lead byte it owes `owed` further bytes, the next of
them from `low` to `high`. These two bounds are what excludes overlong forms,
surrogates and code points above `U+10FFFF`.
-/
namespace BrokeredRpc

abbrev Bytes := List UInt8

namespace Bytes

/-- A character that is under way: `owed` bytes are missing, the next one from
`low` to `high`, and `bits` are the payload bits read so far. -/
structure Partial where
  owed : Nat
  low : UInt8 := 0x80
  high : UInt8 := 0xBF
  bits : Nat
  deriving DecidableEq, Repr

/-- What stands for a broken sequence. -/
def replacement : Char := '\uFFFD'

/-- What a byte begins when no character is under way. -/
def start (b : UInt8) : List Char × Option Partial :=
  if b ≤ 0x7F then ([Char.ofNat b.toNat], none)
  else if 0xC2 ≤ b ∧ b ≤ 0xDF then ([], some { owed := 1, bits := b.toNat % 32 })
  else if b = 0xE0 then ([], some { owed := 2, low := 0xA0, bits := 0 })
  else if b = 0xED then ([], some { owed := 2, high := 0x9F, bits := 13 })
  else if 0xE1 ≤ b ∧ b ≤ 0xEF then ([], some { owed := 2, bits := b.toNat % 16 })
  else if b = 0xF0 then ([], some { owed := 3, low := 0x90, bits := 0 })
  else if 0xF1 ≤ b ∧ b ≤ 0xF3 then ([], some { owed := 3, bits := b.toNat % 8 })
  else if b = 0xF4 then ([], some { owed := 3, high := 0x8F, bits := 4 })
  else ([replacement], none)

/-- One byte: the characters it completes or breaks, and what is under way
after it. -/
def feed : Option Partial → UInt8 → List Char × Option Partial
  | none, b => start b
  | some p, b =>
    if p.low ≤ b ∧ b ≤ p.high then
      let bits := p.bits * 64 + b.toNat % 64
      if p.owed ≤ 1 then ([Char.ofNat bits], none)
      else ([], some { owed := p.owed - 1, bits })
    else (replacement :: (start b).1, (start b).2)

/-- The characters of the rest of a payload. -/
def charsFrom : Option Partial → Bytes → List Char
  | none, [] => []
  | some _, [] => [replacement]
  | s, b :: rest => (feed s b).1 ++ charsFrom (feed s b).2 rest

/-- A payload as text, each maximal broken piece as one replacement character. -/
def toText (bytes : Bytes) : String := String.ofList (charsFrom none bytes)

/-- The UTF-8 form of a text. -/
def ofText (text : String) : Bytes := text.toUTF8.data.toList

end Bytes

end BrokeredRpc
