/-!
# Text — Utf8

Reading bytes as UTF-8 when they need not be valid: every maximal piece that begins a character
and cannot be completed, and every byte that begins none, reads as U+FFFD.  A byte below `0x80`
never continues a character, so text can be cut after one without changing what it reads as.
-/

namespace Reckon.Utf8

/-- What stands for a piece that is not UTF-8. -/
def replacement : Char := Char.ofNat 0xFFFD

/-- A character of which some bytes have been read: the bits so far, how many bytes are missing,
and the range the next byte has to lie in. -/
structure Lead where
  bits : Nat
  missing : Nat
  low : UInt8 := 0x80
  high : UInt8 := 0xBF

/-- The start of a character of several bytes.  The ranges of the second byte leave out overlong
forms, surrogates and what lies above U+10FFFF. -/
def Lead.ofByte? (b : UInt8) : Option Lead :=
  let bits (mask : UInt8) : Nat := (b &&& mask).toNat
  if b < 0xC2 then none
  else if b < 0xE0 then some { bits := bits 0x1F, missing := 1 }
  else if b = 0xE0 then some { bits := bits 0x0F, missing := 2, low := 0xA0 }
  else if b = 0xED then some { bits := bits 0x0F, missing := 2, high := 0x9F }
  else if b < 0xF0 then some { bits := bits 0x0F, missing := 2 }
  else if b = 0xF0 then some { bits := bits 0x07, missing := 3, low := 0x90 }
  else if b < 0xF4 then some { bits := bits 0x07, missing := 3 }
  else if b = 0xF4 then some { bits := bits 0x07, missing := 3, high := 0x8F }
  else none

/-- The byte can be the next byte of the character. -/
def Lead.accepts (l : Lead) (b : UInt8) : Bool := l.low ≤ b && b ≤ l.high

/-- The bits with those of one more byte. -/
def Lead.extend (l : Lead) (b : UInt8) : Nat := l.bits * 64 + (b &&& 0x3F).toNat

/-- The characters read so far, and the character being read, if any. -/
structure Decoder where
  out : Array Char := #[]
  lead : Option Lead := none

namespace Decoder

/-- Read a byte where a character begins. -/
def start (out : Array Char) (b : UInt8) : Decoder :=
  if b < 0x80 then { out := out.push (Char.ofNat b.toNat) }
  else match Lead.ofByte? b with
    | some l => { out, lead := some l }
    | none => { out := out.push replacement }

/-- Read one more byte. -/
def feed (d : Decoder) (b : UInt8) : Decoder :=
  match d.lead with
  | none => start d.out b
  | some l =>
    if l.accepts b then
      if l.missing ≤ 1 then { out := d.out.push (Char.ofNat (l.extend b)) }
      else { out := d.out, lead := some { bits := l.extend b, missing := l.missing - 1 } }
    else start (d.out.push replacement) b

/-- The characters, when no more bytes follow. -/
def finish (d : Decoder) : Array Char :=
  match d.lead with
  | none => d.out
  | some _ => d.out.push replacement

end Decoder

/-- The text the bytes read as. -/
def decode (bytes : List UInt8) : List Char :=
  (bytes.foldl Decoder.feed {}).finish.toList

end Reckon.Utf8
