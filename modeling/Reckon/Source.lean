import Reckon.Text.Utf8

/-!
# Source

What a scanner is answered when it asks for characters, one answer after the other.  A reader hands
on its bytes line by line: a line is read as text when it is complete, and the next one is read when
a character of it is asked for, so no more of the input is needed than the line being typed
(`Reader.ask`).  The source over a reader is all that it answers (`Source.ofDeliveries`).
-/

namespace Reckon

/-- An answer to the request for a character. -/
inductive Reply where
  /-- the next character -/
  | char (c : Char)
  /-- no character now -/
  | dry
  /-- no character, because reading failed -/
  | broken (reason : String)
  deriving DecidableEq

/-- The character of a reply, if it has one. -/
def Reply.char? : Reply → Option Char
  | .char c => some c
  | _ => none

/-- The replies still to come.  After the last one the source is dry for ever. -/
abbrev Source := List Reply

/-- What a reader does when it is asked for bytes. -/
inductive Delivery where
  /-- hand over these bytes; none at all means that nothing follows for the time being -/
  | bytes (bs : List UInt8)
  /-- be interrupted, and be asked again -/
  | interrupted
  /-- fail -/
  | failed (reason : String)

/-- A reader that is asked for characters: the deliveries it has not asked for, the bytes that have
been delivered and not been read, and the characters of the line that are left. -/
structure Reader where
  deliveries : List Delivery
  buffer : List UInt8 := []
  line : List Char := []

namespace Reader

/-- The bytes up to the first newline, and those behind it. -/
def cutLine : List UInt8 → Option (List UInt8 × List UInt8)
  | [] => none
  | b :: bs =>
    if b = 0x0A then some ([b], bs)
    else (cutLine bs).map fun (line, rest) => (b :: line, rest)

/-- Ask for bytes until the line begun is complete.  When the reader has nothing, the line is what
has been begun; when it fails, that is lost. -/
def fetchLine (begun : List UInt8) : List Delivery → Except String (List UInt8) × Reader
  | [] => (.ok begun, { deliveries := [] })
  | .bytes [] :: later => (.ok begun, { deliveries := later })
  | .bytes bs :: later =>
    match cutLine bs with
    | some (line, buffer) => (.ok (begun ++ line), { deliveries := later, buffer })
    | none => fetchLine (begun ++ bs) later
  | .interrupted :: later => fetchLine begun later
  | .failed reason :: later => (.error reason, { deliveries := later })

/-- The bytes of the next line, and the reader behind them.  Bytes are asked for if none of those at
hand is a newline. -/
def readLine (r : Reader) : Except String (List UInt8) × Reader :=
  match cutLine r.buffer with
  | some (line, buffer) => (.ok line, { deliveries := r.deliveries, buffer })
  | none => fetchLine r.buffer r.deliveries

/-- The first character of a line that has been read.  An empty line means that there is nothing for
the time being. -/
def handOn : Except String (List UInt8) × Reader → Reply × Reader
  | (.error reason, r) => (.broken reason, r)
  | (.ok bytes, r) =>
    match Utf8.decode bytes with
    | [] => (.dry, r)
    | c :: line => (.char c, { r with line })

/-- The next character.  The next line is read when none is left of the last one. -/
def ask (r : Reader) : Reply × Reader :=
  match r.line with
  | c :: line => (.char c, { r with line })
  | [] => handOn r.readLine

end Reader

namespace Source

/-- The source of a text. -/
def ofText (text : String) : Source := text.toList.map .char

/-- The replies so far, and the bytes of the line that is not complete yet. -/
structure Intake where
  replies : Array Reply := #[]
  line : Array UInt8 := #[]

namespace Intake

/-- The bytes of the line are handed on as text. -/
def flush (i : Intake) : Intake where
  replies := i.replies ++ (Utf8.decode i.line.toList).map Reply.char
  line := #[]

/-- One more byte; a newline completes the line. -/
def byte (i : Intake) (b : UInt8) : Intake :=
  let i := { i with line := i.line.push b }
  if b = 0x0A then i.flush else i

/-- One more delivery.  When the reader has nothing, a line begun is handed on as it stands; when
it fails, a line begun is lost. -/
def deliver (i : Intake) : Delivery → Intake
  | .bytes [] => if i.line.isEmpty then { i with replies := i.replies.push .dry } else i.flush
  | .bytes bs => bs.foldl byte i
  | .interrupted => i
  | .failed reason => { replies := i.replies.push (.broken reason) }

end Intake

/-- The source over a reader that makes these deliveries and has nothing more afterwards. -/
def ofDeliveries (ds : List Delivery) : Source :=
  (ds.foldl Intake.deliver {}).flush.replies.toList

/-- The source over these bytes. -/
def ofBytes (bs : List UInt8) : Source := ofDeliveries [.bytes bs]

/-- The characters up to the first reply without one. -/
def text (s : Source) : List Char :=
  (s.takeWhile (·.char?.isSome)).filterMap Reply.char?

/-- What is left after the first reply that has no character, and that reply. -/
def afterText (s : Source) : Option Reply × Source :=
  match s.dropWhile (·.char?.isSome) with
  | [] => (none, [])
  | r :: rest => (some r, rest)

end Source

end Reckon
