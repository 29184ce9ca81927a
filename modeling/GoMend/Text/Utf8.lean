import GoMend.Text.Quoted

/-!
# Reading UTF-8

Bytes become text, or the first fault is reported with its place and its kind.  A fault covers
the bytes that could still have begun a character, so that the place is a range of offsets.
-/

namespace GoMend

namespace Text

/-- What is wrong with a byte sequence. -/
inductive Utf8Fault where
  | invalidStart
  | invalidContinuation
  | unexpectedEnd
  deriving DecidableEq, Repr

/-- The wording of a fault. -/
def Utf8Fault.reason : Utf8Fault → String
  | .invalidStart => "invalid start byte"
  | .invalidContinuation => "invalid continuation byte"
  | .unexpectedEnd => "unexpected end of data"

/-- A fault at the bytes from `start` on, `length` of them, the first of which is `byte`. -/
structure Utf8Error where
  start : Nat
  length : Nat
  byte : UInt8
  fault : Utf8Fault
  deriving DecidableEq, Repr

/-- The message of a decoding error: one offset for a single byte and a range for several. -/
def Utf8Error.message (error : Utf8Error) : String :=
  if error.length = 1 then
    s!"'utf-8' codec can't decode byte 0x" ++ hexadecimal 2 error.byte.toNat ++
      s!" in position {error.start}: " ++ error.fault.reason
  else
    s!"'utf-8' codec can't decode bytes in position {error.start}-" ++
      s!"{error.start + error.length - 1}: " ++ error.fault.reason

/-- Whether a byte goes on a character. -/
def isContinuation (byte : UInt8) : Bool :=
  0x80 ≤ byte.toNat && byte.toNat < 0xc0

/-- The number of bytes of a character that begins with the given byte. -/
def sequenceLength? (lead : UInt8) : Option Nat :=
  let code := lead.toNat
  if code < 0x80 then some 1
  else if code < 0xc2 then none
  else if code < 0xe0 then some 2
  else if code < 0xf0 then some 3
  else if code < 0xf5 then some 4
  else none

/-- Whether the second byte may follow the first one: it goes on a character, and the two do not
begin an overlong form, a surrogate or a code point past the last one. -/
def isSecond (lead second : UInt8) : Bool :=
  isContinuation second &&
    (if lead.toNat = 0xe0 then 0xa0 ≤ second.toNat
     else if lead.toNat = 0xed then second.toNat < 0xa0
     else if lead.toNat = 0xf0 then 0x90 ≤ second.toNat
     else if lead.toNat = 0xf4 then second.toNat < 0x90
     else true)

/-- How many of the bytes after the first one belong to its character. -/
def goodTail (lead : UInt8) : List UInt8 → Nat
  | [] => 0
  | second :: rest =>
      if isSecond lead second then 1 + (rest.takeWhile isContinuation).length else 0

/-- The code point of a lead byte and its continuation bytes. -/
def codePoint (lead : UInt8) (tail : List UInt8) : Nat :=
  let high :=
    match tail.length with
    | 0 => lead.toNat
    | 1 => lead.toNat % 0x20
    | 2 => lead.toNat % 0x10
    | _ => lead.toNat % 0x08
  tail.foldl (fun code byte => code * 0x40 + byte.toNat % 0x40) high

/-- Decode the bytes from an offset on. -/
def decodeUtf8From (offset : Nat) : List UInt8 → Except Utf8Error (List Char)
  | [] => .ok []
  | lead :: rest =>
      match sequenceLength? lead with
      | none => .error ⟨offset, 1, lead, .invalidStart⟩
      | some width =>
          let tail := rest.take (width - 1)
          let good := goodTail lead tail
          if good + 1 = width ∨ width = 1 then
            (decodeUtf8From (offset + width) (rest.drop (width - 1))).map
              (Char.ofNat (codePoint lead tail) :: ·)
          else if good = tail.length then
            .error ⟨offset, good + 1, lead, .unexpectedEnd⟩
          else
            .error ⟨offset, good + 1, lead, .invalidContinuation⟩
termination_by bytes => bytes.length
decreasing_by simp only [List.length_cons, List.length_drop]; omega

/-- The text that bytes encode, or the first fault in them. -/
def decodeUtf8 (bytes : List UInt8) : Except Utf8Error String :=
  (decodeUtf8From 0 bytes).map String.ofList

/-- The text with every line end, of whichever of the three forms, as a single line feed. -/
def unifyNewlines : List Char → List Char
  | [] => []
  | '\r' :: '\n' :: rest => '\n' :: unifyNewlines rest
  | '\r' :: rest => '\n' :: unifyNewlines rest
  | char :: rest => char :: unifyNewlines rest

end Text

end GoMend
