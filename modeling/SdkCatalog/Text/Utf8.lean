/-! UTF-8. Reading stops at the first byte sequence that spells no character and tells where it
stands, how long it is and what is wrong with it. Raw texts may hold what has no bytes. -/

namespace SdkCatalog.Utf8

inductive Reason where
  /-- No character starts with this byte. -/
  | invalidStart
  /-- The next byte does not continue the character. -/
  | invalidContinuation
  /-- The text ends inside the character. -/
  | unexpectedEnd
  deriving DecidableEq

/-- A byte sequence that spells no character: its first byte, its place and its length. -/
structure Fault where
  first : UInt8
  position : Nat
  length : Nat
  reason : Reason
  deriving DecidableEq

def Reason.message : Reason → String
  | .invalidStart => "invalid start byte"
  | .invalidContinuation => "invalid continuation byte"
  | .unexpectedEnd => "unexpected end of data"

def hexByte (byte : UInt8) : String :=
  String.ofList [Nat.digitChar (byte.toNat / 16), Nat.digitChar (byte.toNat % 16)]

def Fault.message (fault : Fault) : String :=
  let place :=
    if fault.length = 1 then
      s!"byte 0x{hexByte fault.first} in position {fault.position}"
    else
      s!"bytes in position {fault.position}-{fault.position + fault.length - 1}"
  s!"'utf-8' codec can't decode {place}: {fault.reason.message}"

/-- What a first byte announces: the bits it gives, how many bytes continue the character, and the
least and greatest value of the first of those. -/
structure Lead where
  bits : Nat
  continuations : Nat
  least : Nat
  greatest : Nat

def lead? (byte : UInt8) : Option Lead :=
  let b := byte.toNat
  if b < 0x80 then some ⟨b, 0, 0x80, 0xBF⟩
  else if b < 0xC2 then none
  else if b < 0xE0 then some ⟨b - 0xC0, 1, 0x80, 0xBF⟩
  -- Narrower bounds leave out overlong spellings, surrogates and what is beyond Unicode.
  else if b = 0xE0 then some ⟨0, 2, 0xA0, 0xBF⟩
  else if b = 0xED then some ⟨0xD, 2, 0x80, 0x9F⟩
  else if b < 0xF0 then some ⟨b - 0xE0, 2, 0x80, 0xBF⟩
  else if b = 0xF0 then some ⟨0, 3, 0x90, 0xBF⟩
  else if b < 0xF4 then some ⟨b - 0xF0, 3, 0x80, 0xBF⟩
  else if b = 0xF4 then some ⟨4, 3, 0x80, 0x8F⟩
  else none

/-- The longest run of bytes, of at most the announced number, that continue a character. -/
def continuations (least greatest : Nat) : Nat → List UInt8 → List UInt8
  | 0, _ => []
  | _ + 1, [] => []
  | n + 1, byte :: rest =>
    if least ≤ byte.toNat ∧ byte.toNat ≤ greatest then
      byte :: continuations 0x80 0xBF n rest
    else []

/-- The code point of the bits of a first byte and of the bytes that continue it. -/
def codePoint (bits : Nat) (more : List UInt8) : Nat :=
  more.foldl (fun total byte => total * 64 + byte.toNat % 64) bits

/-- The text that bytes spell, the first byte standing at the given position. -/
def decodeFrom (position : Nat) : List UInt8 → Except Fault (List Char)
  | [] => .ok []
  | first :: rest =>
    match lead? first with
    | none => .error ⟨first, position, 1, .invalidStart⟩
    | some lead =>
      let more := continuations lead.least lead.greatest lead.continuations rest
      let size := more.length + 1
      if more.length = lead.continuations then
        (decodeFrom (position + size) (rest.drop more.length)).map
          (Char.ofNat (codePoint lead.bits more) :: ·)
      else if more.length = rest.length then .error ⟨first, position, size, .unexpectedEnd⟩
      else .error ⟨first, position, size, .invalidContinuation⟩
termination_by bytes => bytes.length
decreasing_by
  simp only [List.length_drop, List.length_cons]
  omega

def decode (bytes : List UInt8) : Except Fault (List Char) :=
  decodeFrom 0 bytes

/-- The bytes without a byte-order mark in front. -/
def dropMark : List UInt8 → List UInt8
  | 0xEF :: 0xBB :: 0xBF :: rest => rest
  | bytes => bytes

def encode (cs : List Char) : List UInt8 :=
  cs.flatMap String.utf8EncodeChar

end SdkCatalog.Utf8

namespace SdkCatalog

/-- A part of a raw text: a character, or one of the halves of surrogate pairs, which stand for what
is no character, such as a stray byte in the name of a file. -/
inductive RawChar where
  | char (c : Char)
  | half (number : Fin 0x800)
  deriving DecidableEq

abbrev RawText := List RawChar

def RawChar.char? : RawChar → Option Char
  | char c => some c
  | half _ => none

/-- A half is shown by its code point. -/
def RawChar.shown : RawChar → List Char
  | char c => [c]
  | half number => '\\' :: 'u' :: Nat.toDigits 16 (0xD800 + number)

namespace RawText

def ofString (text : String) : RawText :=
  text.toList.map .char

/-- The characters of a text without halves. -/
def chars? (text : RawText) : Option (List Char) :=
  text.mapM RawChar.char?

/-- The bytes of a text. There are none for a text with a half in it. -/
def encode? (text : RawText) : Option (List UInt8) :=
  text.chars?.map Utf8.encode

def shown (text : RawText) : String :=
  String.ofList (text.flatMap RawChar.shown)

end RawText

end SdkCatalog
