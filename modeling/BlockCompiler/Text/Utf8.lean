import BlockCompiler.Text.Shown

/-!
Reading UTF-8, and saying where it first goes wrong. Halves of surrogate pairs, which a text may hold besides
characters, have no bytes in UTF-8.
-/

namespace BlockCompiler

/-- What is wrong with some bytes. -/
inductive Utf8Fault where
  | startByte
  | continuationByte
  | endOfData
  deriving DecidableEq, Repr

/-- Bytes that are no UTF-8: the first of the bytes at fault, their positions and what is wrong. -/
structure Utf8Error where
  byte : Nat
  first : Nat
  last : Nat
  fault : Utf8Fault
  deriving DecidableEq, Repr

/-- What a fault is called. -/
def Utf8Fault.message : Utf8Fault → String
  | .startByte => "invalid start byte"
  | .continuationByte => "invalid continuation byte"
  | .endOfData => "unexpected end of data"

/-- What a UTF-8 error says. -/
def Utf8Error.message (error : Utf8Error) : String :=
  let place :=
    if error.first = error.last then
      let byte := String.ofList (hexDigits 2 error.byte)
      s!"byte 0x{byte} in position {error.first}"
    else s!"bytes in position {error.first}-{error.last}"
  s!"'utf-8' codec can't decode {place}: {error.fault.message}"

/-- A character begun: its leading byte and where that stands, how many bytes are missing, the range in
which the next one must lie, and the bits so far. -/
structure Utf8Begun where
  byte : Nat
  first : Nat
  missing : Nat
  low : Nat
  high : Nat
  bits : Nat

/-- What a leading byte of several bytes announces, when it stands at a position. -/
def Utf8Begun.ofByte? (byte position : Nat) : Option Utf8Begun :=
  if byte < 0xc2 then none
  else if byte < 0xe0 then some ⟨byte, position, 1, 0x80, 0xbf, byte % 0x20⟩
  else if byte = 0xe0 then some ⟨byte, position, 2, 0xa0, 0xbf, byte % 0x10⟩
  else if byte = 0xed then some ⟨byte, position, 2, 0x80, 0x9f, byte % 0x10⟩
  else if byte < 0xf0 then some ⟨byte, position, 2, 0x80, 0xbf, byte % 0x10⟩
  else if byte = 0xf0 then some ⟨byte, position, 3, 0x90, 0xbf, byte % 0x08⟩
  else if byte < 0xf4 then some ⟨byte, position, 3, 0x80, 0xbf, byte % 0x08⟩
  else if byte = 0xf4 then some ⟨byte, position, 3, 0x80, 0x8f, byte % 0x08⟩
  else none

/-- Read bytes from a position on, in the middle of a character or between characters. -/
def readUtf8From (position : Nat) : Option Utf8Begun → List UInt8 → Except Utf8Error (List Char)
  | none, [] => .ok []
  | some begun, [] => .error ⟨begun.byte, begun.first, position - 1, .endOfData⟩
  | none, b :: rest =>
    if b.toNat < 0x80 then (Char.ofNat b.toNat :: ·) <$> readUtf8From (position + 1) none rest
    else
      match Utf8Begun.ofByte? b.toNat position with
      | some begun => readUtf8From (position + 1) (some begun) rest
      | none => .error ⟨b.toNat, position, position, .startByte⟩
  | some begun, b :: rest =>
    if begun.low ≤ b.toNat ∧ b.toNat ≤ begun.high then
      let bits := 0x40 * begun.bits + b.toNat % 0x40
      if begun.missing = 1 then (Char.ofNat bits :: ·) <$> readUtf8From (position + 1) none rest
      else
        let next := ⟨begun.byte, begun.first, begun.missing - 1, 0x80, 0xbf, bits⟩
        readUtf8From (position + 1) (some next) rest
    else .error ⟨begun.byte, begun.first, position - 1, .continuationByte⟩

/-- The characters of some bytes. -/
def readUtf8 (bytes : List UInt8) : Except Utf8Error (List Char) := readUtf8From 0 none bytes

/-- The character that stands in for a lone half of a surrogate pair. It is assigned to nothing. -/
def standIn (half : Nat) : Char := Char.ofNat (0xd0000 + half)

/-- Whether a character stands in for a lone half, in a text that has such halves. -/
def isStandIn (c : Char) : Bool := 0xdd800 ≤ c.toNat && c.toNat < 0xde000

/-- Whether some character of a text stands in for a lone half. -/
def holdsHalf (text : String) : Bool := text.toList.any isStandIn

/-- What is said of a text that cannot be written in UTF-8: where its first halves stand. -/
def unencodableMessage (text : String) : String :=
  let first := (text.toList.takeWhile (!isStandIn ·)).length
  let halves := (text.toList.drop first).takeWhile isStandIn
  let place :=
    match halves with
    | [half] =>
      let code := String.ofList (hexDigits 4 (half.toNat - 0xd0000))
      s!"character '\\u{code}' in position {first}"
    | halves => s!"characters in position {first}-{first + halves.length - 1}"
  s!"'utf-8' codec can't encode {place}: surrogates not allowed"

/-- Line ends of all kinds become line feeds. -/
def unifyLineEnds : List Char → List Char
  | [] => []
  | '\r' :: '\n' :: rest => '\n' :: unifyLineEnds rest
  | c :: rest => (if c = '\r' then '\n' else c) :: unifyLineEnds rest

end BlockCompiler
