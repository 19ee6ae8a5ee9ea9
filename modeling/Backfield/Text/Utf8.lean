/-!
# Text as bytes

Encoding of text in UTF-8, and decoding that tells where and how bytes fail to be one.
A byte order mark before the text is no part of it.
-/

namespace Backfield.Text.Utf8

/-- The bytes of a text. -/
def encode (text : String) : List UInt8 :=
  text.toList.flatMap String.utf8EncodeChar

/-- Why bytes are not the encoding of a text. -/
inductive Reason
  | invalidStart
  | invalidContinuation
  | endOfData
  deriving DecidableEq, Repr

def Reason.text : Reason → String
  | .invalidStart => "invalid start byte"
  | .invalidContinuation => "invalid continuation byte"
  | .endOfData => "unexpected end of data"

/-- A sequence of bytes that no character is encoded by: its first byte, its position,
its length and what is wrong. -/
structure Fault where
  first : UInt8
  position : Nat
  length : Nat
  reason : Reason
  deriving DecidableEq, Repr

/-- A byte inside a character's encoding. -/
def isContinuation (b : UInt8) : Bool := 0x80 ≤ b && b ≤ 0xbf

/-- The second bytes that may follow a first byte of three or four.  The limits exclude
overlong encodings, surrogates and what lies beyond the last code point. -/
def isSecond (first second : UInt8) : Bool :=
  isContinuation second &&
    (if first == 0xe0 then 0xa0 ≤ second
     else if first == 0xed then second ≤ 0x9f
     else if first == 0xf0 then 0x90 ≤ second
     else if first == 0xf4 then second ≤ 0x8f
     else true)

/-- The six value bits of a byte inside an encoding. -/
def bits (b : UInt8) : Nat := b.toNat % 64

/-- Decodes bytes whose first stands at `position`. -/
def decodeFrom (position : Nat) : List UInt8 → Except Fault (List Char)
  | [] => .ok []
  | a :: rest =>
    let fault (length : Nat) (reason : Reason) : Except Fault (List Char) :=
      .error ⟨a, position, length, reason⟩
    if a < 0x80 then
      (decodeFrom (position + 1) rest).map (Char.ofNat a.toNat :: ·)
    else if a < 0xc2 || 0xf4 < a then fault 1 .invalidStart
    else if a < 0xe0 then
      match rest with
      | [] => fault 1 .endOfData
      | b :: rest =>
        if !isContinuation b then fault 1 .invalidContinuation
        else (decodeFrom (position + 2) rest).map (Char.ofNat ((a.toNat % 32) * 64 + bits b) :: ·)
    else if a < 0xf0 then
      match rest with
      | [] => fault 1 .endOfData
      | [b] => if isSecond a b then fault 2 .endOfData else fault 1 .invalidContinuation
      | b :: c :: rest =>
        if !isSecond a b then fault 1 .invalidContinuation
        else if !isContinuation c then fault 2 .invalidContinuation
        else
          (decodeFrom (position + 3) rest).map
            (Char.ofNat ((a.toNat % 16) * 4096 + bits b * 64 + bits c) :: ·)
    else
      match rest with
      | [] => fault 1 .endOfData
      | [b] => if isSecond a b then fault 2 .endOfData else fault 1 .invalidContinuation
      | [b, c] =>
        if !isSecond a b then fault 1 .invalidContinuation
        else if !isContinuation c then fault 2 .invalidContinuation
        else fault 3 .endOfData
      | b :: c :: d :: rest =>
        if !isSecond a b then fault 1 .invalidContinuation
        else if !isContinuation c then fault 2 .invalidContinuation
        else if !isContinuation d then fault 3 .invalidContinuation
        else
          (decodeFrom (position + 4) rest).map
            (Char.ofNat ((a.toNat % 8) * 262144 + bits b * 4096 + bits c * 64 + bits d) :: ·)

/-- The bytes without a byte order mark before them. -/
def dropMark : List UInt8 → List UInt8
  | 0xef :: 0xbb :: 0xbf :: rest => rest
  | bytes => bytes

/-- The text of a file.  Positions of faults count after a byte order mark. -/
def decode (bytes : List UInt8) : Except Fault String :=
  (decodeFrom 0 (dropMark bytes)).map String.ofList

end Backfield.Text.Utf8
