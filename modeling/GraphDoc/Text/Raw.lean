import GraphDoc.Text.Quoted

/-!
# Raw texts

Arguments of a command line and names of files are bytes, and need not encode a text. Where they
are read as text, a replacement character stands for each encoding that breaks off.
-/
namespace GraphDoc

/-- Bytes that are mostly meant to encode a text. -/
structure RawText where
  bytes : List UInt8
deriving DecidableEq, Repr

namespace RawText

def ofString (text : String) : RawText := ⟨text.toUTF8.data.toList⟩

instance : Coe String RawText := ⟨ofString⟩

instance : Coe (List String) (List RawText) := ⟨List.map ofString⟩

/-! ## Pieces -/

inductive Piece where
  | char (c : Char)
  /-- An encoding that breaks off. -/
  | broken (bytes : List UInt8)
deriving DecidableEq, Repr

/-- The character that is encoded at the start. -/
def firstChar? (bytes : List UInt8) : Option Char :=
  (bytes.take 4).toByteArray.utf8DecodeChar? 0

/-- Whether the byte can be a later one of an encoding. -/
def isTail (byte : UInt8) : Bool := 0x80 ≤ byte && byte ≤ 0xbf

/-- Whether the two bytes can start an encoding of three or four. -/
def canStart (first second : UInt8) : Bool :=
  if first = 0xe0 then 0xa0 ≤ second && second ≤ 0xbf
  else if first = 0xed then 0x80 ≤ second && second ≤ 0x9f
  else if first = 0xf0 then 0x90 ≤ second && second ≤ 0xbf
  else if first = 0xf4 then 0x80 ≤ second && second ≤ 0x8f
  else 0xe0 ≤ first && first < 0xf4 && isTail second

/-- How many bytes the encoding at the start has before it breaks off. One that cannot be the start
of an encoding stands alone. -/
def brokenLength : List UInt8 → Nat
  | first :: second :: third :: _ =>
    if !canStart first second then 1
    else if 0xf0 ≤ first && isTail third then 3
    else 2
  | [first, second] => if canStart first second then 2 else 1
  | _ => 1

/-- The pieces that follow the first bytes, which a piece has taken before. -/
def piecesFrom : (taken : Nat) → List UInt8 → List Piece
  | _, [] => []
  | taken + 1, _ :: bytes => piecesFrom taken bytes
  | 0, first :: rest =>
    match firstChar? (first :: rest) with
    | some c => .char c :: piecesFrom (c.utf8Size - 1) rest
    | none =>
      let length := brokenLength (first :: rest)
      .broken ((first :: rest).take length) :: piecesFrom (length - 1) rest

def pieces (raw : RawText) : List Piece := piecesFrom 0 raw.bytes

/-! ## Reading as text -/

/-- The character that stands for the piece. -/
def Piece.shown : Piece → Char
  | char c => c
  | broken _ => '\ufffd'

/-- The text, with a replacement character for each encoding that breaks off. -/
def shown (raw : RawText) : String := String.ofList (raw.pieces.map Piece.shown)

def Piece.isChar : Piece → Bool
  | char _ => true
  | broken _ => false

/-- The text, if no encoding breaks off. -/
def text? (raw : RawText) : Option String :=
  if raw.pieces.all Piece.isChar then some raw.shown else none

/-- A byte as an escape with two digits. -/
def quoteByte (byte : UInt8) : List Char :=
  ['\\', 'x', (Nat.digitChar (byte.toNat / 16)).toUpper,
    (Nat.digitChar (byte.toNat % 16)).toUpper]

def Piece.quoted : Piece → List Char
  | char c => Text.quoteChar c
  | broken bytes => bytes.flatMap quoteByte

/-- The text between double quotes as messages show it, with an escape for each byte of an encoding
that breaks off. -/
def quoted (raw : RawText) : String :=
  String.ofList ('"' :: (raw.pieces.flatMap Piece.quoted ++ ['"']))

end RawText

end GraphDoc
