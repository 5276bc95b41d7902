import CSharpActions.Text.Utf8
import CSharpActions.Xml.Reader

/-!
# Encodings of documents

A document is handed over in UTF-8. If a byte of its first two is zero, it is read as units of two
bytes in one order or the other instead, although no mark says so.
-/
namespace CSharpActions.Xml

open Text.Utf8 (Bytes)

/-- Why a text is not read as a document. -/
inductive Failure where
  | malformed
  /-- The text holds half of a surrogate pair, and is not handed over at all. -/
  | unencodable
deriving DecidableEq, Repr

def Failure.message : Failure → Text
  | .malformed => "not well-formed"
  | .unencodable => Text.unencodableMessage

/-- What reads documents. -/
abbrev Parser := Text → Except Failure Element

/-- The order of the two bytes of a unit. -/
inductive ByteOrder where
  | big
  | little
deriving DecidableEq, Repr

/-- The order of the bytes, if a document begins with a unit of two bytes. -/
def byteOrder? : Bytes → Option ByteOrder
  | a :: b :: _ => if a = 0 then some .big else if b = 0 then some .little else none
  | _ => none

def ByteOrder.unit : ByteOrder → UInt8 → UInt8 → Nat
  | .big, a, b => 0x100 * a.toNat + b.toNat
  | .little, a, b => 0x100 * b.toNat + a.toNat

def units? (order : ByteOrder) : Bytes → Option (List Nat)
  | [] => some []
  | [_] => none
  | a :: b :: r => (units? order r).map (order.unit a b :: ·)

/-- The code points that units stand for. What follows the first half of a pair is taken for the
second half, whatever it is. -/
def ofUnits? : List Nat → Option Text
  | [] => some []
  | u :: r =>
    if 0xD800 ≤ u && u < 0xDC00 then
      match r with
      | [] => none
      | v :: r => (ofUnits? r).map (.ofNat (0x10000 + 0x400 * (u - 0xD800) + v % 0x400) :: ·)
    else if (0xDC00 ≤ u && u < 0xE000) || 0xFFFE ≤ u then none
    else (ofUnits? r).map (.ofNat u :: ·)

/-- The text as which a document is read. -/
def decoded? (source : Text) (bytes : Bytes) : Option Text :=
  match byteOrder? bytes with
  | none => some source
  | some order => (units? order bytes).bind ofUnits?

def read (source : Text) : Except Failure Element :=
  match Text.Utf8.encode? source with
  | none => .error .unencodable
  | some bytes =>
    match (decoded? source bytes).bind parse? with
    | none => .error .malformed
    | some root => .ok root

end CSharpActions.Xml
