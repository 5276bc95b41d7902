import CSharpActions.Text.Basic

/-!
# UTF-8

Encoding of texts and decoding of bytes. Decoding reads as much of a character as the bytes
allow; a beginning that cannot be completed is dropped as one faulty unit.
-/
namespace CSharpActions.Text.Utf8

abbrev Bytes := List UInt8

/-- The bytes of a text, unless it holds half of a surrogate pair. -/
def encode? (t : Text) : Option Bytes :=
  (t.mapM CodePoint.char?).map fun cs => cs.flatMap String.utf8EncodeChar

/-- The number of bytes of a code point; half of a surrogate pair counts as the byte that it stands
for, or else as a character of its place. -/
def charSize (c : CodePoint) : Nat :=
  if c.isByte || c.toNat < 0x80 then 1
  else if c.toNat < 0x800 then 2
  else if c.toNat < 0x10000 then 3
  else 4

/-- The number of bytes of a text. -/
def size (t : Text) : Nat := t.foldl (fun n c => n + charSize c) 0

/-- What must follow the first byte of a character. -/
structure Lead where
  /-- The bits that the first byte gives. -/
  bits : Nat
  /-- The least byte that may follow. -/
  low : Nat
  /-- The greatest byte that may follow. -/
  high : Nat
  /-- The number of bytes that must follow. -/
  count : Nat
deriving DecidableEq, Repr

def lead? (b : Nat) : Option Lead :=
  if b < 0x80 then some ⟨b, 0x80, 0xBF, 0⟩
  else if 0xC2 ≤ b && b ≤ 0xDF then some ⟨b - 0xC0, 0x80, 0xBF, 1⟩
  else if b = 0xE0 then some ⟨0, 0xA0, 0xBF, 2⟩
  else if b = 0xED then some ⟨0xD, 0x80, 0x9F, 2⟩
  else if 0xE1 ≤ b && b ≤ 0xEF then some ⟨b - 0xE0, 0x80, 0xBF, 2⟩
  else if b = 0xF0 then some ⟨0, 0x90, 0xBF, 3⟩
  else if 0xF1 ≤ b && b ≤ 0xF3 then some ⟨b - 0xF0, 0x80, 0xBF, 3⟩
  else if b = 0xF4 then some ⟨4, 0x80, 0x8F, 3⟩
  else none

/-- Reads the bytes that complete a character: the character if they do, and how many were read. -/
def complete (bits low high : Nat) : Nat → Bytes → Option CodePoint × Nat
  | 0, _ => (some (.char (Char.ofNat bits)), 0)
  | _ + 1, [] => (none, 0)
  | count + 1, b :: r =>
    if low ≤ b.toNat && b.toNat ≤ high then
      let (c, n) := complete (bits * 64 + (b.toNat - 0x80)) 0x80 0xBF count r
      (c, n + 1)
    else (none, 0)

/-- The characters of a byte sequence, with `none` for each faulty unit. -/
def units : Bytes → List (Option CodePoint)
  | [] => []
  | b :: r =>
    match lead? b.toNat with
    | none => none :: units r
    | some l =>
      let (c, n) := complete l.bits l.low l.high l.count r
      c :: units (r.drop n)
termination_by bytes => bytes.length
decreasing_by all_goals simp only [List.length_cons, List.length_drop]; omega

/-- Decodes with U+FFFD in place of each faulty unit. -/
def decodeLossy (bytes : Bytes) : Text := (units bytes).map (·.getD '\uFFFD')

/-- Decodes if there is no faulty unit. -/
def decode? (bytes : Bytes) : Option Text := (units bytes).mapM id

/-- Drops one byte order mark at the beginning. -/
def dropMark : Text → Text
  | c :: r => if c = '\uFEFF' then r else c :: r
  | [] => []

end CSharpActions.Text.Utf8
