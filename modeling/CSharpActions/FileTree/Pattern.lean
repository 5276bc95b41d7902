import CSharpActions.FileTree.Path

/-!
# Patterns

A pattern describes paths: names between slashes, in which a star stands for any run of characters,
a question mark for any character and brackets for a set of characters, and two stars for any number
of directories.
-/
namespace CSharpActions

namespace Pattern

inductive Piece where
  | any
  | one
  | literal (c : CodePoint)
  | set (negated : Bool) (ranges : List (CodePoint × CodePoint))
deriving DecidableEq, Repr

/-- The parts of a set between the hyphens that make ranges. No hyphen makes one among the first
`skip` characters, among the two after another one, or at the end. -/
def rangeParts : Nat → Text → List Text
  | _, [] => [[]]
  | 0, c :: r =>
    if c = '-' && !r.isEmpty then [] :: rangeParts 2 r
    else (rangeParts 0 r).modifyHead (c :: ·)
  | skip + 1, c :: r => (rangeParts skip r).modifyHead (c :: ·)

/-- Puts a part in front of others. A range whose ends are in the wrong order holds nothing: it
vanishes with its ends, and the parts around it become one. -/
def joinPart (part : Text) : List Text → List Text
  | [] => [part]
  | next :: rest =>
    match part.getLast?, next.head? with
    | some low, some high =>
      if low ≤ high then part :: next :: rest else (part.dropLast ++ next.drop 1) :: rest
    | _, _ => part :: next :: rest

/-- The ranges of a set, in which `none` is a hyphen between the ends of a range. A hyphen without
a lower end stands for itself. -/
def setRanges : List (Option CodePoint) → List (CodePoint × CodePoint)
  | some a :: none :: some b :: r => (a, b) :: setRanges r
  | some a :: r => (a, a) :: setRanges r
  | none :: r => ('-', '-') :: setRanges r
  | [] => []

/-- The set that is written between brackets. Empty ranges vanish first; then an exclamation mark
at the beginning negates the set. -/
def Piece.ofSet (inside : Text) : Piece :=
  let parts := (rangeParts (if inside.head? = some '!' then 2 else 1) inside).foldr joinPart []
  let marks : List (Option CodePoint) := List.intercalate [none] (parts.map fun p => p.map some)
  match marks with
  | some (.char '!') :: r => .set true (setRanges r)
  | r => .set false (setRanges r)

/-- What stands between brackets, after the opening one: a closing bracket at the very beginning,
or after an exclamation mark there, belongs to the set. -/
def bracket? (t : Text) : Option (Text × Text) :=
  let lead :=
    match t with
    | .char '!' :: .char ']' :: _ => 2
    | .char '!' :: _ => 1
    | .char ']' :: _ => 1
    | _ => 0
  let r := t.drop lead
  match r.dropWhile (· ≠ .char ']') with
  | _ :: rest => some (t.take lead ++ r.takeWhile (· ≠ .char ']'), rest)
  | [] => none

def pieces : Nat → Text → List Piece
  | 0, _ => []
  | _ + 1, [] => []
  | fuel + 1, c :: r =>
    if c = '*' then .any :: pieces fuel r
    else if c = '?' then .one :: pieces fuel r
    else if c = '[' then
      match bracket? r with
      | some (inside, rest) => .ofSet inside :: pieces fuel rest
      | none => .literal '[' :: pieces fuel r
    else .literal c :: pieces fuel r

def Piece.accepts (p : Piece) (c : CodePoint) : Bool :=
  match p with
  | .any => true
  | .one => true
  | .literal d => c = d
  | .set negated ranges => (ranges.any fun (a, b) => a ≤ c && c ≤ b) != negated

/-- The endings of a text, the longest one first. -/
def endings : Text → List Text
  | [] => [[]]
  | c :: r => (c :: r) :: endings r

/-- The rest of a text after a character that the piece accepts. -/
def Piece.consume? (p : Piece) : Text → Option Text
  | c :: r => if p.accepts c then some r else none
  | [] => none

/-- What may be left of a text after one more piece. What may have been left before are endings of
the first one, so that a star looks at no other. -/
def leave (left : List Text) : Piece → List Text
  | .any => (left.head?.map endings).getD []
  | p => left.filterMap p.consume?

/-- Whether the pieces describe the whole text. -/
def describes (ps : List Piece) (t : Text) : Bool := (ps.foldl leave [t]).contains []

theorem mem_endings {s t : Text} : s ∈ endings t ↔ s <:+ t := by
  induction t with
  | nil => simp [endings]
  | cons c r ih => simp [endings, ih, List.suffix_cons_iff]

theorem mem_foldl_leave_literal {word s : Text} {left : List Text} :
    s ∈ (word.map Piece.literal).foldl leave left ↔ word ++ s ∈ left := by
  induction word generalizing left with
  | nil => simp
  | cons c word ih =>
    rw [List.map_cons, List.foldl_cons, ih, leave]
    · simp only [List.mem_filterMap, List.cons_append]
      constructor
      · rintro ⟨t, ht, h⟩
        cases t with
        | nil => simp [Piece.consume?] at h
        | cons d r =>
          simp only [Piece.consume?, Piece.accepts, decide_eq_true_eq] at h
          split at h
          · rename_i hd
            cases h
            rwa [hd] at ht
          · simp at h
      · intro h
        exact ⟨_, h, by simp [Piece.consume?, Piece.accepts]⟩
    · simp

/-- A star and characters that stand for themselves describe the texts that end with these. -/
theorem describes_any_literal {word t : Text} :
    describes (.any :: word.map .literal) t = true ↔ word <:+ t := by
  rw [describes, List.contains_iff_mem, List.foldl_cons, mem_foldl_leave_literal]
  simp [leave, mem_endings]

/-- The pieces of a written name. -/
def ofName (written : Text) : List Piece := pieces (written.length + 1) written

/-- Whether a name fits a written one. -/
def fits (written name : Text) : Bool := describes (ofName written) name

/-- One step of a pattern. -/
inductive Component where
  /-- Any number of directories. -/
  | anyDepth
  | wild (pieces : List Piece)
  | exact (name : Text)
  /-- A slash at the end, which only a directory has. -/
  | itself
deriving DecidableEq, Repr

/-- Why a written pattern describes no paths. -/
inductive Error where
  | empty
  | absolute
  /-- A pattern of dots. -/
  | noNames
  /-- A pattern of dots with a slash at its end. -/
  | onlyItself
  /-- Two stars beside other characters. -/
  | starsInName
deriving DecidableEq, Repr

def Error.message : Error → Text
  | .empty => "Unacceptable pattern: ''"
  | .absolute => "Non-relative patterns are unsupported"
  | .noNames => "Pattern without names"
  | .onlyItself => "Pattern without names before its last slash"
  | .starsInName => "Invalid pattern: '**' can only be an entire path component"

def isWild (c : CodePoint) : Bool := c = '*' || c = '?' || c = '['

def component (name : Text) : Except Error Component :=
  if name = "**".text then .ok .anyDepth
  else if Text.occursIn "**" name then .error .starsInName
  else if name.any isWild then .ok (.wild (ofName name))
  else .ok (.exact name)

/-- Reads a written pattern. -/
def read (written : Text) : Except Error (List Component) :=
  let path := Path.ofText written
  let slash := written.getLast? = some '/'
  if written.isEmpty then .error .empty
  else if path.root ≠ .relative then .error .absolute
  else if path.names.isEmpty then .error (if slash then .onlyItself else .noNames)
  else (path.names.mapM component).map (· ++ if slash then [.itself] else [])

end Pattern

end CSharpActions
