import CSharpActions.Text.Blank

/-!
# Parameter lists

A parameter list is split at the commas outside brackets and quotes. Of each part the leading
attributes, the default value and the parameter modifiers are dropped; the last remaining word is
the name and the others are the type. A part with fewer than two words or with unbalanced brackets
declares nothing.
-/
namespace CSharpActions

structure Parameter where
  type : Text
  name : Text
deriving DecidableEq, Repr

namespace Parameter

/-- Where a scan stands: how many brackets are open, and the quote that is. -/
structure Nesting where
  depth : Int := 0
  quote : Option CodePoint := none
deriving DecidableEq, Repr

namespace Nesting

def isQuote (c : CodePoint) : Bool := c = '"' || c = '\''

def opens (c : CodePoint) : Bool := c = '<' || c = '(' || c = '[' || c = '{'

def closes (c : CodePoint) : Bool := c = '>' || c = ')' || c = ']' || c = '}'

/-- All four kinds of brackets count alike, and the depth may fall below zero. -/
def step (s : Nesting) (c : CodePoint) : Nesting :=
  match s.quote with
  | some q => if c = q then { s with quote := none } else s
  | none =>
    if isQuote c then { s with quote := some c }
    else if opens c then { s with depth := s.depth + 1 }
    else if closes c then { s with depth := s.depth - 1 }
    else s

/-- Whether a character separates two parameters. -/
def separates (s : Nesting) (c : CodePoint) : Bool := s.quote.isNone && c = ',' && s.depth = 0

end Nesting

/-- Splits at the separators that a scan from the given state meets. -/
def splitFrom (s : Nesting) : Text → List Text
  | [] => [[]]
  | c :: r =>
    if s.separates c then [] :: splitFrom s r
    else (splitFrom (s.step c) r).modifyHead (c :: ·)

def split (t : Text) : List Text := splitFrom {} t

theorem splitFrom_ne_nil (s : Nesting) (t : Text) : splitFrom s t ≠ [] := by
  induction t generalizing s with
  | nil => simp [splitFrom]
  | cons c r ih =>
    unfold splitFrom
    split
    · simp
    · cases h : splitFrom (s.step c) r with
      | nil => exact absurd h (ih _)
      | cons a l => simp

/-- Splitting drops nothing but the commas. -/
theorem intercalate_splitFrom (s : Nesting) (t : Text) :
    List.intercalate [.char ','] (splitFrom s t) = t := by
  induction t generalizing s with
  | nil => rfl
  | cons c r ih =>
    unfold splitFrom
    split
    · rename_i h
      have hc : c = ',' := by
        simp only [Nesting.separates, Bool.and_eq_true, decide_eq_true_eq] at h
        exact h.1.2
      have hr := ih s
      cases hs : splitFrom s r with
      | nil => exact absurd hs (splitFrom_ne_nil s r)
      | cons l ls =>
        rw [hs] at hr
        simpa [List.intercalate, hc] using hr
    · rw [Text.intercalate_modifyHead (splitFrom_ne_nil _ r), ih]

/-- Whether each of three kinds of brackets is opened as often as it is closed. -/
def balanced (t : Text) : Bool :=
  t.count (.char '<') == t.count (.char '>') && t.count (.char '(') == t.count (.char ')') &&
    t.count (.char '[') == t.count (.char ']')

/-- Reads an attribute and the blanks after it. -/
def attribute? : Text → Option Text
  | .char '[' :: r =>
    match r.dropWhile (· ≠ .char ']') with
    | _ :: s => some (s.dropWhile Text.isBlank)
    | [] => none
  | _ => none

theorem length_lt_of_attribute? {t s : Text} (h : attribute? t = some s) :
    s.length < t.length := by
  unfold attribute? at h
  split at h
  · rename_i r
    split at h
    · rename_i c s' hs
      have h1 := (List.dropWhile_suffix (· ≠ .char ']') (l := r)).length_le
      have h2 := (List.dropWhile_suffix Text.isBlank (l := s')).length_le
      simp only [Option.some.injEq] at h
      subst h
      rw [hs] at h1
      simp only [List.length_cons] at h1 ⊢
      omega
    · simp at h
  · simp at h

def skipAttributes (t : Text) : Text :=
  match _h : attribute? t with
  | some r => skipAttributes r
  | none => t
termination_by t.length
decreasing_by exact length_lt_of_attribute? _h

/-- Drops the leading attributes with the blanks around them. -/
def dropAttributes (t : Text) : Text :=
  match attribute? (t.dropWhile Text.isBlank) with
  | some r => skipAttributes r
  | none => t

def modifiers : List Text := ["ref", "out", "in", "params", "this", "scoped"]

/-- The text before a default value. -/
def declaration (part : Text) : Text := dropAttributes (part.takeWhile (· ≠ .char '='))

def tokens (part : Text) : List Text :=
  (Text.fields (declaration part)).filter fun w => !modifiers.contains w

/-- The parameter that one part of a list declares. -/
def ofPart? (part : Text) : Option Parameter :=
  if balanced (declaration part) then
    let ws := tokens part
    if ws.length < 2 then none
    else some ⟨List.intercalate [.char ' '] ws.dropLast, ws.getLastD []⟩
  else none

/-- The parameters that a list declares. -/
def parse (raw : Text) : List Parameter := (split raw).filterMap ofPart?

/-- The type of the first parameter with the given name. -/
def typeOf? (raw name : Text) : Option Text :=
  ((parse raw).find? fun p => p.name = name).map (·.type)

end Parameter

end CSharpActions
