import CSharpActions.Text.Blank
import CSharpActions.Text.Word

/-!
# Class declarations

A line declares a class where it holds an access modifier, blanks, any number of further modifiers
each followed by blanks, the word class, blanks and a name. The leftmost such place counts, and
the name is as long as possible.
-/
namespace CSharpActions

structure ClassDecl where
  startLine : Int
  name : Text
  modifier : Text
  /-- The text from the access modifier to the end of the name. -/
  statement : Text
deriving DecidableEq, Repr

namespace ClassDecl

def accessModifiers : List Text := ["private", "internal", "public", "protected"]

def furtherModifiers : List Text :=
  ["static", "sealed", "abstract", "partial", "unsafe", "new"]

/-- Reads a word and at least one blank after it. -/
def keyword? (w t : Text) : Option Text := (Text.after? w t).bind Text.blanks?

/-- Reads one of the words and at least one blank after it. -/
def anyKeyword? (ws : List Text) (t : Text) : Option (Text × Text) :=
  ws.findSome? fun w => (keyword? w t).map (w, ·)

theorem length_lt_of_keyword? {w t r : Text} (h : keyword? w t = some r) :
    r.length < t.length := by
  obtain ⟨s, hs, hr⟩ := Option.bind_eq_some_iff.1 h
  have := Text.length_of_after? hs
  have := Text.length_lt_of_blanks? hr
  omega

theorem length_lt_of_anyKeyword? {ws : List Text} {t w r : Text}
    (h : anyKeyword? ws t = some (w, r)) : r.length < t.length := by
  obtain ⟨v, _, hv⟩ := List.exists_of_findSome?_eq_some h
  obtain ⟨s, hs, he⟩ := Option.map_eq_some_iff.1 hv
  cases he
  exact length_lt_of_keyword? hs

/-- Drops all further modifiers. -/
def skipModifiers (t : Text) : Text :=
  match _h : anyKeyword? furtherModifiers t with
  | some (_, r) => skipModifiers r
  | none => t
termination_by t.length
decreasing_by exact length_lt_of_anyKeyword? _h

/-- What a class declaration at the beginning of a text says, and what follows it. -/
structure Head where
  modifier : Text
  name : Text
  rest : Text
deriving DecidableEq, Repr

def head? (t : Text) : Option Head :=
  (anyKeyword? accessModifiers t).bind fun (modifier, r) =>
    (keyword? "class" (skipModifiers r)).bind fun r =>
      let name := r.takeWhile Text.isWord
      if name.isEmpty then none else some ⟨modifier, name, r.dropWhile Text.isWord⟩

/-- The class that a line declares. -/
def find? (line : Text) (number : Int) : Option ClassDecl :=
  (Text.leftmost? head? line).map fun (i, h) =>
    { startLine := number, name := h.name, modifier := h.modifier,
      statement := (line.drop i).take (line.length - i - h.rest.length) }

end ClassDecl

end CSharpActions
