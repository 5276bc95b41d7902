import CSharpActions.Xml.Encoding

/-!
# Platforms

What the libraries and streams under the program decide. Nothing in the program fixes these; the
values that stand here by default are those of one installation.
-/
namespace CSharpActions

structure Platform where
  /-- How many arrays and objects of a JSON text may be nested in another one. It depends on how
  much room the calls so far have left. -/
  jsonNesting : Nat := 984
  parseXml : Xml.Parser := Xml.read
  /-- Whether standard output has an encoding of a code point. -/
  encodes : CodePoint → Bool := fun c => c.char?.isSome
  /-- Whether output goes to a terminal, which is given control sequences too. -/
  isTerminal : Bool := false

end CSharpActions
