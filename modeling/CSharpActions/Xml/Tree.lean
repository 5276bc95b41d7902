import CSharpActions.Text.Basic

/-!
# XML trees

An element has a name in a namespace, attributes, the text before its first child, and children.
-/
namespace CSharpActions.Xml

/-- A name in a namespace; the namespace is empty if there is none. -/
structure Name where
  space : Text
  name : Text
deriving DecidableEq, Repr

inductive Element where
  | mk (name : Name) (attributes : List (Name × Text)) (text : Text) (children : List Element)

namespace Element

def name : Element → Name
  | .mk n _ _ _ => n

def attributes : Element → List (Name × Text)
  | .mk _ a _ _ => a

def text : Element → Text
  | .mk _ _ t _ => t

def children : Element → List Element
  | .mk _ _ _ c => c

/-- The name without its namespace. -/
def localName (e : Element) : Text := e.name.name

/-- The value of an attribute that is in no namespace. -/
def attribute? (e : Element) (name : Text) : Option Text := e.attributes.lookup ⟨[], name⟩

/-- The children with the given name in any namespace. -/
def childrenNamed (e : Element) (name : Text) : List Element :=
  e.children.filter fun c => c.localName = name

end Element

end CSharpActions.Xml
