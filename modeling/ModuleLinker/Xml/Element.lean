namespace ModuleLinker.Xml

/-! # Element trees

XML without comments, processing instructions and declarations: elements with attributes in the
order of the document, and texts.
-/

/-- An attribute's key and value. -/
abbrev Pair := String × String

/-- A part of an element's content. -/
inductive Node where
  | element (name : String) (attributes : List Pair) (children : List Node)
  | text (value : String)
deriving Repr, Inhabited

namespace Node

mutual

/-- Equality of nodes is decided part by part. -/
def decEq (a b : Node) : Decidable (a = b) :=
  match a, b with
  | .text s, .text t => decidable_of_iff (s = t) (by simp)
  | .text _, .element .. => isFalse nofun
  | .element .., .text _ => isFalse nofun
  | .element m as cs, .element n bs ds =>
    @decidable_of_iff _ ((m = n ∧ as = bs) ∧ cs = ds) (by simp [and_assoc])
      (@instDecidableAnd _ _ inferInstance (decEqAll cs ds))

/-- Equality of lists of nodes is decided node by node. -/
def decEqAll (as bs : List Node) : Decidable (as = bs) :=
  match as, bs with
  | [], [] => isTrue rfl
  | [], _ :: _ => isFalse nofun
  | _ :: _, [] => isFalse nofun
  | a :: as, b :: bs =>
    @decidable_of_iff _ (a = b ∧ as = bs) (by simp)
      (@instDecidableAnd _ _ (decEq a b) (decEqAll as bs))

end

instance : DecidableEq Node := decEq

/-- The text of a node that is one. -/
def text? : Node → Option String
  | text value => some value
  | element .. => none

end Node

/-- An element with its content. -/
structure Element where
  name : String
  attributes : List Pair
  children : List Node
deriving DecidableEq, Repr, Inhabited

namespace Element

/-- An element without attributes. -/
def ofChildren (name : String) (children : List Node) : Element := ⟨name, [], children⟩

/-- The element as a part of another one's content. -/
def toNode (e : Element) : Node := .element e.name e.attributes e.children

/-- The element that a node is. -/
def ofNode? : Node → Option Element
  | .element name attributes children => some ⟨name, attributes, children⟩
  | .text _ => none

/-- The value of an attribute; of several with the same key the first one counts. -/
def attribute? (e : Element) (key : String) : Option String := e.attributes.lookup key

/-- The attributes with the first one of a key set, or with one added where there is none. -/
def setPair (key value : String) : List Pair → List Pair
  | [] => [(key, value)]
  | (k, v) :: rest => if k = key then (k, value) :: rest else (k, v) :: setPair key value rest

/-- The element with an attribute set. -/
def setAttribute (e : Element) (key value : String) : Element :=
  { e with attributes := setPair key value e.attributes }

/-- The elements that the element holds. -/
def elements (e : Element) : List Element := e.children.filterMap ofNode?

/-- The first element of a name that the element holds. -/
def child? (e : Element) (name : String) : Option Element := e.elements.find? (·.name == name)

/-- The texts that the element holds itself, one after another. -/
def text (e : Element) : String := String.join (e.children.filterMap Node.text?)

end Element

end ModuleLinker.Xml
