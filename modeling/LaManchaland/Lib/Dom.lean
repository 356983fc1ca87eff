import Mathlib.Data.List.Basic

/-!
# Document trees

A `Forest` is a list of sibling nodes with their subtrees. An element has an identity, by which a program holds on to
it, a tag and classes. `elements` lists the elements of a forest in document order, each with its ancestors, so a
selector is a predicate on elements and `querySelector` finds the first element that it holds of; a query on an element
looks at the forest of its children, that is at its proper descendants.

The operations change the children of one element (`modify`) or take an element out (`remove`); `insertBefore` throws
when its reference is not a child.
-/

namespace Dom

/-- An element without its children. -/
structure Info where
  id : Nat
  tag : String
  classes : List String
  deriving DecidableEq

inductive Forest where
  | nil
  | text (data : List Char) (rest : Forest)
  | elem (info : Info) (children rest : Forest)
  deriving DecidableEq

/-- An element of a document, with its ancestors, the parent first. -/
structure Element where
  info : Info
  ancestors : List Info
  children : Forest

namespace Forest

/-- Two lists of siblings one after the other. -/
def append : Forest → Forest → Forest
  | nil, g => g
  | text data rest, g => text data (rest.append g)
  | elem info children rest, g => elem info children (rest.append g)

/-- `textContent`. -/
def textContent : Forest → List Char
  | nil => []
  | text data rest => data ++ rest.textContent
  | elem _ children rest => children.textContent ++ rest.textContent

/-- The elements in document order. -/
def elements (ancestors : List Info) : Forest → List Element
  | nil => []
  | text _ rest => rest.elements ancestors
  | elem info children rest =>
    ⟨info, ancestors, children⟩ :: (children.elements (info :: ancestors) ++ rest.elements ancestors)

/-- `querySelectorAll`. -/
def querySelectorAll (selector : Element → Bool) (f : Forest) : List Element := (f.elements []).filter selector

/-- `querySelector`. -/
def querySelector (selector : Element → Bool) (f : Forest) : Option Element := (f.elements []).find? selector

/-- The children of an element. -/
def childrenOf (id : Nat) (f : Forest) : Forest :=
  ((f.querySelector fun e => e.info.id = id).map Element.children).getD nil

/-- The children of an element are changed. -/
def modify (id : Nat) (g : Forest → Forest) : Forest → Forest
  | nil => nil
  | text data rest => text data (rest.modify id g)
  | elem info children rest =>
    elem info (if info.id = id then g children else children.modify id g) (rest.modify id g)

/-- `remove`. -/
def remove (id : Nat) : Forest → Forest
  | nil => nil
  | text data rest => text data (rest.remove id)
  | elem info children rest =>
    if info.id = id then rest.remove id else elem info (children.remove id) (rest.remove id)

/-- The children that an element has after `textContent = data`. -/
def ofText (data : List Char) : Forest := if data = [] then nil else text data nil

/-- `textContent = data`. -/
def setTextContent (id : Nat) (data : List Char) (f : Forest) : Forest := f.modify id fun _ => ofText data

/-- `appendChild` of an element without children, which is moved when it is in the document. -/
def appendChild (parent : Nat) (child : Info) (f : Forest) : Forest :=
  (f.remove child.id).modify parent fun children => children.append (elem child nil nil)

/-- The new nodes are put before the child `ref`; `none` when it is not a child. -/
def insertAt (nodes : Forest) (ref : Nat) : Forest → Option Forest
  | nil => none
  | text data rest => (insertAt nodes ref rest).map (text data)
  | elem info children rest =>
    if info.id = ref then some (nodes.append (elem info children rest))
    else (insertAt nodes ref rest).map (elem info children)

/-- `insertBefore` of new nodes; `none` is the exception for a reference that is no child. -/
def insertBefore (f : Forest) (parent : Nat) (nodes : Forest) (ref : Option Nat) : Option Forest :=
  match ref with
  | none => some (f.modify parent fun children => children.append nodes)
  | some ref => (insertAt nodes ref (f.childrenOf parent)).map fun children => f.modify parent fun _ => children

end Forest

/-! ## Selectors -/

/-- `tag`. -/
def byTag (tag : String) (e : Element) : Bool := e.info.tag = tag

/-- `.name`. -/
def byClass (name : String) (e : Element) : Bool := e.info.classes.contains name

/-- `.name tag`: an element with the tag below one with the class. -/
def byClassTag (name tag : String) (e : Element) : Bool :=
  e.info.tag = tag && e.ancestors.any fun info => info.classes.contains name

/-- The text of an element after `textContent = data`. -/
@[simp] theorem textContent_ofText (data : List Char) : (Forest.ofText data).textContent = data := by
  unfold Forest.ofText
  split
  · rename_i h
    exact h.symm
  · simp [Forest.textContent]

end Dom
