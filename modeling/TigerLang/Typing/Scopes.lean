/-! Names and what they are bound to, scope by scope. -/

namespace TigerLang

abbrev Scope (α : Type) : Type := List (String × α)

namespace Scope

variable {α : Type}

def value? (scope : Scope α) (name : String) : Option α := List.lookup name scope

def bind (name : String) (value : α) : Scope α → Scope α
  | [] => [(name, value)]
  | (other, old) :: rest =>
    if other = name then (name, value) :: rest else (other, old) :: bind name value rest

end Scope

/-- The open scopes, the innermost first, and around them the root scope, which is never closed. -/
structure Scopes (α : Type) where
  inner : List (Scope α)
  root : Scope α

namespace Scopes

variable {α : Type}

def empty : Scopes α := ⟨[], []⟩

def enter (t : Scopes α) : Scopes α := { t with inner := [] :: t.inner }

def leave (t : Scopes α) : Scopes α := { t with inner := t.inner.tail }

def depth (t : Scopes α) : Nat := t.inner.length + 1

def current (t : Scopes α) : Scope α := t.inner.head?.getD t.root

def scopes (t : Scopes α) : List (Scope α) := t.inner ++ [t.root]

def size (t : Scopes α) : Nat := t.scopes.flatten.length

def bind (t : Scopes α) (name : String) (value : α) : Scopes α :=
  match t.inner with
  | [] => { t with root := Scope.bind name value t.root }
  | scope :: outer => { t with inner := Scope.bind name value scope :: outer }

def find? (t : Scopes α) (name : String) : Option α :=
  t.scopes.findSome? fun scope => scope.value? name

def here? (t : Scopes α) (name : String) : Option α := t.current.value? name

def hasHere (t : Scopes α) (name : String) : Bool := (t.here? name).isSome

def changeScopes (name : String) (f : α → α) : List (Scope α) → Option (List (Scope α))
  | [] => none
  | scope :: outer =>
    match scope.value? name with
    | some value => some (Scope.bind name (f value) scope :: outer)
    | none => (changeScopes name f outer).map (scope :: ·)

/-- Changes what a lookup of the name finds. -/
def change (t : Scopes α) (name : String) (f : α → α) : Scopes α :=
  match changeScopes name f t.inner with
  | some inner => { t with inner }
  | none =>
    match t.root.value? name with
    | some value => { t with root := Scope.bind name (f value) t.root }
    | none => t

end Scopes

end TigerLang
