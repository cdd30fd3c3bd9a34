import DottedPatch.Toml.Item

namespace DottedPatch.Toml

namespace Members

def replace (old value : Item) : Item :=
  match old.decor? with
  | some decor => value.withDecor decor
  | none => value

/-- What is missing on the way, or holds no table, becomes a table: an inline one within an inline
one, and otherwise one without a header. -/
def store (value : Item) : (inline : Bool) → (path : List String) → Members → Members
  | _, [], members => members
  | _, [name], members =>
    match find? name members with
    | some (_, old) => put { name } (replace old value) members
    | none => put { name } value members
  | inline, name :: path, members =>
    match find? name members with
    | some (_, .table head sub) => put { name } (.table head (store value false path sub)) members
    | some (_, .inline opening dotted sub decor) =>
      put { name } (.inline opening dotted (store value true path sub) decor) members
    | _ =>
      let sub := store value inline path []
      put { name } (if inline then .inline "" false sub {} else .table { implicit := true } sub) members

/-- Removes what a path leads to. A table missing on the way keeps a vacant place. -/
def remove : (path : List String) → Members → Members
  | [], members => members
  | [name], members => erase name members
  | name :: path, members =>
    match find? name members with
    | some (_, .table head sub) => put { name } (.table head (remove path sub)) members
    | some (_, .inline opening dotted sub decor) =>
      put { name } (.inline opening dotted (remove path sub) decor) members
    | some _ => members
    | none => put { name } .vacant members

end Members

namespace Document

def store (path : List String) (value : Value) (d : Document) : Document :=
  { d with members := Members.store (.ofValue value) false path d.members }

def remove (path : List String) (d : Document) : Document :=
  { d with members := Members.remove path d.members }

end Document

end DottedPatch.Toml
