import Std.Data.HashMap
import Scim.Value.Basic

/-!
  # Records with an index

  Looking a key up need not pass over the entries.  A record can be kept as an ordered map of exact
  keys, together with an index from the lower-case form of each key to the key as it is stored.  The
  two have to be changed together: a key written in a new casing moves to another key of the map and
  to the same place in its order.
-/

namespace Scim

/-- Entries under exact keys, and for each lower-case form the key that is stored. -/
structure Indexed where
  entries : Record
  index : Std.HashMap String String

namespace Indexed

/-! ## The ordered map -/

/-- Puts a value under an exact key, in its place or else at the end. -/
def put (entries : Record) (key : String) (value : Value) : Record :=
  match entries with
  | [] => [(key, value)]
  | (k, v) :: rest => if k = key then (key, value) :: rest else (k, v) :: put rest key value

/-- The place of an exact key. -/
def place? (entries : Record) (key : String) : Option Nat :=
  entries.findIdx? fun entry => entry.1 == key

/-- Takes an exact key out; what follows moves up. -/
def takeOut (entries : Record) (key : String) : Record := entries.eraseP fun entry => entry.1 == key

/-- Changes the value under an exact key. -/
def change (entries : Record) (key : String) (value : Value) : Record :=
  entries.map fun entry => if entry.1 == key then (entry.1, value) else entry

/-! ## The record -/

/-- Nothing stored. -/
def empty : Indexed := ⟨[], ∅⟩

/-- The key that is stored for a key. -/
def stored? (r : Indexed) (key : String) : Option String := r.index[Text.lower key]?

/-- The value under a key. -/
def get? (r : Indexed) (key : String) : Option Value :=
  (r.stored? key).bind fun stored => r.entries.lookup stored

/-- Puts a value under a key: in the place of the entry that has the key, and with the new casing,
    or else at the end. -/
def insert (r : Indexed) (key : String) (value : Value) : Indexed :=
  match r.stored? key with
  | some stored =>
    if stored = key then { r with entries := put r.entries key value }
    else
      let others := takeOut r.entries stored
      { entries :=
          match place? r.entries stored with
          | some i => others.insertIdx i (key, value)
          | none => put others key value
        index := r.index.insert (Text.lower key) key }
  | none =>
    { entries := put r.entries key value
      index := r.index.insert (Text.lower key) key }

/-- Changes the value under a key; place and casing stay. -/
def update (r : Indexed) (key : String) (value : Value) : Indexed :=
  match r.stored? key with
  | some stored => { r with entries := change r.entries stored value }
  | none => r

/-- Removes the entry with a key. -/
def erase (r : Indexed) (key : String) : Indexed :=
  match r.stored? key with
  | some stored => ⟨takeOut r.entries stored, r.index.erase (Text.lower key)⟩
  | none => r

end Indexed

end Scim
