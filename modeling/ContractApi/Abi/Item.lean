import ContractApi.Value.Basic
/-!
# Items

The kinds of item that an interface lists, and the ways in which a function may affect the state.
-/

namespace ContractApi.Abi

inductive ItemKind where
  | function
  | event
  | error
  | constructor
  /-- What runs when no function is named. -/
  | fallback
  /-- What runs when value arrives without a call. -/
  | receive
  /-- Anything else. -/
  | unknown
deriving DecidableEq, Repr

namespace ItemKind

/-- The word by which an item names its kind. -/
def word? : ItemKind → Option Text
  | function => some "function"
  | event => some "event"
  | error => some "error"
  | constructor => some "constructor"
  | fallback => some "fallback"
  | receive => some "receive"
  | unknown => none

/-- The kinds that a word names. -/
def named : List ItemKind := [function, event, error, constructor, fallback, receive]

/-- The kind that a word names. -/
def ofWord (word : Text) : ItemKind := (named.find? (·.word? = some word)).getD unknown

def of : Value → ItemKind
  | .object entries =>
    match Value.field "type" entries with
    | .text word => ofWord word
    | _ => unknown
  | _ => unknown

end ItemKind

/-- How a function may affect the state. -/
inductive Mutability where
  /-- It neither reads nor changes the state. -/
  | pure
  /-- It reads the state. -/
  | view
  /-- It may change the state. -/
  | nonpayable
  /-- It may change the state and take payment. -/
  | payable
deriving DecidableEq, Repr

namespace Mutability

/-- The word for it in an interface. -/
def word : Mutability → Text
  | pure => "pure"
  | view => "view"
  | nonpayable => "nonpayable"
  | payable => "payable"

def all : List Mutability := [pure, view, nonpayable, payable]

/-- Whether calls leave the state alone. -/
def isReadOnly (m : Mutability) : Bool := m = pure ∨ m = view

/-- What a value names. -/
def ofValue? : Value → Option Mutability
  | .text word => all.find? (·.word = word)
  | _ => none

end Mutability

end ContractApi.Abi
