import ContractApi.Number.Binary64
import ContractApi.Table
/-!
# Values

A `Value` is what a JSON document holds. Contract interfaces come from many compilers and from hand-written files, so a
name, a type or a list may be any value, and every rule of the library says what it does with each kind.

- `Value.isTruthy`: null, false, zero and the empty text, list and object count as nothing.
- `Key.same`: two keys are the same if they denote the same number or the same text; `true` denotes one.
- `Value.field`: an entry of an object by its name, null if there is none.
-/

namespace ContractApi

/-- The kinds of value. -/
inductive Kind where
  /-- The absent value. -/
  | null
  | bool
  | int
  | float
  | text
  | list
  | object
deriving DecidableEq, Repr

/-- What a table entry can be found under: a text in documents that were read, any simple value in documents that are
built. -/
inductive Key where
  | bool (b : Bool)
  | int (n : Int)
  | float (x : Binary64)
  | text (t : Text)
deriving DecidableEq, Repr

/-- A JSON value. -/
inductive Value where
  /-- The absent value. -/
  | null
  | bool (b : Bool)
  /-- An integer of any size. -/
  | int (n : Int)
  /-- A number written with a fraction or an exponent. -/
  | float (x : Binary64)
  | text (t : Text)
  | list (items : List Value)
  /-- An object, with its entries in order. -/
  | object (entries : List (Key × Value))

instance : Inhabited Value := ⟨.null⟩

instance : Coe Text Value := ⟨.text⟩

instance : Coe String Value := ⟨fun s => .text s⟩

instance : Coe Text Key := ⟨.text⟩

instance : Coe String Key := ⟨fun s => .text s⟩

namespace Key

/-- The key that stands for all keys equal to this one: an integer for every truth value and every whole number. -/
def canonical : Key → Key
  | .bool b => .int (if b then 1 else 0)
  | .float x => (x.toInt?.map Key.int).getD (.float x)
  | k => k

/-- Whether two keys denote the same number or the same text. -/
def same (a b : Key) : Bool := a.canonical = b.canonical

def toValue : Key → Value
  | .bool b => .bool b
  | .int n => .int n
  | .float x => .float x
  | .text t => .text t

end Key

namespace Value

def kind : Value → Kind
  | .null => .null
  | .bool _ => .bool
  | .int _ => .int
  | .float _ => .float
  | .text _ => .text
  | .list _ => .list
  | .object _ => .object

/-- Whether the value counts as something. -/
def isTruthy : Value → Bool
  | .null => false
  | .bool b => b
  | .int n => n ≠ 0
  | .float x => !x.isZero
  | .text t => !t.isEmpty
  | .list l => !l.isEmpty
  | .object es => !es.isEmpty

/-- The value, or `other` if it counts as nothing. -/
def orElse (v other : Value) : Value := if v.isTruthy then v else other

/-- The entry of an object under a text. -/
def lookup? (name : Text) (entries : List (Key × Value)) : Option Value := Table.get? (.text name) entries

/-- The entry of an object under a text, null if there is none. -/
def field (name : Text) (entries : List (Key × Value)) : Value := (lookup? name entries).getD .null

/-- What a value consists of, one by one: the items of a list, the keys of an object, the code points of a text. -/
def elements? : Value → Option (List Value)
  | .list l => some l
  | .object es => some (es.map fun e => e.1.toValue)
  | .text t => some (t.map fun c => .text [c])
  | _ => none

/-- The value as a key, unless it is a list or an object, which cannot be looked up. -/
def toKey? : Value → Option Key
  | .bool b => some (.bool b)
  | .int n => some (.int n)
  | .float x => some (.float x)
  | .text t => some (.text t)
  | _ => none

end Value

end ContractApi
