import ContractApi.Abi.Record
import ContractApi.Fault
/-!
# Members

Parameters are described the same way whether they stand in a document or in a record. A `Member` is a parameter in
either form, with the three things that a description needs: its name, its type and its own members.

An object in the place of a record is looked at like a parameter of a document.

- `uniqueNames` gives every member of a list a name of its own.
-/

namespace ContractApi.Schema

open ContractApi.Abi

/-- A parameter as written in a document, or as a record. -/
inductive Member where
  /-- A parameter of a document. -/
  | raw (value : Value)
  /-- A parameter that was read. -/
  | read (parameter : Parameter)

/-- The members of a tuple: as written in a document, or as records. -/
inductive Members where
  /-- The member list of a document. -/
  | raw (value : Value)
  /-- The member list of a record. -/
  | read (parameters : Parameters)

namespace Member

/-- The entry under a name of a value that is an object; null for other values. -/
def rawField (name : Text) : Value → Value
  | .object entries => Value.field name entries
  | _ => .null

/-- The name of a member, null if it has none. -/
def name : Member → Value
  | raw v => rawField "name" v
  | read (.record name ..) => name
  | read (.stray v) => rawField "name" v

/-- The type of a member, null if it has none. -/
def type : Member → Value
  | raw v => rawField "type" v
  | read (.record _ type ..) => type
  | read (.stray v) => rawField "type" v

def components : Member → Members
  | raw v => .raw (rawField "components" v)
  | read (.record _ _ _ _ components) => .read components
  | read (.stray v) => .raw (rawField "components" v)

end Member

end ContractApi.Schema

namespace ContractApi.Abi.Parameters

/-- Whether there is anything in the place of the list. -/
def isPresent : Parameters → Bool
  | absent => false
  | list parameters => !parameters.isEmpty
  | stray v => v.isTruthy

/-- The parameters in order. -/
def elements : Parameters → Except Fault (List Parameter)
  | absent => .error (.notIterable .null)
  | list parameters => .ok parameters
  | stray v =>
    match v.elements? with
    | some elements => .ok (elements.map .stray)
    | none => .error (.notIterable v.kind)

end ContractApi.Abi.Parameters

namespace ContractApi.Schema

open ContractApi.Abi

namespace Members

/-- Whether there is anything in the place of the list. -/
def isPresent : Members → Bool
  | raw v => v.isTruthy
  | read parameters => parameters.isPresent

/-- The members in order. -/
def elements : Members → Except Fault (List Member)
  | raw v =>
    match v.elements? with
    | some elements => .ok (elements.map .raw)
    | none => .error (.notIterable v.kind)
  | read parameters => parameters.elements.map (·.map .read)

end Members

/-! ## Names -/

/-- The key with an underscore and a number behind it. -/
def suffixed (key : Key) (index : Nat) : Key := .text (key.display ++ "_" ++ Text.ofNat index)

/-- Whether a key is among those taken. -/
def isTaken (taken : List Key) (key : Key) : Bool := taken.any key.same

/-- The key with the least number of suffixes, at most `attempts`, that is not taken. -/
def freeKey (taken : List Key) (index : Nat) : Nat → Key → Key
  | 0, key => key
  | attempts + 1, key => if isTaken taken key then freeKey taken index attempts (suffixed key index) else key

/-- The name that a member would have if it were alone: its own, or one made from its position. -/
def ownName (default : Text) (index : Nat) (name : Value) : Except Fault Key :=
  let name := name.orElse (.text (default ++ Text.ofNat index))
  match name.toKey? with
  | some key => .ok key
  | none => .error (.unhashable name.kind)

/-- Names for the members from an index on, when some names are taken. As many suffixes as there are names taken make
any name free. -/
def uniqueNamesFrom (default : Text) : Nat → List Key → List Value → Except Fault (List Key)
  | _, _, [] => .ok []
  | index, taken, name :: rest => do
    let key := freeKey taken index taken.length (← ownName default index name)
    return key :: (← uniqueNamesFrom default (index + 1) (key :: taken) rest)

/-- A name for each member of a list. A member keeps its own name; one without a name is called by `default` and its
index. A name that an earlier member has gets `_` and the index behind it until it is free. -/
def uniqueNames (default : Text) (members : List Member) : Except Fault (List Key) :=
  uniqueNamesFrom default 0 [] (members.map Member.name)

end ContractApi.Schema
