import ContractApi.Value.Display
import ContractApi.Abi.Reading
/-!
# The folder of a contract

The output for a contract goes to a folder that is named after it. Whatever the name is, the folder is a single one:
slashes of both kinds are replaced, and a name that would lead nowhere or upwards gives way to the default.
-/

namespace ContractApi.Output

/-- Whether a code point separates names on some system. -/
def isSeparator (c : CodePoint) : Bool := c = '/' || c = '\\'

/-- Whether a name leads nowhere, or to a folder that is there anyway. -/
def isReserved (name : Text) : Bool := name.isEmpty || name = "." || name = ".."

/-- The name of the folder for a contract. -/
def folderName (identifier : Value) : Text :=
  let name := identifier.display.replaceEach isSeparator '_'
  if isReserved name then Abi.defaultContractName else name

end ContractApi.Output
