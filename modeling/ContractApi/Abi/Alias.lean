import ContractApi.Text.Word
/-!
# Type aliases

Some types have a short spelling: `uint` is `uint256`. The canonical spelling replaces every whole word of a type that is
a short one; words are delimited by anything that is no word character, so `uint[2]` has one and `myuint` has none.
-/

namespace ContractApi.Abi

/-- The short spellings and the types they stand for. -/
def aliases : List (Text × Text) :=
  [("int", "int256"), ("uint", "uint256"), ("fixed", "fixed128x18"), ("ufixed", "ufixed128x18"),
    ("function", "bytes24"), ("byte", "bytes1")]

/-- The type that a word stands for. -/
def expandWord (word : Text) : Text := (aliases.lookup word).getD word

/-- The text cut where a word begins or ends. -/
def wordRuns (text : Text) : List Text := text.splitBy fun a b => a.isWord == b.isWord

/-- The type with every short spelling replaced. -/
def expandAliases (type : Text) : Text := (wordRuns type).flatMap expandWord

end ContractApi.Abi
