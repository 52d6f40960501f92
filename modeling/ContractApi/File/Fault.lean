import ContractApi.Fault
/-!
# What can go wrong with files

A `FileFault` says what prevents a file or folder from being used: the system refuses the path for a `Cause`, or the path
is no name at all.
-/

namespace ContractApi

/-- Why the system refuses a path. -/
inductive FileFault.Cause where
  /-- Nothing is there. -/
  | missing
  /-- Something is there already. -/
  | alreadyThere
  /-- The way leads through something that is no folder. -/
  | notFolder
  /-- It is a folder. -/
  | isFolder
  /-- A name is too long. -/
  | nameTooLong
  /-- Another cause, by its number and wording. -/
  | other (code : Nat) (wording : Text)
deriving DecidableEq, Repr

namespace FileFault.Cause

/-- The number of a cause. -/
def code : Cause → Nat
  | missing => 2
  | alreadyThere => 17
  | notFolder => 20
  | isFolder => 21
  | nameTooLong => 36
  | other code _ => code

def wording : Cause → Text
  | missing => "No such file or directory"
  | alreadyThere => "File exists"
  | notFolder => "Not a directory"
  | isFolder => "Is a directory"
  | nameTooLong => "File name too long"
  | other _ wording => wording

end FileFault.Cause

/-- What prevents a file or folder from being used. -/
inductive FileFault where
  /-- The system refuses the path. -/
  | refused (cause : FileFault.Cause) (path : Text)
  /-- The path contains the code point zero, which ends names. -/
  | endsEarly
  /-- The text, a path or a line, has unpaired surrogates from `start` up to `stop`. -/
  | unencodable (text : Text) (start stop : Nat)
deriving DecidableEq, Repr

/-- The wording of a fault. -/
def FileFault.message : FileFault → Text
  | refused cause path => "[Errno " ++ Text.ofNat cause.code ++ "] " ++ cause.wording ++ ": " ++ path.quoted
  | endsEarly => "embedded null byte"
  | unencodable text start stop => (Fault.unencodable text start stop).message

end ContractApi
