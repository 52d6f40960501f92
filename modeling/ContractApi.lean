import ContractApi.Abi.Alias
import ContractApi.Abi.Item
import ContractApi.Abi.Reading
import ContractApi.Abi.Record
import ContractApi.Abi.Signature
import ContractApi.Abi.Validation
import ContractApi.CommandLine.Arguments
import ContractApi.CommandLine.Document
import ContractApi.CommandLine.Flag
import ContractApi.CommandLine.Help
import ContractApi.CommandLine.Run
import ContractApi.Conversion
import ContractApi.Fault
import ContractApi.File.Fault
import ContractApi.File.Path
import ContractApi.File.Surroundings
import ContractApi.File.Tree
import ContractApi.Json.Encodable
import ContractApi.Json.Reader
import ContractApi.Json.Writer
import ContractApi.Keccak
import ContractApi.Main
import ContractApi.Number.Binary64
import ContractApi.Number.Numeral
import ContractApi.OpenApi.Components
import ContractApi.OpenApi.Document
import ContractApi.OpenApi.Operation
import ContractApi.Outcome
import ContractApi.Output.Folder
import ContractApi.Output.Writer
import ContractApi.Schema.Basic
import ContractApi.Schema.Member
import ContractApi.Schema.OfType
import ContractApi.Settings
import ContractApi.Table
import ContractApi.Text.Basic
import ContractApi.Text.Capital
import ContractApi.Text.DecimalDigit
import ContractApi.Text.Printable
import ContractApi.Text.Quoted
import ContractApi.Text.Ranges
import ContractApi.Text.Small
import ContractApi.Text.Utf8
import ContractApi.Text.Word
import ContractApi.Value.Basic
import ContractApi.Value.Display
import ContractApi.Proofs.Outcome
import ContractApi.Proofs.Table
import ContractApi.Proofs.WellFormed
import ContractApi.Proofs.Entries
import ContractApi.Proofs.Parts
import ContractApi.Proofs.Navigation
import ContractApi.Proofs.Collisions
import ContractApi.Proofs.Operations
import ContractApi.Proofs.References
import ContractApi.Proofs.Surrogates
import ContractApi.Proofs.Gate
import ContractApi.Proofs.Canonical
import ContractApi.Proofs.Results
import ContractApi.Proofs.Convertible
import ContractApi.Proofs.Describable
import ContractApi.Proofs.AfterReading
import ContractApi.Proofs.Spelling
import ContractApi.Proofs.Layout
import ContractApi.Proofs.ReadMembers
import ContractApi.Proofs.Recomputed
import ContractApi.Proofs.Nesting
import ContractApi.Proofs.Names
import ContractApi.Proofs.Fields
import ContractApi.Proofs.WrittenText
import ContractApi.Proofs.WrittenValue
import ContractApi.Proofs.LegibleDocument
import ContractApi.Proofs.WrittenDocument
import ContractApi.Proofs.Snapshots
import ContractApi.Proofs.SameItems
import ContractApi.Proofs.Builds
import ContractApi.Proofs.Overloads
import ContractApi.Proofs.OperationIds
import ContractApi.Proofs.WrittenNumber
import ContractApi.Proofs.JsonGrammar
import ContractApi.Proofs.Defaults
import ContractApi.Proofs.StandardOutput
import ContractApi.Proofs.Locations
import ContractApi.Proofs.WriterRuns
import ContractApi.Proofs.FailureReports
import ContractApi.Proofs.WrittenAscii
import ContractApi.Proofs.WrittenRecords
import ContractApi.Proofs.Products
import ContractApi.Proofs.MemberChains
import ContractApi.Proofs.Requirements
import ContractApi.Proofs.Concatenation
import ContractApi.Proofs.OutputFolder
import ContractApi.Proofs.WholeWords
import ContractApi.Proofs.CanonicalTypes
import ContractApi.Proofs.PlainSignatures
import ContractApi.Proofs.Prototypes
import ContractApi.Proofs.Renaming
