import ContractApi.Text.Basic
/-!
# The description of the command

What the command prints when its description or its version is asked for.
-/

namespace ContractApi.CommandLine

def commandName : Text := "abi2openapi"

/-- The version of the command. -/
def versionText : Text := commandName ++ " 0.1.0\n"

/-- The lines of the description. -/
def helpLines : List Text :=
  ["usage: abi2openapi [-h] [--version] [-n name] [-s] [-v] [-vv] [-f]",
    "                   [--indent INDENT] [--nodotenv]",
    "                   [--output OUTPUT [OUTPUT ...]] [--output_dir OUTPUT_DIR]",
    "                   abi",
    "",
    "abi2openapi -- turn Ethereum contract ABIs into OpenAPI specs.",
    "",
    "positional arguments:",
    "  abi                   ABI JSON file, or - to read from stdin.",
    "",
    "options:",
    "  -h, --help            show this help message and exit",
    "  --version             show program's version number and exit",
    "  -n name, --name name  Contract name, overrides the contractName in the ABI",
    "                        document.",
    "  -s, --strict          Fail if overloaded functions collide on paths or",
    "                        schema names.",
    "  -v, --verbose         set loglevel to INFO.",
    "  -vv, --very-verbose   set loglevel to DEBUG.",
    "  -f, --tofile          Dump output as files.",
    "  --indent INDENT       Indentation of the JSON output. Default is 4.",
    "  --nodotenv            Do not load dotenv file to initialize config values.",
    "  --output OUTPUT [OUTPUT ...]",
    "                        Output that should be produced:",
    "                        openapi|parsed|signatures|events|all.",
    "  --output_dir OUTPUT_DIR",
    "                        Directory to save the results if -f is specified.",
    "                        Default is abi2openapi-output/."]

/-- The description. -/
def helpText : Text := helpLines.flatMap (· ++ "\n")

end ContractApi.CommandLine
