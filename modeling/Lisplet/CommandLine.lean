import Lisplet.CommandLine.Arguments
import Lisplet.CommandLine.Storage
import Lisplet.Run
/-!
# The command
-/

namespace Lisplet.CommandLine

/-- What the command leaves behind. -/
structure Report where
  exitStatus : Nat
  standardOutput : String
  standardError : String

def helpText : String :=
  String.join
    ["A tree-walking interpreter for a small S-expression language\n",
     "\n",
     "Usage: funk [OPTIONS] [FILES]...\n",
     "\n",
     "Arguments:\n",
     "  [FILES]...  Source files to run. Their tokens are joined in the order given\n",
     "\n",
     "Options:\n",
     "  -e, --expr <SOURCE>  Inline source text, run after the files. May be repeated\n",
     "  -q, --quiet          Do not print the numeric results of top-level expressions\n",
     "  -v, --verbose...     Increases log verbosity. May be repeated\n",
     "  -h, --help           Print help\n",
     "  -V, --version        Print version\n"]

def versionText : String := "funk 0.1.0\n"

namespace Report

def success (output : String) : Report := ⟨0, output, ""⟩

def failure (output message : String) : Report := ⟨1, output, "ERROR: " ++ message ++ "\n"⟩

def usage (error : UsageError) : Report := ⟨2, "", "error: " ++ error.message ++ "\n"⟩

end Report

/-- The texts of all files, or the first failure with the name of its file. -/
def readFiles (storage : Storage) (names : List String) :
    Except (String × ReadFailure) (List String) :=
  names.mapM fun name => (storage.text name).mapError fun failure => (name, failure)

/-- Runs what the options name: the files first, which are all read before anything runs, then
the inline sources. -/
def runOptions (fuel : Nat) (storage : Storage) (options : Options) : Option Report :=
  if options.files = [] ∧ options.sources = [] then some (.success helpText)
  else
    match readFiles storage options.files with
    | .error (name, failure) => some (.failure "" (failure.message name))
    | .ok texts =>
      match runSources fuel (!options.quiet) (texts ++ options.sources) .unlimited with
      | some (.ok _, sink) => some (.success (Text.Utf8.decodeStart sink.written))
      | some (.error failure, sink) =>
        some (.failure (Text.Utf8.decodeStart sink.written) failure.message)
      | none => none

/-- The whole command; there is no report if the fuel runs out. -/
def execute (fuel : Nat) (storage : Storage) (arguments : List String) : Option Report :=
  match Request.ofArguments arguments with
  | .error e => some (.usage e)
  | .ok .help => some (.success helpText)
  | .ok .version => some (.success versionText)
  | .ok (.run options) => runOptions fuel storage options

end Lisplet.CommandLine
