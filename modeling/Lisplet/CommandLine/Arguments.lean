/-!
# Command-line arguments

Arguments are taken from left to right. The first usage error or request for help or for the
version settles what is done.
-/

namespace Lisplet.CommandLine

structure Options where
  files : List String
  /-- Inline source texts, which run after the files. -/
  sources : List String
  quiet : Bool
  verbosity : Nat

inductive Request where
  | help
  | version
  | run (options : Options)

inductive UsageError where
  | unknownOption (name : String)
  | missingValue
  | unexpectedValue (name : String)
  | repeatedQuiet
  | emptyFileName

namespace UsageError

def message : UsageError → String
  | unknownOption name => "unexpected argument '" ++ name ++ "' found"
  | missingValue => "a value is required for '--expr <SOURCE>' but none was supplied"
  | unexpectedValue name => "unexpected value for '" ++ name ++ "' found; no more were expected"
  | repeatedQuiet => "the argument '--quiet' cannot be used multiple times"
  | emptyFileName => "a value is required for '[FILES]...' but none was supplied"

end UsageError

namespace Options

def none : Options := ⟨[], [], false, 0⟩

def addFiles (o : Options) (names : List String) : Options := { o with files := o.files ++ names }

def addSource (o : Options) (source : String) : Options :=
  { o with sources := o.sources ++ [source] }

def setQuiet (o : Options) : Except UsageError Options :=
  if o.quiet then .error .repeatedQuiet else .ok { o with quiet := true }

def raiseVerbosity (o : Options) : Options := { o with verbosity := o.verbosity + 1 }

/-- Grants a request unless a file name before it was empty. -/
def grant (o : Options) (request : Request) : Except UsageError Request :=
  if o.files.contains "" then .error .emptyFileName else .ok request

end Options

/-- Where the reading of arguments stands. -/
inductive Progress where
  | reading (options : Options)
  /-- The next argument is an inline source. -/
  | awaitingSource (options : Options)
  | settled (request : Request)

/-- Short options joined in one argument. What follows `e` is its value. -/
def shortOptions (o : Options) : List Char → Except UsageError Progress
  | [] => .ok (.reading o)
  | c :: rest =>
    match c with
    | 'e' =>
      match rest with
      | [] => .ok (.awaitingSource o)
      | '=' :: source => .ok (.reading (o.addSource (String.ofList source)))
      | source => .ok (.reading (o.addSource (String.ofList source)))
    | 'q' => do shortOptions (← o.setQuiet) rest
    | 'v' => shortOptions o.raiseVerbosity rest
    | 'h' => .settled <$> o.grant .help
    | 'V' => .settled <$> o.grant .version
    | _ => .error (.unknownOption ("-" ++ c.toString))

/-- A long option, given by its characters after the dashes. -/
def longOption (o : Options) (characters : List Char) : Except UsageError Progress :=
  let name := String.ofList (characters.takeWhile (· ≠ '='))
  let flag (progress : Except UsageError Progress) : Except UsageError Progress :=
    if characters.contains '=' then .error (.unexpectedValue ("--" ++ name)) else progress
  match name with
  | "expr" =>
    match characters.dropWhile (· ≠ '=') with
    | [] => .ok (.awaitingSource o)
    | _ :: source => .ok (.reading (o.addSource (String.ofList source)))
  | "quiet" => flag (.reading <$> o.setQuiet)
  | "verbose" => flag (.ok (.reading o.raiseVerbosity))
  | "help" => flag (.settled <$> o.grant .help)
  | "version" => flag (.settled <$> o.grant .version)
  | name => .error (.unknownOption ("--" ++ name))

/-- Reads the arguments that are left. A lone dash is no option, and after two dashes everything
is a file name. -/
def readFrom (progress : Progress) (arguments : List String) : Except UsageError Request :=
  match progress, arguments with
  | .settled request, _ => .ok request
  | .reading o, [] => o.grant (.run o)
  | .awaitingSource _, [] => .error .missingValue
  | .awaitingSource o, argument :: rest =>
    match argument.toList with
    | '-' :: _ :: _ => .error .missingValue
    | _ => readFrom (.reading (o.addSource argument)) rest
  | .reading o, argument :: rest =>
    match argument.toList with
    | ['-', '-'] => (o.addFiles rest).grant (.run (o.addFiles rest))
    | '-' :: '-' :: name => do readFrom (← longOption o name) rest
    | '-' :: c :: more => do readFrom (← shortOptions o (c :: more)) rest
    | _ => readFrom (.reading (o.addFiles [argument])) rest

def Request.ofArguments (arguments : List String) : Except UsageError Request :=
  readFrom (.reading .none) arguments

end Lisplet.CommandLine
