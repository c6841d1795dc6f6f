import Lisplet.Arity
/-!
# Built-in functions

A built-in is known by its name and by how it takes its arguments. The primitives are what every
program starts with. The extensions are bound only by a host, a program that embeds the language;
they may see unevaluated arguments and the environment of the call. A host may have any number of
them, and the standard host has six.
-/

namespace Lisplet

inductive Primitive where
  | add | sub | mul | div | mod
  | print | batch | if
  | not | and | or | xor
  | equal | notEqual | greater | greaterOrEqual | less | lessOrEqual
deriving DecidableEq

/-- A function that a host binds. Only the host knows what it does. -/
structure Extension where
  name : String
  arity : Arity
  /-- Whether arguments are evaluated before the extension sees them. -/
  eager : Bool
deriving DecidableEq

/-- The extensions of the standard host. -/
inductive Extension.Standard where
  /-- Evaluates conditions in turn, and only the chosen branch. -/
  | lazyIf
  /-- Its argument, unevaluated. -/
  | quote
  /-- Evaluates a value once more. -/
  | eval
  /-- Binds a name in the scope of the call. -/
  | define
  /-- The depth of the scope of the call. -/
  | depth
  /-- Calls its first argument with the others. -/
  | call
deriving DecidableEq

inductive BuiltIn where
  | primitive (primitive : Primitive)
  | extension (extension : Extension)
deriving DecidableEq

namespace Primitive

/-- Every primitive, in the order in which they are registered. -/
def all : List Primitive :=
  [.add, .sub, .mul, .div, .mod, .print, .batch, .if, .not, .and, .or, .xor,
   .equal, .notEqual, .greater, .greaterOrEqual, .less, .lessOrEqual]

def name : Primitive → String
  | .add => "add"
  | .sub => "sub"
  | .mul => "mul"
  | .div => "div"
  | .mod => "mod"
  | .print => "print"
  | .batch => "batch"
  | .if => "if"
  | .not => "not"
  | .and => "and"
  | .or => "or"
  | .xor => "xor"
  | .equal => "equal"
  | .notEqual => "not_equal"
  | .greater => "greater"
  | .greaterOrEqual => "greater_or_equal"
  | .less => "less"
  | .lessOrEqual => "less_or_equal"

def arity : Primitive → Arity
  | .add | .mul | .print | .batch | .if | .and | .or | .xor => .atLeast 0
  | .sub | .div | .mod => .atLeast 1
  | .not => .exactly 1
  | .equal | .notEqual | .greater | .greaterOrEqual | .less | .lessOrEqual => .atLeast 2

/-- The primitive of that name, whatever a program binds the name to. -/
def find? (name : String) : Option Primitive := all.find? fun p => p.name = name

end Primitive

namespace Extension

namespace Standard

def all : List Standard := [.lazyIf, .quote, .eval, .define, .depth, .call]

/-- The name that the host binds, and how arguments are taken. -/
def extension : Standard → Extension
  | .lazyIf => ⟨"lazy_if", .atLeast 0, false⟩
  | .quote => ⟨"quote", .exactly 1, false⟩
  | .eval => ⟨"eval", .exactly 1, true⟩
  | .define => ⟨"def", .exactly 2, false⟩
  | .depth => ⟨"depth", .exactly 0, true⟩
  | .call => ⟨"call", .atLeast 1, true⟩

end Standard

/-- The extensions that the standard host binds. -/
def all : List Extension := Standard.all.map Standard.extension

/-- Which extension of the standard host it is, if it is one. -/
def standard? (x : Extension) : Option Standard := Standard.all.find? fun k => k.extension = x

def find? (name : String) : Option Extension := all.find? fun x => x.name = name

end Extension

namespace BuiltIn

def name : BuiltIn → String
  | .primitive p => p.name
  | .extension x => x.name

def arity : BuiltIn → Arity
  | .primitive p => p.arity
  | .extension x => x.arity

/-- Whether arguments are evaluated before the built-in sees them. -/
def eager : BuiltIn → Bool
  | .primitive _ => true
  | .extension x => x.eager

/-- The built-in of that name, extensions included. -/
def find? (name : String) : Option BuiltIn :=
  ((Primitive.find? name).map .primitive).or ((Extension.find? name).map .extension)

/-- A description for a person who inspects the table of built-ins. -/
def summary (b : BuiltIn) : String :=
  let arity := match b.arity with
    | .exactly count => "Exact(" ++ Text.Decimal.ofNat count ++ ")"
    | .atLeast count => "AtLeast(" ++ Text.Decimal.ofNat count ++ ")"
  "BuiltIn \x7b name: \"" ++ b.name ++ "\", arity: " ++ arity ++
    ", eager_args: " ++ (if b.eager then "true" else "false") ++ ", .. \x7d"

end BuiltIn

end Lisplet
