/-!
# Reading arguments

The command line takes one file and up to one flag for diagnostics.  Arguments
are read from left to right and settle what is asked for as soon as they can:
help and the version at once, and so does anything that is out of place.  Short
flags may stand together behind one dash.  After `--` everything is a file.
-/

namespace SumScript

/-- What a command line asks for. -/
inductive Request where
  /-- The help text. -/
  | help
  /-- The name and the version. -/
  | version
  /-- Nothing that can be done: the arguments are wrong. -/
  | misuse
  /-- To run a script, with diagnostics if asked for. -/
  | run (verbose : Bool) (path : String)
deriving DecidableEq

/-- The flags. -/
inductive Flag where
  /-- Print diagnostics. -/
  | verbose
  /-- Print the help text. -/
  | help
  /-- Print the name and the version. -/
  | version
deriving DecidableEq

/-- The flag of a letter. -/
def Flag.ofLetter? : Char → Option Flag
  | 'v' => some .verbose
  | 'h' => some .help
  | 'V' => some .version
  | _ => none

/-- The flag of a word. -/
def Flag.ofWord? (word : List Char) : Option Flag :=
  if word = "verbose".toList then some .verbose
  else if word = "help".toList then some .help
  else if word = "version".toList then some .version
  else none

/-- One argument. -/
inductive Argument where
  /-- Flags; one that does not exist is none. -/
  | flags (flags : List (Option Flag))
  /-- The mark after which there are only files. -/
  | endOfFlags
  /-- A file. -/
  | file (path : String)
deriving DecidableEq

/-- What an argument is, while flags may still come. -/
def Argument.ofText (text : String) : Argument :=
  match text.toList with
  | ['-', '-'] => .endOfFlags
  | '-' :: '-' :: word => .flags [Flag.ofWord? word]
  | '-' :: letter :: letters => .flags ((letter :: letters).map Flag.ofLetter?)
  | _ => .file text

/-- Takes flags one by one: whether diagnostics are asked for after them, or the
request that they settle.  Diagnostics may be asked for once. -/
def takeFlags (verbose : Bool) : List (Option Flag) → Except Request Bool
  | [] => .ok verbose
  | some .verbose :: flags => if verbose then .error .misuse else takeFlags true flags
  | some .help :: _ => .error .help
  | some .version :: _ => .error .version
  | none :: _ => .error .misuse

/-- Reads arguments after some that were read before: whether only files can
follow, whether diagnostics were asked for, and the file if there was one. -/
def Request.ofArgsFrom (onlyFiles verbose : Bool) (file : Option String) :
    List String → Request
  | [] =>
      match file with
      | some path => .run verbose path
      | none => .misuse
  | text :: args =>
      match if onlyFiles then .file text else Argument.ofText text with
      | .endOfFlags => ofArgsFrom true verbose file args
      | .flags flags =>
          match takeFlags verbose flags with
          | .ok verbose => ofArgsFrom onlyFiles verbose file args
          | .error request => request
      | .file path =>
          if path = "" ∨ file.isSome then .misuse
          else ofArgsFrom onlyFiles verbose (some path) args

/-- What a command line asks for. -/
def Request.ofArgs (args : List String) : Request := Request.ofArgsFrom false false none args

/-! ## Examples -/

example : Request.ofArgs ["-v", "a.push"] = .run true "a.push" := by decide +kernel

/-- What comes first is settled first. -/
example : Request.ofArgs ["-vV", "-x"] = .version := by decide +kernel

example : Request.ofArgs ["-vv", "--help"] = .misuse := by decide +kernel

example : Request.ofArgs ["--", "-v"] = .run false "-v" := by decide +kernel

end SumScript
