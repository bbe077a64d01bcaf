/-!
# ZkCommand.CommandLine.Arguments

**Arguments of a command.** Options are long; some take a value, as the next argument or after an
equals sign, and the others stand alone. Two dashes end the options. Everything else is the name
of a file, a single dash included. No option may be given twice.
-/

namespace ZkCommand.CommandLine

/-- The long options of a command. -/
structure Options where
  valued : List String
  flags : List String

/-- What the arguments of a command say. -/
structure Arguments where
  values : List (String × String)
  flags : List String
  files : List String
  deriving DecidableEq, Repr

namespace Arguments

/-- No arguments. -/
def empty : Arguments := ⟨[], [], []⟩

/-- The value of an option. -/
def value? (a : Arguments) (name : String) : Option String :=
  (a.values.find? fun entry => entry.1 = name).map Prod.snd

/-- One more value in front; an option has only one. -/
def addValue (name value : String) (a : Arguments) : Option Arguments :=
  if (a.value? name).isSome then none else some { a with values := (name, value) :: a.values }

/-- One more flag in front; a flag is given only once. -/
def addFlag (name : String) (a : Arguments) : Option Arguments :=
  if a.flags.contains name then none else some { a with flags := name :: a.flags }

/-- One more file in front. -/
def addFile (name : String) (a : Arguments) : Arguments := { a with files := name :: a.files }

end Arguments

/-- The name after two dashes, and the text after the first equals sign, if there is one. -/
def splitLong (body : List Char) : String × Option String :=
  let name := body.takeWhile (· ≠ '=')
  match body.dropWhile (· ≠ '=') with
  | [] => (String.ofList name, none)
  | _ :: value => (String.ofList name, some (String.ofList value))

/-- An argument by its first dashes. -/
inductive Form
  | endOfOptions
  | long (name : String) (value : Option String)
  | short
  | plain (text : String)
  deriving DecidableEq, Repr

/-- The form of an argument. -/
def Form.of (arg : String) : Form :=
  match arg.toList with
  | ['-', '-'] => .endOfOptions
  | '-' :: '-' :: body => .long (splitLong body).1 (splitLong body).2
  | '-' :: _ :: _ => .short
  | _ => .plain arg

/-- What the arguments of a command with these options say; nothing if they are no use of it. -/
def Arguments.read (options : Options) : List String → Option Arguments
  | [] => some .empty
  | arg :: rest =>
      match Form.of arg with
      | .endOfOptions => some { Arguments.empty with files := rest }
      | .short => none
      | .plain text => (Arguments.read options rest).map (addFile text)
      | .long name (some value) =>
          if options.valued.contains name then
            (Arguments.read options rest).bind (addValue name value)
          else none
      | .long name none =>
          if options.flags.contains name then
            (Arguments.read options rest).bind (addFlag name)
          else if options.valued.contains name then
            match rest with
            | [] => none
            | value :: others =>
                match Form.of value with
                | .plain text => (Arguments.read options others).bind (addValue name text)
                | _ => none
          else none

end ZkCommand.CommandLine
