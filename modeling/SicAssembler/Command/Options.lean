import SicAssembler.Command.Arguments
import SicAssembler.Text.ControlSequence
import SicAssembler.Text.Lines

/-!
# Command-line options

The reader of command lines that the program comes with. Options may stand before and after the
input file. A long option takes its value after an equals sign or from the next argument; short
options may be grouped, and the rest of a group is the value of the first that takes one. The last
value of an option counts.
-/

namespace SicAssembler

inductive FileOption where
  | optab
  | output
  | listing
  | symbols
  deriving DecidableEq, Repr

inductive Switch where
  | strict
  | lenient
  | noDuplicates
  | print
  | verbose
  | version
  | help
  deriving DecidableEq, Repr

inductive OptionName where
  | file (option : FileOption)
  | switch (switch : Switch)
  deriving DecidableEq, Repr

def OptionName.ofLong? : String → Option OptionName
  | "--optab" => some (.file .optab)
  | "--output" => some (.file .output)
  | "--listing" => some (.file .listing)
  | "--symbols" => some (.file .symbols)
  | "--strict" => some (.switch .strict)
  | "--lenient" => some (.switch .lenient)
  | "--no-duplicates" => some (.switch .noDuplicates)
  | "--print" => some (.switch .print)
  | "--verbose" => some (.switch .verbose)
  | "--version" => some (.switch .version)
  | "--help" => some (.switch .help)
  | _ => none

def OptionName.ofLetter? : Char → Option OptionName
  | 't' => some (.file .optab)
  | 'o' => some (.file .output)
  | 'l' => some (.file .listing)
  | 's' => some (.file .symbols)
  | 'p' => some (.switch .print)
  | 'v' => some (.switch .verbose)
  | _ => none

inductive Parameter where
  | input
  | option (option : FileOption)
  deriving DecidableEq, Repr

def Parameter.text : Parameter → String
  | input => "'INPUT_FILE'"
  | option .optab => "'-t' / '--optab'"
  | option .output => "'-o' / '--output'"
  | option .listing => "'-l' / '--listing'"
  | option .symbols => "'-s' / '--symbols'"

inductive UsageFault where
  | unknownOption (name : String)
  | missingValue (name : String)
  | unexpectedValue (name : String)
  | missingInput
  | extraArguments (arguments : List String)
  | fileMissing (parameter : Parameter) (path : String)
  | fileIsDirectory (parameter : Parameter) (path : String)
  | fileUnreadable (parameter : Parameter) (path : String)
  deriving DecidableEq, Repr

namespace UsageFault

def reason : UsageFault → String
  | unknownOption name => s!"No such option {Text.quoted name}."
  | missingValue name => s!"Option {Text.quoted name} requires an argument."
  | unexpectedValue name => s!"Option {Text.quoted name} does not take a value."
  | missingInput => "Missing argument 'INPUT_FILE'."
  | extraArguments arguments =>
    let word := if arguments.length = 1 then "argument" else "arguments"
    let names := String.intercalate " " arguments
    s!"Got unexpected extra {word} ({names})"
  | fileMissing parameter path =>
    s!"Invalid value for {parameter.text}: File {Text.quoted path} does not exist."
  | fileIsDirectory parameter path =>
    s!"Invalid value for {parameter.text}: File {Text.quoted path} is a directory."
  | fileUnreadable parameter path =>
    s!"Invalid value for {parameter.text}: File {Text.quoted path} is not readable."

def showsUsage : UsageFault → Bool
  | missingValue _ | unexpectedValue _ => false
  | _ => true

def usage : String :=
  "Usage: sicasm [OPTIONS] INPUT_FILE\nTry 'sicasm --help' for help.\n\n"

def text (f : UsageFault) : String :=
  let head := if f.showsUsage then usage else ""
  s!"{head}Error: {Text.withoutSequences f.reason}\n"

end UsageFault

inductive Setting where
  | file (option : FileOption) (path : String)
  | switch (switch : Switch)
  deriving DecidableEq, Repr

inductive Argument where
  | operand
  | settings (settings : List Setting)
  | awaiting (settings : List Setting) (option : FileOption) (name : String)
  | faulty (fault : UsageFault)
  deriving DecidableEq, Repr

namespace Argument

def withSetting (s : Setting) : Argument → Argument
  | operand => operand
  | settings rest => settings (s :: rest)
  | awaiting rest option name => awaiting (s :: rest) option name
  | faulty fault => faulty fault

def ofLetters : List Char → Argument
  | [] => settings []
  | c :: cs =>
    let name := String.ofList ['-', c]
    match OptionName.ofLetter? c with
    | none => faulty (.unknownOption name)
    | some (.switch s) => (ofLetters cs).withSetting (.switch s)
    | some (.file o) =>
      if cs = [] then awaiting [] o name else settings [.file o (String.ofList cs)]

/-- Reads a long option, which may hold a value after an equals sign. -/
def ofLong (cs : List Char) : Argument :=
  let name := String.ofList (cs.takeWhile (· != '='))
  match OptionName.ofLong? name, cs.dropWhile (· != '=') with
  | none, _ => faulty (.unknownOption name)
  | some (.switch s), [] => settings [.switch s]
  | some (.switch _), _ :: _ => faulty (.unexpectedValue name)
  | some (.file o), [] => awaiting [] o name
  | some (.file o), _ :: value => settings [.file o (String.ofList value)]

/-- Reads an argument. A single dash is no option. -/
def read (argument : String) : Argument :=
  match argument.toList with
  | '-' :: '-' :: cs => ofLong ('-' :: '-' :: cs)
  | '-' :: c :: cs => ofLetters (c :: cs)
  | _ => operand

end Argument

/-- The uses of options and the other arguments, both in order. -/
structure RawArguments where
  settings : List Setting
  operands : List String
  deriving DecidableEq, Repr

namespace RawArguments

def withSettings (ss : List Setting) (r : RawArguments) : RawArguments :=
  ⟨ss ++ r.settings, r.operands⟩

def withOperand (s : String) (r : RawArguments) : RawArguments := ⟨r.settings, s :: r.operands⟩

def read : List String → Except UsageFault RawArguments
  | [] => .ok ⟨[], []⟩
  | argument :: rest =>
    if argument = "--" then .ok ⟨[], rest⟩
    else match Argument.read argument with
      | .operand => (read rest).map (withOperand argument)
      | .settings ss => (read rest).map (withSettings ss)
      | .faulty fault => .error fault
      | .awaiting ss option name =>
        match rest with
        | [] => .error (.missingValue name)
        | value :: rest => (read rest).map (withSettings (ss ++ [.file option value]))

def uses (r : RawArguments) (s : Switch) : Bool := r.settings.contains (.switch s)

def file? (r : RawArguments) (o : FileOption) : Option String :=
  r.settings.reverse.findSome? fun
    | .file option path => if option = o then some path else none
    | .switch _ => none

def fileOptions (r : RawArguments) : List FileOption :=
  (r.settings.filterMap fun
    | .file option _ => some option
    | .switch _ => none).eraseDups

/-- What the switches say about undefined operands; the last one counts. -/
def undefinedSymbols? (r : RawArguments) : Option UndefinedSymbols :=
  r.settings.reverse.findSome? fun
    | .switch .strict => some .strict
    | .switch .lenient => some .lenient
    | _ => none

end RawArguments

namespace Arguments

/-- What is wrong with a path that may lead to a file, or has to, but not to a directory. -/
def fileFault? (d : Disk) (required : Bool) (parameter : Parameter) (path : String) :
    Option UsageFault :=
  match d.stat path with
  | .error _ => if required then some (.fileMissing parameter path) else none
  | .ok (_, .directory) => some (.fileIsDirectory parameter path)
  | .ok (p, .file _) => if p ∈ d.unreadable then some (.fileUnreadable parameter path) else none

def optionFault? (d : Disk) (r : RawArguments) (o : FileOption) : Option UsageFault :=
  (r.file? o).bind (fileFault? d (o = .optab) (.option o))

/-- What is wrong with the arguments: first with the values of the options, in order of first use,
then with the input file, then that something is left over. -/
def fault? (d : Disk) (r : RawArguments) : Option UsageFault :=
  match r.fileOptions.findSome? (optionFault? d r), r.operands with
  | some e, _ => some e
  | none, [] => some .missingInput
  | none, [input] => fileFault? d true .input input
  | none, input :: extra => some ((fileFault? d true .input input).getD (.extraArguments extra))

/-- The arguments with their paths in plain form. -/
def ofRaw (r : RawArguments) (input : String) : Arguments where
  input := Path.plain input
  optab := (r.file? .optab).map Path.plain
  output := (r.file? .output).map Path.plain
  listing := (r.file? .listing).map Path.plain
  symbols := (r.file? .symbols).map Path.plain
  undefinedSymbols := r.undefinedSymbols?
  noDuplicates := r.uses .noDuplicates
  print := r.uses .print
  verbose := r.uses .verbose

end Arguments

def versionText : String := "sicasm, version 1.0.0\n"

def helpText : String := Text.unlines
  ["Usage: sicasm [OPTIONS] INPUT_FILE",
    "",
    "  Assemble a SIC source program.",
    "",
    "  INPUT_FILE is the assembly source, one 'LABEL MNEMONIC OPERAND' line per",
    "  statement ('-' for no label).",
    "",
    "  Examples:",
    "      sicasm copy.asm                # Outputs copy.obj",
    "      sicasm copy.asm -t optab.txt   # Use an opcode table file",
    "      sicasm copy.asm -l copy.lst    # Also write the listing",
    "",
    "Options:",
    "  -t, --optab FILE      Opcode table file, one 'MNEMONIC CODE' per line",
    "                        (default: built-in SIC instruction set)",
    "  -o, --output FILE     Output object file (default: input.obj)",
    "  -l, --listing FILE    Write intermediate listing file",
    "  -s, --symbols FILE    Write symbol table file",
    "  --strict / --lenient  Fail on undefined operand symbols instead of",
    "                        assembling them as address 0000. Default: lenient, or",
    "                        SICASM_STRICT_SYMBOLS.",
    "  --no-duplicates       Fail when a label is defined twice instead of keeping",
    "                        the last address",
    "  -p, --print           Print listing, symbol table and object code",
    "  -v, --verbose         Verbose output",
    "  --version             Show the version and exit.",
    "  --help                Show this message and exit."]

namespace RawArguments

def requestedText? (r : RawArguments) : Option String :=
  r.settings.findSome? fun
    | .switch .version => some versionText
    | .switch .help => some helpText
    | _ => none

/-- The paths that a run may touch: those that are named, and where the object program of each
operand would go. -/
def mentioned (r : RawArguments) : List String :=
  let named := r.settings.filterMap fun
    | .file _ path => some path
    | .switch _ => none
  named ++ r.operands ++ r.operands.map (Path.withSuffix ".obj")

end RawArguments

def Arguments.reader : Reader := fun d args =>
  match RawArguments.read args with
  | .error f => .finished 2 "" f.text
  | .ok raw =>
    match raw.requestedText?, fault? d raw with
    | some text, _ => .finished 0 text ""
    | none, some f => .finished 2 "" f.text
    | none, none => .ready (ofRaw raw (raw.operands.headD ""))

end SicAssembler
