import VerifiedBoot.Number.Decimal
import VerifiedBoot.Repair.Basic

/-!
# Command lines

A command line is options, a command word, and the options and operands of the command. Options of
a long name may be cut short as long as one option is meant, and take their value behind an equals
sign or as the next argument. Options of a short name may be run together. Everything behind the
mark `--` is an operand, and so is a number with a minus sign. The mark is not allowed before the
command word, nor at the end behind an option.

A value that is itself spelled `--` counts as no value: an option or an operand may be there
without having one. Only the operand right behind the mark may be spelled like it, unless an operand
stands right before the mark.
-/

namespace VerifiedBoot

namespace Arguments

/-- What an option takes. -/
inductive Taking where
  | nothing
  | text
  | number
  deriving DecidableEq, Repr

/-- An option. -/
structure OptionSpec where
  /-- All its names, with their hyphens. -/
  names : List String
  taking : Taking
  deriving DecidableEq, Repr

/-- An option that was given. -/
structure Given where
  /-- The first name of the option. -/
  name : String
  value : Option String
  deriving DecidableEq, Repr

/-- Why a command line is not run. -/
inductive Stop where
  /-- It cannot be understood. -/
  | usage
  /-- It asks for help. -/
  | help
  deriving DecidableEq, Repr

/-- What an argument is. -/
inductive Class where
  | operand
  /-- An option, with a value behind an equals sign or the letters that follow it. -/
  | option (spec : OptionSpec) (attached : Option String) (isLong : Bool)
  | unknown
  | ambiguous
  deriving DecidableEq, Repr

/-- The options and operands of a command line. -/
structure Parts where
  given : List Given
  operands : List (Option String)
  /-- Whether there is something that no option or operand accounts for. -/
  surplus : Bool
  deriving DecidableEq, Repr

/-- The option that asks for help. -/
def helpOption : OptionSpec :=
  ⟨["--help", "-h"], .nothing⟩

namespace OptionSpec

/-- The name that an option is known by. -/
def name (spec : OptionSpec) : String :=
  spec.names.headD ""

end OptionSpec

/-- The mark behind which all is operands. -/
def mark : String :=
  "--"

/-- The text of a value, unless it is spelled like the mark. -/
def ofText (text : String) : Option String :=
  if text = mark then none else some text

/-- The text before and behind the first equals sign. -/
def splitEquals (arg : String) : String × Option String :=
  let chars := arg.toList
  let key := chars.takeWhile (· ≠ '=')
  (String.ofList key,
    if key.length < chars.length then some (String.ofList (chars.drop (key.length + 1))) else none)

/-- Whether an argument is a number with a minus sign. A line feed may end it. -/
def isNegativeNumber (arg : String) : Bool :=
  match arg.toList with
  | '-' :: rest =>
    let rest := if rest.getLast? = some '\n' then rest.dropLast else rest
    let whole := rest.takeWhile Text.isDigit
    match rest.dropWhile Text.isDigit with
    | [] => !whole.isEmpty
    | '.' :: digits => !digits.isEmpty && digits.all Text.isDigit
    | _ => false
  | _ => false

/-- The option with a name. -/
def named? (specs : List OptionSpec) (name : String) : Option OptionSpec :=
  specs.find? (·.names.contains name)

/-- The names that a long name may be short for. -/
def completions (specs : List OptionSpec) (name : String) : List OptionSpec :=
  specs.flatMap fun spec =>
    (spec.names.filter fun full => name.toList.isPrefixOf full.toList).map fun _ => spec

/-- Tells options from operands. An equals sign right behind a letter is not one of the letters. -/
def classify (specs : List OptionSpec) (arg : String) : Class :=
  match arg.toList with
  | '-' :: '-' :: _ =>
    match named? specs arg with
    | some spec => .option spec none true
    | none =>
      let (name, value) := splitEquals arg
      match named? specs name, value with
      | some spec, some value => .option spec (some value) true
      | _, _ =>
        match completions specs name with
        | [spec] => .option spec value true
        | [] => if arg.toList.contains ' ' then .operand else .unknown
        | _ => .ambiguous
  | ['-'] => .operand
  | '-' :: letter :: rest =>
    match named? specs (String.ofList ['-', letter]) with
    | some spec =>
      match rest with
      | [] => .option spec none false
      | '=' :: letters => .option spec (some (String.ofList letters)) false
      | letters => .option spec (some (String.ofList letters)) false
    | none =>
      if isNegativeNumber arg || arg.toList.contains ' ' then .operand else .unknown
  | _ => .operand

/-- Options without a value that are run together behind the first one. -/
def flagRun (specs : List OptionSpec) : List Char → Except Stop (List Given)
  | [] => .ok []
  | letter :: rest =>
    match named? specs (String.ofList ['-', letter]) with
    | some spec =>
      if spec.taking ≠ .nothing then .error .usage
      else do
        let others ← flagRun specs rest
        return ⟨spec.name, none⟩ :: others
    | none => .error .usage

/-- The option without a value that an argument gives, with those run together behind it. One that
asks for help ends the reading. -/
def flags (specs : List OptionSpec) (spec : OptionSpec) (attached : Option String)
    (isLong : Bool) : Except Stop (List Given) := do
  let others ← match attached, isLong with
    | none, _ => pure []
    | some _, true => throw .usage
    | some letters, false =>
      if letters.isEmpty then throw .usage else flagRun specs letters.toList
  let given : List Given := ⟨spec.name, none⟩ :: others
  if given.any (·.name = helpOption.name) then throw .help
  return given

/-- An option with its value, which has to be a number where the option takes one. -/
def withValue (spec : OptionSpec) (text : String) : Except Stop Given :=
  let value := ofText text
  if spec.taking = .number ∧ value.any (Number.ofText? · |>.isNone) then .error .usage
  else .ok ⟨spec.name, value⟩

/-- The operands behind the mark. The first one goes with the mark, and may be spelled like it,
unless an operand stands right before the mark. -/
def operandsBehind (afterOperand : Bool) : List String → List (Option String)
  | [] => []
  | first :: rest => (if afterOperand then ofText first else some first) :: rest.map ofText

/-- What stands at and behind the mark, which needs an operand before it or behind it. -/
def marked (leading afterOperand : Bool) (rest : List String) : Except Stop Parts :=
  if leading then .error .usage
  else .ok ⟨[], operandsBehind afterOperand rest, rest.isEmpty && !afterOperand⟩

/-- The options and operands of a command line, from the first argument on. With `leading`, the
first operand and all behind it are operands. The argument before the first one was an operand if
`afterOperand` says so. -/
def splitFrom (specs : List OptionSpec) (leading afterOperand : Bool) :
    List String → Except Stop Parts
  | [] => .ok ⟨[], [], false⟩
  | arg :: rest =>
    if arg = mark then marked leading afterOperand rest
    else match classify specs arg with
      | .ambiguous => .error .usage
      | .unknown => do
        let parts ← splitFrom specs leading false rest
        return { parts with surplus := true }
      | .operand =>
        if leading then .ok ⟨[], (arg :: rest).map some, false⟩
        else do
          let parts ← splitFrom specs leading true rest
          return { parts with operands := some arg :: parts.operands }
      | .option spec attached isLong =>
        if spec.taking = .nothing then do
          let here ← flags specs spec attached isLong
          let parts ← splitFrom specs leading false rest
          return { parts with given := here ++ parts.given }
        else match attached, rest with
          | some value, rest => do
            let here ← withValue spec value
            let parts ← splitFrom specs leading false rest
            return { parts with given := here :: parts.given }
          | none, value :: rest =>
            if value = mark ∨ classify specs value ≠ .operand then .error .usage
            else do
              let here ← withValue spec value
              let parts ← splitFrom specs leading false rest
              return { parts with given := here :: parts.given }
          | none, [] => .error .usage

/-- The options and operands of a command line. No argument before the mark may be short for several
options. -/
def split (specs : List OptionSpec) (leading : Bool) (args : List String) : Except Stop Parts :=
  if (args.takeWhile (· ≠ mark)).any fun arg => classify specs arg = .ambiguous then .error .usage
  else splitFrom specs leading false args

namespace Parts

/-- Whether an option was given. -/
def has (parts : Parts) (name : String) : Bool :=
  parts.given.any (·.name = name)

/-- What an option was given last, or a default if it was not given. -/
def value (parts : Parts) (name : String) (default : Option String) : Option String :=
  match parts.given.reverse.find? (·.name = name) with
  | some given => given.value
  | none => default

/-- The number that an option was given last, or a default if it was not given. -/
def number (parts : Parts) (name : String) (default : Int) : Option Int :=
  match parts.given.reverse.find? (·.name = name) with
  | some given => given.value.bind Number.ofText?
  | none => some default

end Parts

end Arguments

/-- What a command line asks for. A value is absent where an argument gives none. -/
inductive Command where
  | check (pattern : String) (describe : Bool)
  | fix (pattern : String) (keys outputDir : Option String) (alignment limit : Option Int)
  deriving DecidableEq, Repr

/-- A command with the partition that verification starts at. -/
structure Invocation where
  root : Option String
  command : Command
  deriving DecidableEq, Repr

namespace Invocation

open Arguments

/-- How the program is used. -/
def usage : String :=
  String.intercalate "\n" [
    "usage: verifiedboot [-h] [--verbose] [--root ROOT] check [-h] [--describe] PATTERN",
    "       verifiedboot [-h] [--verbose] [--root ROOT] fix [-h] [--output-dir DIR]",
    "                    [--alignment BYTES] [--max-iterations COUNT] PATTERN KEYS",
    "",
    "PATTERN is the path of the partitions, with \x7bname\x7d in place of their names.",
    "KEYS is a directory of private keys.",
    ""]

/-- The options before the command word. -/
def commonOptions : List OptionSpec :=
  [helpOption, ⟨["--verbose", "-v"], .nothing⟩, ⟨["--root"], .text⟩]

/-- The options of `check`. -/
def checkOptions : List OptionSpec :=
  [helpOption, ⟨["--describe"], .nothing⟩]

/-- The options of `fix`. -/
def fixOptions : List OptionSpec :=
  [helpOption, ⟨["--output-dir"], .text⟩, ⟨["--alignment"], .number⟩,
    ⟨["--max-iterations"], .number⟩]

/-- The command of a command word and its arguments. -/
def parseCommand : List String → Except Stop Command
  | "check" :: args => do
    let parts ← split checkOptions false args
    match parts.operands, parts.surplus with
    | [some pattern], false => return .check pattern (parts.has "--describe")
    | _, _ => throw .usage
  | "fix" :: args => do
    let parts ← split fixOptions false args
    match parts.operands, parts.surplus with
    | [some pattern, keys], false =>
      let outputDir := (parts.value "--output-dir" none).filter fun dir => !dir.isEmpty
      return .fix pattern keys outputDir (parts.number "--alignment" Request.defaultAlignment)
        (parts.number "--max-iterations" Repair.defaultLimit)
    | _, _ => throw .usage
  | _ => .error .usage

/-- What a command line asks for. -/
def parse (args : List String) : Except Stop Invocation := do
  let parts ← split commonOptions true args
  let command ← parseCommand (parts.operands.filterMap id)
  if parts.surplus then throw .usage
  return { root := parts.value "--root" (some "vbmeta"), command }

end Invocation

end VerifiedBoot
