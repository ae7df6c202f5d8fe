import JvmCode.Adapter
/-!
# The command line

The command shows adapters for the method types given with `--descriptor`, which can be
repeated; `--class-version` and `--owner` say which class they are generated for and can
be given once. An option takes its value from the next argument or, after `=`, from its
own.

Arguments are read from left to right, and the first problem met decides. An option that
takes its value from the next argument is settled only when the next option is met, or at
the end: what is wrong with its value, or with it being there a second time, is reported
then.
-/

namespace JvmCode.CommandLine

/-! ## Usage -/

/-- Why arguments are refused, or what is shown instead of running. -/
inductive UsageFault
  | missingRequired
  | missingValue
  | unknownArgument
  | badValue
  | repeatedOption
  | unexpectedValue
  | showHelp
  | showVersion
  deriving DecidableEq

/-- The name of the fault. -/
def UsageFault.name : UsageFault → String
  | .missingRequired => "MissingRequiredArgument"
  | .missingValue => "InvalidValue"
  | .unknownArgument => "UnknownArgument"
  | .badValue => "ValueValidation"
  | .repeatedOption => "ArgumentConflict"
  | .unexpectedValue => "TooManyValues"
  | .showHelp => "DisplayHelp"
  | .showVersion => "DisplayVersion"

/-- The options that take a value. -/
inductive ValueOption
  | descriptor | classVersion | owner
  deriving DecidableEq

/-- What a word after two dashes can mean. -/
inductive LongOption
  | value (option : ValueOption)
  | help
  | version

/-- The options by their names. -/
def LongOption.ofName? : String → Option LongOption
  | "descriptor" => some (.value .descriptor)
  | "class-version" => some (.value .classVersion)
  | "owner" => some (.value .owner)
  | "help" => some .help
  | "version" => some .version
  | _ => none

/-! ## Words -/

/-- What an argument looks like, before it is known what came before it. -/
inductive Word
  /-- Two dashes alone: no options follow. -/
  | endOfOptions
  /-- Two dashes and a name, perhaps with a value after an equals sign. -/
  | long (name : String) (value : Option String)
  /-- One dash and at least one letter. -/
  | short (letter : Char)
  /-- Anything else, a single dash included. -/
  | plain (text : String)
  deriving DecidableEq

/-- What an argument looks like. -/
def Word.ofArgument (argument : String) : Word :=
  match argument.toList with
  | ['-', '-'] => .endOfOptions
  | '-' :: '-' :: rest =>
    let name := String.ofList (rest.takeWhile (· != '='))
    match rest.dropWhile (· != '=') with
    | [] => .long name none
    | _ :: value => .long name (some (String.ofList value))
  | '-' :: letter :: _ => .short letter
  | _ => .plain argument

/-! ## Values -/

/-- The number written with these decimal digits, if there are some and no other characters. -/
def decimal? (digits : List Char) : Option Nat :=
  if digits.isEmpty || !digits.all Char.isDigit then none
  else some (digits.foldl (fun n c => 10 * n + (c.toNat - '0'.toNat)) 0)

/-- The number written in decimal with an optional sign. -/
def integer? (text : String) : Option Int :=
  match text.toList with
  | '-' :: digits => (decimal? digits).map fun n => -(n : Int)
  | '+' :: digits => (decimal? digits).map fun n => (n : Int)
  | digits => (decimal? digits).map fun n => (n : Int)

/-- The 16-bit number written in decimal with an optional sign. -/
def word? (text : String) : Option UInt16 :=
  match integer? text with
  | some n => if 0 ≤ n ∧ n ≤ 65535 then some (UInt16.ofNat n.toNat) else none
  | none => none

/-! ## Reading the arguments -/

/-- The options whose values are settled. -/
structure Settled where
  descriptors : Array String
  classVersion : Option UInt16
  owner : Option String

namespace Settled

/-- No options yet. -/
def empty : Settled := ⟨#[], none, none⟩

/-- Settles one more option. -/
def settle (settled : Settled) : ValueOption → String → Except UsageFault Settled
  | .descriptor, value => .ok { settled with descriptors := settled.descriptors.push value }
  | .owner, value =>
    if settled.owner.isSome then .error .repeatedOption
    else .ok { settled with owner := some value }
  | .classVersion, value =>
    if settled.classVersion.isSome then .error .repeatedOption
    else match word? value with
      | some version => .ok { settled with classVersion := some version }
      | none => .error .badValue

end Settled

/-- An option that took no value from its own argument. -/
inductive Pending
  | nothing
  | awaiting (option : ValueOption)
  | given (option : ValueOption) (value : String)

/-- Settles a pending option, which must have got its value by now. -/
def Pending.settle (settled : Settled) : Pending → Except UsageFault Settled
  | nothing => .ok settled
  | awaiting _ => .error .missingValue
  | given option value => settled.settle option value

/-- Reads the arguments from left to right. -/
def read (settled : Settled) (pending : Pending) : List String → Except UsageFault Settled
  | [] => pending.settle settled
  | argument :: arguments =>
    match Word.ofArgument argument with
    | .endOfOptions =>
      if arguments.isEmpty then pending.settle settled else .error .unknownArgument
    | .long name value =>
      match LongOption.ofName? name, value with
      | none, _ => .error .unknownArgument
      | some (.value option), none =>
        match pending.settle settled with
        | .error fault => .error fault
        | .ok settled => read settled (.awaiting option) arguments
      | some (.value option), some value =>
        match pending.settle settled >>= (·.settle option value) with
        | .error fault => .error fault
        | .ok settled => read settled .nothing arguments
      | some _, some _ => .error .unexpectedValue
      | some .help, none => pending.settle settled >>= fun _ => .error .showHelp
      | some .version, none => pending.settle settled >>= fun _ => .error .showVersion
    | .short letter =>
      if letter = 'h' then pending.settle settled >>= fun _ => .error .showHelp
      else if letter = 'V' then pending.settle settled >>= fun _ => .error .showVersion
      else .error .unknownArgument
    | .plain text =>
      match pending with
      | .awaiting option => read settled (.given option text) arguments
      | _ => .error .unknownArgument

/-! ## Running -/

/-- What the command is asked to do. -/
structure Request where
  descriptors : List String
  majorVersion : UInt16
  owner : String

/-- The request that arguments make. -/
def Request.ofArguments (arguments : List String) : Except UsageFault Request :=
  match read .empty .nothing arguments with
  | .error fault => .error fault
  | .ok settled =>
    if settled.descriptors.isEmpty then .error .missingRequired
    else .ok {
      descriptors := settled.descriptors.toList
      majorVersion := settled.classVersion.getD 55
      owner := settled.owner.getD "com/example/Handles" }

/-- Does what is asked for. An owner that is no class name is refused before anything is
shown. -/
def Request.run (request : Request) : Adapter.Report :=
  match BinaryName.ofString request.owner with
  | .error fault => ⟨#[], #[], .error (.badName fault)⟩
  | .ok owner => Adapter.report ⟨owner, ⟨request.majorVersion, 0⟩⟩ request.descriptors

end JvmCode.CommandLine
