import StageLens.Stage.Basic
import StageLens.Text.Octets

/-!
# Arguments of the command line

A verb with options before and after it. Options are read from left to right, and the first one that
cannot be taken, or that asks for the version or for help, decides. Options that every verb has may
stand on both sides; what is given after the verb counts.
-/

namespace StageLens.CommandLine

inductive Verb where
  | compile
  | stages
  | version
  deriving DecidableEq, Repr

def Verb.all : List Verb := [.compile, .stages, .version]

def Verb.name : Verb → String
  | .compile => "compile"
  | .stages => "stages"
  | .version => "version"

/-- The verb that a word names. -/
def Verb.ofWord? (word : Octets) : Option Verb :=
  if word = ['c'] then some .compile else Verb.all.find? (·.name.toList == word)

/-- How results are written. -/
inductive Format where
  | text
  | json
  deriving DecidableEq, Repr

def Format.ofWord? (word : Octets) : Option Format :=
  match String.ofList word with
  | "text" => some .text
  | "json" => some .json
  | _ => none

/-- What an option is about. -/
inductive Key where
  | verbose
  | quiet
  | config
  | help
  | version
  | demangle
  | optimize
  | wholeModule
  | asLibrary
  | stage
  | format
  deriving DecidableEq, Repr

namespace Key

def short? : Key → Option Char
  | verbose => some 'v'
  | quiet => some 'q'
  | config => some 'c'
  | help => some 'h'
  | version => some 'V'
  | optimize => some 'O'
  | _ => none

def long : Key → String
  | verbose => "verbose"
  | quiet => "quiet"
  | config => "config"
  | help => "help"
  | version => "version"
  | demangle => "demangle"
  | optimize => "optimize"
  | wholeModule => "wmo"
  | asLibrary => "parse-as-library"
  | stage => "stage"
  | format => "format"

def takesValue : Key → Bool
  | config | stage | format => true
  | _ => false

/-- Whether the option may be given more than once. -/
def isRepeatable : Key → Bool
  | verbose | stage => true
  | _ => false

/-- The stage that a value names. -/
def stage? (value : Octets) : Option Stage := Stage.all.find? (·.key.toList == value)

/-- Whether the option can have this value. -/
def accepts (k : Key) (value : Octets) : Bool :=
  match k with
  | config => !value.isEmpty
  | stage => (stage? value).isSome
  | format => (Format.ofWord? value).isSome
  | _ => true

/-- The options that can be given everywhere. -/
def everywhere : List Key := [verbose, quiet, config, help, version]

/-- The options that change how a source is compiled. -/
def compiling : List Key := [demangle, optimize, wholeModule, asLibrary]

/-- The options before the verb, or after one. -/
def allowed : Option Verb → List Key
  | some .compile => everywhere ++ compiling ++ [stage, format]
  | some .stages => everywhere ++ compiling
  | some .version | none => everywhere

end Key

/-- Why arguments are not read to their end. -/
inductive Halt where
  /-- They cannot be taken. -/
  | usage
  | version (verb : Option Verb)
  | help (verb : Option Verb)
  deriving DecidableEq, Repr

/-- What has been read on one side of the verb. -/
structure Given where
  options : List (Key × Octets) := []
  operands : List Octets := []
  deriving DecidableEq, Repr

namespace Given

def has (g : Given) (k : Key) : Bool := g.options.any (·.1 == k)

/-- The values of an option, in their order. -/
def values (g : Given) (k : Key) : List Octets :=
  g.options.filterMap fun (l, v) => if l = k then some v else none

/-- How many operands a verb takes. -/
def room : Option Verb → Nat
  | some .compile => 1
  | _ => 0

/-- Take an option with its value. -/
def takeOption (verb : Option Verb) (g : Given) (k : Key) (value : Octets) :
    Except Halt Given :=
  if k = .help then .error (.help verb)
  else if k = .version then .error (.version verb)
  else if (!k.isRepeatable && g.has k) || !k.accepts value then .error .usage
  else .ok { g with options := g.options ++ [(k, value)] }

/-- Take an operand, which is the path of a file. -/
def takeOperand (verb : Option Verb) (g : Given) (o : Octets) : Except Halt Given :=
  if o.isEmpty || room verb ≤ g.operands.length then .error .usage
  else .ok { g with operands := g.operands ++ [o] }

/-- An option in full, from what follows the dashes; with a key if its value is still to come. -/
def takeLong (verb : Option Verb) (g : Given) (o : Octets) : Except Halt (Given × Option Key) :=
  let name := o.takeWhile (· ≠ '=')
  match (Key.allowed verb).find? (·.long.toList == name), o.drop name.length with
  | none, _ => .error .usage
  | some k, [] =>
    if k.takesValue then .ok (g, some k) else (g.takeOption verb k []).map (·, none)
  | some k, _ :: value =>
    if k.takesValue then (g.takeOption verb k value).map (·, none) else .error .usage

/-- Options of one letter, from what follows the dash; with a key if its value is still to come. -/
def takeShorts (verb : Option Verb) (g : Given) : Octets → Except Halt (Given × Option Key)
  | [] => .ok (g, none)
  | c :: rest =>
    match (Key.allowed verb).find? (·.short? == some c) with
    | none => .error .usage
    | some k =>
      if k.takesValue then
        match rest with
        | [] => .ok (g, some k)
        | '=' :: value | value => (g.takeOption verb k value).map (·, none)
      else
        match g.takeOption verb k [] with
        | .ok g => g.takeShorts verb rest
        | .error h => .error h

/-- Options that an argument holds, if it starts with a dash. A dash alone is an operand. -/
def takeDashed? (verb : Option Verb) (g : Given) (argument : Octets) :
    Option (Except Halt (Given × Option Key)) :=
  match argument with
  | '-' :: '-' :: rest => some (g.takeLong verb rest)
  | '-' :: c :: rest => some (g.takeShorts verb (c :: rest))
  | _ => none

/-- Whether an argument can be the value of the option before it. -/
def isValue (argument : Octets) : Bool := argument.head? != some '-' || argument == ['-']

/-- Read arguments up to the verb, if none has come yet, or to their end. `pending` is an option
whose value is to come. -/
def read (verb : Option Verb) (g : Given) (pending : Option Key) :
    List Octets → Except Halt (Given × Option (Octets × List Octets))
  | [] => if pending.isSome then .error .usage else .ok (g, none)
  | argument :: rest =>
    match pending with
    | some k =>
      if isValue argument then
        match g.takeOption verb k argument with
        | .ok g => g.read verb none rest
        | .error h => .error h
      else .error .usage
    | none =>
      if argument = ['-', '-'] then (rest.foldlM (takeOperand verb) g).map (·, none)
      else match g.takeDashed? verb argument with
        | some (.ok (g, pending)) => g.read verb pending rest
        | some (.error h) => .error h
        | none =>
          if verb.isNone then .ok (g, some (argument, rest))
          else match g.takeOperand verb argument with
            | .ok g => g.read verb none rest
            | .error h => .error h

end Given

/-- What the command line is asked to do. -/
inductive Errand where
  /-- Compile the source in a file, or standard input, and show these stages. -/
  | compile (input : Option Bytes) (options : Options) (stages : List Stage) (format : Format)
  | listStages (options : Options)
  | showVersion
  deriving DecidableEq, Repr

/-- An errand and the configuration file that is named for it. -/
structure Command where
  config : Option Bytes
  errand : Errand
  deriving DecidableEq, Repr

def optionsOf (g : Given) : Options where
  demangle := g.has .demangle
  optimize := g.has .optimize
  wholeModule := g.has .wholeModule
  asLibrary := g.has .asLibrary

/-- The errand of a verb and what was given after it. -/
def errandOf (g : Given) : Verb → Errand
  | .compile => .compile (g.operands.head?.map Octets.toBytes) (optionsOf g)
      ((g.values .stage).filterMap Key.stage?)
      (((g.values .format).head?.bind Format.ofWord?).getD .text)
  | .stages => .listStages (optionsOf g)
  | .version => .showVersion

/-- What the words after the verb for help ask for. -/
def helpOn : List Octets → Halt
  | [] => .help none
  | [word] =>
    match Verb.ofWord? word with
    | some v => .help (some v)
    | none => .usage
  | _ => .usage

/-- Read all arguments. -/
def readArguments (arguments : List Octets) : Except Halt Command := do
  let (before, next) ← ({} : Given).read none none arguments
  match next with
  | none => throw .usage
  | some (word, rest) =>
    match Verb.ofWord? word with
    | none => throw (if word = "help".toList then helpOn rest else .usage)
    | some verb =>
      let (after, _) ← ({} : Given).read (some verb) none rest
      let config := (after.values .config ++ before.values .config).head?
      return ⟨config.map Octets.toBytes, errandOf after verb⟩

end StageLens.CommandLine
