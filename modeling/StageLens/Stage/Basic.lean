import StageLens.Text.Utf8

/-!
# Compilation stages

Six stages of a Swift compiler, each shown by one compiler invocation. A stage and the options of
a request decide the argument vector; the toolchain adds the compiler and the module name.

The layout of the arguments is the same for every stage: the source file, the flag that selects the
stage, the library flags, the optimization flags. Only the source file's contents come from the
request's source.
-/

namespace StageLens

/-- A stage, in the order in which stages are shown. -/
inductive Stage where
  | silRaw
  | silCanonical
  | ast
  | parse
  | ir
  | assembly
  deriving DecidableEq, Repr

/-- The switches of a request, shared by its stages. -/
structure Options where
  /-- Pass mangled output through the demangler. -/
  demangle : Bool := false
  /-- Optimize, in the stages that run optimization passes. -/
  optimize : Bool := false
  /-- Optimize the module as a whole; without `optimize` it has no effect. -/
  wholeModule : Bool := false
  /-- Read the source as a library, without an entry point at top level. -/
  asLibrary : Bool := false
  deriving DecidableEq, Repr

/-- Whether whole-module optimization takes effect. -/
def Options.optimizesWholeModule (o : Options) : Bool := o.optimize && o.wholeModule

/-- What the configuration fixes for every compiler invocation. -/
structure Toolchain where
  /-- The path of the compiler. -/
  compiler : Bytes
  /-- The name of the module when the source is read as a library. -/
  moduleName : String
  deriving DecidableEq, Repr

namespace Toolchain

def defaultCompiler : Bytes := Text.bytes "swiftc"

def defaultModuleName : String := "SILInspector"

def standard : Toolchain := ⟨defaultCompiler, defaultModuleName⟩

end Toolchain

namespace Stage

/-- Every stage once, in the order in which stages are shown. -/
def all : List Stage := [silRaw, silCanonical, ast, parse, ir, assembly]

/-- The name of the stage in documents and on the command line. -/
def key : Stage → String
  | silRaw => "silRaw"
  | silCanonical => "silCanonical"
  | ast => "ast"
  | parse => "parse"
  | ir => "ir"
  | assembly => "assembly"

/-- The stage of that name. -/
def ofKey? (name : String) : Option Stage := all.find? (·.key == name)

/-- The name shown to a reader. -/
def label : Stage → String
  | silRaw => "SIL Raw"
  | silCanonical => "SIL Canonical"
  | ast => "AST"
  | parse => "Parse"
  | ir => "IR"
  | assembly => "Assembly"

/-- The compiler flag that selects the stage. -/
def emitFlag : Stage → String
  | silRaw => "-emit-silgen"
  | silCanonical => "-emit-sil"
  | ast => "-dump-ast"
  | parse => "-dump-parse"
  | ir => "-emit-ir"
  | assembly => "-emit-assembly"

/-- Whether the stage runs optimization passes. -/
def isOptimizable : Stage → Bool
  | silCanonical | ir | assembly => true
  | silRaw | ast | parse => false

/-- Whether the output of the stage may hold mangled names. -/
def mayMangle : Stage → Bool
  | silRaw | silCanonical | ir | assembly => true
  | ast | parse => false

/-- Whether the output of the stage goes to the demangler. -/
def demangles (s : Stage) (o : Options) : Bool := s.mayMangle && o.demangle

/-- The name of the file that holds the source. -/
def sourceName : String := "main.swift"

/-- The arguments of the compiler. -/
def arguments (s : Stage) (o : Options) (t : Toolchain) : List String :=
  [sourceName, s.emitFlag] ++
  (if o.asLibrary then ["-parse-as-library", "-module-name", t.moduleName] else []) ++
  (if s.isOptimizable && o.optimize then
    "-O" :: (if o.optimizesWholeModule then ["-whole-module-optimization"] else [])
   else [])

/-- The compiler and its arguments. -/
def command (s : Stage) (o : Options) (t : Toolchain) : List String :=
  Text.decodeText t.compiler :: s.arguments o t

theorem mem_all (s : Stage) : s ∈ all := by cases s <;> decide

theorem all_nodup : all.Nodup := by decide

theorem ofKey?_key (s : Stage) : ofKey? s.key = some s := by cases s <;> decide

end Stage

end StageLens
