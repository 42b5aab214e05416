import LumoSql.BenchmarkShell

/-! Which runs `benchmark-filter.tcl` selects: the options are gathered by kind, and each kind
becomes a condition of one query. -/
namespace LumoSql.BenchmarkFilter
open Tcl

/-- An option that selects runs, with its value. -/
inductive SelectArg
  | runId (o : Str)
  | datasize (o : Str)
  | option (o : Str)
  | target (o : Str)
  | version (o : Str)
  | cpu (o : Str)
  | disk (o : Str)
  | backend (o : Str)
  | noBackend
  | missing (o : Str)
  | failed
  | completed
  | interrupted
  | crashed
  | empty
  deriving DecidableEq

structure Criteria where
  onlyIds : List Str
  onlyOption : List Str
  onlyTargets : List Str
  onlyVersions : List Str
  onlyCpu : List Str
  onlyDisk : List Str
  onlyBackends : List Str
  onlyMissing : List Str
  onlyFailed : Bool
  onlyCompleted : Bool
  onlyInterrupted : Bool
  onlyCrashed : Bool
  onlyEmpty : Bool

def Criteria.all : Criteria := ⟨[], [], [], [], [], [], [], [], false, false, false, false, false⟩

section Parsing

/- `numEq` is `==` of the interpreter, for texts of digits. -/
variable (tcl : Interpreter) (numEq : Str → Str → Bool)

/-- Two equal sizes are written as one. -/
def datasizeValue (o : Str) : Str :=
  match split (· == ',') o with
  | [r, w] => if numEq r w then r else o
  | _ => o

def datasizeOption (o : Str) : Str := "datasize-".toList ++ datasizeValue numEq o

end Parsing

section Query

/- `like` is the operator of that name, pattern first. -/
variable (like : Str → Str → Bool) (T : Tables)

def backendName : Str := "backend-name".toList
end Query

section Meaning

inductive SelectKind
  | runId | option | target | version | cpu | disk | backend | missing
  | failed | completed | interrupted | crashed | empty
  deriving DecidableEq

def SelectArg.kind : SelectArg → SelectKind
  | .runId _ => .runId
  | .datasize _ | .option _ => .option
  | .target _ => .target
  | .version _ => .version
  | .cpu _ => .cpu
  | .disk _ => .disk
  | .backend _ | .noBackend => .backend
  | .missing _ => .missing
  | .failed => .failed
  | .completed => .completed
  | .interrupted => .interrupted
  | .crashed => .crashed
  | .empty => .empty

variable (like : Str → Str → Bool) (numEq : Str → Str → Bool) (T : Tables)

end Meaning

section Gathered

variable (tcl : Interpreter) (numEq : Str → Str → Bool)

/-- What is gathered for an option. -/
def SelectArg.value : SelectArg → Str
  | .runId o | .option o | .target o | .version o | .cpu o | .disk o | .backend o | .missing o => o
  | .datasize o => datasizeOption numEq o
  | _ => []

def given (args : List SelectArg) (kind : SelectKind) : Bool := args.any fun a => decide (a.kind = kind)

variable {tcl numEq}

end Gathered

section Conditions

variable {like : Str → Str → Bool} {numEq : Str → Str → Bool} {T : Tables} {args : List SelectArg}
  {run : Str}

end Conditions

section Samples

end Samples

end LumoSql.BenchmarkFilter
