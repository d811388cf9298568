import Offside.Program

/-!
The command line: run a program, or list its tokens or its syntax tree.
-/

namespace Offside.Main

inductive Action where
  | run | tokens | tree
deriving DecidableEq

structure Options where
  file : Option String
  limit : Nat
  action : Action

def usage : String :=
  "usage: offside [--max-call-depth <number>] [--tokens | --ast] <file>"

def number? (s : String) : Option Nat :=
  if s.toList.all Char.isDigit then s.toNat? else none

/-- The options of a command line, in any order. -/
def readArgs (o : Options) : List String → Option Options
  | [] => some o
  | "--tokens" :: args => if o.action = .run then readArgs ⟨o.file, o.limit, .tokens⟩ args else none
  | "--ast" :: args => if o.action = .run then readArgs ⟨o.file, o.limit, .tree⟩ args else none
  | "--max-call-depth" :: n :: args =>
    match number? n with
    | some limit => readArgs ⟨o.file, limit, o.action⟩ args
    | none => none
  | arg :: args =>
    if o.file.isNone && !arg.startsWith "-" then readArgs ⟨some arg, o.limit, o.action⟩ args
    else none

/-- More steps than a run can take in the life of a machine. -/
def steps : Nat :=
  0x1000000000000000

def refuse (message : String) : IO UInt32 := do
  IO.eprintln message
  return 1

def deliver (r : Except Diagnostic String) : IO UInt32 := do
  match r with
  | .ok text =>
    IO.print text
    return 0
  | .error d => refuse d.display

/-- Run a program on the input that is there, of whose output the first `shown` bytes are shown
already. What a run does depends on the input alone: one that comes to the end of its input is done
again when there is another line. -/
partial def converse (limit : Nat) (program : Block) (given : ByteArray) (shown : Nat) :
    IO UInt32 := do
  let stdout ← IO.getStdout
  let present (m : Machine) : IO Unit := do
    stdout.write (m.output.written.extract shown m.output.written.size)
    stdout.flush
  match (Machine.new (.ofBytes given) .unlimited).run limit steps program with
  | .done () m =>
    present m
    return 0
  | .fault fault m =>
    present m
    if fault.cause = .input .exhausted then
      let line ← (← IO.getStdin).getLine
      if line.isEmpty then refuse fault.diagnostic.display
      else converse limit program (given ++ line.toUTF8) m.output.written.size
    else refuse fault.diagnostic.display
  | .exhausted => refuse "the program does not end"

def perform (o : Options) (source : String) : IO UInt32 := do
  match o.action with
  | .tokens => deliver (listTokens (← (← IO.getStdout).isTty) source)
  | .tree => deliver (outlineSource source)
  | .run =>
    match Block.ofChecked source with
    | .ok program => converse o.limit program .empty 0
    | .error d => refuse d.display

end Offside.Main

def main (args : List String) : IO UInt32 := do
  match Offside.Main.readArgs ⟨none, Offside.defaultLimit, .run⟩ args with
  | some ⟨some file, limit, action⟩ =>
    let source ←
      try pure (some (← IO.FS.readFile file))
      catch e => do
        IO.eprintln ("error: cannot read '" ++ file ++ "': " ++ toString e)
        pure none
    match source with
    | some source => Offside.Main.perform ⟨some file, limit, action⟩ source
    | none => return 1
  | _ =>
    IO.eprintln Offside.Main.usage
    return 2
