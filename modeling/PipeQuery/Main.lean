import PipeQuery.CommandLine.Run

/-!
# `PipeQuery.Main`: the program

Reads files and lines, and prints what the runs of `PipeQuery.CommandLine` say.
-/

set_option autoImplicit false

open PipeQuery

/-- Some bytes as text. -/
private def decoded (bytes : ByteArray) : Except ReadFault String :=
  match String.fromUTF8? bytes with
  | some text => .ok text
  | none => .error .notText

/-- A problem of the surroundings as a fault. -/
private def faultOf : IO.Error → ReadFault
  | .noFileOrDirectory .. => .missing
  | .inappropriateType .. => .directory
  | problem => .other (toString problem)

/-- The text of a file. -/
private def readFile (path : String) : IO (Except ReadFault String) := do
  try return decoded (← IO.FS.readBinFile path)
  catch problem => return .error (faultOf problem)

/-- Prints what a console collected. -/
private def flushConsole (c : Console) : IO Unit := do
  IO.print c.out
  IO.eprint c.err
  (← IO.getStdout).flush

/-- The next line of the standard input; none at its end. -/
private def readLine : IO (Option ReadEvent) := do
  try
    let text ← (← IO.getStdin).getLine
    return if text = "" then none else some (.line text)
  catch problem => return some (.failed (faultOf problem))

/-- The file that a shell needs for an event. -/
private def wantedFile (shell : Shell) : ReadEvent → Option String
  | .line text =>
    match (shell.onLine text).2 with
    | .readFile path => some path
    | _ => none
  | _ => none

/-- Runs a shell on the standard input. -/
private partial def shellLoop (shell : Shell) : IO Nat := do
  let fresh : Console := ⟨"", "", false⟩
  flushConsole (fresh.printNow shell.prompt).2
  match ← readLine with
  | none =>
    let (code, c) := shell.onEnd fresh
    flushConsole c
    return code
  | some event =>
    let text ←
      match wantedFile shell event with
      | some path => readFile path
      | none => pure (.error .missing)
    let (shell, code, c) := shell.onEvent (fun _ => text) fresh event
    flushConsole c
    match code with
    | some code => return code
    | none => shellLoop shell

/-- The files that the arguments name, with their texts. -/
private def namedFiles (arguments : List String) : IO (String → Except ReadFault String) := do
  match Invocation.ofArguments arguments with
  | .error _ => return fun _ => .error .missing
  | .ok i =>
    let paths := i.configPath.toList ++ (i.queryPath.filter (· ≠ Invocation.stdinPath)).toList
    let texts ← paths.mapM fun path => return (path, ← readFile path)
    return fun path => (texts.lookup path).getD (.error .missing)

/-- The standard input as one text, if the arguments ask for it. -/
private def wholeInput (arguments : List String) : IO (Except ReadFault String) := do
  match Invocation.ofArguments arguments with
  | .ok i =>
    if !i.showHelp && i.queryPath = some Invocation.stdinPath then
      return decoded (← (← IO.getStdin).readBinToEnd)
    else return .ok ""
  | .error _ => return .ok ""

def main (arguments : List String) : IO UInt32 := do
  let host : Host := ⟨← namedFiles arguments, ← wholeInput arguments⟩
  match Invocation.start arguments host ⟨"", "", false⟩ with
  | .finished code c =>
    flushConsole c
    return code.toUInt32
  | .shell shell c =>
    flushConsole c
    return (← shellLoop shell).toUInt32
