import InfixCalc.Calculator.Dialogue

/-!
# The program

With arguments it evaluates them; without, it answers lines of standard input.
-/

open InfixCalc

partial def converse (input output : IO.FS.Stream) (c : Calculator) : IO UInt32 := do
  output.putStr Calculator.prompt
  output.flush
  let line ← input.getLine
  if line.isEmpty then
    output.putStr Calculator.farewell
    return 0
  else
    let (reply, next) := c.answer line
    output.putStr reply
    match next with
    | .waits c => converse input output c
    | .done => return 0
    | .broken cause =>
      IO.eprintln cause.message
      return 1

def main (arguments : List String) : IO UInt32 := do
  match Calculator.freshBuilder with
  | .error cause =>
    IO.eprintln cause.message
    return 1
  | .ok builder =>
    let c := Calculator.ofBuilder builder
    if arguments.isEmpty then
      IO.print Calculator.banner
      converse (← IO.getStdin) (← IO.getStdout) c
    else
      let (output, failed) := c.evaluateAll arguments
      IO.print output
      match failed with
      | some cause =>
        IO.eprintln ("Error: " ++ cause.message)
        return 1
      | none => return 0
