import ResourceQuery.Command.Answer

/-!
# The command

Reads the input if the command line names no query, and shows the answer.
-/

/-- Shows the answer to the command line and ends with its status. -/
def main (args : List String) : IO UInt32 := do
  let input ←
    match ResourceQuery.Request.ofArguments args with
    | .ok ⟨_, _, none⟩ => (← IO.getStdin).readBinToEnd
    | _ => pure ByteArray.empty
  let answer := ResourceQuery.Answer.ofArguments args input
  IO.print answer.output
  IO.eprint answer.errors
  pure answer.status.toUInt32
