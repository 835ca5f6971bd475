import JsonEdit.Command

/-!
# The command line

The first argument names the tool, the second one is the patch or the pointer, and
the document is read from the standard input.
-/

namespace JsonEdit.Main

/-- The tool with this name. -/
def tool? : String → Option Command.Tool
  | "json-patch" => some .patch
  | "json-pointer" => some .pointer
  | _ => none

/-- The bytes read so far and all that a stream still holds. -/
partial def readAll (stream : IO.FS.Stream) (read : ByteArray) : IO ByteArray := do
  let bytes ← stream.read 65536
  if bytes.isEmpty then return read else readAll stream (read ++ bytes)

end JsonEdit.Main

/-- Runs the tool that the first argument names. -/
def main (arguments : List String) : IO UInt32 := do
  match arguments.head?.bind JsonEdit.Main.tool? with
  | none =>
    IO.eprintln "First argument must be json-patch or json-pointer."
    return 2
  | some tool =>
    let argument := arguments[1]?
    let input ← if argument.isSome then JsonEdit.Main.readAll (← IO.getStdin) .empty else pure .empty
    let result := JsonEdit.Command.exit tool argument input
    IO.print result.output
    IO.eprint result.errors
    return result.code
