import DebugSymbols.CommandLine

/-!
# The program

Reads the arguments and the input file, and writes what the command line comes
to.
-/

namespace DebugSymbols

def readInput (path : String) : IO (Except String (List UInt8)) :=
  tryCatch (do return .ok (← IO.FS.readBinFile path).toList) fun e =>
    match e with
    | .noFileOrDirectory .. => return .error CommandLine.missingFile
    | e => return .error (toString e)

end DebugSymbols

open DebugSymbols in
def main (args : List String) : IO UInt32 := do
  match CommandLine.parse args with
  | none =>
    IO.eprintln CommandLine.usage
    return 2
  | some invocation =>
    let result := invocation.result (← readInput invocation.input)
    for e in result.events do
      if e.level != .debug then IO.eprintln s!"{e.level.label} {e.message}"
    if let some (path, text) := result.written then IO.FS.writeFile path text
    IO.print result.stdout
    if let some failure := result.failure then IO.eprintln s!"Error: {failure}"
    return result.code.toUInt32
