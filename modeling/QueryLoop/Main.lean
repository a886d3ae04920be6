import QueryLoop.CommandLine.Formatter
import QueryLoop.CommandLine.LoopTool

namespace QueryLoop.CommandLine

partial def readStream (stream : IO.FS.Stream) (bytes : ByteArray) : IO ByteArray := do
  let chunk ← stream.read 65536
  if chunk.isEmpty then return bytes
  readStream stream (bytes ++ chunk)

def readInput : Input → IO (Except ReadError String)
  | .standard => do
      let bytes ← readStream (← IO.getStdin) ByteArray.empty
      return decode bytes
  | .file path => do
      match ← (IO.FS.readBinFile path).toBaseIO with
      | .ok bytes => return decode bytes
      | .error (.noFileOrDirectory ..) => return .error .notFound
      | .error (.inappropriateType _ 20 _) => return .error .notDirectory
      | .error (.inappropriateType ..) => return .error .isDirectory
      | .error error => throw error

def carryOut (outcome : Outcome) : IO UInt32 := do
  let output ← IO.getStdout
  output.putStr outcome.printed
  output.flush
  match outcome.written with
  | some (path, text) => IO.FS.writeFile path text
  | none => pure ()
  match outcome.message? with
  | some message => IO.eprintln ("Error: " ++ message)
  | none => pure ()
  return UInt32.ofNat outcome.exitCode

def runCommand (command : Command α) (arguments : List String) : IO UInt32 := do
  match command.prepare arguments with
  | .error outcome => carryOut outcome
  | .ok options =>
      let source ← readInput (command.input options)
      carryOut (command.finish options source)

end QueryLoop.CommandLine

def main (arguments : List String) : IO UInt32 :=
  match arguments with
  | "format" :: arguments =>
      QueryLoop.CommandLine.runCommand QueryLoop.CommandLine.Formatter.command arguments
  | arguments => QueryLoop.CommandLine.runCommand QueryLoop.CommandLine.LoopTool.command arguments
