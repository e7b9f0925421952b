import SchemaLang.Command.Run

namespace SchemaLang.Command

/-- All that is left to read of a stream, after `front`. -/
partial def readAll (stream : IO.FS.Stream) (front : ByteArray) : IO ByteArray := do
  let chunk ← stream.read 65536
  if chunk.isEmpty then return front else readAll stream (front ++ chunk)

/-- The bytes of the file or of standard input. -/
def Invocation.readBytes (inv : Invocation) : IO (Except ReadError ByteArray) := do
  try
    if inv.readsStdin then return .ok (← readAll (← IO.getStdin) .empty)
    else return .ok (← IO.FS.readBinFile inv.file)
  catch
    | .noFileOrDirectory .. => return .error .notFound
    -- A path is refused by name; a directory opens, and then cannot be read.
    | .inappropriateType (some _) .. => return .error .notDirectory
    | .inappropriateType none .. => return .error .isDirectory
    | .invalidArgument .. => return .error .nameTooLong
    | e => return .error (.other (toString e))

end SchemaLang.Command

open SchemaLang.Command in
def main (args : List String) : IO UInt32 := do
  let result ←
    match read args with
    | .error stop => pure stop.result
    | .ok inv => inv.run <$> inv.readBytes
  (← IO.getStdout).putStr result.stdout
  (← IO.getStderr).putStr result.stderr
  return result.exit.toUInt32
