import LanguageServer.Session.Run
/-!
The server as a program: it talks to its client over standard input and output.
-/

namespace LanguageServer

/-- Reads on until one more message can be read from the buffer or the input ends. -/
partial def fill (input : IO.FS.Stream) (buffer : List UInt8) : IO (List UInt8) := do
  let demand := Frame.demand none buffer
  if demand = 0 then return buffer
  let bytes ← input.read (.ofNat demand)
  if bytes.isEmpty then return buffer
  fill input (buffer ++ bytes.toList)

/-- Serves frame after frame and gives the exit code. -/
partial def serve (input output : IO.FS.Stream) (session : Session) (buffer : List UInt8) :
    IO UInt32 := do
  let code : UInt32 := if session.isClean then 0 else 1
  if session.exiting then return code
  let (reading, rest) := Frame.read (← fill input buffer)
  match session.turn reading with
  | .ended => return code
  | .failed error =>
    (← IO.getStderr).putStrLn error.message
    return 1
  | .handled next messages =>
    for message in messages do
      output.write ⟨(Frame.write message.toJson).toArray⟩
      output.flush
    serve input output next rest

end LanguageServer

def main : IO UInt32 := do
  try
    LanguageServer.serve (← IO.getStdin) (← IO.getStdout) .new []
  catch error =>
    (← IO.getStderr).putStrLn (toString error)
    return 1
