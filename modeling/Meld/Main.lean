import Meld.CommandLine.Answer

open Meld

def main (texts : List String) : IO UInt32 := do
  let answer := CommandLine.answer texts
  if let some file := answer.file? then
    try IO.FS.writeFile file.path file.content
    catch error =>
      (← IO.getStderr).putStrLn ("Error: " ++ toString error)
      return 1
  (← IO.getStdout).putStr answer.output
  (← IO.getStderr).putStr answer.error
  return UInt32.ofNat answer.exitCode
