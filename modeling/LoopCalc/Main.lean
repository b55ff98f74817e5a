import LoopCalc.CommandLine

/-!
The command line program. Without a screen it runs a file once. Otherwise it drives a workbench from
the standard input, where each character of a line is a key, and shows a frame after each line.
-/

namespace LoopCalc.Main

/-- What reading the file at a path gives. -/
def lookup (path : String) : IO CommandLine.Content := do
  try
    let bytes ← IO.FS.readBinFile path
    match String.fromUTF8? bytes with
    | some source => return .text source
    | none => return .garbled
  catch
    -- 21 is what the system says of reading a directory.
    | .inappropriateType _ 21 _ => return .directory
    | _ => return .missing

/-- Write a finished program's output. -/
def report (output : CommandLine.Output) : IO UInt32 := do
  (← IO.getStdout).putStr output.stdout
  (← IO.getStderr).putStr output.stderr
  return UInt32.ofNat output.exit

/-- The text of a picture. -/
def pictureText (picture : Screen.Picture) : String :=
  CommandLine.joinLines (picture.map fun row => String.ofList (row.flatMap Screen.Cell.symbol))

/-- Show a frame, press the keys of a line, and go on until the workbench is left. -/
partial def drive (input : IO.FS.Stream) (w : Workbench) : IO Unit := do
  let (picture, w) := w.draw 80 24
  (← IO.getStdout).putStr (pictureText picture)
  let line ← input.getLine
  let keys := line.toList.map fun c => if c = '\n' then Key.enter else Key.char c
  let w := keys.foldl (fun w key => w.press .steady key) w
  unless line.isEmpty || w.quit do
    drive input w

end LoopCalc.Main

open LoopCalc in
/-- Run the program with its arguments. -/
def main (arguments : List String) : IO UInt32 := do
  match ← CommandLine.run "loopcalc" arguments .steady Main.lookup with
  | .finish output => Main.report output
  | .openWorkbench w =>
      Main.drive (← IO.getStdin) w
      return 0
