import TypeGraph.Listing
import TypeGraph.Sdl.Build

/-! The command line: lists the schema of the file that is named, or the sample. -/

namespace TypeGraph

def printListing (sdl : String) : IO UInt32 := do
  match Listing.ofText Sdl.readSchema sdl with
  | .error e =>
    IO.eprintln e.message
    return 1
  | .ok listed =>
    listed.notices.forM IO.eprintln
    listed.report.output.forM IO.println
    listed.report.errors.forM IO.eprintln
    return listed.report.exitCode.toUInt32

end TypeGraph

def main (args : List String) : IO UInt32 := do
  match args with
  | [] => TypeGraph.printListing TypeGraph.Listing.sample
  | path :: _ =>
    try TypeGraph.printListing (← IO.FS.readFile path)
    catch e =>
      IO.eprintln (toString e)
      return 1
