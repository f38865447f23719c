import SolidModel.CommandLine
import SolidModel.Demo

/-!
# The demonstration program

Builds the scene that the arguments ask for and writes the report on it.
-/

namespace SolidModel.CommandLine

/-- How the program is called. -/
def usage : String :=
  "usage: [-h] [--m M] [--length LENGTH] [--segments SEGMENTS] [--output OUTPUT]"

/-- Carries out a request and answers the exit code. -/
def perform : Request → IO UInt32
  | .help => do
    IO.println usage
    return 0
  | .unusable => do
    IO.eprintln usage
    return 2
  | .run settings =>
    match Demo.scene settings.m settings.length settings.segments with
    | .error fault => do
      IO.eprintln fault.message
      return 1
    | .ok scene => do
      for notice in scene.notices do
        IO.eprintln notice.text
      for line in Demo.report scene.value do
        IO.eprintln line
      return 0

end SolidModel.CommandLine

/-- The program. -/
def main (arguments : List String) : IO UInt32 :=
  SolidModel.CommandLine.perform (SolidModel.CommandLine.parse arguments)
