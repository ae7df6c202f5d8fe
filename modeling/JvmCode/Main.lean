import JvmCode.CommandLine
/-!
# The program

Reads the arguments, shows the adapters they ask for on standard output, and says on the
error output why it stopped, if it did.
-/

open JvmCode.CommandLine

/-- Shows adapters; the exit code is 0 for success and help, 2 for refused arguments and 1
for a failure. -/
def main (arguments : List String) : IO UInt32 := do
  match Request.ofArguments arguments with
  | .error fault =>
    (← IO.getStderr).putStrLn fault.name
    return if fault = .showHelp ∨ fault = .showVersion then 0 else 2
  | .ok request =>
    let report := request.run
    for line in report.lines do
      IO.println line
    match report.outcome with
    | .ok () => return 0
    | .error error =>
      (← IO.getStderr).putStrLn ("Error: " ++ error.describe)
      return 1
