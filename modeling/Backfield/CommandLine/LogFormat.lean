import Backfield.Trace

/-!
# The log of a command

How messages are written to the error output: bare for warnings, with the time and the
origin if more is asked for, with the level too for everything.
-/

namespace Backfield.CommandLine

/-- The name under which a part of the program logs. -/
def originName : Origin → String
  | .reader => "reactive_property_gen.pipeline.csharp_reader"
  | .binding => "reactive_property_gen.pipeline.resolver"
  | .scan => "reactive_property_gen.pipeline.scanner"
  | .batch => "reactive_property_gen.pipeline.generator"
  | .delivery => "reactive_property_gen.pipeline.writer"
  | .command => "reactive_property_gen.reactive_property_gen"

/-- A level's name, filled to five characters. -/
def paddedLevel (level : Level) : String :=
  let name := level.name
  name ++ String.ofList (List.replicate (5 - name.length) ' ')

/-- What stands in the place of a message's line number. -/
def lineMark : String := "N"

/-- The line for a message, logged at a time of day, if messages are shown from `shown`. -/
def logLine (shown : Level) (time : String) (entry : LogEntry) : String :=
  match shown with
  | .warning => entry.message
  | .info => time ++ " [" ++ originName entry.origin ++ "] " ++ entry.message
  | .debug =>
    time ++ " " ++ paddedLevel entry.level ++ " " ++ originName entry.origin ++ ":" ++ lineMark ++
      " " ++ entry.message

/-- The lines for the messages that matter enough. -/
def logText (shown : Level) (time : String) (entries : List LogEntry) : String :=
  String.join
    ((entries.filter fun e => shown.rank ≤ e.level.rank).map fun e => logLine shown time e ++ "\n")

end Backfield.CommandLine
