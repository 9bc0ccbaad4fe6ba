import GuardedData.Cli.LogFilter
import GuardedData.Cli.Report

/-!
# Running a command

The program reports on its commands with the log filters of `LogFilter`.
-/

namespace GuardedData

def Inputs.startLogging (i : Inputs) (installed : Bool) (config : Config) :
    Except CliError (List Event) :=
  i.installLogger LogFilter.isValid installed config

def Command.run (i : Inputs) (c : Command) : Report := c.report LogFilter.isValid i

end GuardedData
