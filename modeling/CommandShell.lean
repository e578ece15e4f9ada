import CommandShell.Main
import CommandShell.Proofs.HomeShorthand
import CommandShell.Proofs.Line.Breaks
import CommandShell.Proofs.Line.OperatorRuns
import CommandShell.Proofs.Log.SettingUp
import CommandShell.Proofs.Log.TimeStamp
import CommandShell.Proofs.Placement
import CommandShell.Proofs.ResolvedPaths
import CommandShell.Proofs.Shell.Abandoned
import CommandShell.Proofs.Shell.ExitStatus
import CommandShell.Proofs.Shell.ProcessDirectory
import CommandShell.Proofs.Shell.Reopening
import CommandShell.Proofs.TypedSettings
