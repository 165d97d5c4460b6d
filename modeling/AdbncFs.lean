import AdbncFs.Cache.LastPut
import AdbncFs.Device.Command
import AdbncFs.Device.NetCat
import AdbncFs.Device.Conversations
import AdbncFs.Names.LocalCopies
import AdbncFs.Coherence.Races
import AdbncFs.Writes.Opening
import AdbncFs.Text.Number
import AdbncFs.Access.UserInfo
import AdbncFs.Access.MountInfo
import AdbncFs.Writes.Renames
import AdbncFs.Writes.Agreement
import AdbncFs.Writes.Failures
import AdbncFs.Writes.Releases
import AdbncFs.Writes.Truncations
import AdbncFs.Directories.Paging
import AdbncFs.Directories.Sessions
import AdbncFs.Coherence.Leftovers
import AdbncFs.Processes.Spawn
import AdbncFs.Access.MountLines
import AdbncFs.Access.MountLookup
import AdbncFs.Access.StrayOptions
import AdbncFs.Access.Identity
import AdbncFs.Access.Decision
import AdbncFs.System.StatReplies
import AdbncFs.System.Transfers
import AdbncFs.Writes.HostFiles
import AdbncFs.System.Threads
import AdbncFs.System.CutReplies
import AdbncFs.System.StatTokens
import AdbncFs.System.Startup
import AdbncFs.System.LinkTargets
import AdbncFs.System.StatfsReplies
import AdbncFs.Writes.WriteMarks
import AdbncFs.Names.Replacing
import AdbncFs.System.NetcatProcess
import AdbncFs.Access.Parents
import AdbncFs.Contents.CloseToOpen
import AdbncFs.Memory.CacheMemory
import AdbncFs.System.Confinement
import AdbncFs.System.Sparing
import AdbncFs.System.Connection
import AdbncFs.Processes.ExecProg
import AdbncFs.Processes.Child
