import NaClFs.Path.Resolve
import NaClFs.FileSystem.Cwd
import NaClFs.FileSystem.Relative
import NaClFs.FileSystem.Absolute
import NaClFs.FileSystem.Descriptors
import NaClFs.FileSystem.Read
import NaClFs.FileSystem.Opening
import NaClFs.FileSystem.Resources
import NaClFs.FileSystem.Progress
import NaClFs.FileSystem.MainThread
import NaClFs.Port.Stdin
import NaClFs.Port.Fifo
import NaClFs.Port.Mode
import NaClFs.Port.Message
import NaClFs.Page.Console
import NaClFs.Page.Terminal
import NaClFs.Html5.Failure
import NaClFs.Html5.SharedFile
import NaClFs.Html5.CachedSize
import NaClFs.Html5.Append
import NaClFs.Html5.Directory
import NaClFs.Wrap.Libc
import NaClFs.Wrap.Irt
import NaClFs.Wrap.Stat
import NaClFs.Wrap.Access
import NaClFs.Crt.Arguments
import NaClFs.Thread.Call
import NaClFs.Thread.Transfer
import NaClFs.Thread.Life
import NaClFs.Thread.Initialize
import NaClFs.Thread.Owed
import NaClFs.Thread.Apart
import NaClFs.Unix.Contents
import NaClFs.Unix.Directories
import NaClFs.Wrap.Contract
