import LtoArchive.Basic
import LtoArchive.NextFit
import LtoArchive.Index
import LtoArchive.Packer
import LtoArchive.Backup
import LtoArchive.Retriever
import LtoArchive.TapeManager
import LtoArchive.Workflow
import LtoArchive.ToolOutput
import LtoArchive.Like
import LtoArchive.Search
import LtoArchive.Sessions
import LtoArchive.RestoreMany
import LtoArchive.PyNumber
import LtoArchive.Robocopy
import LtoArchive.RetrieverRun
import LtoArchive.RestoreBatch
import LtoArchive.FileIds
import LtoArchive.PackerFloat
import LtoArchive.LtoBackup
import LtoArchive.RestoreVerify
