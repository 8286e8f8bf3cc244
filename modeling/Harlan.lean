import Harlan.Hal
import Harlan.Lib.Bitmap
import Harlan.Memory.FramePurposes
import Harlan.Sync
import Harlan.Loader
import Harlan.Rounds
import Harlan.Fat.Table
import Harlan.Fat.Lookup
import Harlan.Fat.FsInfo
import Harlan.Fat.FormatReads
import Harlan.EventLog
import Harlan.EventLines
import Harlan.Boots
import Harlan.Memory.HeapCheck
import Harlan.Gpt
import Harlan.VirtioRuns
import Harlan.VirtioQueue
import Harlan.Keyboard
import Harlan.Decoder
import Harlan.Arch.SpaceTables
import Harlan.Arch.SharedHalf
import Harlan.SpawnRollback
import Harlan.Image
import Harlan.ElfExact
import Harlan.HigherHalf
import Harlan.Messages
import Harlan.Contract
import Harlan.UserLibrary
import Harlan.RoundRobin
import Harlan.OpenFileRuns
import Harlan.Snapshot
import Harlan.Stacks
import Harlan.Arch.Identity
import Harlan.Arch.KeepOnly
import Harlan.Pci
import Harlan.Fat.ChainWalks
import Harlan.Inventory
import Harlan.Framebuffer
import Harlan.Shell
import Harlan.LineEditor
import Harlan.Listing
import Harlan.Arch.Stubs
import Harlan.Arch.Descriptors
import Harlan.Arch.Entries
import Harlan.Arch.Contexts
import Harlan.Arch.ContextRuns
import Harlan.Arch.Returns
