import KernelLinux.Lib.Bytes
import KernelLinux.Lib.Prog
import KernelLinux.Simplefs.Disk
import KernelLinux.Simplefs.Code
import KernelLinux.Simplefs.Change
import KernelLinux.Simplefs.Inv
import KernelLinux.Simplefs.Scan
import KernelLinux.Simplefs.Created
import KernelLinux.Simplefs.Mount
import KernelLinux.Lib.Run
import KernelLinux.Simplefs.Vfs
import KernelLinux.Simplefs.Reach
import KernelLinux.Simplefs.Locks
import KernelLinux.Simplefs.Handles
import KernelLinux.Lib.FileTree
import KernelLinux.Simplefs.Tree
import KernelLinux.Simplefs.Refine
import KernelLinux.Globalfifo.Device
import KernelLinux.Globalfifo.Fifo
import KernelLinux.Globalfifo.Wakeup
import KernelLinux.Simplefs.Interrupt
import KernelLinux.Lib.WriteLog
import KernelLinux.Simplefs.Provenance
import KernelLinux.Simplefs.Disclosure
import KernelLinux.Lib.Crash
import KernelLinux.Simplefs.Crash
import KernelLinux.Lib.Interleave
import KernelLinux.Simplefs.Concurrent
import KernelLinux.Simplefs.Linear
import KernelLinux.Simplefs.Serializable
import KernelLinux.Lib.Ring
import KernelLinux.Ringbuff.Ring
import KernelLinux.Lib.Segments
import KernelLinux.Block.Request
import KernelLinux.Block.VmemDisk
import KernelLinux.Block.Ramdisk
import KernelLinux.Block.SimpBlkdev
import KernelLinux.Globalmem.Device
import KernelLinux.Brock.Device
import KernelLinux.Adc.Device
import KernelLinux.Simplefs.Freeblock
import KernelLinux.Simplefs.Reads
import KernelLinux.Block.Geometry
import KernelLinux.Globalfifo.Compaction
import KernelLinux.Globalmem.Llseek
import KernelLinux.Lib.Copy
import KernelLinux.Globalfifo.Exits
import KernelLinux.Ringbuff.Bounds
import KernelLinux.Simplefs.Writes
import KernelLinux.Simplefs.Room
import KernelLinux.Simplefs.Iterate
import KernelLinux.Simplefs.OneRecord
import KernelLinux.Lib.Search
import KernelLinux.Simplefs.Buffers
import KernelLinux.Simplefs.Inside
import KernelLinux.Lib.Lockstep
import KernelLinux.Simplefs.Layout
import KernelLinux.Simplefs.InodeSearch
import KernelLinux.Block.HexDump
import KernelLinux.At24c08b.Eeprom
import KernelLinux.Lib.Links
import KernelLinux.Proc.DebugEntry
import KernelLinux.Chain.Notifier
import KernelLinux.Cmd.Table
import KernelLinux.Lib.SearchTree
import KernelLinux.Rbtree.Tree
import KernelLinux.Lib.Serial
import KernelLinux.Udev.Devpath
import KernelLinux.Udev.PathEncode
import KernelLinux.Udev.Queue
import KernelLinux.Udev.Daemon
import KernelLinux.Udev.Events
import KernelLinux.Udev.Sequential
import KernelLinux.Udev.Wakeup
import KernelLinux.Udev.QueueFiles
import KernelLinux.Udev.Settle
import KernelLinux.Lib.Decimal
import KernelLinux.Udev.Db
import KernelLinux.Lib.Path
import KernelLinux.Udev.Node
import KernelLinux.Udev.Registry
import KernelLinux.Udev.Links
import KernelLinux.Udev.DeviceEvent
import KernelLinux.Udev.ReplaceChars
import KernelLinux.Udev.RuleText
import KernelLinux.Udev.RuleParse
import KernelLinux.Udev.RuleDecode
