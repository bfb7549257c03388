import TX2SecureUart.Lib.Prog
import TX2SecureUart.UserSpace.Map
import TX2SecureUart.Uart.SecurePort
import TX2SecureUart.Uart.Syscall
import TX2SecureUart.Uart.Transmit
import TX2SecureUart.Uart.Confinement
import TX2SecureUart.Camera.Receive
import TX2SecureUart.Camera.Memory
import TX2SecureUart.Camera.Timeout
import TX2SecureUart.Ipc.Iovec
import TX2SecureUart.Ipc.MsgQueue
import TX2SecureUart.Ipc.Port
import TX2SecureUart.Ipc.Msg
import TX2SecureUart.Ipc.MsgRefine
import TX2SecureUart.Ipc.Inv
import TX2SecureUart.Ipc.Shutdown
import TX2SecureUart.Ipc.PortInv
import TX2SecureUart.Ipc.Attach
import TX2SecureUart.Ipc.Publish
import TX2SecureUart.Ipc.Connect
import TX2SecureUart.Lib.Machine
import TX2SecureUart.Ipc.System
import TX2SecureUart.Ipc.Runs
import TX2SecureUart.Ipc.Refs
import TX2SecureUart.Ipc.Balance
import TX2SecureUart.Ipc.Ledger
import TX2SecureUart.Ipc.Holder
import TX2SecureUart.Ipc.Uctx
import TX2SecureUart.Ipc.PortCreate
import TX2SecureUart.Sm.StdCall
import TX2SecureUart.Lib.LeBytes
import TX2SecureUart.Ql.Device
import TX2SecureUart.Ql.Access
import TX2SecureUart.Ql.Wait
import TX2SecureUart.Ql.Inv
import TX2SecureUart.Ql.GetEvent
import TX2SecureUart.Ql.Runs
import TX2SecureUart.Ql.Recv
import TX2SecureUart.Service.Session
import TX2SecureUart.Service.Channel
import TX2SecureUart.Service.HandleMsg
import TX2SecureUart.Service.Flow
import TX2SecureUart.Service.Wakeup
import TX2SecureUart.Lib.Mask
import TX2SecureUart.AddrSpace.Map
import TX2SecureUart.AddrSpace.Calls
import TX2SecureUart.AddrSpace.Layout
import TX2SecureUart.AddrSpace.Search
import TX2SecureUart.AddrSpace.Partition
import TX2SecureUart.AddrSpace.Pages
import TX2SecureUart.AddrSpace.Undo
import TX2SecureUart.AddrSpace.Pmm
import TX2SecureUart.AddrSpace.Returns
import TX2SecureUart.Lib.Cbc
import TX2SecureUart.Hwkey.Aes
import TX2SecureUart.Hwkey.Ekb
import TX2SecureUart.Hwkey.KeyMgnt
import TX2SecureUart.Hwkey.CryptoService
import TX2SecureUart.Hwkey.Chaining
import TX2SecureUart.Hwkey.Services
import TX2SecureUart.Hwkey.Replies
import TX2SecureUart.Hwkey.Determined
import TX2SecureUart.Hwkey.Serving
import TX2SecureUart.Hwkey.Link
import TX2SecureUart.Hwkey.Answers
import TX2SecureUart.Lib.Region
import TX2SecureUart.Loader.Libc
import TX2SecureUart.Loader.Bootloader
import TX2SecureUart.Loader.Image
import TX2SecureUart.Loader.Compaction
import TX2SecureUart.Sm.BootArgs
import TX2SecureUart.Platform.NsDram
import TX2SecureUart.Sparse.Unsparse
import TX2SecureUart.Sparse.Stream
import TX2SecureUart.Sparse.Refine
import TX2SecureUart.Sparse.Calls
import TX2SecureUart.Sparse.Image
import TX2SecureUart.Sparse.Bounds
import TX2SecureUart.Sparse.Split
import TX2SecureUart.Sparse.Encode
import TX2SecureUart.Sparse.Terminates
import TX2SecureUart.Ivc.Channel
import TX2SecureUart.Bcache.Errors
import TX2SecureUart.Bcache.Faithful
import TX2SecureUart.Storage.References
import TX2SecureUart.Storage.Exact
import TX2SecureUart.Storage.GptPublish
import TX2SecureUart.Storage.Isolation
import TX2SecureUart.Storage.Async
import TX2SecureUart.Boot.LoadResult
import TX2SecureUart.Boot.RollbackRuns
import TX2SecureUart.Boot.RatchetRuns
import TX2SecureUart.Boot.Extract
import TX2SecureUart.Boot.CmdlineLists
import TX2SecureUart.Clib.PrintfRight
import TX2SecureUart.Decompress.LzfRight
import TX2SecureUart.Update.Updated
import TX2SecureUart.Update.Confined
import TX2SecureUart.Update.Entries
import TX2SecureUart.Update.Nct
import TX2SecureUart.Auth.Blocks
import TX2SecureUart.Ipc.Rotation
import TX2SecureUart.Ipc.Scatter
import TX2SecureUart.Virtio.Description
import TX2SecureUart.Tipc.Endpoints
import TX2SecureUart.Virtio.Chain
import TX2SecureUart.Tipc.RxMsg
import TX2SecureUart.Tipc.TxMsg
import TX2SecureUart.Memlog.Regions
import TX2SecureUart.Camera.Format
import TX2SecureUart.Sm.EksInfo
import TX2SecureUart.Luks.KeyMgnt
import TX2SecureUart.AddrSpace.Mmio
import TX2SecureUart.AddrSpace.Assigns
import TX2SecureUart.AddrSpace.Dma
import TX2SecureUart.Lib.FirstBest
import TX2SecureUart.Boot.AbSlots
import TX2SecureUart.AddrSpace.Grant
import TX2SecureUart.Ipc.Fade
import TX2SecureUart.Ipc.Meanwhile
import TX2SecureUart.Lib.Preserves
import TX2SecureUart.Ipc.Pending
import TX2SecureUart.Syscall.Connect
import TX2SecureUart.Syscall.AllOrNone
import TX2SecureUart.Ivc.Endpoints
import TX2SecureUart.Malloc.Routing
