import Usbip.Lib.Ring
import Usbip.Lib.History
import Usbip.Lib.Run
import Usbip.Lib.Chain
import Usbip.Lib.Sections
import Usbip.Lib.Walk
import Usbip.Lib.Bytes
import Usbip.Lib.Stream
import Usbip.Lib.Frames
import Usbip.Lib.Buffer
import Usbip.Lib.Memory
import Usbip.Lib.Cut
import Usbip.Lib.Receive
import Usbip.Lib.Access
import Usbip.Lib.Split
import Usbip.Types
import Usbip.Endpoint.Pending
import Usbip.Endpoint.Step
import Usbip.Endpoint.Custody
import Usbip.Endpoint.Stream
import Usbip.Endpoint.Writers
import Usbip.Endpoint.Alone
import Usbip.Endpoint.Halt
import Usbip.Endpoint.Loans
import Usbip.Endpoint.Same
import Usbip.Serve.Step
import Usbip.Serve.Owner
import Usbip.Serve.Parked
import Usbip.Serve.Halt
import Usbip.Serve.Late
import Usbip.Serve.Isolation
import Usbip.Build.Device
import Usbip.Build.Trace
import Usbip.Build.Alloc
import Usbip.Build.Addresses
import Usbip.Build.Pipe
import Usbip.Build.Config
import Usbip.Build.Remark
import Usbip.Build.Group
import Usbip.Libusb.Async
import Usbip.Libusb.Wake
import Usbip.Libusb.Queues
import Usbip.Libusb.Transfers
import Usbip.Libusb.Tree
import Usbip.Libusb.Deliver
import Usbip.Libusb.Lifetime
import Usbip.Libusb.Config
import Usbip.Libusbk.Kstm
import Usbip.Libusbk.Slots
import Usbip.Libusbk.Lossless
import Usbip.Libusbk.Query
import Usbip.Libusbk.Ovl
import Usbip.Libusbk.Handles
import Usbip.Listen.Server
import Usbip.Listen.Devlist
import Usbip.Listen.Misread
import Usbip.Listen.Plug
import Usbip.Wire.Cmd
import Usbip.Wire.Client
import Usbip.Wire.Serve
import Usbip.Wire.Fresh
import Usbip.Wire.Completion
import Usbip.Wire.Ret
import Usbip.Lib.Rpc
import Usbip.Host.Session
import Usbip.Host.Requests
import Usbip.Host.Enumerate
import Usbip.Host.Strings
import Usbip.Wire.Iso
import Usbip.Wire.Depad
import Usbip.Wire.Produced
import Usbip.Control.Reply
import Usbip.Control.Filled
import Usbip.Control.Scratch
import Usbip.Control.Partition
import Usbip.Control.Consistent
import Usbip.Msc.Scsi
import Usbip.Msc.Bot
import Usbip.Msc.Turn
import Usbip.Msc.Transfer
import Usbip.Msc.Sense
import Usbip.Msc.Recovery
import Usbip.Msc.Store
import Usbip.Classes.Control
import Usbip.Classes.Safe
import Usbip.Classes.Acl
import Usbip.Classes.Reassembly
import Usbip.Classes.Dfu
import Usbip.Classes.Image
import Usbip.Classes.IsoBuffer
import Usbip.Classes.Uvc
import Usbip.Classes.Bars
import Usbip.Classes.Negotiate
import Usbip.Classes.Tone
import Usbip.Lib.Entries
import Usbip.Lib.Paths
import Usbip.Mtp.Objects
import Usbip.Mtp.Table
import Usbip.Mtp.Dataset
import Usbip.Mtp.World
import Usbip.Mtp.Command
import Usbip.Mtp.Log
import Usbip.Mtp.Course
import Usbip.Mtp.Plan
import Usbip.Mtp.Permission
import Usbip.Mtp.Tree
import Usbip.Mtp.Scan
import Usbip.Mtp.Mirror
import Usbip.Mtp.Rename
import Usbip.Mtp.Confined
import Usbip.Mtp.Contents
import Usbip.Mtp.Move
import Usbip.Mtp.Ends
import Usbip.Mtp.Answer
import Usbip.Mtp.Turns
import Usbip.Mtp.Segments
import Usbip.Mtp.Slices
import Usbip.Mtp.Target
import Usbip.Mtp.Props
import Usbip.Mtp.Attempts
import Usbip.Mtp.Honest
import Usbip.Endpoint.Read
import Usbip.Endpoint.Length
import Usbip.Lib.Pcapng
import Usbip.Capture.Pcap
import Usbip.Capture.Learn
import Usbip.Capture.Types
import Usbip.Lib.Line
import Usbip.Lib.Glob
import Usbip.Lib.Group
import Usbip.Lib.Keyed
import Usbip.Libusbk.Wild
import Usbip.Libusbk.Lists
import Usbip.Libusbk.Walks
import Usbip.Libusbk.Sync
import Usbip.Serve.Paced
import Usbip.Layer.Function
import Usbip.Layer.Build
import Usbip.Layer.Routing
import Usbip.Endpoint.Queue
import Usbip.Host.Disk
import Usbip.Host.Pipes
import Usbip.Host.Open
import Usbip.Host.Registers
import Usbip.Lib.Locked
import Usbip.Lib.Counted
import Usbip.Host.Threads
