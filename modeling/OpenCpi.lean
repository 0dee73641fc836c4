import OpenCpi.Application.Access
import OpenCpi.Application.Params
import OpenCpi.Application.Search
import OpenCpi.Application.Values
import OpenCpi.Assembly.Connections
import OpenCpi.Assembly.Parse
import OpenCpi.Bounds.MessageBounds
import OpenCpi.Container.Port
import OpenCpi.Container.PortDesc
import OpenCpi.Container.SetProperties
import OpenCpi.Datagram.Post
import OpenCpi.Datagram.Sender
import OpenCpi.Datagram.Wire
import OpenCpi.Datagram.Xfer
import OpenCpi.Driver.Block
import OpenCpi.Expr.Eval
import OpenCpi.Expr.Lex
import OpenCpi.Expr.Tree
import OpenCpi.Hdl.Assembly
import OpenCpi.Hdl.ByteEnables
import OpenCpi.Hdl.Clocks
import OpenCpi.Hdl.Connection
import OpenCpi.Hdl.Metadata
import OpenCpi.Hdl.Port
import OpenCpi.Hdl.SequenceRead
import OpenCpi.Hdl.Types
import OpenCpi.Hdl.WciControl
import OpenCpi.Http.Client
import OpenCpi.Http.Exchange
import OpenCpi.Http.Server
import OpenCpi.Http.Upload
import OpenCpi.Infra.Answers
import OpenCpi.Infra.Best
import OpenCpi.Infra.Bytes
import OpenCpi.Infra.Codec
import OpenCpi.Infra.CountLoop
import OpenCpi.Infra.Elastic
import OpenCpi.Infra.Exc
import OpenCpi.Infra.Fill
import OpenCpi.Infra.Istream
import OpenCpi.Infra.Latest
import OpenCpi.Infra.Prog
import OpenCpi.Infra.Run
import OpenCpi.Infra.SortedMap
import OpenCpi.Infra.Span
import OpenCpi.Infra.Stream
import OpenCpi.Infra.Stretch
import OpenCpi.Infra.Tape
import OpenCpi.Infra.Traced
import OpenCpi.Infra.Writes
import OpenCpi.Infra.Yields
import OpenCpi.Ior.Cdr
import OpenCpi.Ior.Decode
import OpenCpi.Ior.Iop
import OpenCpi.Ior.Text
import OpenCpi.Library.Manager
import OpenCpi.MemFs.StaticMemFs
import OpenCpi.MemFs.StreamBuf
import OpenCpi.Misc.Compare
import OpenCpi.Misc.Glob
import OpenCpi.Misc.Numbers
import OpenCpi.Net.Device
import OpenCpi.Net.Registers
import OpenCpi.Os.FileSystem
import OpenCpi.Properties.Agreement
import OpenCpi.Properties.Alloc
import OpenCpi.Properties.AllocAccount
import OpenCpi.Properties.AssemblyClocks
import OpenCpi.Properties.ByteEnables
import OpenCpi.Properties.CaseOrder
import OpenCpi.Properties.ClockDomains
import OpenCpi.Properties.ClockMapping
import OpenCpi.Properties.ClockOrder
import OpenCpi.Properties.Command
import OpenCpi.Properties.Connect
import OpenCpi.Properties.Control
import OpenCpi.Properties.ControlDecoder
import OpenCpi.Properties.Datagram
import OpenCpi.Properties.DatagramAck
import OpenCpi.Properties.DatagramFlag
import OpenCpi.Properties.DatagramFrames
import OpenCpi.Properties.DatagramPost
import OpenCpi.Properties.DatagramSender
import OpenCpi.Properties.Decoder
import OpenCpi.Properties.Deployment
import OpenCpi.Properties.Driver
import OpenCpi.Properties.DriverReturn
import OpenCpi.Properties.Element
import OpenCpi.Properties.EventDump
import OpenCpi.Properties.EventQ
import OpenCpi.Properties.Exchange
import OpenCpi.Properties.ExchangeSteps
import OpenCpi.Properties.ExprTrees
import OpenCpi.Properties.FileNames
import OpenCpi.Properties.Flow
import OpenCpi.Properties.Glob
import OpenCpi.Properties.HdlWci
import OpenCpi.Properties.HttpDownload
import OpenCpi.Properties.HttpExchange
import OpenCpi.Properties.HttpHead
import OpenCpi.Properties.HttpUpload
import OpenCpi.Properties.InstanceParams
import OpenCpi.Properties.Ior
import OpenCpi.Properties.IorClear
import OpenCpi.Properties.IorDecode
import OpenCpi.Properties.JoinedTexts
import OpenCpi.Properties.Layout
import OpenCpi.Properties.LibrarySearch
import OpenCpi.Properties.Listing
import OpenCpi.Properties.Literal
import OpenCpi.Properties.Mailbox
import OpenCpi.Properties.Marshal
import OpenCpi.Properties.MemStream
import OpenCpi.Properties.MessageBounds
import OpenCpi.Properties.Metadata
import OpenCpi.Properties.NativeName
import OpenCpi.Properties.NetDevice
import OpenCpi.Properties.NewConnection
import OpenCpi.Properties.NumberText
import OpenCpi.Properties.Parentheses
import OpenCpi.Properties.Pieces
import OpenCpi.Properties.Pio
import OpenCpi.Properties.PortDesc
import OpenCpi.Properties.PortElements
import OpenCpi.Properties.PortLayout
import OpenCpi.Properties.PrintedText
import OpenCpi.Properties.PropertyAccess
import OpenCpi.Properties.PropertyDecoder
import OpenCpi.Properties.PropertyValues
import OpenCpi.Properties.RccLife
import OpenCpi.Properties.RccPort
import OpenCpi.Properties.RccWorker
import OpenCpi.Properties.RegisterAccess
import OpenCpi.Properties.RunDispatch
import OpenCpi.Properties.SequenceRead
import OpenCpi.Properties.SetProperties
import OpenCpi.Properties.SimCredits
import OpenCpi.Properties.SimEmulate
import OpenCpi.Properties.SimFraming
import OpenCpi.Properties.SimServer
import OpenCpi.Properties.SocketXfer
import OpenCpi.Properties.StaticMemFs
import OpenCpi.Properties.StreamReader
import OpenCpi.Properties.StreamWriter
import OpenCpi.Properties.StringSpace
import OpenCpi.Properties.TextRoundTrip
import OpenCpi.Properties.TransferTemplate
import OpenCpi.Properties.Traversal
import OpenCpi.Properties.TypeRoundTrip
import OpenCpi.Properties.UriEscape
import OpenCpi.Properties.UriParse
import OpenCpi.Properties.UriPath
import OpenCpi.Properties.UriPrefix
import OpenCpi.Properties.ValueSlots
import OpenCpi.Properties.ValueState
import OpenCpi.Properties.Walk
import OpenCpi.Properties.Wiring
import OpenCpi.Properties.WordString
import OpenCpi.Properties.Wsi
import OpenCpi.Properties.WsiAdapters
import OpenCpi.Rcc.Dispatch
import OpenCpi.Rcc.Port
import OpenCpi.Rcc.Worker
import OpenCpi.Res.Alloc
import OpenCpi.Sim.Command
import OpenCpi.Sim.Credits
import OpenCpi.Sim.Emulate
import OpenCpi.Sim.Server
import OpenCpi.StreamFs.Files
import OpenCpi.StreamFs.Reader
import OpenCpi.StreamFs.Writer
import OpenCpi.Time.Dump
import OpenCpi.Time.EventQ
import OpenCpi.Transport.Connect
import OpenCpi.Transport.Flow
import OpenCpi.Transport.Template
import OpenCpi.Uri.Escape
import OpenCpi.Uri.Parse
import OpenCpi.Uri.Text
import OpenCpi.Value.Datum
import OpenCpi.Value.Element
import OpenCpi.Value.Layout
import OpenCpi.Value.Literal
import OpenCpi.Value.Marshal
import OpenCpi.Value.Parse
import OpenCpi.Value.Types
import OpenCpi.Value.Unparse
import OpenCpi.Value.Walk
import OpenCpi.Vfs.Iterator
import OpenCpi.Wci.Control
import OpenCpi.Wci.ControlDecoder
import OpenCpi.Wci.Decoder
import OpenCpi.Wci.PropertyDecoder
import OpenCpi.Wsi.Adapters
import OpenCpi.Wsi.Fifo2x
import OpenCpi.Wsi.Link
import OpenCpi.Xfer.Factory
import OpenCpi.Xfer.Pio
import OpenCpi.Xfer.Socket
