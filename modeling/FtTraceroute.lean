import FtTraceroute.Library.Loops
import FtTraceroute.Library.OwnedSlots
import FtTraceroute.Library.OnesComplement
import FtTraceroute.Library.ByteBlock
import FtTraceroute.Library.Fifo
import FtTraceroute.Library.Wire
import FtTraceroute.Library.Rounding
import FtTraceroute.Libft
import FtTraceroute.Header
import FtTraceroute.Inet
import FtTraceroute.Parsing
import FtTraceroute.Send
import FtTraceroute.Recieve
import FtTraceroute.Output
import FtTraceroute.Main
import FtTraceroute.Checksum
import FtTraceroute.Packet
import FtTraceroute.Layout
import FtTraceroute.Replies
import FtTraceroute.Script
import FtTraceroute.Accept
import FtTraceroute.Probes
import FtTraceroute.Columns
import FtTraceroute.Hops
import FtTraceroute.Run
import FtTraceroute.Events
import FtTraceroute.Matching
import FtTraceroute.Address
import FtTraceroute.Datagrams
import FtTraceroute.Stop
import FtTraceroute.Report
import FtTraceroute.Buffers
import FtTraceroute.Names
import FtTraceroute.Packetlen
import FtTraceroute.Signals
import FtTraceroute.Overlay
import FtTraceroute.Bounds
import FtTraceroute.Arguments
import FtTraceroute.Decode
import FtTraceroute.Lines
import FtTraceroute.Library.Scan
import FtTraceroute.Strsplit
import FtTraceroute.Itoa
import FtTraceroute.Atoi
import FtTraceroute.Strtrim
import FtTraceroute.Transcript
import FtTraceroute.Library.Path
import FtTraceroute.Network
import FtTraceroute.Delays
import FtTraceroute.Library.Ram
import FtTraceroute.Memory
import FtTraceroute.Compare
import FtTraceroute.Library.Occurs
import FtTraceroute.Search
import FtTraceroute.Concat
import FtTraceroute.Integers
import FtTraceroute.Dump
import FtTraceroute.Library.Linked
import FtTraceroute.Lists
import FtTraceroute.Blocks
import FtTraceroute.Contents
import FtTraceroute.Exits
import FtTraceroute.Losses
import FtTraceroute.Times
