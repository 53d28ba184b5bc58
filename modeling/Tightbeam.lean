import Tightbeam.ProtocolExact
import Tightbeam.Admit
import Tightbeam.Reachable
import Tightbeam.Slots
import Tightbeam.Uniform
import Tightbeam.Permits
import Tightbeam.CutRun
import Tightbeam.SeatRun
import Tightbeam.FanoutRun
import Tightbeam.PreGate
import Tightbeam.Catalog
import Tightbeam.CutBounds
import Tightbeam.Connector
import Tightbeam.SessionLoop
import Tightbeam.StallMeter
import Tightbeam.FanoutStep
import Tightbeam.Joiners
import Tightbeam.Lossy
import Tightbeam.PublicSlot
import Tightbeam.StallFloor
import Tightbeam.Canonical
import Tightbeam.Library.Waiting
import Tightbeam.Wakeups
import Tightbeam.Enabled
import Tightbeam.Toggles
import Tightbeam.Duration
import Tightbeam.Wire
import Tightbeam.Torn
import Tightbeam.Grammar
import Tightbeam.RingWindow
import Tightbeam.Lapses
import Tightbeam.LossyCalls
import Tightbeam.FirstTraffic
import Tightbeam.StdinBridges
import Tightbeam.Handshake
import Tightbeam.Splice
import Tightbeam.Tunnel
import Tightbeam.StdioBridge
import Tightbeam.ForwardLoop
import Tightbeam.NodeLoop
import Tightbeam.SeatPieces
import Tightbeam.Echo
import Tightbeam.Guarded
import Tightbeam.ExposeCmd
import Tightbeam.PathReads
import Tightbeam.KeyFile
import Tightbeam.PathTunnel
