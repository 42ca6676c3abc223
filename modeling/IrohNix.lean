import IrohNix.Build.Concurrency
import IrohNix.Build.Deadlock
import IrohNix.Build.Fifo
import IrohNix.Build.SlowReaders
import IrohNix.BuildPush.Confinement
import IrohNix.BuildPush.Features
import IrohNix.BuildPush.Inputs
import IrohNix.BuildPush.Monitor
import IrohNix.BuildPush.Silence
import IrohNix.Builder.Connection
import IrohNix.Builder.Frame
import IrohNix.Builder.LogForwarding
import IrohNix.Builder.Outcomes
import IrohNix.Control.Cancel
import IrohNix.Control.Connection
import IrohNix.Control.EndToEnd
import IrohNix.Gossip.Announcers
import IrohNix.Index.Recovery
import IrohNix.Index.StaleCleanup
import IrohNix.Nar.Hashing
import IrohNix.Nix.Capacity
import IrohNix.Node.Serving
import IrohNix.Substituter.Client
import IrohNix.Transfer.Connection
import IrohNix.Transfer.Export
import IrohNix.Transfer.Renderings
