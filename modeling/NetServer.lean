import NetServer.Buffer.Queue
import NetServer.Buffer.Growth
import NetServer.Buffer.Space
import NetServer.Reactor.Registration
import NetServer.Reactor.Silent
import NetServer.Tcp.Units
import NetServer.Tcp.Stream
import NetServer.Tcp.Echo
import NetServer.Tcp.Objects
import NetServer.Tcp.Shutdown
import NetServer.Tcp.Ownership
import NetServer.Tcp.Callbacks
import NetServer.Tcp.Effects
import NetServer.Tcp.Interest
import NetServer.Tcp.States
import NetServer.Tcp.Registry
import NetServer.Tcp.Removal
import NetServer.Tcp.Batch
import NetServer.Tcp.Descriptors
import NetServer.Tcp.Timing
import NetServer.Tcp.Teardown
import NetServer.Tcp.Apart
import NetServer.Tcp.Failures
import NetServer.Tcp.Closing
import NetServer.Timer.Cancel
import NetServer.Timer.Entries
import NetServer.Timer.Firing
import NetServer.Timer.Wakeup
import NetServer.Timer.Loop
import NetServer.Timer.Expired
import NetServer.Timer.Duration
import NetServer.Thread.Handshake
import NetServer.Thread.Lifetime
import NetServer.Timer.Ids
import NetServer.V10.EchoServer
import NetServer.V12.Reuse
import NetServer.Buffer.Capacity
import NetServer.V12.Refines
import NetServer.V15.Polling
import NetServer.Tcp.Input
import NetServer.Tcp.Delivery
import NetServer.Buffer.Layout
import NetServer.Timer.Liveness
import NetServer.Timer.Order
import NetServer.Timer.Lifetime
import NetServer.Tcp.EventLoop
import NetServer.Tcp.Output
import NetServer.Tcp.Alone
