import NetworkExperiments.Support.Run
import NetworkExperiments.Support.ByteOrder
import NetworkExperiments.Support.CInt
import NetworkExperiments.Support.CyclicSlots
import NetworkExperiments.Visensor.FrameOrder
import NetworkExperiments.Visensor.FrameTearing
import NetworkExperiments.Visensor.StreamAlignment
import NetworkExperiments.TcpTest.RoundTrip
import NetworkExperiments.SlamServer.ConnectionState
import NetworkExperiments.SlamServer.Notifications
import NetworkExperiments.SlamServer.ClientExceptions
import NetworkExperiments.SlamServer.UdpServer
import NetworkExperiments.SlamServer.Sweep
import NetworkExperiments.TestClient.ImageTransfer
import NetworkExperiments.Support.Interleaving
import NetworkExperiments.SlamServer.LoopSweep
import NetworkExperiments.SlamServer.MemoryLayout
import NetworkExperiments.Visensor.DeadlockFreedom
import NetworkExperiments.Visensor.NextSlot
import NetworkExperiments.TcpTest.InStep
import NetworkExperiments.TcpTest.CompleteImages
import NetworkExperiments.Support.CountingLoop
import NetworkExperiments.Support.Ledger
import NetworkExperiments.VisensorMod.Module
import NetworkExperiments.VisensorMod.ResourceBalance
import NetworkExperiments.VisensorMod.Containment
import NetworkExperiments.Visensor.I2C.I2CBusRaw
import NetworkExperiments.Support.CommandQueue
import NetworkExperiments.Visensor.I2C.AxiIic
import NetworkExperiments.Visensor.I2C.RegisterFile
import NetworkExperiments.Visensor.I2C.I2CBus
import NetworkExperiments.Visensor.I2C.Interchange
import NetworkExperiments.Visensor.DevMem
import NetworkExperiments.Visensor.RegisterWindow
import NetworkExperiments.Visensor.SharedMemoryManager
import NetworkExperiments.SlamServer.TestPattern
import NetworkExperiments.TestClient.Bounds
import NetworkExperiments.TestClient.LossDetection
import NetworkExperiments.Visensor.I2C.Handshake
import NetworkExperiments.UdpTest.Client
import NetworkExperiments.UdpTest.LossReport
import NetworkExperiments.Visensor.CameraPipeline
import NetworkExperiments.Visensor.MT9V034
import NetworkExperiments.Visensor.Program
import NetworkExperiments.Visensor.SharedPages
import NetworkExperiments.TcpTest.NumberImage
import NetworkExperiments.SlamServer.Sends
import NetworkExperiments.VisensorMod.StoredPattern
import NetworkExperiments.VisensorMod.PageByPage
import NetworkExperiments.SlamServer.StartUp
import NetworkExperiments.SlamServer.UnreadStream
import NetworkExperiments.Support.StrToL
import NetworkExperiments.Visensor.I2C.I2CBusses
import NetworkExperiments.TcpTest.Sockets
import NetworkExperiments.TestClient.ImageNetwork
import NetworkExperiments.MemoryAllocator.DemoDriver
import NetworkExperiments.MemoryAllocator.DemoDriverResources
