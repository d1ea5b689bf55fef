import LearnLinux.Lib.Segment
import LearnLinux.Lib.CInt
import LearnLinux.Lib.Fifo
import LearnLinux.Lib.Transition
import LearnLinux.Lib.History
import LearnLinux.Lib.RingBuffer
import LearnLinux.Lib.Census
import LearnLinux.Lib.RecursiveMutex
import LearnLinux.Lib.SharedLock
import LearnLinux.Lib.Tagged
import LearnLinux.Lib.Handshake
import LearnLinux.Lib.CString
import LearnLinux.Lib.AddressSpace
import LearnLinux.Lib.LinkedList
import LearnLinux.Lib.Handles
import LearnLinux.Lib.PriorityQueue
import LearnLinux.Lib.Epoll
import LearnLinux.Lib.Signals
import LearnLinux.Lib.ProcessTable
import LearnLinux.Lib.OpenFile
import LearnLinux.Chardev.Driver
import LearnLinux.Chardev.Stream
import LearnLinux.Chardev.Runs
import LearnLinux.Chardev.Bounds
import LearnLinux.Chardev.Lifecycle
import LearnLinux.Chardev.DeviceTest
import LearnLinux.KernelModule.HelloModule
import LearnLinux.Threads.Workers
import LearnLinux.Threads.Counter
import LearnLinux.Threads.CondQueue
import LearnLinux.Threads.Programs
import LearnLinux.Threads.Sentinel
import LearnLinux.Threads.SemQueue
import LearnLinux.Threads.SemCount
import LearnLinux.Threads.RwLock
import LearnLinux.Threads.CondCount
import LearnLinux.Ipc.AnonPipe
import LearnLinux.Ipc.NamedPipe
import LearnLinux.Ipc.SharedMemory
import LearnLinux.Ipc.Mqueue
import LearnLinux.Ipc.MqPriority
import LearnLinux.Ipc.MqProcesses
import LearnLinux.Memory.Tracker
import LearnLinux.Memory.Laws
import LearnLinux.Memory.Refinement
import LearnLinux.FileIo.Files
import LearnLinux.FileIo.EpollDrain
import LearnLinux.FileIo.EpollSetup
import LearnLinux.Net.TcpServer
import LearnLinux.Net.ServerMain
import LearnLinux.Net.Replies
import LearnLinux.Net.EchoSession
import LearnLinux.Net.Disconnect
import LearnLinux.Net.TcpClient
import LearnLinux.Net.UdpDemo
import LearnLinux.Timers.SignalTimers
import LearnLinux.Timers.TimerFd
import LearnLinux.Signals.Handlers
import LearnLinux.Signals.UserSignals
import LearnLinux.Process.ProcessDemo
import LearnLinux.Scripts.Watchdog
