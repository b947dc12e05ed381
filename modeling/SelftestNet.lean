import SelftestNet.ByteBuffer
import SelftestNet.Capacity
import SelftestNet.Chain
import SelftestNet.Decimal
import SelftestNet.Descriptors
import SelftestNet.Directory
import SelftestNet.Duplex
import SelftestNet.EpollServer
import SelftestNet.EventQueue
import SelftestNet.ForceSync
import SelftestNet.Framing
import SelftestNet.Idle
import SelftestNet.LinkedTree
import SelftestNet.Log
import SelftestNet.LogReader
import SelftestNet.Loop
import SelftestNet.Memory
import SelftestNet.Network
import SelftestNet.OrderedSet
import SelftestNet.PollThread
import SelftestNet.QueueCopy
import SelftestNet.RbInsert
import SelftestNet.RbMemory
import SelftestNet.RbRemove
import SelftestNet.RbSet
import SelftestNet.RbTree
import SelftestNet.RbWalk
import SelftestNet.Receive
import SelftestNet.RecvToCmd
import SelftestNet.RedBlack
import SelftestNet.Release
import SelftestNet.Room
import SelftestNet.Rotation
import SelftestNet.RoundTrip
import SelftestNet.Run
import SelftestNet.Send
import SelftestNet.SendLoop
import SelftestNet.Session
import SelftestNet.Socket
import SelftestNet.SplayCalls
import SelftestNet.SplayMemory
import SelftestNet.SplaySet
import SelftestNet.SplayTree
import SelftestNet.Splaying
import SelftestNet.Task
import SelftestNet.Tasks
import SelftestNet.Thread
import SelftestNet.TreePath
