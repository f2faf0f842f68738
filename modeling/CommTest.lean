import CommTest.Lib.Lts
import CommTest.Lib.FairQueue
import CommTest.Zmq.Demux
import CommTest.Zmq.Errcode
import CommTest.Zmq.Release
import CommTest.Zmq.Subscribe
import CommTest.Zmq.Shutdown
import CommTest.Zmq.SyncMutex
import CommTest.Zmq.CrossBlocking
import CommTest.Zmq.Network
import CommTest.Zmq.Provenance
import CommTest.Zmq.Greeting
import CommTest.Zmq.Hello
import CommTest.Zmq.Transparency
import CommTest.Zmq.Replies
import CommTest.Zmq.InitPub
import CommTest.Zmq.Recv
import CommTest.Zmq.Requests
import CommTest.Zmq.Retry
import CommTest.Lib.Mem
import CommTest.Lib.RoundRobin
import CommTest.Socket.PoolStop
import CommTest.Socket.PoolLife
import CommTest.Socket.PoolPlacement
import CommTest.Socket.Semaphore
import CommTest.Socket.Pcqueue
import CommTest.Socket.Lengths
import CommTest.Socket.ReadIntact
import CommTest.Lib.Machine
import CommTest.Socket.PoolMemory
import CommTest.Lib.Ledger
import CommTest.Mpi.Protocol
import CommTest.Lib.FirstMin
import CommTest.Mpi.GreedySet
import CommTest.Lib.Text
import CommTest.Mpi.GetInput
import CommTest.Lib.Moments
import CommTest.Mpi.Standardize
import CommTest.Lib.Crc
import CommTest.Mpi.Corruption
import CommTest.Mpi.Faults
import CommTest.Lib.SendBuffer
import CommTest.Mpi.Buffers
import CommTest.Zmq.Multicast
import CommTest.Lib.Rounding
import CommTest.Lib.Decimal
import CommTest.Mpi.Snapshot
import CommTest.Socket.PoolNet
import CommTest.Mpi.Progress
import CommTest.Lib.Heap
import CommTest.Mpi.Blocks
import CommTest.Lib.Getopt
import CommTest.Mpi.Options
import CommTest.Zmq.Accept
import CommTest.Mpi.Columns
import CommTest.Lib.Count
import CommTest.Zmq.Script
import CommTest.Zmq.Play
import CommTest.Zmq.ChainTest
