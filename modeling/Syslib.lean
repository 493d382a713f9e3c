import Syslib.Library.RingQueue
import Syslib.Library.Runs
import Syslib.Ringbuf.Model
import Syslib.Ringbuf.Queue
import Syslib.Ringbuf.Bounds
import Syslib.Ringbuf.Offsets
import Syslib.Ringbuf.Interleaving
import Syslib.Ringbuf.Linear
import Syslib.Net.SendRing
import Syslib.Library.ColoredTree
import Syslib.Library.RedBlack
import Syslib.Rbtree.Model
import Syslib.Rbtree.Represent
import Syslib.Rbtree.FixBb
import Syslib.Rbtree.FixRr
import Syslib.Rbtree.Insert
import Syslib.Rbtree.Laws
import Syslib.Library.Fuel
import Syslib.Rbtree.Passes
import Syslib.Library.IntrusiveLists
import Syslib.Timer.Model
import Syslib.Timer.Placement
import Syslib.Timer.Schedule
import Syslib.Timer.Cascade
import Syslib.Timer.Requeue
import Syslib.Timer.Callbacks
import Syslib.Ipc.Channel
import Syslib.Mmspace.Sections
import Syslib.Mmspace.Startup
import Syslib.Misc
import Syslib.Hash.Table
import Syslib.Hash.Map
import Syslib.Mmspace.SectionTree
import Syslib.Mmspace.Zones
import Syslib.Mmspace.CacheFree
import Syslib.Mmspace.Restart
import Syslib.Graph.Calls
import Syslib.Net.Graceful
import Syslib.Net.Receive
import Syslib.Net.Connection
import Syslib.Net.PollTree
import Syslib.Net.PollScan
import Syslib.Net.CreateSession
import Syslib.Utask.Returns
import Syslib.Library.Tiling
import Syslib.Rbtree.Succ
import Syslib.Pgpool.Pages
import Syslib.Pgpool.Release
import Syslib.Mmpool.Layout
import Syslib.Mmpool.Calls
import Syslib.Mmpool.Complete
import Syslib.Mmpool.Check
import Syslib.Net.CallbackOrder
import Syslib.Ipc.ShmKey
import Syslib.Shmem.Segment
import Syslib.Mmspace.SlabLayout
import Syslib.Mmspace.Unservable
import Syslib.Mmspace.Areas
import Syslib.Mmspace.ZoneUsers
import Syslib.Rbtree.Exchange
import Syslib.Rbtree.Rebalance
import Syslib.Rbtree.Iterate
import Syslib.Library.Copying
import Syslib.QuickCopy
import Syslib.Stkpool.Layout
import Syslib.Stkpool.Handles
import Syslib.TwoPowers
import Syslib.Library.TwoSpeed
import Syslib.Library.LinkedPaths
import Syslib.Dlist.Model
import Syslib.Dlist.Check
import Syslib.Dlist.Sequences
import Syslib.Dlist.Calls
