import DroidLkm.Lib.Machine
import DroidLkm.Lib.Custody
import DroidLkm.Mq.Count
import DroidLkm.Mq.Registration
import DroidLkm.Mq.Store
import DroidLkm.Mq.Names
import DroidLkm.Sem.Modes
import DroidLkm.Msg.Accounts
import DroidLkm.Msg.Wakeup
import DroidLkm.Msg.Segments
import DroidLkm.Wiring.Teardown
import DroidLkm.Keepalive.Pinned
import DroidLkm.Unload.Exit
import DroidLkm.Nsfs.Links
import DroidLkm.Slot.Confinement
import DroidLkm.Slot.Exact
import DroidLkm.Slot.Accounts
import DroidLkm.Slot.CreateFail
import DroidLkm.Slot.Capability
import DroidLkm.Slot.Transparent
import DroidLkm.Ids.Churn
import DroidLkm.Ids.Bookkeeping
import DroidLkm.Ids.Quotas
import DroidLkm.Ids.Room
import DroidLkm.Pidns.InitExit
import DroidLkm.Sysctl.Isolation
import DroidLkm.Sysctl.Sem
import DroidLkm.Status.Block
import DroidLkm.Layout.Btf
import DroidLkm.Layout.Shapes
import DroidLkm.Users.Owner
import DroidLkm.Load.Unwind
import DroidLkm.Tables.Install
import DroidLkm.Vendor.Ghost
import DroidLkm.Shm.Detach
import DroidLkm.Shm.Tended
import DroidLkm.Shm.Ended
import DroidLkm.Tasks.Once
import DroidLkm.Tasks.Served
import DroidLkm.Tasks.Sharing
import DroidLkm.Vendor.GhostTask
import DroidLkm.Misc.ReadText
import DroidLkm.Misc.Report
import DroidLkm.Misc.Load
import DroidLkm.Misc.Status
import DroidLkm.Layout.Scans
import DroidLkm.Mq.Waiters
import DroidLkm.Ids.ProcIter
import DroidLkm.Tasks.ExitNs
import DroidLkm.Sem.UndoExit
import DroidLkm.Devtmpfs.Progress
import DroidLkm.Devtmpfs.Neat
import DroidLkm.Userns.Privilege
import DroidLkm.Userns.MountOwner
