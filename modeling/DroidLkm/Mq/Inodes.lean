/-
  POSIX message queues — the inodes, what they are charged to and how many of
  them a namespace counts.

  * `Kernel`: the version, the optional symbols, and the kernel's ucounts, of
    which `Ucounts` says what is relied on;
  * `ucountsGet`, `ucountsCharge`, `ucountsUncharge`: as in `ipc_mqueue_shim.c`;
  * `mqueueGetInode`, `mqueueCreateAttr`, `mqueueEvictInode`: as in
    `ipc_mqueue.c`;
  * `step`: queues are made, opened, closed and unlinked, an inode to which
    nothing refers is evicted, the limits are written and namespaces are made
    and go.

  The sizes are those of a 64-bit build.  `put_ucounts` changes no account.
-/
import DroidLkm.Errno
import DroidLkm.Lib.Machine
import DroidLkm.Mq.Queue
import DroidLkm.Version

namespace DroidLkm.Mq

def ULONG_MAX : ℕ := 2 ^ 64 - 1
def LONG_MAX : ℤ := 2 ^ 63 - 1

def DROID_LKM_DFLT_QUEUESMAX : ℕ := 256
def DROID_LKM_MIN_MSGMAX : ℤ := 1
def DROID_LKM_DFLT_MSG : ℕ := 10
def DROID_LKM_DFLT_MSGMAX : ℕ := 10
def DROID_LKM_HARD_MSGMAX : ℤ := 65536
def DROID_LKM_MIN_MSGSIZEMAX : ℤ := 128
def DROID_LKM_DFLT_MSGSIZE : ℕ := 8192
def DROID_LKM_DFLT_MSGSIZEMAX : ℕ := 8192
def DROID_LKM_HARD_MSGSIZEMAX : ℤ := 16 * 1024 * 1024

/-- `sizeof(struct msg_msg)` -/
def sizeofMsgMsg : ℕ := 48

/-- `sizeof(struct posix_msg_tree_node)` -/
def sizeofNode : ℕ := 48

/-- The value of a `long`. -/
def long (x : ℤ) : ℤ := x.bmod (2 ^ 64)

/-! ## The kernel -/

/-- The kernel's ucounts: a charge to one goes to it and to those of the user
    namespaces above. -/
structure Ucounts where
  chain : ℕ → List ℕ
  /-- `inc_rlimit_ucounts`, on the accounts, with what it returns -/
  inc : (ℕ → ℤ) → ℕ → ℤ → (ℕ → ℤ) × ℤ
  /-- `dec_rlimit_ucounts` -/
  dec : (ℕ → ℤ) → ℕ → ℤ → ℕ → ℤ
  self_mem : ∀ u, u ∈ chain u
  inc_apply : ∀ acc u v a, (inc acc u v).1 a = if a ∈ chain u then long (acc a + v) else acc a
  /-- an account that would be negative is an overflow -/
  inc_overflow : ∀ acc u v a, a ∈ chain u → long (acc a + v) < 0 → (inc acc u v).2 = LONG_MAX
  dec_apply : ∀ acc u v a, dec acc u v a = if a ∈ chain u then long (acc a - v) else acc a

/-- The running kernel and the build of the module. -/
structure Kernel where
  /-- `LINUX_VERSION_CODE` -/
  versionCode : ℕ
  /-- whether `droid_lkm_ks` has `ucounts_get`, `ucounts_inc_rlimit` and
      `ucounts_dec_rlimit` -/
  ksUcountsGet : Bool
  ksUcountsIncRlimit : Bool
  ksUcountsDecRlimit : Bool
  ucounts : Ucounts

namespace Kernel

/-- `droid_lkm_mq_ucounts_get`; `get` says whether `get_ucounts` takes a
    reference. -/
def ucountsGet (k : Kernel) (user : ℕ) (get : Bool) : Option ℕ :=
  if k.versionCode < KERNEL_VERSION 5 11 0 then none
  else if k.ksUcountsGet || KERNEL_VERSION 6 18 0 ≤ k.versionCode then
    if get then some user else none
  else none

/-- `droid_lkm_mq_ucounts_charge` -/
def ucountsCharge (k : Kernel) (acc : ℕ → ℤ) (u bytes : ℕ) : (ℕ → ℤ) × ℤ :=
  if KERNEL_VERSION 5 11 0 ≤ k.versionCode ∧ k.ksUcountsIncRlimit then
    k.ucounts.inc acc u (long bytes)
  else (acc, 0)

/-- `droid_lkm_mq_ucounts_uncharge` -/
def ucountsUncharge (k : Kernel) (acc : ℕ → ℤ) (u bytes : ℕ) : ℕ → ℤ :=
  if KERNEL_VERSION 5 11 0 ≤ k.versionCode ∧ k.ksUcountsDecRlimit then
    k.ucounts.dec acc u (long bytes)
  else acc

end Kernel

/-! ## Inodes and namespaces -/

/-- `struct mq_attr`, as a queue is made with it. -/
structure Attr where
  maxmsg : ℤ
  msgsize : ℤ
  deriving DecidableEq

namespace Attr

/-- `mq_treesize` -/
def treesize (a : Attr) : ℕ :=
  (a.maxmsg.toNat * sizeofMsgMsg + min (a.maxmsg.toNat % 2 ^ 32) MQ_PRIO_MAX * sizeofNode) % 2 ^ 64

/-- `mq_bytes`, of the messages alone. -/
def msgBytes (a : Attr) : ℕ := a.maxmsg.toNat * a.msgsize.toNat % 2 ^ 64

/-- `mq_bytes` in `mqueue_get_inode` -/
def mqBytes (a : Attr) : ℕ := (a.msgBytes + a.treesize) % 2 ^ 64

/-- `mq_bytes` in `mqueue_evict_inode` -/
def evictBytes (a : Attr) : ℕ := (a.treesize + a.msgBytes) % 2 ^ 64

end Attr

/-- The inode of a queue; `creator` are the ucounts of the task that made it,
    `opens` is the number of open files. -/
structure QueueInode where
  ino : ℕ
  ns : ℕ
  creator : ℕ
  attr : Attr
  ucounts : Option ℕ
  linked : Bool
  opens : ℕ
  deriving DecidableEq

/-- What `struct ipc_namespace` has for queues; `live` says that `s_fs_info` leads
    to it. -/
structure MqNs where
  live : Bool
  queuesCount : ℕ
  queuesMax : ℕ
  msgMax : ℕ
  msgsizeMax : ℕ
  msgDefault : ℕ
  msgsizeDefault : ℕ

/-- `droid_lkm_mq_init_ns` -/
def MqNs.init : MqNs where
  live := true
  queuesCount := 0
  queuesMax := DROID_LKM_DFLT_QUEUESMAX
  msgMax := DROID_LKM_DFLT_MSGMAX
  msgsizeMax := DROID_LKM_DFLT_MSGSIZEMAX
  msgDefault := DROID_LKM_DFLT_MSG
  msgsizeDefault := DROID_LKM_DFLT_MSGSIZE

/-- The namespaces, the inodes of queues, and what is charged to each account. -/
structure Mqueues where
  ns : ℕ → MqNs
  inodes : List QueueInode
  nextIno : ℕ
  accounts : ℕ → ℤ

/-- An `mq_open` that makes a queue: the task, what it asks for, and what it meets
    (whether `new_inode` and `get_ucounts` succeed, and whether the file is opened
    then). -/
structure Request where
  ns : ℕ
  user : ℕ
  attr : Option Attr
  capSysResource : Bool
  rlimit : ℕ
  alloc : Bool
  get : Bool
  opened : Bool

/-- The limits that are written under `/proc/sys/fs/mqueue`. -/
inductive MqEntry where
  | queuesMax
  | msgMax
  | msgsizeMax
  | msgDefault
  | msgsizeDefault

namespace MqNs

/-- What a queue is made with. -/
def attrOf (n : MqNs) (attr : Option Attr) : Attr :=
  attr.getD ⟨(min n.msgMax n.msgDefault : ℕ), (min n.msgsizeMax n.msgsizeDefault : ℕ)⟩

/-- The checks of `mqueue_get_inode`, 0 for none. -/
def attrError (n : MqNs) (a : Attr) (capSysResource : Bool) : ℤ :=
  if a.maxmsg ≤ 0 ∨ a.msgsize ≤ 0 then -EINVAL
  else if capSysResource ∧
      (DROID_LKM_HARD_MSGMAX < a.maxmsg ∨ DROID_LKM_HARD_MSGSIZEMAX < a.msgsize) then -EINVAL
  else if ¬capSysResource ∧ (n.msgMax < a.maxmsg ∨ n.msgsizeMax < a.msgsize) then -EINVAL
  else if ULONG_MAX / a.maxmsg.toNat < a.msgsize.toNat then -EOVERFLOW
  else if a.mqBytes < a.msgBytes then -EOVERFLOW
  else 0

/-- `mq_queues_count++` and `mq_queues_count--` -/
def incCount (n : MqNs) : MqNs := { n with queuesCount := (n.queuesCount + 1) % 2 ^ 32 }

def decCount (n : MqNs) : MqNs := { n with queuesCount := (n.queuesCount + 2 ^ 32 - 1) % 2 ^ 32 }

/-- A write of `proc_dointvec`, or of `proc_dointvec_minmax` with the bounds of the
    entry. -/
def write (n : MqNs) (v : ℤ) : MqEntry → MqNs
  | .queuesMax => { n with queuesMax := (v % 2 ^ 32).toNat }
  | .msgMax =>
    if DROID_LKM_MIN_MSGMAX ≤ v ∧ v ≤ DROID_LKM_HARD_MSGMAX then { n with msgMax := v.toNat }
    else n
  | .msgsizeMax =>
    if DROID_LKM_MIN_MSGSIZEMAX ≤ v ∧ v ≤ DROID_LKM_HARD_MSGSIZEMAX then
      { n with msgsizeMax := v.toNat }
    else n
  | .msgDefault =>
    if DROID_LKM_MIN_MSGMAX ≤ v ∧ v ≤ DROID_LKM_HARD_MSGMAX then { n with msgDefault := v.toNat }
    else n
  | .msgsizeDefault =>
    if DROID_LKM_MIN_MSGSIZEMAX ≤ v ∧ v ≤ DROID_LKM_HARD_MSGSIZEMAX then
      { n with msgsizeDefault := v.toNat }
    else n

end MqNs

namespace Mqueues

def setNs (s : Mqueues) (n : ℕ) (x : MqNs) : Mqueues := { s with ns := Function.update s.ns n x }

/-- The inodes of a namespace. -/
def queues (s : Mqueues) (n : ℕ) : List QueueInode := s.inodes.filter (·.ns = n)

def modify (s : Mqueues) (ino : ℕ) (f : QueueInode → QueueInode) : Mqueues :=
  { s with inodes := s.inodes.map fun q => if q.ino = ino then f q else q }

end Mqueues

namespace Kernel

/-- `mqueue_get_inode`, for a queue: the accounts, and the error or the attributes
    and the ucounts of the new inode. -/
def mqueueGetInode (k : Kernel) (s : Mqueues) (r : Request) :
    (ℕ → ℤ) × Except ℤ (Attr × Option ℕ) :=
  let attr := (s.ns r.ns).attrOf r.attr
  let err := (s.ns r.ns).attrError attr r.capSysResource
  if !r.alloc then (s.accounts, .error (-ENOMEM))
  else if err ≠ 0 then (s.accounts, .error err)
  else
    match k.ucountsGet r.user r.get with
    | none => (s.accounts, .ok (attr, none))
    | some u =>
      let c := k.ucountsCharge s.accounts u attr.mqBytes
      if c.2 = LONG_MAX ∨ (r.rlimit : ℤ) < c.2 % 2 ^ 64 then
        (k.ucountsUncharge c.1 u attr.mqBytes, .error (-EMFILE))
      else (c.1, .ok (attr, some u))

/-- `mqueue_create_attr`, and the `dentry_open` that follows where it returns 0. -/
def mqueueCreateAttr (k : Kernel) (s : Mqueues) (r : Request) : Mqueues × ℤ :=
  let n := s.ns r.ns
  if !n.live then (s, -EACCES)
  else if n.queuesMax ≤ n.queuesCount ∧ !r.capSysResource then (s, -ENOSPC)
  else
    match k.mqueueGetInode s r with
    | (accounts, .error err) =>
      ({ s with accounts }.setNs r.ns n.incCount.decCount, err)
    | (accounts, .ok (attr, ucounts)) =>
      ({ s.setNs r.ns n.incCount with
        accounts
        nextIno := s.nextIno + 1
        inodes := s.inodes ++ [{
          ino := s.nextIno
          ns := r.ns
          creator := r.user
          attr
          ucounts
          linked := true
          opens := if r.opened then 1 else 0 }] }, 0)

/-- `mqueue_evict_inode`, of a queue. -/
def mqueueEvictInode (k : Kernel) (s : Mqueues) (q : QueueInode) : Mqueues :=
  let s := { s with inodes := s.inodes.erase q }
  match q.ucounts with
  | none => s
  | some u =>
    let s := { s with accounts := k.ucountsUncharge s.accounts u q.attr.evictBytes }
    if (s.ns q.ns).live then s.setNs q.ns (s.ns q.ns).decCount else s

end Kernel

inductive InodeAct where
  | create (r : Request)
  | reopen (ino : ℕ)
  | close (ino : ℕ)
  | unlink (ino : ℕ)
  /-- the last reference to the inode is put -/
  | evict (q : QueueInode)
  | sysctl (n : ℕ) (v : ℤ) (entry : MqEntry)
  | initNs (n : ℕ)
  /-- `droid_lkm_mq_clear_sbinfo` -/
  | clearSbinfo (n : ℕ)

namespace Kernel

def step (k : Kernel) (s : Mqueues) : InodeAct → Option Mqueues
  | .create r => some (k.mqueueCreateAttr s r).1
  | .reopen ino => some (s.modify ino fun q => { q with opens := q.opens + 1 })
  | .close ino => some (s.modify ino fun q => { q with opens := q.opens - 1 })
  | .unlink ino => some (s.modify ino fun q => { q with linked := false })
  | .evict q =>
    if q ∉ s.inodes ∨ q.linked ∨ q.opens ≠ 0 then none else some (k.mqueueEvictInode s q)
  | .sysctl n v entry => some (s.setNs n ((s.ns n).write v entry))
  | .initNs n => if (s.ns n).live ∨ s.queues n ≠ [] then none else some (s.setNs n .init)
  | .clearSbinfo n => some (s.setNs n { s.ns n with live := false })

end Kernel

/-- No namespace is there yet. -/
def Mqueues.init : Mqueues where
  ns := fun _ => { MqNs.init with live := false }
  inodes := []
  nextIno := 0
  accounts := fun _ => 0

end DroidLkm.Mq
