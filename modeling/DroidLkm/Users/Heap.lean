/-
  User namespaces and what they own — the objects.

  On a kernel with user namespaces a `user_namespace` is freed when its count
  drops to zero.  Credentials, open files and child namespaces are counted; an
  ipc namespace of the module takes a reference on its owner and gives it back
  when it is freed; a pid namespace of the module only stores the pointer.

  * `Obj`: what lies on the heap, and `holds`, `bare`: which user namespace an
    object names with a reference and without one;
  * `pidnsCreate`, `ipcnsCreate`, `ipcnsPut`, `pidnsPut`: the module's functions;
  * `Use`: the module handed `ns->user_ns` to the kernel;
  * `step`: one event.
-/
import DroidLkm.Lib.Machine
import Mathlib.Data.Nat.Notation
import Mathlib.Logic.Function.Basic

namespace DroidLkm.Users

/-- What lies on the heap. -/
inductive Obj where
  /-- `struct user_namespace`; with count 0 it has been freed, and names its
      parent until `free_user_ns` has given back that reference -/
  | userNs (parent : Option ℕ) (count : ℕ)
  /-- a task and its credentials -/
  | task (user : ℕ)
  /-- an open file: its credentials, or a `/proc/<pid>/ns/user` link -/
  | file (user : ℕ)
  /-- a `pid_namespace` on `droid_lkm_pidns_list`, until the module is unloaded -/
  | pidNs (user count : ℕ)
  /-- an `ipc_namespace` on `droid_lkm_ipcns_list`; with count 0 the kernel has
      freed it, whose own it is, and the entry has been left behind -/
  | ipcNs (user count : ℕ)
  /-- the host's ipc namespace, or the placeholder for its pid namespace, which
      are owned by `init_user_ns` -/
  | hostNs
  deriving DecidableEq

/-- The user namespace an object has a counted reference on. -/
def Obj.holds : Obj → Option ℕ
  | .userNs parent _ => parent
  | .task user => some user
  | .file user => some user
  | .pidNs _ _ => none
  | .ipcNs user count => if count = 0 then none else some user
  | .hostNs => none

/-- The user namespace a registered object names without a reference. -/
def Obj.bare : Obj → Option ℕ
  | .pidNs user _ => some user
  | .ipcNs user count => if count = 0 then some user else none
  | .hostNs => some 0
  | _ => none

/-- The count in a user namespace. -/
def refs : Option Obj → ℕ
  | some (.userNs _ count) => count
  | _ => 0

/-- Where the module hands over the owner of a namespace. -/
inductive Site where
  /-- `ns_capable` in `droid_lkm_pidns_install` and `droid_lkm_ipcns_install` -/
  | install
  /-- `droid_lkm_pidns_owner`, `droid_lkm_ipcns_owner` -/
  | owner
  /-- `ns_capable` in `droid_lkm_pidns_ns_last_pid` -/
  | lastPid
  /-- `ns_capable` in `ipcperms` -/
  | ipcperms
  deriving DecidableEq

/-- The owner was handed over, and whether it had been freed. -/
structure Use where
  site : Site
  user : ℕ
  freed : Bool
  deriving DecidableEq

/-- The system.  `kernelOwned` is `droid_lkm_ipcns_kernel_owned`; object 0 is
    `init_user_ns`. -/
structure State where
  kernelOwned : Bool
  heap : ℕ → Option Obj
  next : ℕ
  uses : List Use

namespace State

def set (s : State) (a : ℕ) (x : Option Obj) : State :=
  { s with heap := Function.update s.heap a x }

/-- A new object, at `s.next`. -/
def alloc (s : State) (o : Obj) : State :=
  { s.set s.next (some o) with next := s.next + 1 }

/-- `get_user_ns`. -/
def getUserNs (s : State) (u : ℕ) : State :=
  match s.heap u with
  | some (.userNs parent count) => s.set u (some (.userNs parent (count + 1)))
  | _ => s

/-- `put_user_ns`. -/
def putUserNs (s : State) (u : ℕ) : State :=
  match s.heap u with
  | some (.userNs parent count) => s.set u (some (.userNs parent (count - 1)))
  | _ => s

/-- The references on a user namespace, 0 when it is freed. -/
def count (s : State) (u : ℕ) : ℕ := refs (s.heap u)

/-- `droid_lkm_pidns_create`, for a creator with credentials in `user`. -/
def pidnsCreate (s : State) (user : ℕ) : State := s.alloc (.pidNs user 1)

/-- `droid_lkm_ipcns_create`, or the kernel's `copy_ipcs`: the reference on the
    owner goes back where a later step fails. -/
def ipcnsCreate (s : State) (user : ℕ) (fails : Bool) : State :=
  let s₁ := s.getUserNs user
  if fails then s₁.putUserNs user else s₁.alloc (.ipcNs user 1)

/-- `droid_lkm_pidns_put`: `refcount_dec_not_one`. -/
def pidnsPut (s : State) (p user count : ℕ) : State :=
  if count = 1 then s else s.set p (some (.pidNs user (count - 1)))

/-- `droid_lkm_ipcns_put`, and the kernel's put of its own namespaces.  The last
    one frees the namespace; the kernel does not tell the registry. -/
def ipcnsPut (s : State) (n user count : ℕ) : State :=
  if count ≠ 1 then s.set n (some (.ipcNs user (count - 1)))
  else
    let s₁ := if s.kernelOwned then s.set n (some (.ipcNs user 0)) else s.set n none
    s₁.putUserNs user

def use (s : State) (site : Site) (user : ℕ) : State :=
  { s with uses := ⟨site, user, decide (s.count user = 0)⟩ :: s.uses }

end State

/-- One event. -/
inductive Act where
  /-- a task is born with the credentials of `t` -/
  | fork (t : ℕ)
  /-- `CLONE_NEWUSER`: `t` goes into a new child of its user namespace -/
  | newUser (t : ℕ)
  /-- `setns` to the user namespace `u`, or other new credentials -/
  | setUser (t u : ℕ)
  | exit (t : ℕ)
  /-- `t` opens a file, and the file is closed -/
  | openFile (t : ℕ)
  | closeFile (f : ℕ)
  /-- `free_user_ns`, run later by a worker -/
  | freeUser (u : ℕ)
  | createPid (t : ℕ)
  | createIpc (t : ℕ) (fails : Bool)
  /-- `/proc/<pid>/ns/pid` is opened, and closed -/
  | getPid (p : ℕ)
  | putPid (p : ℕ)
  /-- an nsproxy or `/proc/<pid>/ns/ipc` takes a reference, and gives it back -/
  | getIpc (n : ℕ)
  | putIpc (n : ℕ)
  /-- the module hands over the owner of a registered namespace -/
  | usePid (site : Site) (p : ℕ)
  | useIpc (site : Site) (n : ℕ)
  deriving DecidableEq

namespace State

def step (s : State) : Act → Option State
  | .fork t =>
    match s.heap t with
    | some (.task u) => some ((s.getUserNs u).alloc (.task u))
    | _ => none
  | .newUser t =>
    -- the reference of the old credentials becomes that of the child on its parent
    match s.heap t with
    | some (.task u) => some ((s.alloc (.userNs (some u) 1)).set t (some (.task s.next)))
    | _ => none
  | .setUser t v =>
    match s.heap t with
    | some (.task u) =>
      if v ≠ u ∧ s.count v ≠ 0 then some (((s.getUserNs v).set t (some (.task v))).putUserNs u)
      else none
    | _ => none
  | .exit t =>
    match s.heap t with
    | some (.task u) => some ((s.set t none).putUserNs u)
    | _ => none
  | .openFile t =>
    match s.heap t with
    | some (.task u) => some ((s.getUserNs u).alloc (.file u))
    | _ => none
  | .closeFile f =>
    match s.heap f with
    | some (.file u) => some ((s.set f none).putUserNs u)
    | _ => none
  | .freeUser u =>
    match s.heap u with
    | some (.userNs (some p) 0) => some ((s.set u (some (.userNs none 0))).putUserNs p)
    | _ => none
  | .createPid t =>
    match s.heap t with
    | some (.task u) => some (s.pidnsCreate u)
    | _ => none
  | .createIpc t fails =>
    match s.heap t with
    | some (.task u) => some (s.ipcnsCreate u fails)
    | _ => none
  | .getPid p =>
    match s.heap p with
    | some (.pidNs u c) => some (s.set p (some (.pidNs u (c + 1))))
    | _ => none
  | .putPid p =>
    match s.heap p with
    | some (.pidNs u c) => some (s.pidnsPut p u c)
    | _ => none
  | .getIpc n =>
    match s.heap n with
    | some (.ipcNs u c) => if c = 0 then none else some (s.set n (some (.ipcNs u (c + 1))))
    | _ => none
  | .putIpc n =>
    match s.heap n with
    | some (.ipcNs u c) => if c = 0 then none else some (s.ipcnsPut n u c)
    | _ => none
  | .usePid site p =>
    match s.heap p with
    | some (.pidNs u _) => some (s.use site u)
    | some .hostNs => some (s.use site 0)
    | _ => none
  | .useIpc site n =>
    match s.heap n with
    | some (.ipcNs u _) => some (s.use site u)
    | some .hostNs => some (s.use site 0)
    | _ => none

/-- `init_user_ns`, which keeps one reference for good, a task in it, and the host. -/
def start (kernelOwned : Bool) : State where
  kernelOwned := kernelOwned
  heap := fun a =>
    match a with
    | 0 => some (.userNs none 2)
    | 1 => some (.task 0)
    | 2 => some .hostNs
    | _ => none
  next := 3
  uses := []

end State

end DroidLkm.Users
