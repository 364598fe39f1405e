/-
  Ipc namespaces, their tables and the SysV objects in them.

  * `ipcnsLoad`, `ipcnsCreate`, `dsFreeIpcNs`, `ipcnsExit`: as in `ipcns.c`, on
    who initialises and who frees the tables of ids;
  * `kernelNew`, `kernelFreeIpcNs`: what `copy_ipcs` and `free_ipc_ns` of the
    kernel do, which know the tables only with `CONFIG_SYSVIPC`;
  * `step`: threads come and go, change their namespaces, make and remove
    objects, and the module is loaded and unloaded, in any order.

  A namespace is freed when the last reference is put, which is some time after
  the last thread has left; numbers of namespaces are not used again.  Nothing
  is lost when a creation fails, since nobody has used the namespace.
-/
import Mathlib.Logic.Function.Basic
import DroidLkm.Lib.Machine
import DroidLkm.Wiring.Classify

namespace DroidLkm.Wiring

/-- The three tables `ids` of a namespace. -/
inductive Cls where
  | sem
  | msg
  | shm
  deriving DecidableEq

/-- Who has made a namespace. -/
inductive Origin where
  /-- it is `&init_ipc_ns` of the module -/
  | static
  | kernel
  /-- `droid_lkm_ipcns_create`, by the kernel's `copy_ipcs` -/
  | asked
  /-- `droid_lkm_ipcns_create`, on its own -/
  | own
  deriving DecidableEq

/-- Made by `droid_lkm_ipcns_create`. -/
def Origin.created : Origin → Bool
  | .asked | .own => true
  | .static | .kernel => false

/-- `struct ipc_namespace`: who has initialised each table, and the objects in
    it. -/
structure IpcNs where
  origin : Origin
  inits : Cls → List Owner
  ids : Cls → List ℕ

namespace IpcNs

variable (x : IpcNs)

/-- `ipc_init_ids` -/
def initIds (p : Owner) (c : Cls) : IpcNs :=
  { x with
    inits := Function.update x.inits c (x.inits c ++ [p])
    ids := Function.update x.ids c [] }

/-- `msg_init_ns`; `acct` says whether the record can be allocated. -/
def msgInitNs (acct : Bool) : IpcNs × Bool :=
  if acct then (x.initIds .lkm .msg, true) else (x, false)

def semInitNs : IpcNs := x.initIds .lkm .sem

def shmInitNs : IpcNs := x.initIds .lkm .shm

/-- `droid_lkm_ipcns_in_use` -/
def inUse : Bool := x.ids .sem ≠ [] || x.ids .msg ≠ [] || x.ids .shm ≠ []

/-- The objects that the free callbacks of the three classes are run on. -/
def freed : List (ℕ × Cls) :=
  (x.ids .sem).map (·, .sem) ++ (x.ids .msg).map (·, .msg) ++ (x.ids .shm).map (·, .shm)

end IpcNs

/-- A SysV object. -/
structure Obj where
  id : ℕ
  cls : Cls
  ns : ℕ
  deriving DecidableEq

/-- The live namespaces, and the `ipc_ns` of each thread.  The rest is history:
    the objects that the module has made in its namespaces, those that a free
    callback was run on and of which class, and the namespaces whose tables the
    module has destroyed. -/
structure World where
  ns : ℕ → Option IpcNs
  tasks : List (Option ℕ)
  next : ℕ
  nextId : ℕ
  loaded : Bool
  exited : Bool
  made : List Obj
  released : List (ℕ × Cls)
  torn : List IpcNs

/-- `&init_ipc_ns`, and the first namespace of the kernel. -/
def initIpcNs : ℕ := 0
def ipcnsOrig : ℕ := 1

namespace Kernel

variable (k : Kernel)

/-- `droid_lkm_ipcns_host` -/
def host : ℕ := if k.kernelOwned then ipcnsOrig else initIpcNs

/-- A namespace as the kernel makes it. -/
def kernelNew (origin : Origin) : IpcNs where
  origin
  inits _ := if k.sysv then [.kernel] else []
  ids _ := []

end Kernel

namespace World

variable (k : Kernel) (w : World)

def init : World where
  ns := fun n => if k.wired ∧ n = ipcnsOrig then some (k.kernelNew .kernel) else none
  tasks := [if k.wired then some ipcnsOrig else none]
  next := 2
  nextId := 0
  loaded := false
  exited := false
  made := []
  released := []
  torn := []

def setNs (n : ℕ) (x : IpcNs) : World := { w with ns := Function.update w.ns n (some x) }

/-- The rows of SysV are those of the module. -/
def rowsWired : Bool := w.loaded && !w.exited && !ipcRowSkipped k.ipcnsInit false ⟨false⟩

/-- `droid_lkm_ipc_util_init` and `droid_lkm_ipcns_init`; the results of
    `msg_init_ns` are not looked at. -/
def ipcnsLoad (acctInit acctHost : Bool) : World :=
  let x : IpcNs := ⟨.static, fun _ => [], fun _ => []⟩
  let w := w.setNs initIpcNs (x.semInitNs.msgInitNs acctInit).1.shmInitNs
  let w := { w with loaded := true }
  if k.kernelOwned then
    match w.ns k.host with
    | none => w
    | some x =>
      if k.ipcnsInit.sysvipc.owner ≠ .kernel then
        w.setNs k.host (x.msgInitNs acctHost).1.semInitNs.shmInitNs
      else w
  else w

/-- A thread enters a new namespace. -/
def enterNew (t : ℕ) (x : IpcNs) : World :=
  { w with
    ns := Function.update w.ns w.next (some x)
    tasks := w.tasks.set t (some w.next)
    next := w.next + 1 }

/-- `droid_lkm_ipcns_create`, for a thread that enters the namespace; `rest`
    says whether all but `msg_init_ns` succeeds. -/
def ipcnsCreate (t : ℕ) (acct rest : Bool) : World :=
  if k.kernelOwned then
    let x := k.kernelNew .asked
    if k.ipcnsInit.sysvipc.owner = .lkm then
      match x.msgInitNs acct with
      | (_, false) => w
      | (x, true) => if rest then w.enterNew t x.semInitNs.shmInitNs else w
    else if rest then w.enterNew t x else w
  else
    match (IpcNs.mk .own (fun _ => []) fun _ => []).msgInitNs acct with
    | (_, false) => w
    | (x, true) => if rest then w.enterNew t x.semInitNs.shmInitNs else w

/-- `ds_free_ipc_ns` -/
def dsFreeIpcNs (n : ℕ) (x : IpcNs) : World :=
  { w with
    ns := Function.update w.ns n none
    released := if k.ipcnsInit.sysvipc.owner = .lkm then x.freed ++ w.released else w.released
    torn := x :: w.torn }

/-- The kernel's `free_ipc_ns` -/
def kernelFreeIpcNs (n : ℕ) (x : IpcNs) : World :=
  { w with
    ns := Function.update w.ns n none
    released := if k.sysv then x.freed ++ w.released else w.released }

/-- An object is made, by the module or the kernel. -/
def newObj (n : ℕ) (x : IpcNs) (c : Cls) : World :=
  { w with
    ns := Function.update w.ns n (some { x with
      ids := Function.update x.ids c (w.nextId :: x.ids c) })
    nextId := w.nextId + 1 }

/-- The loop body of `droid_lkm_ipcns_exit`; `last` says of a namespace that
    no reference is left. -/
def exitEntry (last : ℕ → Bool) (w : World) (n : ℕ) : World :=
  match w.ns n with
  | none => w
  | some x =>
    if n = k.host then
      -- `droid_lkm_ipcns_destroy_ids`
      if x.inUse then w else { w with torn := x :: w.torn }
    else match x.origin with
    | .asked => if last n then w.kernelFreeIpcNs k n x else w
    | .own => if last n && !x.inUse then w.dsFreeIpcNs k n x else w
    | _ => w

/-- `droid_lkm_reset_task_ns_refs`, for one thread -/
def resetTask (o : Option ℕ) : Option ℕ :=
  match o with
  | none => none
  | some n =>
    match w.ns n with
    | none => o
    | some x => if n = k.host ∨ x.origin.created then none else o

/-- `droid_lkm_ipcns_exit`.  All threads are reset here, where the walk visits the leaders of
    thread groups only: who initialises and frees a table does not depend on the others, and
    what becomes of them is in `Unload`. -/
def ipcnsExit (last : ℕ → Bool) : World :=
  (List.range w.next).foldl (exitEntry k last)
    { w with tasks := w.tasks.map (w.resetTask k), exited := true }

end World

inductive Act where
  | load (acctInit acctHost : Bool)
  /-- the kernel makes a namespace for a thread -/
  | kernelCopy (t : ℕ)
  /-- the module does -/
  | create (t : ℕ) (acct rest : Bool)
  | fork (t : ℕ)
  /-- a thread enters a namespace that there is -/
  | enter (t n : ℕ)
  | exitTask (t : ℕ)
  /-- `msgget`, `semget` or `shmget` of a thread -/
  | get (t : ℕ) (c : Cls)
  /-- `IPC_RMID` -/
  | rmid (n : ℕ) (c : Cls) (id : ℕ)
  /-- the last reference is put -/
  | free (n : ℕ)
  | exit (last : ℕ → Bool)

def step (k : Kernel) (w : World) : Act → Option World
  | .load acctInit acctHost => if w.loaded then none else some (w.ipcnsLoad k acctInit acctHost)
  | .kernelCopy t =>
    if !k.ipcNs ∨ !k.wired ∨ w.tasks.length ≤ t then none
    else some (w.enterNew t (k.kernelNew .kernel))
  | .create t acct rest =>
    if !w.loaded ∨ w.exited ∨ w.tasks.length ≤ t then none
    else some (w.ipcnsCreate k t acct rest)
  | .fork t => (w.tasks[t]?).map fun o => { w with tasks := w.tasks ++ [o] }
  | .enter t n =>
    if (w.ns n).isNone ∨ n = initIpcNs ∧ k.host ≠ initIpcNs then none
    else some { w with tasks := w.tasks.set t (some n) }
  | .exitTask t => some { w with tasks := w.tasks.eraseIdx t }
  | .get t c =>
    match w.tasks[t]? with
    | none => none
    | some o =>
      if w.rowsWired k then
        let n := o.getD k.host
        match w.ns n with
        | none => none
        | some x => some { w.newObj n x c with
            made := if x.origin.created then ⟨w.nextId, c, n⟩ :: w.made else w.made }
      else
        match o with
        | none => none
        | some n =>
          match w.ns n with
          | none => none
          | some x => if k.sysv then some (w.newObj n x c) else none
  | .rmid n c id =>
    match w.ns n with
    | none => none
    | some x =>
      if id ∈ x.ids c then
        some { w with
          ns := Function.update w.ns n (some { x with
            ids := Function.update x.ids c ((x.ids c).erase id) })
          released := (id, c) :: w.released }
      else none
  | .free n =>
    if n < w.next ∧ 2 ≤ n ∧ some n ∉ w.tasks then
      match w.ns n with
      | none => none
      | some x =>
        match x.origin with
        | .own => if w.exited then none else some (w.dsFreeIpcNs k n x)
        | _ => some (w.kernelFreeIpcNs k n x)
    else none
  | .exit last => if !w.loaded ∨ w.exited then none else some (w.ipcnsExit k last)

end DroidLkm.Wiring
