/-
  Undo lists — tasks, ipc namespaces and the entries between them.

  A task has one undo list and moves between namespaces; the entries of the list are also on
  the arrays for which they were made (`ipc_sem.c`).  A step is what is done under one lock,
  or one read without it.

  * `SemUndo`, `World`: the entries, the lists, the tables of the namespaces;
  * `Pc`: where a task is in `__do_semtimedop`, in `unshare` or in
    `droid_lkm_exit_sem_impl`, the last in `Stage`;
  * `script`: what `droid_lkm_sys_unshare` does to the undo list and the namespace;
  * `World.run`: the next step of a task that is in a call; `step`: the machine.

  Lists are not shared: `CLONE_SYSVSEM` is not among the steps.  A namespace that is freed
  has its arrays removed, as by `IPC_RMID`, and nobody in it.
-/
import DroidLkm.Ids.Aliasing
import DroidLkm.Sem.Perform
import DroidLkm.Slot.Unshare

namespace DroidLkm.Sem.Undo

open Ids Slot

/-- `struct sem_undo`.  `arr` is the array for which `find_alloc_undo` made it, by its
    namespace and its name there, and `size` the length of `semadj`; `linked` says that it
    is on the `list_id` of that array, and `freed` counts the calls of `kvfree_rcu`. -/
structure SemUndo where
  ulp : ℕ
  semid : ℤ
  arr : ℕ × ℕ
  size : ℕ
  linked : Bool
  freed : ℕ
  deriving DecidableEq

/-- What `unshare` does that matters here. -/
inductive Event where
  /-- `droid_lkm_exit_sem(current)` -/
  | exitSem
  /-- the task is given a new ipc namespace -/
  | newIpcns
  deriving DecidableEq

/-- What surrounds one `unshare`: the caller's standing, and errors, 0 for none. -/
structure Env where
  /-- `droid_lkm_gate_allow()` -/
  gate : Bool
  /-- `ns_capable(current_user_ns(), CAP_SYS_ADMIN)` -/
  capable : Bool
  /-- the pid namespace of the children is not the task's own -/
  nested : Bool
  /-- `check_unshare_flags`, 0 where it was not found -/
  check : ℤ
  /-- `droid_lkm_orig_unshare` -/
  orig : ℤ
  ipcns : ℤ
  pidns : ℤ
  deriving DecidableEq

/-- Where `droid_lkm_exit_sem_impl` is in its loop. -/
inductive Stage where
  | head
  /-- `un` was read off the list, -/
  | seen (un : ℕ)
  /-- its `semid` under the lock of the list, -/
  | read (semid : ℤ)
  /-- and an array was found under it -/
  | obtained (semid : ℤ) (sma : ℕ)
  /-- `un` is off both lists, and to be freed -/
  | unlinked (un : ℕ)
  deriving DecidableEq

/-- What comes after the loop. -/
inductive Next where
  | unshare (rest : List Event)
  | dead
  deriving DecidableEq

/-- Where a task is. -/
inductive Pc where
  | user
  /-- in `find_alloc_undo`: there is no entry on the list -/
  | missed (semid : ℤ) (sops : List Sembuf) (ulp : ℕ)
  /-- the array is referenced, and an entry to be made for it -/
  | sized (semid : ℤ) (sops : List Sembuf) (ulp sma : ℕ)
  /-- in `__do_semtimedop` after `find_alloc_undo` -/
  | found (semid : ℤ) (sops : List Sembuf) (un : Option ℕ)
  /-- before `sem_lock` -/
  | looked (sops : List Sembuf) (un : Option ℕ) (sma : ℕ)
  | asleep (arr : ℕ × ℕ) (sops : List Sembuf) (un : Option ℕ)
  /-- in `unshare`; `flushed` says that the undo list was given up in it -/
  | unshare (flushed : Bool) (events : List Event)
  /-- `droid_lkm_task_ipc_exit_defer` has recorded the namespace -/
  | exited (ns : ℕ)
  /-- in `droid_lkm_exit_sem_impl` -/
  | loop (ns ulp : ℕ) (stage : Stage) (next : Next)
  | dead
  deriving DecidableEq

def Next.pc : Next → Pc
  | .unshare rest => .unshare true rest
  | .dead => .dead

structure Config where
  limits : Limits
  cnnHooked : Bool
  noFakeNs : Bool

/-- Namespaces, entries and lists are named by numbers that are not used again; `next…` are
    the next ones.  The table of a namespace that has not been made is as `ds_sem_init_ns`
    will leave it. -/
structure World where
  cfg : Config
  ids : ℕ → IpcIds
  /-- `sem_nsems` of an array of a namespace -/
  nsems : ℕ → ℕ → ℕ
  /-- the array of a namespace that `freeary` is at, with its lock -/
  removing : ℕ → Option ℕ
  nextNs : ℕ
  undo : ℕ → SemUndo
  nextUndo : ℕ
  /-- `ulp->list_proc` -/
  list : ℕ → List ℕ
  /-- the task that has made a list; a record for the proofs -/
  owner : ℕ → ℕ
  nextUlp : ℕ
  /-- `droid_lkm_task_undo_list` -/
  undoList : ℕ → Option ℕ
  /-- `droid_lkm_ipcns_task_ns` -/
  ns : ℕ → ℕ
  pc : ℕ → Pc

inductive Act where
  | semget (t : ℕ) (a : IpcIds.GetArgs) (nsems : ℕ)
  /-- `IPC_RMID` by whoever may, as far as the lock of the array -/
  | rmid (ns sma : ℕ)
  /-- `freeary`: one entry -/
  | rmidUndo (ns un : ℕ)
  /-- and the rest of it -/
  | rmidEnd (ns : ℕ)
  /-- `semop` or `semtimedop`; there may be no memory for a list, or for the entry of the
      task that would keep it -/
  | semop (t : ℕ) (semid : ℤ) (sops : List Sembuf) (noMem noEntry : Bool)
  /-- `setns` with `CLONE_NEWIPC` that succeeds -/
  | setns (t ns : ℕ)
  | unshare (t : ℕ) (flags : Flags) (e : Env)
  /-- the 32 bit `unshare`, which the module does not serve -/
  | unshare32 (t : ℕ) (flags : Flags) (e : Env)
  /-- the hook in `do_exit` -/
  | exit (t : ℕ)
  /-- the next step of the call that a task is in, or of the worker on its behalf; `o` says
      that memory or permission is missing, or that the task has to sleep -/
  | run (t : ℕ) (o : Bool)
  deriving DecidableEq

/-! ## `unshare` -/

/-- `droid_lkm_orig_unshare`: a new namespace is made if it succeeds. -/
def origUnshare (e : Env) (s : List Event) (flags : Flags) : List Event × ℤ :=
  if e.orig ≠ 0 then (s, e.orig)
  else (if has flags CLONE_NEWIPC then s ++ [.newIpcns] else s, 0)

/-- `droid_lkm_unshare_precheck` -/
def unsharePrecheck (e : Env) (flags : Flags) : Bool :=
  if e.check ≠ 0 then false
  else if has flags NS_ALL && !e.capable then false
  else !(has flags CLONE_NEWPID && e.nested)

def unshareOps (cfg : Config) (e : Env) : UnshareOps (List Event) where
  gateAllow := e.gate
  noFakeNs := cfg.noFakeNs
  cnnHooked := cfg.cnnHooked
  unsharePrecheck := fun _ => unsharePrecheck e
  origUnshare := origUnshare e
  exitSem := fun s => s ++ [.exitSem]
  exitShm := id
  slotInstallIpcns := fun s => if e.ipcns ≠ 0 then (s, e.ipcns) else (s ++ [.newIpcns], 0)
  slotInstallPidns := fun s => (s, e.pidns)
  keepalivePin := id

/-- What an `unshare` does, in order. -/
def script (cfg : Config) (e : Env) (flags : Flags) : List Event :=
  (sysUnshare (unshareOps cfg e) [] flags).1

namespace World

variable (w : World) (t : ℕ)

def setPc (x : Pc) : World := { w with pc := Function.update w.pc t x }

def perm (n sma : ℕ) : Perm := (w.ids n).perm sma

/-- `sem_obtain_object_check` -/
def semObtainObjectCheck (n : ℕ) (semid : ℤ) : Except ℤ ℕ :=
  (w.ids n).ipcObtainObjectCheck w.cfg.limits semid

/-! ## Lists -/

/-- `__lookup_undo` -/
def lookup (ulp : ℕ) (semid : ℤ) : Option ℕ :=
  (w.list ulp).find? fun un => (w.undo un).semid == semid

def setList (ulp : ℕ) (l : List ℕ) : World := { w with list := Function.update w.list ulp l }

def setUndo (un : ℕ) (x : SemUndo) : World := { w with undo := Function.update w.undo un x }

/-- The end of `lookup_undo`: what was found is moved to the front. -/
def toFront (ulp un : ℕ) : World := w.setList ulp (un :: (w.list ulp).erase un)

/-- `get_undo_list`, with the list. -/
def getUndoList (noMem noEntry : Bool) : Option (World × ℕ) :=
  match w.undoList t with
  | some ulp => some (w, ulp)
  | none =>
    if noMem then none
    else
      let ulp := w.nextUlp
      some ({ w.setList ulp [] with
        owner := Function.update w.owner ulp t
        nextUlp := ulp + 1
        undoList := Function.update w.undoList t (if noEntry then none else some ulp) }, ulp)

/-- Step 5 of `find_alloc_undo`. -/
def linkUndo (n ulp sma : ℕ) (semid : ℤ) : World :=
  let un := w.nextUndo
  { (w.setUndo un ⟨ulp, semid, (n, sma), w.nsems n sma, true, 0⟩).setList ulp
      (un :: w.list ulp) with nextUndo := un + 1 }

/-! ## `__do_semtimedop` -/

/-- As far as the first look at the list; the limit on the number of operations is not
    checked. -/
def semop (semid : ℤ) (sops : List Sembuf) (noMem noEntry : Bool) : World :=
  if sops = [] ∨ semid < 0 then w
  else if !(scanSops sops).undos then w.setPc t (.found semid sops none)
  else match w.getUndoList t noMem noEntry with
    | none => w
    | some (w, ulp) =>
      match w.lookup ulp semid with
      | some un => (w.toFront ulp un).setPc t (.found semid sops (some un))
      | none => w.setPc t (.missed semid sops ulp)

/-- Steps 2 to 5 of `find_alloc_undo`. -/
def allocUndo (semid : ℤ) (sops : List Sembuf) (ulp sma : ℕ) (noMem : Bool) : Option World :=
  let n := w.ns t
  if noMem then some (w.setPc t .user)
  else if w.removing n = some sma then none
  else if (w.perm n sma).deleted then some (w.setPc t .user)
  else match w.lookup ulp semid with
    | some un => some ((w.toFront ulp un).setPc t (.found semid sops (some un)))
    | none =>
      some ((w.linkUndo n ulp sma semid).setPc t (.found semid sops (some w.nextUndo)))

/-- `un && un->semid == -1` -/
def stale : Option ℕ → Bool
  | none => false
  | some un => (w.undo un).semid == -1

/-- The part under `sem_lock`: the operation is done or given up, or the task sleeps. -/
def perform (sops : List Sembuf) (un : Option ℕ) (sma : ℕ) (sleeps : Bool) : Option World :=
  let n := w.ns t
  if w.removing n = some sma then none
  else if (w.perm n sma).deleted || w.stale un || !sleeps then some (w.setPc t .user)
  else some (w.setPc t (.asleep (n, sma) sops un))

/-! ## `droid_lkm_exit_sem_impl` -/

/-- Up to the loop, in the namespace `n`. -/
def exitSem (n : ℕ) (next : Next) : World :=
  match w.undoList t with
  | none => w.setPc t next.pc
  | some ulp =>
    { w with undoList := Function.update w.undoList t none }.setPc t (.loop n ulp .head next)

/-- The part under `sem_lock`. -/
def unlinkUndo (ulp un : ℕ) : World :=
  (w.setUndo un { w.undo un with linked := false }).setList ulp ((w.list ulp).erase un)

def freeUndo (un : ℕ) : World :=
  w.setUndo un { w.undo un with freed := (w.undo un).freed + 1 }

/-- The loop, one step. -/
def loopStep (n ulp : ℕ) (stage : Stage) (next : Next) : Option World :=
  let goto (w : World) (stage : Stage) : Option World := some (w.setPc t (.loop n ulp stage next))
  match stage with
  | .head =>
    match w.list ulp with
    | [] => some (w.setPc t next.pc)
    | un :: _ => goto w (.seen un)
  | .seen un =>
    if (w.undo un).semid = -1 then goto w .head else goto w (.read (w.undo un).semid)
  | .read semid =>
    match w.semObtainObjectCheck n semid with
    | .error _ => goto w .head
    | .ok sma => goto w (.obtained semid sma)
  | .obtained semid sma =>
    if w.removing n = some sma then none
    else if (w.perm n sma).deleted then goto w .head
    else match w.lookup ulp semid with
      | none => goto w .head
      | some un => goto (w.unlinkUndo ulp un) (.unlinked un)
  | .unlinked un => goto (w.freeUndo un) .head

/-! ## The machine -/

/-- The next step of a call. -/
def run (o : Bool) : Option World :=
  match w.pc t with
  | .missed semid sops ulp =>
    match w.semObtainObjectCheck (w.ns t) semid with
    | .error _ => some (w.setPc t .user)
    | .ok sma => some (w.setPc t (.sized semid sops ulp sma))
  | .sized semid sops ulp sma => w.allocUndo t semid sops ulp sma o
  | .found semid sops un =>
    match w.semObtainObjectCheck (w.ns t) semid with
    | .error _ => some (w.setPc t .user)
    | .ok sma =>
      if w.nsems (w.ns t) sma ≤ (scanSops sops).max || o then some (w.setPc t .user)
      else some (w.setPc t (.looked sops un sma))
  | .looked sops un sma => w.perform t sops un sma o
  | .asleep _ _ _ => some (w.setPc t .user)
  | .unshare _ [] => some (w.setPc t .user)
  | .unshare _ (.exitSem :: rest) => some (w.exitSem t (w.ns t) (.unshare rest))
  | .unshare flushed (.newIpcns :: rest) =>
    some ({ w with
      ns := Function.update w.ns t w.nextNs
      nextNs := w.nextNs + 1 }.setPc t (.unshare flushed rest))
  | .exited n => some (w.exitSem t n .dead)
  | .loop n ulp stage next => w.loopStep t n ulp stage next
  | .user | .dead => none

/-- `freeary`: an entry is taken off both lists and freed. -/
def rmidUndo (un : ℕ) : World :=
  let x := w.undo un
  (w.setUndo un { x with semid := -1, linked := false, freed := x.freed + 1 }).setList x.ulp
    ((w.list x.ulp).erase un)

/-- The sleepers on an array return with an error. -/
def wakeAll (arr : ℕ × ℕ) : Pc → Pc
  | .asleep a sops un => if a = arr then .user else .asleep a sops un
  | x => x

/-- The end of `freeary`. -/
def rmidEnd (n sma : ℕ) : World :=
  { w with
    ids := Function.update w.ids n ((w.ids n).ipcRmid w.cfg.limits sma)
    removing := Function.update w.removing n none
    pc := fun t => wakeAll (n, sma) (w.pc t) }

/-- `ksys_semget` in a namespace. -/
def semget (n : ℕ) (a : IpcIds.GetArgs) (nsems : ℕ) : World :=
  { w with
    ids := Function.update w.ids n ((w.ids n).ipcget w.cfg.limits a).1
    nsems := Function.update w.nsems n
      (Function.update (w.nsems n) (w.ids n).fresh nsems) }

/-- An entry of the array is on its `list_id`. -/
def linkedTo (arr : ℕ × ℕ) (un : ℕ) : Bool := (w.undo un).linked && (w.undo un).arr == arr

end World

open World in
def step (w : World) : Act → Option World
  | .semget t a nsems =>
    if w.pc t = .user ∧ w.removing (w.ns t) = none then some (w.semget (w.ns t) a nsems) else none
  | .rmid n sma =>
    if w.removing n = none ∧ (w.ids n).live sma = true then
      some { w with removing := Function.update w.removing n (some sma) }
    else none
  | .rmidUndo n un =>
    match w.removing n with
    | none => none
    | some sma =>
      if un < w.nextUndo ∧ w.linkedTo (n, sma) un = true then some (w.rmidUndo un) else none
  | .rmidEnd n =>
    match w.removing n with
    | none => none
    | some sma =>
      if ∀ un < w.nextUndo, w.linkedTo (n, sma) un = false then some (w.rmidEnd n sma) else none
  | .semop t semid sops noMem noEntry =>
    if w.pc t = .user then some (w.semop t semid sops noMem noEntry) else none
  | .setns t n =>
    if w.pc t = .user ∧ n < w.nextNs then some { w with ns := Function.update w.ns t n } else none
  | .unshare t flags e =>
    if w.pc t = .user then some (w.setPc t (.unshare false (script w.cfg e flags))) else none
  | .unshare32 t flags e =>
    if w.pc t = .user then some (w.setPc t (.unshare false (origUnshare e [] flags).1)) else none
  | .exit t => if w.pc t = .user then some (w.setPc t (.exited (w.ns t))) else none
  | .run t o => w.run t o

/-- Tasks in the namespace of the host, without arrays. -/
def init (cfg : Config) : World where
  cfg := cfg
  ids := fun _ => IpcIds.init
  nsems := fun _ _ => 0
  removing := fun _ => none
  nextNs := 1
  undo := fun _ => ⟨0, -1, (0, 0), 0, false, 0⟩
  nextUndo := 0
  list := fun _ => []
  owner := fun _ => 0
  nextUlp := 0
  undoList := fun _ => none
  ns := fun _ => 0
  pc := fun _ => .user

end DroidLkm.Sem.Undo
