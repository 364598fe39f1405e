/-
  The deferred cleanup of tasks — hook, worker and module exit.

  Each step is what is done under one lock, or between two.

  * `Hook`: a task in the hook of `do_exit`, between the mark and the deferred list;
  * `Stage`: what `droid_lkm_task_ipc_deferred_run` has done with the entry that it has
    taken off, in the worker or in `droid_lkm_exit`;
  * `Getter`: a task in `droid_lkm_task_ipc_get`;
  * `Count`: how often each thing was done to an entry.
-/
import Mathlib.Data.List.Nodup
import Mathlib.Logic.Function.Basic
import DroidLkm.Lib.Machine

namespace DroidLkm.Tasks.Drain

/-- Who runs `droid_lkm_task_ipc_deferred_run`: `droid_lkm_zap_fn` or `droid_lkm_exit`. -/
inductive Drainer where
  | worker
  | main
  deriving DecidableEq

inductive Getter where
  | idle
  /-- there is no entry: one is to be allocated -/
  | missed (t : ℕ)
  /-- an entry that is not in the table yet -/
  | fresh (e : ℕ)
  deriving DecidableEq

inductive Hook where
  /-- `defer_queued` is set -/
  | marked (e : ℕ)
  /-- and a reference to the task is taken -/
  | held (e : ℕ)
  deriving DecidableEq

/-- What was last done with an entry that is off the deferred list. -/
inductive Stage where
  | popped
  | undone
  | shmDone
  | unhashed
  | freed
  deriving DecidableEq

/-- Where `droid_lkm_zap_fn` is. -/
inductive WorkerPc where
  /-- at `kthread_should_stop` -/
  | test
  | waiting
  | zapping
  | draining
  /-- at `droid_lkm_keepalive_sync` -/
  | keepalive
  | ended
  deriving DecidableEq

/-- Where `droid_lkm_exit` is. -/
inductive ModPc where
  | running
  | draining
  | drained
  /-- the kprobe is unregistered -/
  | unhooked
  /-- the worker is told to stop -/
  | stopping
  /-- the worker has ended -/
  | joined
  | finished
  deriving DecidableEq

/-- How often an entry has had its undo list and its segments seen to, was taken out of the
    table and freed, and how many references to its task were taken for it and dropped. -/
structure Count where
  undo : ℕ
  shm : ℕ
  hashDel : ℕ
  free : ℕ
  get : ℕ
  put : ℕ
  deriving DecidableEq

structure St where
  /-- the entries in `droid_lkm_task_ipc_ht` -/
  ht : List ℕ
  task : ℕ → ℕ
  deferQueued : ℕ → Bool
  next : ℕ
  /-- `droid_lkm_deferred_list` -/
  deferred : List ℕ
  getter : ℕ → Getter
  hooks : List Hook
  drain : Drainer → Option (Stage × ℕ)
  worker : WorkerPc
  mod : ModPc
  count : ℕ → Count
  /-- `zap_queued` of the entries of pid namespaces, and `droid_lkm_zap_list` -/
  zapQueued : ℕ → Bool
  zapList : List ℕ
  /-- how often each was put on it and taken off -/
  zapPut : ℕ → ℕ
  zapTaken : ℕ → ℕ

namespace St

def init : St := ⟨[], fun _ => 0, fun _ => false, 0, [], fun _ => .idle, [], fun _ => none, .test,
  .running, fun _ => ⟨0, 0, 0, 0, 0, 0⟩, fun _ => false, [], fun _ => 0, fun _ => 0⟩

/-- `droid_lkm_task_ipc_find_locked` -/
def findLocked (s : St) (t : ℕ) : Option ℕ := s.ht.find? (s.task · == t)

def setGetter (s : St) (c : ℕ) (x : Getter) : St :=
  { s with getter := Function.update s.getter c x }

def setDrain (s : St) (d : Drainer) (x : Option (Stage × ℕ)) : St :=
  { s with drain := Function.update s.drain d x }

def setCount (s : St) (e : ℕ) (f : Count → Count) : St :=
  { s with count := Function.update s.count e (f (s.count e)) }

/-- The kprobe is registered. -/
def hooked (s : St) : Bool := s.mod = .running || s.mod = .draining || s.mod = .drained

/-- The drainer is in its loop. -/
def inLoop (s : St) : Drainer → Bool
  | .worker => s.worker = .draining
  | .main => s.mod = .draining

/-- The deferred list was empty. -/
def leaveLoop (s : St) : Drainer → St
  | .worker => { s with worker := .keepalive }
  | .main => { s with mod := .drained }

/-- One step of `droid_lkm_task_ipc_deferred_run`. -/
def deferredRun (s : St) (d : Drainer) : St :=
  match s.drain d with
  | none =>
    match s.deferred with
    | [] => s.leaveLoop d
    | e :: rest => { s with deferred := rest }.setDrain d (some (.popped, e))
  | some (.popped, e) =>
    -- `droid_lkm_exit_sem_ns` finds its entry by the task
    let s := s.setDrain d (some (.undone, e))
    match s.findLocked (s.task e) with
    | none => s
    | some e' => s.setCount e' fun n => { n with undo := n.undo + 1 }
  | some (.undone, e) =>
    let s := s.setDrain d (some (.shmDone, e))
    match s.findLocked (s.task e) with
    | none => s
    | some e' => s.setCount e' fun n => { n with shm := n.shm + 1 }
  | some (.shmDone, e) =>
    { s.setDrain d (some (.unhashed, e)) with ht := s.ht.erase e }.setCount e
      fun n => { n with hashDel := n.hashDel + 1 }
  | some (.unhashed, e) =>
    (s.setDrain d (some (.freed, e))).setCount e fun n => { n with free := n.free + 1 }
  | some (.freed, e) => (s.setDrain d none).setCount e fun n => { n with put := n.put + 1 }

/-- A step of `droid_lkm_zap_fn` outside its drain. -/
def zapFn (s : St) : Option St :=
  match s.worker with
  | .test => some { s with worker := if s.mod = .stopping then .ended else .waiting }
  | .waiting => some { s with worker := .zapping }
  | .zapping =>
    match s.zapList with
    | [] => some { s with worker := .draining }
    | p :: rest => some { s with
        zapList := rest
        zapTaken := Function.update s.zapTaken p (s.zapTaken p + 1) }
  | .keepalive => some { s with worker := .test }
  | .draining | .ended => none

/-- `droid_lkm_pidns_queue_zap` -/
def queueZap (s : St) (p : ℕ) : St :=
  if s.zapQueued p then s
  else { s with
    zapQueued := Function.update s.zapQueued p true
    zapList := s.zapList ++ [p]
    zapPut := Function.update s.zapPut p (s.zapPut p + 1) }

/-- The next step of `droid_lkm_exit`. -/
def exitMod (s : St) : Option St :=
  match s.mod with
  | .running => some { s with mod := .draining }
  | .draining | .finished => none
  -- `unregister_kprobe` waits for the hooks that are running
  | .drained => if s.hooks = [] then some { s with mod := .unhooked } else none
  | .unhooked => some { s with mod := .stopping }
  | .stopping => if s.worker = .ended then some { s with mod := .joined } else none
  | .joined => some { s with mod := .finished, zapList := [] }

end St

inductive Act where
  /-- the call `c` of `droid_lkm_task_ipc_get` searches for the entry of `t`, -/
  | find (c t : ℕ)
  /-- allocates one, -/
  | alloc (c : ℕ) (noMem : Bool)
  /-- and searches again before it puts it in the table -/
  | add (c : ℕ)
  /-- `droid_lkm_task_ipc_exit_defer` in the hook, up to the mark -/
  | exit (t : ℕ)
  | hookGet (e : ℕ)
  | hookAdd (e : ℕ)
  /-- `droid_lkm_pidns_queue_zap` in the hook -/
  | queueZap (p : ℕ)
  | deferredRun (d : Drainer)
  | zapFn
  | exitMod
  deriving DecidableEq

open St in
def step (s : St) : Act → Option St
  | .find c t =>
    if s.getter c = .idle then
      match s.findLocked t with
      | some _ => some s
      | none => some (s.setGetter c (.missed t))
    else none
  | .alloc c noMem =>
    match s.getter c with
    | .missed t =>
      if noMem then some (s.setGetter c .idle)
      else some { s.setGetter c (.fresh s.next) with
        next := s.next + 1
        task := Function.update s.task s.next t
        deferQueued := Function.update s.deferQueued s.next false }
    | _ => none
  | .add c =>
    match s.getter c with
    | .fresh e =>
      let s := s.setGetter c .idle
      match s.findLocked (s.task e) with
      | some _ => some (s.setCount e fun n => { n with free := n.free + 1 })
      | none => some { s with ht := e :: s.ht }
    | _ => none
  | .exit t =>
    if s.hooked then
      match s.findLocked t with
      | none => some s
      | some e =>
        if s.deferQueued e then some s
        else some { s with
          deferQueued := Function.update s.deferQueued e true
          hooks := .marked e :: s.hooks }
    else none
  | .hookGet e =>
    if .marked e ∈ s.hooks then
      some ({ s with hooks := .held e :: s.hooks.erase (.marked e) }.setCount e
        fun n => { n with get := n.get + 1 })
    else none
  | .hookAdd e =>
    if .held e ∈ s.hooks then
      some { s with hooks := s.hooks.erase (.held e), deferred := s.deferred ++ [e] }
    else none
  | .queueZap p => if s.hooked then some (s.queueZap p) else none
  | .deferredRun d => if s.inLoop d then some (s.deferredRun d) else none
  | .zapFn => s.zapFn
  | .exitMod => s.exitMod

/-! ## What is asked -/

/-- Every entry that was queued is cleaned up, once. -/
structure Once (s : St) : Prop where
  /-- nothing is done twice, -/
  atMost : ∀ e, (s.count e).undo ≤ 1 ∧ (s.count e).shm ≤ 1 ∧ (s.count e).hashDel ≤ 1 ∧
    (s.count e).free ≤ 1 ∧ (s.count e).get ≤ 1 ∧ (s.count e).put ≤ 1
  /-- and when the module is gone all is done -/
  finished : s.mod = .finished → s.deferred = [] ∧ ∀ e, s.deferQueued e = true →
    s.count e = ⟨1, 1, 1, 1, 1, 1⟩ ∧ e ∉ s.ht
  /-- the entry of a pid namespace is zapped once at most -/
  zap : ∀ p, s.zapTaken p ≤ s.zapPut p ∧ s.zapPut p ≤ 1

/-- When the worker is told to stop it is not between its drain and its test, with an entry
    on the deferred list. -/
def LastDrain (s : St) : Act → Prop
  | .exitMod => s.mod = .unhooked → s.worker = .keepalive ∨ s.worker = .test → s.deferred = []
  | _ => True

end DroidLkm.Tasks.Drain
