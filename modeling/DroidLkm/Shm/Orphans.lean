/-
  SysV shared memory — segments without a creator, and `shm_rmid_forced`.

  The steps are what `ipc_shm.c` does under one lock; `shm_rmid_forced` is under
  none, so that a write of it is a step of its own.  The namespaces live.

  * `Sem`: who holds an `rwsem` for writing, and what it is about to do;
  * `ExitPc`: where `exit_shm` is in its loop; it holds the lock of its task
    between its test of `shm_rmid_forced` and the unlinking;
  * `step`: one section, `St.init` nothing yet;
  * `Tended`: what is asked of every state.
-/
import Mathlib.Data.List.Nodup
import Mathlib.Logic.Function.Basic
import DroidLkm.Lib.Machine

namespace DroidLkm.Shm

/-- `struct shmid_kernel`; `dest` is `SHM_DEST`.  It has a creator as long as it
    is on that task's list. -/
structure Seg where
  ns : ℕ
  nattch : ℕ
  dest : Bool
  creator : ℕ
  deriving DecidableEq

/-- Where a task is in `exit_shm`. -/
inductive ExitPc where
  | idle
  /-- at the head of the loop -/
  | looping
  /-- `shm_rmid_forced` of `n` has been read, the task's lock is held -/
  | tested (id n : ℕ) (forced : Bool)
  /-- the segment is off the list, to be looked at under the `rwsem` of `n` -/
  | unlinked (id n : ℕ)
  | done
  deriving DecidableEq

/-- Where a task is in the handler of `shm_rmid_forced`. -/
inductive WritePc where
  | idle
  /-- the value is stored -/
  | stored (n : ℕ)
  /-- the value is not zero: the `rwsem` of `n` is to be taken -/
  | wants (n : ℕ)
  deriving DecidableEq

/-- An `rwsem`, and what its writer is about. -/
inductive Sem where
  | free
  /-- `shm_destroy_orphaned`, with these segments to come -/
  | sweep (rest : List ℕ)
  /-- `shm_may_destroy` said yes: with the lock of the segment held, or in a sweep that
      has these to come -/
  | doom (id : ℕ) (rest : Option (List ℕ))
  deriving DecidableEq

/-- The writer is going to look at the segment. -/
def Sem.Covers : Sem → ℕ → Prop
  | .free, _ => False
  | .sweep rest, id => id ∈ rest
  | .doom id' rest, id => id' = id ∨ ∃ r, rest = some r ∧ id ∈ r

structure St where
  /-- the segments in the id tables -/
  seg : ℕ → Option Seg
  next : ℕ
  /-- `shm_clist` of each task -/
  clist : ℕ → List ℕ
  /-- `shm_rmid_forced` of each namespace -/
  forced : ℕ → Bool
  exit : ℕ → ExitPc
  write : ℕ → WritePc
  sem : ℕ → Sem

namespace St

def init : St := ⟨fun _ => none, 0, fun _ => [], fun _ => false, fun _ => .idle, fun _ => .idle,
  fun _ => .free⟩

/-- `!list_empty(&shp->shm_clist)` -/
def linked (s : St) (id : ℕ) (sg : Seg) : Bool := id ∈ s.clist sg.creator

/-- `shm_may_destroy` -/
def shmMayDestroy (s : St) (sg : Seg) : Bool := sg.nattch == 0 && (s.forced sg.ns || sg.dest)

/-- `shm_destroy`, with `shm_clist_rm`. -/
def shmDestroy (s : St) (id : ℕ) (sg : Seg) : St :=
  { s with
    seg := Function.update s.seg id none
    clist := Function.update s.clist sg.creator ((s.clist sg.creator).erase id) }

def setSeg (s : St) (id : ℕ) (sg : Seg) : St := { s with seg := Function.update s.seg id (some sg) }

def setSem (s : St) (n : ℕ) (x : Sem) : St := { s with sem := Function.update s.sem n x }

def setExit (s : St) (t : ℕ) (pc : ExitPc) : St := { s with exit := Function.update s.exit t pc }

def setWrite (s : St) (w : ℕ) (pc : WritePc) : St := { s with write := Function.update s.write w pc }

theorem setSeg_seg (s : St) (id i : ℕ) (sg : Seg) :
    (s.setSeg id sg).seg i = if i = id then some sg else s.seg i := Function.update_apply ..

theorem setSem_sem (s : St) (n m : ℕ) (x : Sem) :
    (s.setSem n x).sem m = if m = n then x else s.sem m := Function.update_apply ..

theorem setExit_exit (s : St) (t u : ℕ) (pc : ExitPc) :
    (s.setExit t pc).exit u = if u = t then pc else s.exit u := Function.update_apply ..

theorem setWrite_write (s : St) (w v : ℕ) (pc : WritePc) :
    (s.setWrite w pc).write v = if v = w then pc else s.write v := Function.update_apply ..

/-- The lock of the task is held by its own `exit_shm`. -/
def taskLocked (s : St) (t : ℕ) : Bool :=
  match s.exit t with
  | .tested .. => true
  | _ => false

/-- What the id table of a namespace holds. -/
def segOf (s : St) (n id : ℕ) : Option Seg := (s.seg id).filter (·.ns = n)

/-- The ids that `idr_for_each` goes through. -/
def idsOf (s : St) (n : ℕ) : List ℕ := (List.range s.next).filter fun id => (s.segOf n id).isSome

end St

inductive Act where
  /-- `newseg` -/
  | shmget (t n : ℕ)
  /-- `shm_nattch++`, by `do_shmat` or `__shm_open` -/
  | attach (id : ℕ)
  /-- `__shm_close`, or the end of `do_shmat` -/
  | detach (id : ℕ)
  /-- `do_shm_rmid` -/
  | rmid (id : ℕ)
  | exit (t : ℕ)
  | exitTest (t : ℕ)
  | exitUnlink (t : ℕ)
  | exitLock (t : ℕ)
  /-- `proc_dointvec_minmax`, for a write of a value or for a read -/
  | store (w n : ℕ) (value : Option Bool)
  | writeTest (w : ℕ)
  | sweepStart (w : ℕ)
  /-- `shm_try_destroy_orphaned` of the next segment -/
  | visit (n : ℕ)
  | destroy (n : ℕ)
  deriving DecidableEq

open St in
def step (s : St) : Act → Option St
  | .shmget t n =>
    if s.exit t = .idle ∧ s.sem n = .free then
      some { s with
        seg := Function.update s.seg s.next (some ⟨n, 0, false, t⟩)
        next := s.next + 1
        clist := Function.update s.clist t (s.next :: s.clist t) }
    else none
  | .attach id =>
    match s.seg id with
    | none => none
    | some sg =>
      match s.sem sg.ns with
      | .doom id' none =>
        if id' = id then none else some (s.setSeg id { sg with nattch := sg.nattch + 1 })
      | _ => some (s.setSeg id { sg with nattch := sg.nattch + 1 })
  | .detach id =>
    match s.seg id with
    | none => none
    | some sg =>
      if s.sem sg.ns = .free ∧ 0 < sg.nattch then
        let sg' := { sg with nattch := sg.nattch - 1 }
        if s.shmMayDestroy sg' then some ((s.setSeg id sg').setSem sg.ns (.doom id none))
        else some (s.setSeg id sg')
      else none
  | .rmid id =>
    match s.seg id with
    | none => none
    | some sg =>
      if s.sem sg.ns = .free then
        if sg.nattch ≠ 0 then some (s.setSeg id { sg with dest := true })
        else some (s.setSem sg.ns (.doom id none))
      else none
  | .exit t => if s.exit t = .idle then some (s.setExit t .looping) else none
  | .exitTest t =>
    if s.exit t = .looping then
      match s.clist t with
      | [] => some (s.setExit t .done)
      | id :: _ => (s.seg id).map fun sg => s.setExit t (.tested id sg.ns (s.forced sg.ns))
    else none
  | .exitUnlink t =>
    match s.exit t with
    | .tested id n forced =>
      some ({ s with clist := Function.update s.clist t ((s.clist t).erase id) }.setExit t
        (if forced then .unlinked id n else .looping))
    | _ => none
  | .exitLock t =>
    match s.exit t with
    | .unlinked id n =>
      if s.sem n = .free then
        match s.seg id with
        | none => some (s.setExit t .looping)
        | some sg =>
          if s.shmMayDestroy sg then some ((s.shmDestroy id sg).setExit t .looping)
          else some (s.setExit t .looping)
      else none
    | _ => none
  | .store w n value =>
    if s.write w = .idle then
      some ({ s with forced := Function.update s.forced n (value.getD (s.forced n)) }.setWrite w
        (.stored n))
    else none
  | .writeTest w =>
    match s.write w with
    | .stored n => some (s.setWrite w (if s.forced n then .wants n else .idle))
    | _ => none
  | .sweepStart w =>
    match s.write w with
    | .wants n =>
      if s.sem n = .free then some ((s.setSem n (.sweep (s.idsOf n))).setWrite w .idle) else none
    | _ => none
  | .visit n =>
    match s.sem n with
    | .sweep [] => some (s.setSem n .free)
    | .sweep (id :: rest) =>
      match s.segOf n id with
      | none => some (s.setSem n (.sweep rest))
      | some sg =>
        if !s.linked id sg && s.shmMayDestroy sg then some (s.setSem n (.doom id (some rest)))
        else some (s.setSem n (.sweep rest))
    | _ => none
  | .destroy n =>
    match s.sem n with
    | .doom id rest =>
      match s.seg id with
      | none => none
      | some sg =>
        -- `shm_clist_rm` takes the lock of the creator
        if s.linked id sg && s.taskLocked sg.creator then none
        else some ((s.shmDestroy id sg).setSem n (rest.elim .free .sweep))
    | _ => none

/-! ## What is asked -/

/-- An operation that has not ended yet is going to look at the segment. -/
def InHand (s : St) (id n : ℕ) : Prop :=
  (∃ t, s.exit t = .unlinked id n) ∨ (∃ w, s.write w = .stored n ∨ s.write w = .wants n) ∨
    (s.sem n).Covers id

/-- The steps of the `exit_shm` of `t`. -/
def Act.ofExit (t : ℕ) (a : Act) : Prop := a = .exitTest t ∨ a = .exitUnlink t ∨ a = .exitLock t

/-- What is left of an `exit_shm`. -/
def exitFuel (s : St) (t : ℕ) : ℕ :=
  match s.exit t with
  | .idle | .done => 0
  | .looping => 3 * (s.clist t).length + 1
  | .tested .. => 3 * (s.clist t).length
  | .unlinked .. => 3 * (s.clist t).length + 2

/-- What is asked of a state. -/
structure Tended (s : St) : Prop where
  /-- what a sweep destroys has no attachment and no creator -/
  swept : ∀ n id rest, s.sem n = .doom id (some rest) →
    ∃ sg, s.seg id = some sg ∧ sg.ns = n ∧ sg.nattch = 0 ∧ s.linked id sg = false
  /-- where `shm_rmid_forced` is set, what has none is being seen to -/
  kept : ∀ id sg, s.seg id = some sg → sg.nattch = 0 → s.linked id sg = false →
    s.forced sg.ns = true → InHand s id sg.ns
  /-- when `exit_shm` ends its list is empty -/
  ended : ∀ t, s.exit t = .done → s.clist t = []
  /-- what it has taken off has no creator, and is destroyed if unattached and forced -/
  looked : ∀ t id n sg, s.exit t = .unlinked id n → s.seg id = some sg →
    sg.ns = n ∧ s.linked id sg = false ∧
      (s.sem n = .free → (s.shmMayDestroy sg = true ↔ sg.nattch = 0 ∧ s.forced n = true))
  /-- it has ever less to do, -/
  shrinks : ∀ a s' t, step s a = some s' → s.exit t ≠ .idle →
    exitFuel s' t ≤ exitFuel s t ∧ (a.ofExit t → exitFuel s' t < exitFuel s t)
  /-- and waits for nobody but the holder of an `rwsem`, who waits for nobody but an
      `exit_shm` that holds its task's lock -/
  moves : ∀ t, s.exit t ≠ .idle → s.exit t ≠ .done → ∃ a, (step s a).isSome ∧
    (a.ofExit t ∨ ∃ id n, s.exit t = .unlinked id n ∧
      (a = .visit n ∨ a = .destroy n ∨ ∃ t', a = .exitUnlink t'))

end DroidLkm.Shm
