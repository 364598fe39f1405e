/-
  SysV shared memory — the life of a segment.

  One namespace, which lives.  Its id table, keys and `shm_tot` are those of
  `Ids.Quotas`; a step is what `ipc_shm.c` does under the lock of a segment, with
  the `rwsem` where it takes that too.

  * `Vma`, `Call`: the mappings there are, and the calls of `do_shmat` in flight;
    two that agree in all of this are not told apart, so both are lists;
  * `Sfd`: what a file of `do_shmat` refers to; it may be mapped as long as the mm
    layer likes, also when the segment is gone;
  * `step`: one section;
  * `Lifetime`: what is asked of every state.

  `shm_rmid_forced` may change, but the sweep that follows a write of it is not
  among the steps.
-/
import DroidLkm.Ids.Bookkeeping
import DroidLkm.Ids.Quotas

namespace DroidLkm.Shm.Life

open Ids Ids.Quotas

/-- `struct shm_file_data`, with the name of the segment for its `shm_file`. -/
structure Sfd where
  id : ℤ
  file : ℕ
  deriving DecidableEq

/-- A mapping of such a file, which `shm_mmap` has counted; `mapped` once the mapping
    of the segment's own file has succeeded too. -/
structure Vma where
  sfd : Sfd
  mapped : Bool
  deriving DecidableEq

/-- Where a call of `do_shmat` for the identifier `id` is. -/
inductive Call where
  /-- the segment has been found, and is to be locked -/
  | found (id : ℤ) (p : ℕ)
  /-- `shm_nattch` is raised -/
  | held (id : ℤ) (p : ℕ)
  /-- and the file made -/
  | opened (id : ℤ) (p : ℕ)
  deriving DecidableEq

/-- The call has raised `shm_nattch`. -/
def Call.holds : Call → ℕ → Bool
  | found .., _ => false
  | held _ p, q | opened _ p, q => p == q

structure St where
  ns : Ns
  /-- `shm_rmid_forced` -/
  forced : Bool
  nattch : ℕ → ℕ
  /-- `SHM_DEST` -/
  dest : ℕ → Bool
  creator : ℕ → ℕ
  /-- `shm_clist` of each task -/
  clist : ℕ → List ℕ
  files : List Sfd
  vmas : List Vma
  calls : List Call
  /-- what an `exit_shm` has taken off its list, and is to lock -/
  exits : List ℕ

namespace St

def init (forced : Bool) : St :=
  ⟨Ns.init, forced, fun _ => 0, fun _ => false, fun _ => 0, fun _ => [], [], [], [], []⟩

variable (b : Build) (s : St)

/-- `ipc_valid_object` -/
def valid (p : ℕ) : Bool := !(s.ns.shm.perm p).deleted

/-- `shm_lock` -/
def shmLock (id : ℤ) : Option ℕ :=
  match s.ns.shm.ipcObtainObjectIdr b.limits id with
  | .error _ => none
  | .ok p => if s.valid p then some p else none

/-- `shm_may_destroy` -/
def shmMayDestroy (p : ℕ) : Bool := s.nattch p == 0 && (s.forced || s.dest p)

/-- `shm_destroy`, with `shm_clist_rm`. -/
def shmDestroy (p : ℕ) : St :=
  { s with
    ns := s.ns.shmDestroy b p
    clist := Function.update s.clist (s.creator p) ((s.clist (s.creator p)).filter (· != p)) }

def setNattch (p n : ℕ) : St := { s with nattch := Function.update s.nattch p n }

/-- The segment is destroyed if it may be. -/
def settle (p : ℕ) : St := if s.shmMayDestroy p then s.shmDestroy b p else s

/-- `shm_nattch--`, in `__shm_close` and at the end of `do_shmat`. -/
def detach (p : ℕ) : St := (s.setNattch p (s.nattch p - 1)).settle b p

/-- `__shm_open`, `none` for its errors. -/
def shmOpen (sfd : Sfd) : Option St :=
  match s.shmLock b sfd.id with
  | none => none
  | some p => if p ≠ sfd.file then none else some (s.setNattch p (s.nattch p + 1))

/-- `__shm_close` -/
def shmClose (sfd : Sfd) : St :=
  match s.shmLock b sfd.id with
  | none => s
  | some p => s.detach b p

/-- `do_shm_rmid` -/
def doShmRmid (p : ℕ) : St :=
  if s.nattch p ≠ 0 then
    { s with
      dest := Function.update s.dest p true
      ns := { s.ns with shm := s.ns.shm.ipcSetKeyPrivate p } }
  else s.shmDestroy b p

/-- `newseg` -/
def newseg (t : ℕ) (key : ℤ) (size : ℕ) (e : Env) : St :=
  let p := s.ns.shm.fresh
  match s.ns.newseg b key size e with
  | (ns, .error _) => { s with ns := ns }
  | (ns, .ok _) =>
    { s with
      ns := ns
      nattch := Function.update s.nattch p 0
      dest := Function.update s.dest p false
      creator := Function.update s.creator p t
      clist := Function.update s.clist t (p :: s.clist t) }

/-- `ksys_shmget`; a segment that is there is left as it is. -/
def ksysShmget (t : ℕ) (key : ℤ) (size : ℕ) (creat : Bool) (e : Env) : St :=
  if key = IPC_PRIVATE then s.newseg b t key size e
  else match s.ns.shm.ipcFindkey key with
    | none => if !creat then s else s.newseg b t key size e
    | some _ => s

end St

inductive Act where
  | shmget (t : ℕ) (key : ℤ) (size : ℕ) (creat : Bool) (e : Env)
  /-- `do_shmat` finds the segment, -/
  | shmatFind (id : ℤ)
  /-- locks it, -/
  | shmatHold (id : ℤ) (p : ℕ)
  /-- makes the file, -/
  | shmatFile (id : ℤ) (p : ℕ)
  /-- and ends, with a mapping or an error -/
  | shmatEnd (x : Call)
  /-- `shm_mmap`, in `do_shmat` or of a file that is there -/
  | mmap (sfd : Sfd)
  /-- the rest of it: the mapping of the segment's own file -/
  | mmapped (sfd : Sfd) (err : Bool)
  /-- `shm_open`, of a fork or a split -/
  | vmaOpen (sfd : Sfd)
  /-- `shm_close` -/
  | vmaClose (sfd : Sfd)
  | rmid (id : ℤ)
  /-- a round of `exit_shm`: the first segment is taken off, -/
  | exitUnlink (t : ℕ)
  /-- and looked at under its lock -/
  | exitLock (p : ℕ)
  | sysctl (forced : Bool) (ctlmax ctlall : ℕ) (ctlmni : ℤ)
  deriving DecidableEq

open St in
def step (b : Build) (s : St) : Act → Option St
  | .shmget t key size creat e =>
    -- `size` is a `size_t`
    if size < 2 ^ 64 then some (s.ksysShmget b t key size creat e) else none
  | .shmatFind id =>
    match s.ns.shm.ipcObtainObjectCheck b.limits id with
    | .error _ => none
    | .ok p => if id < 0 then none else some { s with calls := .found id p :: s.calls }
  | .shmatHold id p =>
    if .found id p ∈ s.calls then
      let calls := s.calls.erase (.found id p)
      if s.valid p then
        some { s.setNattch p (s.nattch p + 1) with calls := .held id p :: calls }
      else some { s with calls := calls }
    else none
  | .shmatFile id p =>
    if .held id p ∈ s.calls then
      some { s with
        calls := .opened id p :: s.calls.erase (.held id p)
        files := ⟨(s.ns.shm.perm p).id, p⟩ :: s.files }
    else none
  | .shmatEnd x =>
    if x ∈ s.calls then
      match x with
      | .found .. => none
      | .held id _ | .opened id _ =>
        -- an error of `shm_lock` is not looked at, and would be used as a segment
        (s.shmLock b id).map fun p => { s.detach b p with calls := s.calls.erase x }
    else none
  | .mmap sfd =>
    if sfd ∈ s.files then
      (s.shmOpen b sfd).map fun s => { s with vmas := ⟨sfd, false⟩ :: s.vmas }
    else none
  | .mmapped sfd err =>
    if ⟨sfd, false⟩ ∈ s.vmas then
      let vmas := s.vmas.erase ⟨sfd, false⟩
      if err then some { s.shmClose b sfd with vmas := vmas }
      else some { s with vmas := ⟨sfd, true⟩ :: vmas }
    else none
  | .vmaOpen sfd =>
    if ⟨sfd, true⟩ ∈ s.vmas then
      -- an error is a warning, and the mapping there all the same
      some { (s.shmOpen b sfd).getD s with vmas := ⟨sfd, true⟩ :: s.vmas }
    else none
  | .vmaClose sfd =>
    if ⟨sfd, true⟩ ∈ s.vmas then
      some { s.shmClose b sfd with vmas := s.vmas.erase ⟨sfd, true⟩ }
    else none
  | .rmid id =>
    match s.ns.shm.ipcObtainObjectCheck b.limits id with
    | .error _ => none
    | .ok p => some (s.doShmRmid b p)
  | .exitUnlink t =>
    match s.clist t with
    | [] => none
    | p :: rest =>
      let s := { s with clist := Function.update s.clist t rest }
      if s.forced then some { s with exits := p :: s.exits } else some s
  | .exitLock p =>
    if p ∈ s.exits then
      let s := { s with exits := s.exits.erase p }
      if s.valid p then some (s.settle b p) else some s
    else none
  | .sysctl forced ctlmax ctlall ctlmni =>
    some { s with
      forced := forced
      ns := { s.ns with shmCtlmax := ctlmax, shmCtlall := ctlall, shmCtlmni := ctlmni } }

/-! ## What is asked -/

section
variable (b : Build) (s : St) (p : ℕ)

/-- The attached mappings of a segment. -/
def St.attached : ℕ := s.vmas.countP fun v => v.sfd.file == p

/-- The calls of `do_shmat` that hold it. -/
def St.inFlight : ℕ := s.calls.countP fun x => x.holds p

/-- What is asked of a state. -/
structure Lifetime : Prop where
  /-- `shm_nattch` counts the mappings and the calls, -/
  nattch : ∀ p, s.nattch p = s.attached p + s.inFlight p
  /-- a segment that is not there is held by none, -/
  gone : ∀ p, s.ns.shm.live p = false → s.nattch p = 0
  /-- `shm_tot` is the number of pages of those that are, -/
  shmTot : s.ns.shmTot = s.ns.shm.idr.sumOf (pages b ∘ s.ns.segsz)
  /-- and what a call that ends or a mapping that goes detaches is its segment -/
  ends : ∀ x ∈ s.calls, ∀ id p, x = .held id p ∨ x = .opened id p → s.shmLock b id = some p
  closes : ∀ v ∈ s.vmas, s.shmLock b v.sfd.id = some v.sfd.file

end

end DroidLkm.Shm.Life
