/-
  User namespaces of the module — what the hooks do.

  * `create`, `destroy`, `installCred`, `installCurrent`: as in `userns_core.c` and
    `userns_cred.c`; an address that has been freed may be given out again;
  * `unshareWrap`, `credsWrap`: the two hooks, cut where they call the kernel's own
    function, which other tasks can run during;
  * `instantiate`, `nsproxyOwner`, `fsctxOwner`, `nsGet`: what else takes the pointer
    from a task's credentials;
  * `step`: one event.
-/
import DroidLkm.Lib.Machine
import DroidLkm.Userns.MapText
import Mathlib.Data.Finset.Erase
import Mathlib.Data.Finset.Insert
import Mathlib.Data.Finset.Range
import Mathlib.Logic.Function.Basic

namespace DroidLkm.Userns

/-! ## The objects -/

def USERNS_INIT_FLAGS : ℕ := 1

def CAP_SYS_ADMIN : ℕ := 21

def CAP_SETFCAP : ℕ := 31

/-- `kernel_cap_t` -/
abbrev Caps := Finset ℕ

def CAP_FULL_SET : Caps := Finset.range 41

/-- `struct droid_lkm_userns`, and of its `struct user_namespace` what is used. -/
structure UserNamespace where
  parent : UserNs
  level : ℕ
  unsLevel : ℕ
  owner : ℕ
  group : ℕ
  flags : ℕ
  parentCouldSetfcap : Bool
  inum : ℕ
  uidMap : IdMap
  gidMap : IdMap
  mapWritten : Bool

/-- `struct cred` -/
structure Cred where
  userNs : UserNs
  euid : ℕ
  egid : ℕ
  securebits : ℕ
  capInheritable : Caps
  capPermitted : Caps
  capEffective : Caps
  capAmbient : Caps
  capBset : Caps

/-- The namespaces on the heap, those on `droid_lkm_userns_list`, the numbers that
    `proc_alloc_inum` has given out; the credentials that there have been, those of each
    task, and who made the task; what a task has created and not installed yet, and the
    pointers that inodes, owned objects and links hold. -/
structure State where
  heap : ℕ → Option UserNamespace
  list : List ℕ
  inums : Finset ℕ
  creds : ℕ → Option Cred
  tasks : ℕ → Option ℕ
  nextTask : ℕ
  forker : ℕ → ℕ
  pending : ℕ → Option ℕ
  refs : ℕ → Option UserNs

namespace State

variable (s : State)

def cred (t : ℕ) : Option Cred := (s.tasks t).bind s.creds

/-- `droid_lkm_userns_is_ours` -/
def isOurs : UserNs → Bool
  | .init => false
  | .fake a => s.list.contains a

/-- `droid_lkm_userns_of` -/
def usernsOf (t : ℕ) : Option ℕ :=
  match s.cred t with
  | none => none
  | some c =>
    match c.userNs with
    | .init => none
    | .fake a => if s.isOurs (.fake a) then some a else none

/-- `droid_lkm_userns_live` -/
def live : ℕ := s.list.length

/-! ## The functions -/

/-- What `create` gets of the kernel: an address, and a number. -/
structure Alloc where
  kzalloc : Option ℕ
  inum : Option ℕ

/-- `droid_lkm_userns_create`, for a task with the credentials `cur`. -/
def create (parent : Option ℕ) (cur : Cred) (e : Alloc) : State × Option ℕ :=
  let p := parent.bind s.heap
  if p.any (·.level > 32) then (s, none)
  else match e.kzalloc with
  | none => (s, none)
  | some u =>
    match e.inum with
    | none => (s, none)
    | some inum =>
      let level := match p with
        | some p => p.level + 1
        | none => 1
      let uns : UserNamespace := {
        parent := match parent with
          | some a => .fake a
          | none => .init
        level := level
        unsLevel := level
        owner := cur.euid
        group := cur.egid
        flags := match p with
          | some p => p.flags
          | none => USERNS_INIT_FLAGS
        parentCouldSetfcap := CAP_SETFCAP ∈ cur.capEffective
        inum := inum
        uidMap := identity
        gidMap := identity
        mapWritten := true }
      ({ s with
          heap := Function.update s.heap u (some uns)
          list := s.list ++ [u]
          inums := insert inum s.inums }, some u)

/-- `droid_lkm_userns_destroy` -/
def destroy (u : ℕ) : State :=
  { s with
    heap := Function.update s.heap u none
    list := s.list.erase u
    inums := match s.heap u with
      | some uns => s.inums.erase uns.inum
      | none => s.inums }

end State

/-- `droid_lkm_userns_install_cred` -/
def installCred (c : Cred) (u : ℕ) : Cred :=
  { c with
    userNs := .fake u
    securebits := 0
    capInheritable := ∅
    capPermitted := CAP_FULL_SET
    capEffective := CAP_FULL_SET
    capAmbient := ∅
    capBset := CAP_FULL_SET }

namespace State

variable (s : State)

/-- Credentials `c` at the new address `i`, for the task `t`. -/
def commitCreds (t i : ℕ) (c : Cred) : State :=
  { s with
    creds := Function.update s.creds i (some c)
    tasks := Function.update s.tasks t (some i) }

/-- `droid_lkm_userns_install_current`; `prepare` is where `prepare_creds` has put the
    copy. -/
def installCurrent (t u : ℕ) (cur : Cred) (prepare : Option ℕ) : State :=
  match prepare with
  | none => s
  | some i => s.commitCreds t i (installCred cur u)

/-- `droid_lkm_userns_unshare_wrap` with `CLONE_NEWUSER` and without `CLONE_FS`, and
    `droid_lkm_userns_creds_wrap` without `CLONE_THREAD`, up to the kernel's function. -/
def wrapBegin (t : ℕ) (cur : Cred) (e : Alloc) : State :=
  match s.create (s.usernsOf t) cur e with
  | (s, none) => s
  | (s, some u) => { s with pending := Function.update s.pending t (some u) }

/-- The rest of `droid_lkm_userns_unshare_wrap`. -/
def unshareEnd (t u : ℕ) (cur : Cred) (ret : ℤ) (prepare : Option ℕ) : State :=
  let s := { s with pending := Function.update s.pending t none }
  if ret ≠ 0 then s.destroy u else s.installCurrent t u cur prepare

/-- A task at `s.nextTask`, with the credentials at `i`. -/
def newTask (t i : ℕ) : State :=
  { s with
    tasks := Function.update s.tasks s.nextTask (some i)
    forker := Function.update s.forker s.nextTask t
    nextTask := s.nextTask + 1 }

/-- The rest of `droid_lkm_userns_creds_wrap`: where `copy_creds` has not failed, it has put
    a copy at `i` for the child. -/
def credsEnd (t u : ℕ) (cur : Cred) (ret : ℤ) (i : ℕ) : State :=
  let s := { s with pending := Function.update s.pending t none }
  if ret ≠ 0 then s.destroy u
  else { s with creds := Function.update s.creds i (some (installCred cur u)) }.newTask t i

/-- `droid_lkm_userns_nsproxy_wrap`: the owner of the namespaces that it makes; the kernel's
    own function names the initial one. -/
def nsproxyOwner (t : ℕ) (cur : Cred) : UserNs :=
  match s.usernsOf t with
  | some u => if CAP_SYS_ADMIN ∈ cur.capEffective then .fake u else .init
  | none => .init

/-- `droid_lkm_userns_fsctx_wrap`: the owner of a mount's configuration. -/
def fsctxOwner (t : ℕ) : UserNs :=
  match s.usernsOf t with
  | some u => .fake u
  | none => .init

/-- `droid_lkm_userns_get`: the namespace, or the placeholder of the initial one. -/
def nsGet (t : ℕ) : UserNs :=
  match s.usernsOf t with
  | some u => .fake u
  | none => .init

def setRef (r : ℕ) (ns : UserNs) : State := { s with refs := Function.update s.refs r (some ns) }

end State

/-! ## Runs -/

/-- What happens next: a task is at a hook or past it, the kernel makes a task (a thread
    where it copies no credentials), gives one other credentials in its namespace or lets it
    exit; and a pointer is put into an inode (`droid_lkm_userns_proc_instantiate`), an
    owned object or a link. -/
inductive Act
  | wrap (t : ℕ) (e : State.Alloc)
  | unshared (t : ℕ) (ret : ℤ) (prepare : Option ℕ)
  | cloned (t : ℕ) (ret : ℤ) (i : ℕ)
  | fork (t : ℕ) (copy : Option ℕ)
  | setCreds (t i : ℕ) (c : Cred)
  | exit (t : ℕ)
  | instantiate (t r : ℕ)
  | nsproxy (t r : ℕ)
  | fsctx (t r : ℕ)
  | nsGet (t r : ℕ)

/-- The address is not in use, and the number neither. -/
def State.Alloc.fresh (s : State) (e : State.Alloc) : Bool :=
  e.kzalloc.all (fun u => (s.heap u).isNone) && e.inum.all (fun n => n ∉ s.inums)

def freshCred (s : State) (i : Option ℕ) : Bool := i.all fun i => (s.creds i).isNone

/-- The task that moves. -/
def Act.task : Act → ℕ
  | .wrap t _ | .unshared t _ _ | .cloned t _ _ | .fork t _ | .setCreds t _ _ | .exit t
  | .instantiate t _ | .nsproxy t _ | .fsctx t _ | .nsGet t _ => t

def step (s : State) (a : Act) : Option State :=
  match s.tasks a.task, s.cred a.task with
  | some c, some cur =>
    match a, s.pending a.task with
    | .wrap t e, none => if e.fresh s then some (s.wrapBegin t cur e) else none
    | .unshared t ret prepare, some u =>
      if freshCred s prepare then some (s.unshareEnd t u cur ret prepare) else none
    | .cloned t ret i, some u =>
      if freshCred s (some i) then some (s.credsEnd t u cur ret i) else none
    | .fork t none, none => some (s.newTask t c)
    | .fork t (some i), none =>
      if freshCred s (some i) then
        some ({ s with creds := Function.update s.creds i (some cur) }.newTask t i)
      else none
    | .setCreds t i c, _ =>
      if freshCred s (some i) ∧ c.userNs = cur.userNs then some (s.commitCreds t i c) else none
    | .exit t, none => some { s with tasks := Function.update s.tasks t none }
    | .instantiate _ r, _ => some (s.setRef r cur.userNs)
    | .nsproxy t r, _ => some (s.setRef r (s.nsproxyOwner t cur))
    | .fsctx t r, _ => some (s.setRef r (s.fsctxOwner t))
    | .nsGet t r, _ => some (s.setRef r (s.nsGet t))
    | _, _ => none
  | _, _ => none

/-- The module has been loaded: one task, in the initial namespace. -/
def init (c : Cred) : State where
  heap _ := none
  list := []
  inums := ∅
  creds := Function.update (fun _ => none) 0 (some c)
  tasks := Function.update (fun _ => none) 0 (some 0)
  nextTask := 1
  forker _ := 0
  pending _ := none
  refs _ := none

end DroidLkm.Userns
