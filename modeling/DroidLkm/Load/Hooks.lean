/-
  The hooks of the main module.

  `vc_install`, `hk_redir_install` and what takes them back are the two
  libraries'; what they answer is given by an `Engine`, and so is whether
  `vc_exit` and `hk_exit` take a redirection back that is still there.

  * `install`, `remove`, `hookInstallSlot`: as in `ds_hook.c`;
  * `exits`: `ds_hook_exit` and `hk_exit`, on a hook.
-/
import DroidLkm.Errno
import Mathlib.Data.Nat.Notation
import Mathlib.Logic.Function.Basic

namespace DroidLkm.Load

/-- The records: `droid_lkm_cnn_hook`, `droid_lkm_cn_hook`, and so on. -/
inductive Hook where
  | cnn
  | cn
  | switch
  | exitNs
  | nsdir
  | status
  deriving DecidableEq

/-- `enum ds_hook_route` -/
inductive Route where
  | none
  | slot
  | text
  | kprobe
  deriving DecidableEq

/-- Who made a redirection: `vc_install`, or `hk_redir_install` on a forced route. -/
inductive Owner where
  | library
  | own
  deriving DecidableEq

/-- What the hook libraries answer. -/
structure Engine where
  /-- the parameter `route` -/
  mode : ℕ
  degrade : Bool
  redirInstall : Hook → ℤ
  vcInstall : Hook → ℤ
  vcRoute : Hook → Route
  /-- `vc_handle` is not `NULL` -/
  vcHandle : Hook → Bool
  redirRemove : Hook → ℤ
  /-- `vc_exit` takes the redirection back -/
  vcExit : Hook → Bool
  /-- `hk_exit` takes the redirection back -/
  hkExit : Hook → Bool
  /-- `ds_compat_write` of the `lookup` field of `proc_ns_dir_inode_operations` -/
  fieldWrite : ℤ
  /-- the same, when the hook is removed -/
  fieldRestore : ℤ

/-- `struct ds_hook`; `slot` says that the field of that name is set, and `redir` who
    has redirected the function, whatever the record says. -/
structure Record where
  live : Bool
  route : Route
  slot : Bool
  redir : Option Owner

namespace Record

def fresh : Record := ⟨false, .none, false, none⟩

/-- `memset(h, 0, sizeof(*h))` -/
def clear (x : Record) : Record := ⟨false, .none, false, x.redir⟩

/-- The redirection is there, and the record says so. -/
def take (x : Record) (o : Owner) (r : Route) : Record :=
  { x with live := true, route := r, redir := some o }

end Record

namespace Engine

variable (k : Engine)

/-- `ds_hook_route_install` -/
def routeInstall (h : Hook) (r : Route) (x : Record) : ℤ × Record :=
  if k.redirInstall h ≠ 0 then (k.redirInstall h, x) else (0, x.take .own r)

/-- `ds_hook_auto` -/
def auto (h : Hook) (x : Record) : ℤ × Record :=
  if k.vcInstall h ≠ 0 then (k.vcInstall h, x)
  -- the route took it, and there is no handle to take it back with
  else if !k.vcHandle h then (-ENODATA, { x with redir := some .library })
  else (0, x.take .library (k.vcRoute h))

/-- `ds_hook_install` -/
def install (h : Hook) (x : Record) : ℤ × Record :=
  if k.mode = 2 then k.routeInstall h .kprobe x.clear
  else if k.mode = 1 then k.routeInstall h .text x.clear
  else k.auto h x.clear

/-- `ds_hook_remove`, of a function; a record on the slot route that has no field
    writes to `NULL`, which changes nothing. -/
def remove (h : Hook) (x : Record) : Record :=
  if !x.live then x
  else if x.route = .slot then { x with live := false }
  else { x with live := false, redir := if k.redirRemove h = 0 then none else x.redir }

/-- `ds_hook_exit` and `hk_exit` -/
def exits (h : Hook) (x : Record) : Record :=
  let x := if x.redir = some .library ∧ k.vcExit h then { x with redir := none } else x
  if k.hkExit h then { x with redir := none } else x

end Engine

/-- The records; `field` says that the `lookup` field holds the module's function. -/
@[ext]
structure Hooks where
  record : Hook → Record
  field : Bool
  criticalMissing : Bool

def Hooks.fresh : Hooks := ⟨fun _ => Record.fresh, false, false⟩

namespace Hooks

def set (s : Hooks) (h : Hook) (x : Record) : Hooks :=
  { s with record := Function.update s.record h x }

@[simp] theorem set_record (s : Hooks) (h : Hook) (x : Record) :
    (s.set h x).record = Function.update s.record h x := rfl

@[simp] theorem set_field (s : Hooks) (h : Hook) (x : Record) : (s.set h x).field = s.field := rfl

@[simp] theorem set_criticalMissing (s : Hooks) (h : Hook) (x : Record) :
    (s.set h x).criticalMissing = s.criticalMissing := rfl

end Hooks

namespace Engine

variable (k : Engine)

/-- `ds_hook_install` of a hook -/
def hookInstall (h : Hook) (s : Hooks) : ℤ × Hooks :=
  let r := k.install h (s.record h)
  (r.1, s.set h r.2)

/-- `ds_hook_install_critical` -/
def hookInstallCritical (h : Hook) (s : Hooks) : ℤ × Hooks :=
  let r := k.hookInstall h s
  (r.1, { r.2 with criticalMissing := s.criticalMissing || r.1 ≠ 0 })

/-- `ds_hook_install_slot`, of the field -/
def hookInstallSlot (s : Hooks) : ℤ × Hooks :=
  if k.fieldWrite = 0 then
    (0, { s.set .nsdir { (s.record .nsdir).clear with live := true, route := .slot, slot := true }
      with field := true })
  else k.hookInstall .nsdir s

/-- `ds_hook_remove` of a hook -/
def hookRemove (h : Hook) (s : Hooks) : Hooks :=
  let x := s.record h
  { s.set h (k.remove h x) with
    field := s.field && !(x.live && x.route = .slot && x.slot && k.fieldRestore = 0) }

/-- `ds_hook_exit` and `hk_exit`, of all hooks -/
def hookExits (s : Hooks) : Hooks := { s with record := fun h => k.exits h (s.record h) }

end Engine

end DroidLkm.Load
