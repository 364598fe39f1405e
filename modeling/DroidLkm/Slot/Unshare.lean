/-
  `unshare` as the module serves it.

  `sysUnshare` and `unshareLegacy` are written over the functions they call, so
  that they can be run on different parts of a system: what `unshare` does to
  the namespaces and what it does to the semaphores of a task are told apart by
  the operations alone.
-/
import DroidLkm.Slot.Kernel

namespace DroidLkm.Slot

/-- What `droid_lkm_sys_unshare` looks at and calls. -/
structure UnshareOps (σ : Type) where
  gateAllow : Bool
  noFakeNs : Bool
  cnnHooked : Bool
  unsharePrecheck : σ → Flags → Bool
  origUnshare : σ → Flags → σ × ℤ
  exitSem : σ → σ
  exitShm : σ → σ
  slotInstallIpcns : σ → σ × ℤ
  slotInstallPidns : σ → σ × ℤ
  keepalivePin : σ → σ

variable {σ : Type}

/-- The flags that `droid_lkm_unshare_legacy` passes on. -/
def legacyFlags (flags : Flags) : Flags :=
  let flags := without flags OURS
  if has flags NS_FLAGS then flags else flags ||| CLONE_NEWUTS

/-- The undo list and the shared memory of a task that leaves its namespace. -/
def flushIpc (o : UnshareOps σ) (s : σ) (flags : Flags) : σ :=
  let s := if has flags (CLONE_NEWIPC ||| CLONE_SYSVSEM) then o.exitSem s else s
  if has flags CLONE_NEWIPC then o.exitShm s else s

def installIpcns (o : UnshareOps σ) (s : σ) (flags : Flags) : σ × ℤ :=
  if has flags CLONE_NEWIPC then o.slotInstallIpcns s else (s, 0)

def installPidns (o : UnshareOps σ) (s : σ) (flags : Flags) : σ × ℤ :=
  if has flags CLONE_NEWPID then o.slotInstallPidns s else (s, 0)

/-- `droid_lkm_unshare_legacy` -/
def unshareLegacy (o : UnshareOps σ) (s : σ) (flags : Flags) : σ × ℤ :=
  let (s, ret) := o.origUnshare s (legacyFlags flags)
  if ret ≠ 0 then (s, ret)
  else
    let s := flushIpc o s flags
    let (s, ret) := installIpcns o s flags
    if ret ≠ 0 then (s, ret)
    else
      let (s, ret) := installPidns o s flags
      (o.keepalivePin s, ret)

/-- `droid_lkm_sys_unshare` -/
def sysUnshare (o : UnshareOps σ) (s : σ) (flags : Flags) : σ × ℤ :=
  if !has flags (OURS ||| CLONE_SYSVSEM) then o.origUnshare s flags
  else if !o.gateAllow then o.origUnshare s flags
  else if o.noFakeNs then (s, 0)
  else if !o.cnnHooked then unshareLegacy o s flags
  else if !o.unsharePrecheck s flags then o.origUnshare s flags
  else
    let s := flushIpc o s flags
    let (s, ret) := o.origUnshare s flags
    (if ret = 0 then o.keepalivePin s else s, ret)

end DroidLkm.Slot
