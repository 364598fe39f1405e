/-
  Who serves SysV ipc and ipc namespaces.

  * `capsClassify`: `droid_lkm_caps_classify`, on the symbols of the kernel;
  * `ipcnsInit`: what `droid_lkm_ipcns_init` makes of it;
  * `ipcRowSkipped`: the rows of the syscall table that are left alone.

  The symbols of a feature are compiled with it, so the kernel has a feature if
  one of them is found.
-/
import Mathlib.Data.Nat.Notation

namespace DroidLkm.Wiring

/-- `enum droid_lkm_owner`; `lkm` is `DROID_LKM_MODULE`. -/
inductive Owner where
  | absent
  | kernel
  | lkm
  deriving DecidableEq

/-- `struct droid_lkm_feature` -/
structure Feature where
  owner : Owner
  reason : String
  deriving DecidableEq

/-- The features of `struct droid_lkm_caps` that ipc is about. -/
structure Caps where
  ipcNs : Feature
  posixMqueue : Feature
  sysvipc : Feature
  deriving DecidableEq

/-- The symbols looked for. -/
inductive Sym where
  | mqueueFsType | mqueueInodeCachep | mqClearSbinfo
  | freeIpcs | ipcnsGet | copyIpcs
  | ksysMsgget | ipcAddid | ipcObtainObjectCheck
  deriving DecidableEq

def mqueueSyms : List Sym := [.mqueueFsType, .mqueueInodeCachep, .mqClearSbinfo]

def ipcnsSyms : List Sym := [.freeIpcs, .ipcnsGet, .copyIpcs]

def sysvipcSyms : List Sym := [.ksysMsgget, .ipcAddid, .ipcObtainObjectCheck]

/-- What the module finds when it is loaded. -/
structure Kernel where
  /-- the parameter `force_ipc_owner` -/
  forceIpcOwner : Bool
  /-- `droid_lkm_ks_ipcns_operations` -/
  ipcnsOperations : Bool
  sym : Sym → Bool
  /-- `init_nsproxy` has an `ipc_ns` -/
  wired : Bool

namespace Kernel

variable (k : Kernel)

/-- `droid_lkm_caps_sym_any` -/
def capsSymAny (names : List Sym) : Bool := names.any k.sym

/-- `CONFIG_SYSVIPC`: the kernel gives its namespaces their tables. -/
def sysv : Bool := k.capsSymAny sysvipcSyms

/-- `CONFIG_IPC_NS`: the kernel can make namespaces. -/
def ipcNs : Bool := k.ipcnsOperations || k.capsSymAny ipcnsSyms

/-- `droid_lkm_caps_classify` -/
def capsClassify : Caps :=
  let ipcNs : Feature :=
    if !k.forceIpcOwner && (k.ipcnsOperations || k.capsSymAny ipcnsSyms) then
      ⟨.kernel, "the kernel's ipc namespace objects are in the image"⟩
    else ⟨.lkm, "no ipcns_operations, the module serves the table"⟩
  { ipcNs
    posixMqueue :=
      if k.capsSymAny mqueueSyms then
        ⟨.kernel, "the kernel's own mqueue objects are in the image"⟩
      else if ipcNs.owner = .kernel then
        ⟨.absent, "the kernel owns ipc namespaces and has no mqueue, a namespace it makes has no mqueue mount"⟩
      else ⟨.lkm, "no kernel mqueue objects, the module port serves it"⟩
    sysvipc :=
      if k.capsSymAny sysvipcSyms then
        ⟨.kernel, "the kernel's SysV calls are in the image"⟩
      else ⟨.lkm, "no ksys_msgget/ipc_addid, the module port serves the calls"⟩ }

/-- `droid_lkm_ipcns_kernel_owned` -/
def kernelOwned : Bool := k.capsClassify.ipcNs.owner = .kernel && k.wired

/-- The classification after `droid_lkm_ipcns_init`. -/
def ipcnsInit : Caps :=
  if k.kernelOwned then k.capsClassify
  else if k.capsClassify.ipcNs.owner = .kernel then
    { k.capsClassify with
      ipcNs := ⟨.lkm, "the kernel carries ipc namespaces but wires none, the module serves its own"⟩ }
  else k.capsClassify

end Kernel

/-- `struct droid_lkm_ipc_slot`, as far as it decides. -/
structure IpcSlot where
  needsMqueue : Bool

/-- `droid_lkm_ipc_row_skipped` -/
def ipcRowSkipped (caps : Caps) (mqueueReady : Bool) (s : IpcSlot) : Bool :=
  if s.needsMqueue then !mqueueReady
  else caps.sysvipc.owner = .kernel && caps.ipcNs.owner = .kernel

/-! ## What comes out -/

namespace Kernel

variable {k : Kernel}

theorem sysvipc_owner (k : Kernel) :
    k.ipcnsInit.sysvipc.owner = if k.sysv then .kernel else .lkm := by
  have h : k.capsClassify.sysvipc.owner = if k.sysv then .kernel else .lkm := by
    unfold capsClassify sysv
    dsimp only
    split <;> rfl
  unfold ipcnsInit
  split
  · exact h
  · split <;> exact h

/-- After the load the kernel owns the namespaces just when it serves the
    first one. -/
theorem ipcNs_owner (k : Kernel) :
    k.ipcnsInit.ipcNs.owner = if k.kernelOwned then .kernel else .lkm := by
  unfold ipcnsInit
  split
  · next h =>
    rw [kernelOwned, Bool.and_eq_true, decide_eq_true_eq] at h
    exact h.1
  · split
    · rfl
    · next h =>
      unfold capsClassify at h ⊢
      dsimp only at h ⊢
      split
      · next hk =>
        rw [if_pos hk] at h
        exact absurd rfl h
      · rfl

/-- The rows of SysV are left alone just when the kernel owns both. -/
theorem skipped_iff (k : Kernel) (mqueueReady : Bool) :
    ipcRowSkipped k.ipcnsInit mqueueReady ⟨false⟩ = (k.sysv && k.kernelOwned) := by
  unfold ipcRowSkipped
  rw [if_neg Bool.false_ne_true, sysvipc_owner, ipcNs_owner]
  cases k.sysv <;> cases k.kernelOwned <;> rfl

/-- A kernel without ipc namespaces owns none. -/
theorem ipcNs_of_kernelOwned (h : k.kernelOwned = true) : k.ipcNs = true ∧ k.wired = true := by
  rw [kernelOwned, Bool.and_eq_true, decide_eq_true_eq] at h
  obtain ⟨ho, hw⟩ := h
  refine ⟨?_, hw⟩
  unfold capsClassify at ho
  dsimp only at ho
  split at ho
  · next hk =>
    rw [Bool.and_eq_true] at hk
    exact hk.2
  · cases ho

end Kernel

end DroidLkm.Wiring
