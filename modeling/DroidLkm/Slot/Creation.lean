/-
  New namespaces, over the functions that are called.

  `droid_lkm_cnn_wrap`, `droid_lkm_cn_wrap` and `droid_lkm_clone_ctx_enter`
  build the same two namespaces and take them back by hand when a later step
  fails.  Here they are written over the functions they call, so that they can
  be run on the namespaces of tasks and on the books of what is allocated.

  * `CreateOps`: what the three look at and call;
  * `cnnWrap`, `cnWrap`, `cloneCtxEnter`: the three;
  * `Keeps`: what all that they call keeps they keep, however they end;
  * `cnnWrap_eq`, `cnWrap_eq`, `cloneCtxEnter_error`, `cloneCtxEnter_ok`: on
    the namespaces of tasks they are the functions of `Kernel`.
-/
import Mathlib.Tactic.SplitIfs
import DroidLkm.Slot.Calls

namespace DroidLkm.Slot

/-- What the creation of namespaces looks at and calls. -/
structure CreateOps (σ : Type) where
  gateAllow : Bool
  /-- `switch_task_namespaces` was found -/
  switchSym : σ → Bool
  /-- `droid_lkm_cnn_orig` is set -/
  cnnHooked : σ → Bool
  /-- the pid namespace the new one goes under, or why none may be made -/
  oldPidNs : σ → Except ℤ ℕ
  pidnsCreate : σ → ℕ → σ × Except ℤ ℕ
  pidnsPut : σ → Option ℕ → σ
  ipcnsCreate : σ → σ × Except ℤ ℕ
  ipcnsPut : σ → Option ℕ → σ
  /-- `droid_lkm_cnn_orig` for the caller of the wrap -/
  cnnOrig : σ → Flags → σ × Except ℤ ℕ
  /-- `droid_lkm_cnn_orig(0, …)` for a private nsproxy -/
  cnnPriv : σ → σ × Except ℤ ℕ
  cnOrig : σ → Flags → σ × ℤ
  nsproxyHold : σ → ℕ → σ
  attach : σ → ℕ → Option ℕ → Option ℕ → σ
  /-- `droid_lkm_nsproxy_hold` of the nsproxy of the task -/
  holdOf : σ → σ
  switchTask : σ → ℕ → σ
  /-- the writes at the end of `droid_lkm_cn_wrap` -/
  cnAttach : σ → Option ℕ → Option ℕ → σ

namespace CreateOps

variable {σ : Type} (o : CreateOps σ) (s : σ)

def newPidNs (want : Bool) : σ × Except ℤ (Option ℕ) :=
  if !want then (s, .ok none)
  else match o.oldPidNs s with
    | .error err => (s, .error err)
    | .ok old =>
      match o.pidnsCreate s old with
      | (s, .error err) => (s, .error err)
      | (s, .ok n) => (s, .ok (some n))

def newIpcNs (want : Bool) : σ × Except ℤ (Option ℕ) :=
  if !want then (s, .ok none)
  else match o.ipcnsCreate s with
    | (s, .error err) => (s, .error err)
    | (s, .ok n) => (s, .ok (some n))

def newNamespaces (flags : Flags) : σ × Except ℤ (Option ℕ × Option ℕ) :=
  match o.newPidNs s (has flags CLONE_NEWPID) with
  | (s, .error err) => (s, .error err)
  | (s, .ok newPid) =>
    match o.newIpcNs s (has flags CLONE_NEWIPC) with
    | (s, .error err) => (o.pidnsPut s newPid, .error err)
    | (s, .ok newIpc) => (s, .ok (newPid, newIpc))

def putNew (newPid newIpc : Option ℕ) : σ := o.ipcnsPut (o.pidnsPut s newPid) newIpc

/-- `droid_lkm_cnn_wrap` -/
def cnnWrap (flags : Flags) : σ × Except ℤ ℕ :=
  if !has flags OURS || !o.gateAllow then
    match o.cnnOrig s flags with
    | (s, .error err) => (s, .error err)
    | (s, .ok nsp) => (o.nsproxyHold s nsp, .ok nsp)
  else
    match o.newNamespaces s flags with
    | (s, .error err) => (s, .error err)
    | (s, .ok (newPid, newIpc)) =>
      match o.cnnOrig s (without flags OURS) with
      | (s, .error err) => (o.putNew s newPid newIpc, .error err)
      | (s, .ok nsp) =>
        let s := o.attach s nsp newPid newIpc
        (if newIpc.isSome then s else o.nsproxyHold s nsp, .ok nsp)

/-- The private nsproxy of `droid_lkm_cn_wrap`. -/
def cnPriv (inner : Flags) (newPid newIpc : Option ℕ) : σ × ℤ :=
  if has inner NS_FLAGS then (s, 0)
  else if !o.cnnHooked s then (s, -EFAULT)
  else match o.cnnPriv s with
    | (s, .error err) => (o.putNew s newPid newIpc, err)
    | (s, .ok priv) => (o.switchTask s priv, 0)

/-- `droid_lkm_cn_wrap` -/
def cnWrap (flags : Flags) : σ × ℤ :=
  let inner := without flags OURS
  if !has flags OURS then
    let (s, ret) := o.cnOrig s flags
    (if ret = 0 then o.holdOf s else s, ret)
  else if !o.switchSym s then o.cnOrig s flags
  else if !o.gateAllow then
    let (s, ret) := o.cnOrig s flags
    (if ret = 0 then o.holdOf s else s, ret)
  else if ipcWithSysvsem flags then o.cnOrig s flags
  else
    match o.newNamespaces s flags with
    | (s, .error err) => (s, err)
    | (s, .ok (newPid, newIpc)) =>
      let (s, ret) := o.cnOrig s inner
      if ret ≠ 0 then (o.putNew s newPid newIpc, ret)
      else
        let (s, ret) := o.cnPriv s inner newPid newIpc
        if ret ≠ 0 then (s, ret) else (o.cnAttach s newPid newIpc, 0)

/-- `droid_lkm_clone_ctx_enter`, with the private nsproxy as its result. -/
def cloneCtxEnter (flags : Flags) : σ × Except ℤ ℕ :=
  match o.newNamespaces s flags with
  | (s, .error err) => (s, .error err)
  | (s, .ok (newPid, newIpc)) =>
    match o.cnnPriv s with
    | (s, .error err) => (o.putNew s newPid newIpc, .error err)
    | (s, .ok priv) => (o.attach (o.switchTask s priv) priv newPid newIpc, .ok priv)

/-! ## What every step keeps -/

/-- Every function that the three call keeps `inv`. -/
structure Keeps (inv : σ → Prop) : Prop where
  pidnsCreate : ∀ s old, inv s → inv (o.pidnsCreate s old).1
  pidnsPut : ∀ s n, inv s → inv (o.pidnsPut s n)
  ipcnsCreate : ∀ s, inv s → inv (o.ipcnsCreate s).1
  ipcnsPut : ∀ s n, inv s → inv (o.ipcnsPut s n)
  cnnOrig : ∀ s flags, inv s → inv (o.cnnOrig s flags).1
  cnnPriv : ∀ s, inv s → inv (o.cnnPriv s).1
  cnOrig : ∀ s flags, inv s → inv (o.cnOrig s flags).1
  nsproxyHold : ∀ s q, inv s → inv (o.nsproxyHold s q)
  attach : ∀ s q newPid newIpc, inv s → inv (o.attach s q newPid newIpc)
  holdOf : ∀ s, inv s → inv (o.holdOf s)
  switchTask : ∀ s q, inv s → inv (o.switchTask s q)
  cnAttach : ∀ s newPid newIpc, inv s → inv (o.cnAttach s newPid newIpc)

variable {o s} {inv : σ → Prop}

theorem Keeps.newPidNs (h : o.Keeps inv) (hs : inv s) (want : Bool) :
    inv (o.newPidNs s want).1 := by
  unfold CreateOps.newPidNs
  split_ifs
  · exact hs
  · split
    · exact hs
    · next old _ =>
      have hc := h.pidnsCreate s old hs
      rcases hr : o.pidnsCreate s old with ⟨t, _ | n⟩ <;> rw [hr] at hc <;> exact hc

theorem Keeps.newIpcNs (h : o.Keeps inv) (hs : inv s) (want : Bool) :
    inv (o.newIpcNs s want).1 := by
  have hc := h.ipcnsCreate s hs
  unfold CreateOps.newIpcNs
  split_ifs
  · exact hs
  · rcases hr : o.ipcnsCreate s with ⟨t, _ | n⟩ <;> rw [hr] at hc <;> exact hc

theorem Keeps.newNamespaces (h : o.Keeps inv) (hs : inv s) (flags : Flags) :
    inv (o.newNamespaces s flags).1 := by
  have hpid := h.newPidNs hs (has flags CLONE_NEWPID)
  unfold CreateOps.newNamespaces
  rcases hr : o.newPidNs s (has flags CLONE_NEWPID) with ⟨t, _ | newPid⟩ <;> rw [hr] at hpid
  · exact hpid
  · have hipc := h.newIpcNs hpid (has flags CLONE_NEWIPC)
    dsimp only
    rcases hr' : o.newIpcNs t (has flags CLONE_NEWIPC) with ⟨u, _ | newIpc⟩ <;> rw [hr'] at hipc
    · exact h.pidnsPut u newPid hipc
    · exact hipc

theorem Keeps.putNew (h : o.Keeps inv) (hs : inv s) (newPid newIpc : Option ℕ) :
    inv (o.putNew s newPid newIpc) := h.ipcnsPut _ _ (h.pidnsPut _ _ hs)

/-- **So the three keep it, however they end.** -/
theorem Keeps.cnnWrap (h : o.Keeps inv) (hs : inv s) (flags : Flags) : inv (o.cnnWrap s flags).1 := by
  unfold CreateOps.cnnWrap
  split_ifs
  · have hc := h.cnnOrig s flags hs
    rcases hr : o.cnnOrig s flags with ⟨t, _ | q⟩ <;> rw [hr] at hc
    · exact hc
    · exact h.nsproxyHold t q hc
  · have hn := h.newNamespaces hs flags
    rcases hr : o.newNamespaces s flags with ⟨t, _ | ⟨newPid, newIpc⟩⟩ <;> rw [hr] at hn
    · exact hn
    · have hc := h.cnnOrig t (without flags OURS) hn
      dsimp only
      rcases hr' : o.cnnOrig t (without flags OURS) with ⟨u, _ | q⟩ <;> rw [hr'] at hc
      · exact h.putNew hc newPid newIpc
      · have ha := h.attach u q newPid newIpc hc
        dsimp only
        split
        · exact ha
        · exact h.nsproxyHold _ q ha

theorem Keeps.cnPriv (h : o.Keeps inv) (hs : inv s) (inner : Flags) (newPid newIpc : Option ℕ) :
    inv (o.cnPriv s inner newPid newIpc).1 := by
  have hc := h.cnnPriv s hs
  unfold CreateOps.cnPriv
  split_ifs
  · exact hs
  · exact hs
  · rcases hr : o.cnnPriv s with ⟨t, _ | q⟩ <;> rw [hr] at hc
    · exact h.putNew hc newPid newIpc
    · exact h.switchTask t q hc

theorem Keeps.cnWrap (h : o.Keeps inv) (hs : inv s) (flags : Flags) :
    inv (o.cnWrap s flags).1 := by
  have hcn := h.cnOrig s flags hs
  have hpass : inv (if (o.cnOrig s flags).2 = 0 then o.holdOf (o.cnOrig s flags).1
      else (o.cnOrig s flags).1) := by
    split
    · exact h.holdOf _ hcn
    · exact hcn
  unfold CreateOps.cnWrap
  dsimp only
  split
  · exact hpass
  split
  · exact hcn
  split
  · exact hpass
  split
  · exact hcn
  have hn := h.newNamespaces hs flags
  rcases hr : o.newNamespaces s flags with ⟨t, _ | ⟨newPid, newIpc⟩⟩ <;> rw [hr] at hn
  · exact hn
  have hc := h.cnOrig t (without flags OURS) hn
  have hp := h.cnPriv hc (without flags OURS) newPid newIpc
  dsimp only
  split
  · exact h.putNew hc newPid newIpc
  · split
    · exact hp
    · exact h.cnAttach _ newPid newIpc hp

theorem Keeps.cloneCtxEnter (h : o.Keeps inv) (hs : inv s) (flags : Flags) :
    inv (o.cloneCtxEnter s flags).1 := by
  have hn := h.newNamespaces hs flags
  unfold CreateOps.cloneCtxEnter
  rcases hr : o.newNamespaces s flags with ⟨t, _ | ⟨newPid, newIpc⟩⟩ <;> rw [hr] at hn
  · exact hn
  have hc := h.cnnPriv t hn
  dsimp only
  rcases hr' : o.cnnPriv t with ⟨u, _ | q⟩ <;> rw [hr'] at hc
  · exact h.putNew hc newPid newIpc
  · exact h.attach _ q newPid newIpc (h.switchTask u q hc)

end CreateOps

namespace Kernel

/-- The namespaces of tasks: `current` calls, for `tsk`. -/
def createOps (current tsk : ℕ) (e : Env) : CreateOps Kernel where
  gateAllow := e.gate
  switchSym := fun k => k.cfg.switchSym
  cnnHooked := fun k => k.cfg.cnnHooked
  oldPidNs := fun k =>
    match k.nsproxyOf tsk with
    | none => .error (-EINVAL)
    | some nsproxy =>
      if (k.task current).activePidNs ≠ nsproxy.pidNsForChildren then .error (-EINVAL)
      else .ok nsproxy.pidNsForChildren
  pidnsCreate := fun k old => k.pidnsCreate old e.pidns
  pidnsPut := fun k n => k.pidnsPut n
  ipcnsCreate := fun k => k.ipcnsCreate e.ipcns
  ipcnsPut := fun k n => k.ipcnsPut n
  cnnOrig := fun k flags => k.createNewNamespaces flags tsk e.cnn
  cnnPriv := fun k => k.createNewNamespaces 0 tsk e.cnnPriv
  cnOrig := fun k flags => k.copyNamespaces flags current tsk e
  nsproxyHold := fun k q => k.nsproxyHold q
  attach := fun k q newPid newIpc => k.attach q newPid newIpc
  holdOf := fun k => k.holdOf tsk
  switchTask := fun k priv => k.switchTaskNamespaces tsk (some priv)
  cnAttach := fun k newPid newIpc => k.cnAttach tsk newPid newIpc

section
variable (k : Kernel) (current tsk : ℕ) (e : Env) (flags : Flags)

theorem newPidNs_eq (want : Bool) : k.newPidNs want current tsk e.pidns =
    (createOps current tsk e).newPidNs k want := by
  unfold newPidNs CreateOps.newPidNs createOps
  dsimp only
  cases k.nsproxyOf tsk with
  | none => rfl
  | some nsproxy =>
    dsimp only
    by_cases h : (k.task current).activePidNs ≠ nsproxy.pidNsForChildren
    · simp only [if_pos h]
    · simp only [if_neg h]
      rcases k.pidnsCreate nsproxy.pidNsForChildren e.pidns with ⟨k', _ | _⟩ <;> rfl

theorem newIpcNs_eq (want : Bool) : k.newIpcNs want e.ipcns =
    (createOps current tsk e).newIpcNs k want := by
  unfold newIpcNs CreateOps.newIpcNs createOps
  dsimp only
  rcases k.ipcnsCreate e.ipcns with ⟨k', _ | _⟩ <;> rfl

theorem newNamespaces_eq : k.newNamespaces flags current tsk e =
    (createOps current tsk e).newNamespaces k flags := by
  unfold newNamespaces CreateOps.newNamespaces
  rw [newPidNs_eq]
  rcases (createOps current tsk e).newPidNs k (has flags CLONE_NEWPID) with ⟨k', _ | newPid⟩
  · rfl
  · dsimp only
    rw [newIpcNs_eq k' current tsk]
    rcases (createOps current tsk e).newIpcNs k' (has flags CLONE_NEWIPC) with ⟨k'', _ | _⟩ <;>
      rfl

theorem createOps_gateAllow : (createOps current tsk e).gateAllow = e.gate := rfl

theorem createOps_cnnOrig : (createOps current tsk e).cnnOrig k flags =
    k.createNewNamespaces flags tsk e.cnn := rfl

theorem createOps_cnnPriv : (createOps current tsk e).cnnPriv k =
    k.createNewNamespaces 0 tsk e.cnnPriv := rfl

theorem createOps_cnOrig : (createOps current tsk e).cnOrig k flags =
    k.copyNamespaces flags current tsk e := rfl

/-- **On the namespaces of tasks `droid_lkm_cnn_wrap` is that of `Kernel`.** -/
theorem cnnWrap_eq : k.cnnWrap flags current tsk e =
    (createOps current tsk e).cnnWrap k flags := by
  unfold cnnWrap CreateOps.cnnWrap
  rw [newNamespaces_eq, createOps_gateAllow, createOps_cnnOrig]
  by_cases h : (!has flags OURS || !e.gate) = true
  · rw [if_pos h, if_pos h]
    rcases k.createNewNamespaces flags tsk e.cnn with ⟨k', _ | _⟩ <;> rfl
  · rw [if_neg h, if_neg h]
    rcases (createOps current tsk e).newNamespaces k flags with ⟨k', _ | ⟨newPid, newIpc⟩⟩
    · rfl
    · dsimp only
      rw [createOps_cnnOrig]
      rcases k'.createNewNamespaces (without flags OURS) tsk e.cnn with ⟨k'', _ | _⟩ <;> rfl

theorem cnPriv_eq (inner : Flags) (newPid newIpc : Option ℕ) :
    k.cnPriv inner tsk newPid newIpc e =
      (createOps current tsk e).cnPriv k inner newPid newIpc := by
  unfold cnPriv CreateOps.cnPriv
  rw [createOps_cnnPriv]
  rcases k.createNewNamespaces 0 tsk e.cnnPriv with ⟨k', _ | _⟩ <;> rfl

/-- **And `droid_lkm_cn_wrap`.** -/
theorem cnWrap_eq : k.cnWrap flags current tsk e =
    (createOps current tsk e).cnWrap k flags := by
  unfold cnWrap CreateOps.cnWrap
  rw [newNamespaces_eq, createOps_gateAllow]
  rcases (createOps current tsk e).newNamespaces k flags with ⟨k', _ | ⟨newPid, newIpc⟩⟩
  · rfl
  · simp only [createOps_cnOrig, cnPriv_eq _ current]
    rfl

/-- **`droid_lkm_clone_ctx_enter` fails as there.** -/
theorem cloneCtxEnter_error {k' : Kernel} {err : ℤ} :
    (createOps current current e).cloneCtxEnter k flags = (k', .error err) →
    k.cloneCtxEnter flags current e = (k', .error err) := by
  unfold CreateOps.cloneCtxEnter cloneCtxEnter
  rw [newNamespaces_eq]
  rcases (createOps current current e).newNamespaces k flags with ⟨k₁, _ | ⟨newPid, newIpc⟩⟩
  · intro h
    cases h
    rfl
  · dsimp only
    rw [createOps_cnnPriv]
    rcases k₁.createNewNamespaces 0 current e.cnnPriv with ⟨k₂, _ | priv⟩ <;> intro h <;> cases h
    rfl

/-- **And it succeeds as there.** -/
theorem cloneCtxEnter_ok {k' : Kernel} {ctx : CloneCtx} :
    k.cloneCtxEnter flags current e = (k', .ok ctx) →
    (createOps current current e).cloneCtxEnter k flags = (k', .ok ctx.priv) := by
  unfold CreateOps.cloneCtxEnter cloneCtxEnter
  rw [newNamespaces_eq]
  rcases (createOps current current e).newNamespaces k flags with ⟨k₁, _ | ⟨newPid, newIpc⟩⟩
  · intro h
    cases h
  · dsimp only
    rw [createOps_cnnPriv]
    rcases k₁.createNewNamespaces 0 current e.cnnPriv with ⟨k₂, _ | priv⟩
    · intro h
      cases h
    · dsimp only
      intro h
      split at h <;> cases h
      rfl

end

end Kernel

end DroidLkm.Slot
