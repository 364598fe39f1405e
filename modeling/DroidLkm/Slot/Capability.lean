/-
  Namespaces of tasks — who may have one made.

  * `..._attached`: the functions that write no namespace just made into an nsproxy;
  * `Enters`, `Bypasses`: the calls of `clone` and `clone3`, and of the kernel's own
    `clone`, that attach one without a check of the kernel;
  * `capability_gate`: just these attach one for a caller without `CAP_SYS_ADMIN`;
  * `clone_unprivileged`: such a caller gets a child in a pid namespace of its own.
-/
import DroidLkm.Slot.Carried
import DroidLkm.Slot.Entering

namespace DroidLkm.Slot.Kernel

variable {k k' k₁ : Kernel} {t tsk c q : ℕ} {new : Option ℕ} {flags : Flags} {e : Env} {err : ℤ}
  {newPid newIpc : Option ℕ} {u : UserArgs} {cap : Bool}

/-! ## Nothing is attached -/

theorem switchTaskNamespaces_attached (k : Kernel) (t : ℕ) (new : Option ℕ) :
    (k.switchTaskNamespaces t new).attached = k.attached :=
  (switchTaskNamespaces_quiet k t new).attached.trans (switchTask_same k t new).2.2

theorem exitTaskNamespaces_attached (k : Kernel) (t : ℕ) :
    (k.exitTaskNamespaces t).attached = k.attached := by
  have hs := switchTaskNamespaces_attached k t none
  unfold exitTaskNamespaces exitNsWrap
  dsimp only
  split
  · split
    · exact (nsproxyDrop_quiet _ _).attached.trans hs
    · exact hs
  · exact hs

theorem nsproxySwitch_attached (k : Kernel) (t : ℕ) (new : Option ℕ) :
    (k.nsproxySwitch t new).attached = k.attached := by
  unfold nsproxySwitch
  split
  · exact (nsproxySwitchRun_quiet k t new).attached.trans (switchTask_same k t new).2.2
  · rfl

theorem createNewNamespaces_attached (k : Kernel) (flags : Flags) (t : ℕ) (err : ℤ) :
    (k.createNewNamespaces flags t err).1.attached = k.attached := by
  unfold createNewNamespaces
  split
  · rfl
  · split_ifs <;> rfl

theorem cloneCtxLeave_attached (k : Kernel) (t : ℕ) (ctx : CloneCtx) (e : Env) :
    (k.cloneCtxLeave t ctx e).attached = k.attached := by
  have hnew := createNewNamespaces_attached k 0 t e.cnnLeave
  unfold cloneCtxLeave
  rcases hr : k.createNewNamespaces 0 t e.cnnLeave with ⟨k₁, err | priv2⟩ <;> rw [hr] at hnew <;>
    dsimp only at hnew ⊢
  · split
    · exact hnew
    · exact hnew
  · rw [nsproxySwitch_attached]
    exact hnew

/-- Without the flags of the module nothing is made to be attached. -/
theorem createEntry_attached (k : Kernel) (t tsk : ℕ) (e : Env) (ho : has flags OURS = false) :
    (k.createEntry flags t tsk e).1.attached = k.attached := by
  have hnew := createNewNamespaces_attached k flags tsk e.cnn
  unfold createEntry
  split
  · unfold cnnWrap
    rw [if_pos (by rw [ho]; rfl)]
    rcases hr : k.createNewNamespaces flags tsk e.cnn with ⟨k₁, err | q⟩ <;> rw [hr] at hnew
    · exact hnew
    · exact (nsproxyHold_quiet k₁ q).attached.trans hnew
  · exact hnew

theorem copyNamespaces_attached (k : Kernel) (t tsk : ℕ) (e : Env) (ho : has flags OURS = false) :
    (k.copyNamespaces flags t tsk e).1.attached = k.attached := by
  have hentry := createEntry_attached k t tsk e ho
  unfold copyNamespaces
  split
  · split <;> rfl
  split
  · rfl
  split
  · rfl
  rcases hr : k.createEntry flags t tsk e with ⟨k₁, err | q⟩ <;> rw [hr] at hentry <;> exact hentry

theorem copyEntry_attached (k : Kernel) (t tsk : ℕ) (e : Env) (ho : has flags OURS = false) :
    (k.copyEntry flags t tsk e).1.attached = k.attached := by
  have hcopy := copyNamespaces_attached k t tsk e ho
  unfold copyEntry
  split
  · unfold cnWrap
    dsimp only
    rw [if_pos (by rw [ho]; rfl)]
    split
    · exact (holdOf_quiet _ tsk).attached.trans hcopy
    · exact hcopy
  · exact hcopy

/-- The rest of `copy_process` attaches nothing. -/
theorem kernelClone_attached_eq (k : Kernel) (flags : Flags) (t : ℕ) (e : Env) :
    (k.kernelClone flags t e).1.attached =
      if e.before ≠ 0 then k.attached
      else (({ k with
        task := Function.update k.task k.nextTask (k.task t)
        nextTask := k.nextTask + 1 } : Kernel).copyEntry flags t k.nextTask e).1.attached := by
  unfold kernelClone
  split
  · rfl
  dsimp only
  split
  · rfl
  split
  · exact exitTaskNamespaces_attached _ _
  · rfl

theorem kernelClone_attached (ho : has flags OURS = false) :
    (k.kernelClone flags t e).1.attached = k.attached := by
  rw [kernelClone_attached_eq]
  split
  · rfl
  · exact copyEntry_attached _ _ _ _ ho

/-! ## The checks of the kernel -/

theorem has_without_newuser : has (without flags OURS) CLONE_NEWUSER = has flags CLONE_NEWUSER :=
  has_masked (by decide)

/-- The check of the kernel reads one flag. -/
theorem kernelCapable_congr {flags' : Flags}
    (h : has flags' CLONE_NEWUSER = has flags CLONE_NEWUSER) :
    kernelCapable flags' e = kernelCapable flags e := by
  rw [kernelCapable, kernelCapable, Env.makesUser, Env.makesUser, h]

theorem kernelCapable_without :
    kernelCapable (without flags OURS) e = kernelCapable flags e :=
  kernelCapable_congr has_without_newuser

/-- The kernel makes nothing without the capability. -/
theorem copyNamespaces_incapable (k : Kernel) (t tsk : ℕ) (hinc : kernelCapable flags e = false)
    (hns : has flags KERNEL_NS = true) : k.copyNamespaces flags t tsk e = (k, -EPERM) := by
  unfold copyNamespaces
  rw [if_neg (by rw [hns]; decide), if_pos (by rw [hinc]; rfl)]

/-- What a child without namespaces of its own is given. -/
theorem copyNamespaces_shared (k : Kernel) (t tsk : ℕ) (e : Env)
    (hns : has flags KERNEL_NS = false) :
    ∃ k', k.copyNamespaces flags t tsk e = (k', 0) ∧ k'.cfg = k.cfg ∧ k'.attached = k.attached ∧
      (k'.nsproxyOf tsk ≠ none ↔ k.nsproxyOf tsk ≠ none) := by
  unfold copyNamespaces
  rw [if_pos (by rw [hns]; rfl)]
  split
  · exact ⟨k, rfl, rfl, rfl, Iff.rfl⟩
  next q hq =>
    refine ⟨_, rfl, rfl, rfl, ?_⟩
    rw [nsproxyOf, nsproxyOf, hq]
    simp [modifyNsp, hq]

theorem eperm_ne : -EPERM ≠ 0 := by decide

theorem efault_ne : -EFAULT ≠ 0 := by decide

/-- The private nsproxy of a child. -/
theorem cnPriv_spec {inner : Flags} (newPid newIpc : Option ℕ) (e : Env)
    (hns : has inner NS_FLAGS = false) :
    (k.cnPriv inner c newPid newIpc e).1.attached = k.attached ∧
      ((k.cnPriv inner c newPid newIpc e).2 = 0 ↔
        k.cfg.cnnHooked = true ∧ k.nsproxyOf c ≠ none ∧ e.cnnPriv = 0) ∧
      ((k.cnPriv inner c newPid newIpc e).2 = 0 →
        ((k.cnPriv inner c newPid newIpc e).1.task c).nsproxy ≠ none) := by
  unfold cnPriv
  rw [if_neg (by rw [hns]; exact Bool.false_ne_true)]
  cases hhook : k.cfg.cnnHooked with
  | false =>
    rw [if_pos (by rfl)]
    exact ⟨rfl, iff_of_false efault_ne fun h => Bool.false_ne_true h.1, fun h => absurd h efault_ne⟩
  | true =>
  rw [if_neg (by exact Bool.false_ne_true)]
  rcases hr : k.createNewNamespaces 0 c e.cnnPriv with ⟨k₁, err | priv⟩ <;> dsimp only
  · obtain ⟨rfl, herr, hno⟩ := createPriv_error hr
    exact ⟨(putNew_quiet _ _ _).attached, iff_of_false herr fun h => hno h.2,
      fun h => absurd h herr⟩
  · obtain ⟨rfl, hpriv, x, hx, rfl⟩ := createPriv_ok hr
    have htask := (switchTaskNamespaces_moved (k.pushNsp (k.copyNsp 0 x)) c (some k.nextNsp)).task c
    rw [if_pos rfl] at htask
    refine ⟨switchTaskNamespaces_attached _ c _,
      iff_of_true rfl ⟨rfl, by rw [hx]; exact nofun, hpriv⟩, fun _ => ?_⟩
    rw [htask]
    exact nofun

/-- The new namespaces are written into the nsproxy of the child. -/
theorem cnAttach_grows (hq : (k.task c).nsproxy ≠ none)
    (h : (newPid.isSome || newIpc.isSome) = true) :
    (k.cnAttach c newPid newIpc).attached ≠ k.attached := by
  obtain ⟨q, hq⟩ := Option.ne_none_iff_exists'.1 hq
  have hgrow := attach_grows h k q
  unfold cnAttach
  rw [hq]
  dsimp only
  split
  · exact hgrow
  · rw [(nsproxyHold_quiet _ q).attached]
    exact hgrow

/-- **`droid_lkm_cn_wrap`, of a caller without the capability.** -/
theorem cnWrap_attached_iff (hinc : kernelCapable flags e = false) (ho : has flags OURS = true) :
    (k.cnWrap flags t c e).1.attached ≠ k.attached ↔
      k.cloneNsReady flags e = true ∧ ipcWithSysvsem flags = false ∧
        has (without flags OURS) NS_FLAGS = false ∧ k.canMake flags t c e = true ∧
        k.nsproxyOf c ≠ none ∧ e.cnnPriv = 0 := by
  have hrefused := copyNamespaces_incapable k t c hinc (ours_kernel_ns ho)
  have hready : k.cloneNsReady flags e = true ↔
      k.cfg.cnnHooked = true ∧ k.cfg.switchSym = true ∧ e.gate = true := by
    simp [cloneNsReady, ho, and_assoc]
  unfold cnWrap
  simp only [hrefused, ho, Bool.not_true, Bool.false_eq_true, if_false, eperm_ne]
  rw [hready]
  by_cases hsym : k.cfg.switchSym = true
  swap
  · rw [if_pos (by simpa using hsym)]
    exact iff_of_false (fun h => h rfl) fun h => hsym h.1.2.1
  rw [if_neg (by simpa using hsym)]
  by_cases hgate : e.gate = true
  swap
  · rw [if_pos (by simpa using hgate)]
    exact iff_of_false (fun h => h rfl) fun h => hgate h.1.2.2
  rw [if_neg (by simpa using hgate)]
  cases hsv : ipcWithSysvsem flags with
  | true =>
    rw [if_pos rfl]
    exact iff_of_false (fun h => h rfl) fun h => by cases h.2.1
  | false =>
  rw [if_neg Bool.false_ne_true]
  rcases hn : k.newNamespaces flags t c e with ⟨k₁, err | ⟨newPid, newIpc⟩⟩ <;> dsimp only
  · obtain ⟨hq, -, hcan⟩ := newNamespaces_error hn
    refine iff_of_false (fun h => h hq.attached) fun h => ?_
    rw [hcan] at h
    cases h.2.2.2.1
  obtain ⟨hq, hcan, rfl, rfl⟩ := newNamespaces_ok hn
  cases hns : has (without flags OURS) NS_FLAGS with
  | true =>
    have hk := copyNamespaces_incapable k₁ t c (kernelCapable_without.trans hinc)
      (without_kernel_ns.trans hns)
    rw [hk]
    dsimp only
    rw [if_pos eperm_ne]
    exact iff_of_false (fun h => h ((putNew_quiet _ _ _).attached.trans hq.attached))
      fun h => by cases h.2.2.1
  | false =>
  obtain ⟨k₂, hk₂, hcfg, hatt, hproxy⟩ := copyNamespaces_shared k₁ t c e
    (without_kernel_ns.trans hns)
  rw [hk₂]
  dsimp only
  rw [if_neg (not_not.2 rfl)]
  have hx : k₂.nsproxyOf c ≠ none ↔ k.nsproxyOf c ≠ none := by rw [hproxy, hq.nsproxyOf]
  have hsame := hatt.trans hq.attached
  obtain ⟨hatt₃, hret, htask⟩ := cnPriv_spec (k := k₂) (c := c)
    (made (has flags CLONE_NEWPID) k.nextPid) (made (has flags CLONE_NEWIPC) k.nextIpc) e hns
  rw [hx, hcfg, hq.cfg] at hret
  rcases hr : k₂.cnPriv (without flags OURS) c (made (has flags CLONE_NEWPID) k.nextPid)
    (made (has flags CLONE_NEWIPC) k.nextIpc) e with ⟨k₃, ret⟩
  rw [hr] at hatt₃ hret htask
  dsimp only at hatt₃ hret htask ⊢
  by_cases hz : ret = 0
  · obtain ⟨hhook, hproxy, hpriv⟩ := hret.1 hz
    rw [if_neg (not_not.2 hz)]
    refine iff_of_true (fun heq => ?_) ⟨⟨hhook, hsym, hgate⟩, rfl, rfl, hcan, hproxy, hpriv⟩
    exact cnAttach_grows (htask hz) (made_some ho k.nextPid k.nextIpc)
      (heq.trans (hatt₃.trans hsame).symm)
  · rw [if_pos hz]
    refine iff_of_false (fun h => h (hatt₃.trans hsame)) fun h => ?_
    exact hz (hret.2 ⟨h.1.1, h.2.2.2.2.1, h.2.2.2.2.2⟩)

/-! ## The calls -/

/-- `clone` and `clone3` get past `droid_lkm_clone_ctx_enter`. -/
def Enters (k : Kernel) (flags : Flags) (t : ℕ) (e : Env) : Prop :=
  k.cloneNsReady flags e = true ∧ cloneNsCheck flags = 0 ∧ k.canSeat flags t e

/-- The kernel's own `clone` gets to `droid_lkm_cn_wrap`, which asks the kernel for
    nothing and gives the child a private nsproxy. -/
def Bypasses (k : Kernel) (flags : Flags) (t : ℕ) (e : Env) : Prop :=
  e.before = 0 ∧ k.cfg.cnHooked = true ∧ k.cloneNsReady flags e = true ∧
    ipcWithSysvsem flags = false ∧ has (without flags OURS) NS_FLAGS = false ∧ k.canSeat flags t e

/-- A namespace that the module made is attached only for a caller that has
    `CAP_SYS_ADMIN`, in its user namespace or in the one that the call makes;
    `cap` tells whether it has. -/
def Gated (k : Kernel) (cap : Bool) (k' : Kernel) : Prop :=
  k'.attached ≠ k.attached → cap = true

theorem gated_of_eq (h : k'.attached = k.attached) : Gated k cap k' := fun hne => absurd h hne

theorem not_gated (hne : k'.attached ≠ k.attached) (hinc : cap = false) : ¬ Gated k cap k' := by
  intro h
  rw [h hne] at hinc
  cases hinc

theorem gated_iff {p : Prop} (h : cap = false → (k'.attached ≠ k.attached ↔ p)) :
    Gated k cap k' ↔ ¬ (p ∧ cap = false) := by
  unfold Gated
  cases hc : cap with
  | true => simp
  | false =>
    rw [h hc]
    simp

/-- The child begins with the nsproxy of its parent. -/
theorem canMake_newTask (k : Kernel) (flags : Flags) (t : ℕ) (e : Env) :
    ({ k with
      task := Function.update k.task k.nextTask (k.task t)
      nextTask := k.nextTask + 1 } : Kernel).canMake flags t k.nextTask e =
      k.canMake flags t t e := by
  have hself : Function.update k.task k.nextTask (k.task t) t = k.task t := by
    by_cases ht : t = k.nextTask
    · rw [ht, Function.update_self]
    · rw [Function.update_of_ne ht]
  simp [canMake, canMakePid, nsproxyOf, hself]

theorem kernelClone_attached_iff (hinc : kernelCapable flags e = false) :
    (k.kernelClone flags t e).1.attached ≠ k.attached ↔ k.Bypasses flags t e := by
  rw [kernelClone_attached_eq]
  cases ho : has flags OURS with
  | false =>
    refine iff_of_false (fun h => h ?_) fun h => ?_
    · split
      · rfl
      · exact copyEntry_attached _ _ _ _ ho
    · simp [Bypasses, cloneNsReady, ho] at h
  | true =>
  by_cases hb : e.before = 0
  swap
  · rw [if_pos hb]
    exact iff_of_false (fun h => h rfl) fun h => hb h.1
  rw [if_neg (not_not.2 hb)]
  unfold copyEntry
  split
  next hcn =>
    have hiff := cnWrap_attached_iff (k := { k with
      task := Function.update k.task k.nextTask (k.task t)
      nextTask := k.nextTask + 1 }) (t := t) (c := k.nextTask) hinc ho
    rw [canMake_newTask] at hiff
    refine hiff.trans ?_
    have hx : ({ k with
      task := Function.update k.task k.nextTask (k.task t)
      nextTask := k.nextTask + 1 } : Kernel).nsproxyOf k.nextTask = k.nsproxyOf t := by
      simp [nsproxyOf]
    rw [hx]
    exact ⟨fun h => ⟨hb, hcn, h.1, h.2.1, h.2.2.1, h.2.2.2⟩, fun h => h.2.2⟩
  next hcn =>
    rw [copyNamespaces_incapable _ _ _ hinc (ours_kernel_ns ho)]
    exact iff_of_false (fun h => h rfl) fun h => hcn h.2.1

/-- Between entering and leaving, around a call that attaches nothing. -/
theorem cloneBetween_attached_iff (hw : Wf k) (ho : has flags OURS = true)
    {orig : Kernel → Kernel × Except ℤ ℕ} (horig : ∀ k, (orig k).1.attached = k.attached) :
    (k.cloneBetween flags t e orig).1.attached ≠ k.attached ↔
      cloneNsCheck flags = 0 ∧ k.canSeat flags t e := by
  have hspec := cloneCtxEnter_spec hw flags t e
  unfold cloneBetween
  by_cases hc : cloneNsCheck flags = 0
  swap
  · rw [if_pos hc]
    exact iff_of_false (fun h => h rfl) fun h => hc h.1
  rw [if_neg (not_not.2 hc)]
  rcases hr : k.cloneCtxEnter flags t e with ⟨k₁, err | ctx⟩ <;> rw [hr] at hspec <;>
    dsimp only at hspec ⊢
  · exact iff_of_false (fun h => h hspec.1.attached) fun h => hspec.2.2 h.2
  · obtain ⟨hcan, x, hin⟩ := hspec
    rw [cloneCtxLeave_attached, horig]
    exact iff_of_true (hin.attached ho) ⟨hc, hcan⟩

/-- `droid_lkm_clone_ns_ready` reads the flags that the kernel reads too. -/
theorem ready_cloneFlags : k.cloneNsReady (cloneFlags flags) e = k.cloneNsReady flags e := by
  rw [cloneNsReady, cloneNsReady, has_cloneFlags (by decide)]

theorem capable_cloneFlags : kernelCapable (cloneFlags flags) e = kernelCapable flags e :=
  kernelCapable_congr (has_cloneFlags (by decide))

theorem sysClone_attached_iff (hw : Wf k) (hinc : kernelCapable flags e = false) :
    (k.sysClone flags t e).1.attached ≠ k.attached ↔ k.Enters flags t e := by
  unfold sysClone
  cases hr : k.cloneNsReady flags e with
  | false =>
    rw [if_pos (show (!false) = true from rfl),
      kernelClone_attached_iff (capable_cloneFlags.trans hinc)]
    refine iff_of_false (fun h => ?_) fun h => ?_
    · have := h.2.2.1
      rw [ready_cloneFlags, hr] at this
      cases this
    · rw [Enters, hr] at h
      cases h.1
  | true =>
    rw [if_neg (show ¬ (!true) = true from Bool.false_ne_true),
      cloneBetween_attached_iff hw (has_ready hr).1 fun k => kernelClone_attached cloneFlags_ours,
      Enters, and_iff_right hr]

theorem kernelClone3_attached (ho : has flags OURS = false) :
    (k.kernelClone3 flags t u e).1.attached = k.attached := by
  unfold kernelClone3
  split
  · rfl
  · exact kernelClone_attached ho

/-- `clone3` gets there, with the arguments that the module read or with those that
    the kernel read. -/
def Enters3 (k : Kernel) (flags : Flags) (t : ℕ) (u : UserArgs) (e : Env) : Prop :=
  if u.given = true ∧ u.copyFrom = true then k.Enters flags t e
  else u.kernelCopy = 0 ∧ k.Bypasses flags t e

/-- The kernel's `clone3` reads its arguments, and so comes to make a user namespace:
    the module has given it the call, or has written the flags that are left. -/
def comesTo3 (k : Kernel) (flags : Flags) (u : UserArgs) (e : Env) : Bool :=
  u.kernelCopy == 0 &&
    (u.copyTo || !u.given || !u.copyFrom || !k.cloneNsReady flags e)

/-- `kernelCapable`, of `clone3`. -/
def capable3 (k : Kernel) (flags : Flags) (u : UserArgs) (e : Env) : Bool :=
  e.capable || (k.comesTo3 flags u e && e.makesUser flags)

/-- The caller of a `clone3` that the module leaves to the kernel. -/
theorem kernelClone3_attached_iff (hinc : u.kernelCopy = 0 → kernelCapable flags e = false) :
    (k.kernelClone3 flags t u e).1.attached ≠ k.attached ↔
      u.kernelCopy = 0 ∧ k.Bypasses flags t e := by
  unfold kernelClone3
  by_cases hu : u.kernelCopy = 0
  · rw [if_neg (not_not.2 hu), kernelClone_attached_iff (hinc hu), and_iff_right hu]
  · rw [if_pos hu]
    exact iff_of_false (fun h => h rfl) fun h => hu h.1

theorem incapable_of_comes (hinc : k.capable3 flags u e = false)
    (hcomes : k.comesTo3 flags u e = true) : kernelCapable flags e = false := by
  rw [capable3, hcomes, Bool.true_and] at hinc
  exact hinc

theorem sysClone3_attached_iff (hw : Wf k) (hinc : k.capable3 flags u e = false) :
    (k.sysClone3 flags t u e).1.attached ≠ k.attached ↔ k.Enters3 flags t u e := by
  unfold sysClone3 Enters3
  by_cases hu : u.given = true ∧ u.copyFrom = true
  swap
  · have hleft : (!u.given || !u.copyFrom) = true := by
      cases hg : u.given <;> cases hf : u.copyFrom <;> simp_all
    rw [if_neg hu, if_pos (by rw [hleft]; rfl)]
    refine kernelClone3_attached_iff fun hk => incapable_of_comes hinc ?_
    rw [comesTo3, hk, Bool.or_assoc u.copyTo, hleft, Bool.or_true]
    rfl
  obtain ⟨hg, hf⟩ := hu
  rw [if_pos (show u.given = true ∧ u.copyFrom = true from ⟨hg, hf⟩), hg, hf]
  cases hr : k.cloneNsReady flags e with
  | false =>
    rw [if_pos (show (!true || !true || !false) = true from rfl), kernelClone3_attached_iff
      fun hk => incapable_of_comes hinc
        (by rw [comesTo3, hk, hr, Bool.not_false, Bool.or_true]; rfl)]
    refine iff_of_false (fun h => ?_) fun h => ?_
    · have := h.2.2.2.1
      rw [hr] at this
      cases this
    · rw [Enters, hr] at h
      cases h.1
  | true =>
    rw [if_neg (show ¬ (!true || !true || !true) = true from Bool.false_ne_true),
      cloneBetween_attached_iff hw (has_ready hr).1, Enters, and_iff_right hr]
    intro k
    split
    · rfl
    · exact kernelClone3_attached without_ours

theorem kernelUnshare_gated (k : Kernel) (flags : Flags) (t : ℕ) (e : Env) :
    Gated k (kernelCapable flags e) (k.kernelUnshare flags t e).1 := by
  unfold kernelUnshare
  split
  · exact gated_of_eq rfl
  split
  · exact gated_of_eq rfl
  split
  · exact gated_of_eq rfl
  next hcap => exact fun _ => by simpa using hcap

theorem kernelUnshare_attached (ho : has flags OURS = false) :
    (k.kernelUnshare flags t e).1.attached = k.attached := by
  have hentry := createEntry_attached k t t e ho
  unfold kernelUnshare
  split
  · rfl
  split
  · rfl
  split
  · rfl
  rcases hr : k.createEntry flags t t e with ⟨k₁, err | q⟩ <;> rw [hr] at hentry
  · exact hentry
  · exact (switchTaskNamespaces_attached k₁ t _).trans hentry

theorem kernelUnshare_capable (hns : has flags KERNEL_NS = true)
    (hret : (k.kernelUnshare flags t e).2 = 0) : kernelCapable flags e = true := by
  unfold kernelUnshare at hret
  split at hret
  next hb => exact absurd hret hb
  rw [if_neg (by rw [hns]; exact Bool.false_ne_true)] at hret
  split at hret
  · exact absurd hret eperm_ne
  next hcap => simpa using hcap

theorem capable_legacyFlags : kernelCapable (legacyFlags flags) e = kernelCapable flags e := by
  have huts : has CLONE_NEWUSER CLONE_NEWUTS = false := by decide
  have hlegacy : has (legacyFlags flags) CLONE_NEWUSER = has flags CLONE_NEWUSER := by
    unfold legacyFlags
    dsimp only
    split
    · exact has_without_newuser
    · rw [has_comm, has_or, huts, Bool.or_false, has_comm, has_without_newuser]
  exact kernelCapable_congr hlegacy

/-- **The old path has the kernel make something, and so check.** -/
theorem unshareLegacy_gated (k₀ k : Kernel) (flags : Flags) (t : ℕ) (e : Env) :
    Gated k (kernelCapable flags e) (unshareLegacy (k₀.unshareOps t e) k flags).1 := by
  obtain ⟨hns, ho⟩ := has_legacyFlags flags
  unfold unshareLegacy
  dsimp only [unshareOps]
  split
  · exact gated_of_eq (kernelUnshare_attached ho)
  next hret =>
    intro _
    rw [← capable_legacyFlags]
    exact kernelUnshare_capable hns (not_not.1 hret)

theorem sysUnshare_gated (k : Kernel) (flags : Flags) (t : ℕ) (e : Env) :
    Gated k (kernelCapable flags e) (sysUnshare (k.unshareOps t e) k flags).1 := by
  have hkernel := kernelUnshare_gated k flags t e
  have hlegacy := unshareLegacy_gated k k flags t e
  unfold sysUnshare
  simp only [flushIpc, unshareOps, id_eq, ite_self]
  split
  · exact hkernel
  split
  · exact hkernel
  split
  · exact gated_of_eq rfl
  split
  · exact hlegacy
  · exact hkernel

/-- **Along which paths the capability is checked**, and for the others the callers for
    whom it is not. -/
theorem capability_gate (hw : Wf k) (flags : Flags) (t : ℕ) (u : UserArgs) (e : Env) :
    Gated k (kernelCapable flags e) (k.kernelUnshare flags t e).1 ∧
      Gated k (kernelCapable flags e) (sysUnshare (k.unshareOps t e) k flags).1 ∧
      Gated k (kernelCapable flags e) (unshareLegacy (k.unshareOps t e) k flags).1 ∧
      (Gated k (kernelCapable flags e) (k.sysClone flags t e).1 ↔
        ¬ (k.Enters flags t e ∧ kernelCapable flags e = false)) ∧
      (Gated k (k.capable3 flags u e) (k.sysClone3 flags t u e).1 ↔
        ¬ (k.Enters3 flags t u e ∧ k.capable3 flags u e = false)) ∧
      (Gated k (kernelCapable flags e) (k.kernelClone flags t e).1 ↔
        ¬ (k.Bypasses flags t e ∧ kernelCapable flags e = false)) :=
  ⟨kernelUnshare_gated k flags t e, sysUnshare_gated k flags t e, unshareLegacy_gated k k flags t e,
    gated_iff (sysClone_attached_iff hw), gated_iff (sysClone3_attached_iff hw),
    gated_iff kernelClone_attached_iff⟩

/-- Nothing fails, and the caller has no capability. -/
def unprivileged : Env where
  gate := true
  capable := false
  capableIn := false
  pidns := 0
  ipcns := 0
  cnn := 0
  cnnPriv := 0
  cnnLeave := 0
  check := 0
  before := 0
  after := 0
  user := false

/-- The same caller gets nothing by `unshare`. -/
theorem capability_gate_unshare :
    Gated (init .hooked) (kernelCapable CLONE_NEWIPC unprivileged)
      (sysUnshare ((init .hooked).unshareOps 0 unprivileged) (init .hooked) CLONE_NEWIPC).1 :=
  (capability_gate (init_wf .hooked) CLONE_NEWIPC 0 ⟨true, true, true, 0⟩ unprivileged).2.1

/-- The kernel takes no user namespace together with the filesystem of the caller. -/
def refusedFlags : Flags := CLONE_NEWUSER ||| CLONE_FS ||| CLONE_NEWPID

/-- It refuses them before it makes a user namespace. -/
def refusing : Env := { unprivileged with before := -EINVAL }

/-- **A caller without `CAP_SYS_ADMIN` gets a child in new namespaces**, by the call of
    the module and by the entry that leads to `droid_lkm_cn_wrap`; and a call that the kernel
    refuses has been carried out by the module before. -/
theorem clone_unprivileged :
    kernelCapable CLONE_NEWPID unprivileged = false ∧
      ¬ Gated (init .hooked) (kernelCapable CLONE_NEWPID unprivileged)
        ((init .hooked).sysClone CLONE_NEWPID 0 unprivileged).1 ∧
      ((init .hooked).sysClone CLONE_NEWPID 0 unprivileged).2 = .ok 1 ∧
      (((init .hooked).sysClone CLONE_NEWPID 0 unprivileged).1.task 1).activePidNs = 1 ∧
      ((init .hooked).kernelClone CLONE_NEWPID 0 unprivileged).2 = .ok 1 ∧
      (((init .hooked).kernelClone CLONE_NEWPID 0 unprivileged).1.task 1).activePidNs = 1 ∧
      ¬ Gated (init .hooked) (kernelCapable refusedFlags refusing)
        ((init .hooked).sysClone refusedFlags 0 refusing).1 ∧
      ((init .hooked).sysClone refusedFlags 0 refusing).2 = .error (-EINVAL) := by
  have hinc : kernelCapable CLONE_NEWPID unprivileged = false := by decide
  have hinc' : kernelCapable refusedFlags refusing = false := by decide
  exact ⟨hinc, not_gated (by decide) hinc, by decide, by decide, by decide, by decide,
    not_gated (by decide) hinc', by decide⟩

end DroidLkm.Slot.Kernel
