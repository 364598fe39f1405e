/-
  `unshare` that succeeds — what it changes.

  The other namespaces of an nsproxy are told apart here by their kind; a
  namespace that is new is named after the nsproxy that it was made with.

  * `Detailed`: the system of `Sys` with a table of the other namespaces;
  * `Detailed.unshare`: `droid_lkm_sys_unshare` on it, which is that of `Sys`
    but for the table (`unshare_toSys`);
  * `Changes`: what a call should change of tasks;
  * `unshare_changes`: a call that succeeds changes just that, and of the other
    namespaces what was asked, or the uts namespace of the legacy path.
-/
import DroidLkm.Slot.Asked

namespace DroidLkm.Slot

/-! ## `unshare` on two states -/

/-- What `o'` does to the image of a state under `f` is the image of what `o` does. -/
structure UnshareOps.Maps {σ τ : Type} (o : UnshareOps σ) (o' : UnshareOps τ) (f : σ → τ) :
    Prop where
  gateAllow : o'.gateAllow = o.gateAllow
  noFakeNs : o'.noFakeNs = o.noFakeNs
  cnnHooked : o'.cnnHooked = o.cnnHooked
  unsharePrecheck : ∀ s flags, o'.unsharePrecheck (f s) flags = o.unsharePrecheck s flags
  origUnshare : ∀ s flags, o'.origUnshare (f s) flags = Prod.map f id (o.origUnshare s flags)
  exitSem : ∀ s, o'.exitSem (f s) = f (o.exitSem s)
  exitShm : ∀ s, o'.exitShm (f s) = f (o.exitShm s)
  slotInstallIpcns : ∀ s, o'.slotInstallIpcns (f s) = Prod.map f id (o.slotInstallIpcns s)
  slotInstallPidns : ∀ s, o'.slotInstallPidns (f s) = Prod.map f id (o.slotInstallPidns s)
  keepalivePin : ∀ s, o'.keepalivePin (f s) = f (o.keepalivePin s)

namespace UnshareOps.Maps

variable {σ τ : Type} {o : UnshareOps σ} {o' : UnshareOps τ} {f : σ → τ}

theorem flushIpc (h : o.Maps o' f) (s : σ) (flags : Flags) :
    Slot.flushIpc o' (f s) flags = f (Slot.flushIpc o s flags) := by
  unfold Slot.flushIpc
  dsimp only
  split_ifs
  · rw [h.exitSem, h.exitShm]
  · exact h.exitShm s
  · exact h.exitSem s
  · rfl

theorem installIpcns (h : o.Maps o' f) (s : σ) (flags : Flags) :
    Slot.installIpcns o' (f s) flags = Prod.map f id (Slot.installIpcns o s flags) := by
  unfold Slot.installIpcns
  split
  · exact h.slotInstallIpcns s
  · rfl

theorem installPidns (h : o.Maps o' f) (s : σ) (flags : Flags) :
    Slot.installPidns o' (f s) flags = Prod.map f id (Slot.installPidns o s flags) := by
  unfold Slot.installPidns
  split
  · exact h.slotInstallPidns s
  · rfl

theorem unshareLegacy (h : o.Maps o' f) (s : σ) (flags : Flags) :
    Slot.unshareLegacy o' (f s) flags = Prod.map f id (Slot.unshareLegacy o s flags) := by
  unfold Slot.unshareLegacy
  rw [h.origUnshare]
  rcases o.origUnshare s (legacyFlags flags) with ⟨s₁, ret⟩
  dsimp only [Prod.map, id_eq]
  by_cases hr : ret ≠ 0
  · rw [if_pos hr, if_pos hr]
  rw [if_neg hr, if_neg hr, h.flushIpc, h.installIpcns]
  rcases Slot.installIpcns o (Slot.flushIpc o s₁ flags) flags with ⟨s₂, ret₂⟩
  dsimp only [Prod.map, id_eq]
  by_cases hr₂ : ret₂ ≠ 0
  · rw [if_pos hr₂, if_pos hr₂]
  rw [if_neg hr₂, if_neg hr₂, h.installPidns]
  exact Prod.ext (h.keepalivePin _) rfl

/-- **`droid_lkm_sys_unshare` on the image is the image of it.** -/
theorem sysUnshare (h : o.Maps o' f) (s : σ) (flags : Flags) :
    Slot.sysUnshare o' (f s) flags = Prod.map f id (Slot.sysUnshare o s flags) := by
  unfold Slot.sysUnshare
  rw [h.gateAllow, h.noFakeNs, h.cnnHooked, h.unsharePrecheck, h.origUnshare, h.unshareLegacy,
    h.flushIpc]
  split
  · rfl
  split
  · rfl
  split
  · rfl
  split
  · rfl
  split
  · rfl
  simp only [h.origUnshare, Prod.map, id_eq]
  refine Prod.ext ?_ rfl
  dsimp only
  split
  · exact h.keepalivePin _
  · rfl

end UnshareOps.Maps

/-! ## The other namespaces -/

/-- The kinds of namespaces that are the kernel's alone and that an nsproxy names. -/
inductive Other where
  | mnt
  | uts
  | net
  | cgroup
  | time
  deriving DecidableEq

/-- The flag that asks for a new one. -/
def Other.flag : Other → Flags
  | mnt => CLONE_NEWNS
  | uts => CLONE_NEWUTS
  | net => CLONE_NEWNET
  | cgroup => CLONE_NEWCGROUP
  | time => CLONE_NEWTIME

/-- `kind q` are the other namespaces that the nsproxy `q` names. -/
structure Detailed extends Sys where
  kind : ℕ → Other → ℕ

namespace Detailed

section
variable (s : Detailed) (t : ℕ) (e : Env)

/-- What a new nsproxy `q` names: the new namespaces of the kinds that are asked
    for, and those of the task of the rest. -/
def copyKinds (flags : Flags) (q : ℕ) (κ : Other) : ℕ :=
  if has flags κ.flag then q
  else match (s.kernel.task t).nsproxy with
    | none => q
    | some old => s.kind old κ

/-- `create_new_namespaces`, by its entry.  Of the other kinds, the wrap passes
    on what it was asked for. -/
def createEntry (flags : Flags) : Detailed × Except ℤ ℕ :=
  match s.kernel.createEntry flags t t e with
  | (k, .error err) => ({ s with kernel := k }, .error err)
  | (k, .ok q) =>
    ({ s with kernel := k, kind := Function.update s.kind q (s.copyKinds t flags q) }, .ok q)

/-- The kernel's `ksys_unshare`. -/
def kernelUnshare (flags : Flags) : Detailed × ℤ :=
  if e.before ≠ 0 then (s, e.before)
  else if !has flags KERNEL_NS then (s, 0)
  else if !Kernel.kernelCapable flags e then (s, -EPERM)
  else match s.createEntry t e flags with
    | (s, .error err) => (s, err)
    | (s, .ok q) => ({ s with kernel := s.kernel.switchTaskNamespaces t (some q) }, 0)

/-- A function of the system without the table. -/
def onSys (f : Sys → Sys × ℤ) : Detailed × ℤ :=
  ({ s with toSys := (f s.toSys).1 }, (f s.toSys).2)

def unshareOps : UnshareOps Detailed where
  gateAllow := e.gate
  noFakeNs := s.kernel.cfg.noFakeNs
  cnnHooked := s.kernel.cfg.cnnHooked
  unsharePrecheck := fun s flags => s.kernel.unsharePrecheck t e flags
  origUnshare := fun s flags => s.kernelUnshare t e flags
  exitSem := fun s => { s with toSys := s.toSys.exitSem t }
  exitShm := fun s => { s with toSys := s.toSys.exitShm t }
  slotInstallIpcns := fun s => s.onSys (·.onKernel (·.slotInstallIpcns t e))
  slotInstallPidns := fun s => s.onSys (·.onKernel (·.slotInstallPidns t e))
  keepalivePin := id

/-- `droid_lkm_sys_unshare` -/
def unshare (flags : Flags) : Detailed × ℤ := sysUnshare (s.unshareOps t e) s flags

/-- The namespace of a kind that the task is in. -/
def kindOf (κ : Other) : Option ℕ := (s.kernel.task t).nsproxy.map fun q => s.kind q κ

end

variable {s s' : Detailed} {t u q : ℕ} {e : Env} {flags : Flags} {κ : Other}

theorem kernelUnshare_toSys (s : Detailed) (t : ℕ) (e : Env) (flags : Flags) :
    s.toSys.onKernel (·.kernelUnshare flags t e) =
      Prod.map toSys id (s.kernelUnshare t e flags) := by
  unfold kernelUnshare Kernel.kernelUnshare createEntry Sys.onKernel
  dsimp only
  split
  · rfl
  split
  · rfl
  split
  · rfl
  rcases s.kernel.createEntry flags t t e with ⟨k, err | q⟩ <;> rfl

theorem unshareOps_maps (s : Detailed) (t : ℕ) (e : Env) :
    (s.unshareOps t e).Maps (s.toSys.unshareOps t e) toSys where
  gateAllow := rfl
  noFakeNs := rfl
  cnnHooked := rfl
  unsharePrecheck _ _ := rfl
  origUnshare s flags := kernelUnshare_toSys s t e flags
  exitSem _ := rfl
  exitShm _ := rfl
  slotInstallIpcns _ := rfl
  slotInstallPidns _ := rfl
  keepalivePin _ := rfl

/-- **But for the table it is the call of `Sys`.** -/
theorem unshare_toSys (s : Detailed) (t : ℕ) (e : Env) (flags : Flags) :
    s.toSys.unshare t e flags = Prod.map toSys id (s.unshare t e flags) :=
  (unshareOps_maps s t e).sysUnshare s flags

/-! ## The table -/

/-- What the kernel's `unshare` makes of the table: a line for the nsproxy that it makes. -/
def newKinds (s : Detailed) (t : ℕ) (flags : Flags) : ℕ → Other → ℕ :=
  if has flags KERNEL_NS then
    Function.update s.kind s.kernel.nextNsp (s.copyKinds t flags s.kernel.nextNsp)
  else s.kind

theorem kernelUnshare_kind (h : (s.kernelUnshare t e flags).2 = 0) :
    (s.kernelUnshare t e flags).1.kind = s.newKinds t flags := by
  unfold kernelUnshare newKinds at *
  by_cases hb : e.before = 0
  swap
  · rw [if_pos hb] at h
    exact absurd h hb
  rw [if_neg (not_not.2 hb)] at h ⊢
  cases hf : has flags KERNEL_NS with
  | false => rfl
  | true =>
    rw [hf, Bool.not_true, if_neg Bool.false_ne_true] at h
    rw [Bool.not_true, if_neg Bool.false_ne_true, if_pos rfl]
    by_cases hc : (!Kernel.kernelCapable flags e) = true
    · rw [if_pos hc] at h
      exact absurd (show (-EPERM : ℤ) = 0 from h) (by decide)
    rw [if_neg hc] at h ⊢
    unfold createEntry at h ⊢
    rcases hr : s.kernel.createEntry flags t t e with ⟨k, err | q⟩ <;> rw [hr] at h
    · exact absurd h (Kernel.createEntry_error hr).2
    · obtain ⟨-, -, rfl, -⟩ := Kernel.createEntry_ok hr
      rfl

variable {s₀ : Detailed}

theorem flushIpc_same (s₀ s : Detailed) (t : ℕ) (e : Env) (flags : Flags) :
    (flushIpc (s₀.unshareOps t e) s flags).kernel = s.kernel ∧
      (flushIpc (s₀.unshareOps t e) s flags).kind = s.kind := by
  have hmap := (unshareOps_maps s₀ t e).flushIpc s flags
  refine ⟨?_, ?_⟩
  · rw [← Sys.flushIpc_kernel s₀.toSys s.toSys t e flags, hmap]
  · unfold flushIpc
    dsimp only [unshareOps]
    split_ifs <;> rfl

theorem install_kind (s₀ s : Detailed) (t : ℕ) (e : Env) (flags : Flags) :
    (installIpcns (s₀.unshareOps t e) s flags).1.kind = s.kind ∧
      (installPidns (s₀.unshareOps t e) s flags).1.kind = s.kind := by
  unfold installIpcns installPidns
  constructor <;> split <;> rfl

theorem newKinds_congr (hk : s'.kernel = s.kernel) (hkind : s'.kind = s.kind) :
    s'.newKinds t flags = s.newKinds t flags := by
  unfold newKinds
  have hcopy : ∀ q, s'.copyKinds t flags q = s.copyKinds t flags q := by
    intro q
    funext κ
    unfold copyKinds
    rw [hk, hkind]
  rw [hk, hkind, hcopy]

theorem unshareLegacy_kind (h : (unshareLegacy (s₀.unshareOps t e) s flags).2 = 0) :
    (unshareLegacy (s₀.unshareOps t e) s flags).1.kind = s.newKinds t (legacyFlags flags) := by
  unfold unshareLegacy at h ⊢
  dsimp only at h ⊢
  by_cases hr : ((s₀.unshareOps t e).origUnshare s (legacyFlags flags)).2 ≠ 0
  · rw [if_pos hr] at h
    exact absurd h hr
  rw [if_neg hr] at h ⊢
  split at h
  · exact absurd h ‹_›
  rw [if_neg ‹_›]
  show (installPidns (s₀.unshareOps t e) _ flags).1.kind = _
  rw [(install_kind s₀ _ t e flags).2, (install_kind s₀ _ t e flags).1,
    (flushIpc_same s₀ _ t e flags).2]
  exact kernelUnshare_kind (not_not.1 hr)

/-- **The other namespaces after a successful call.** -/
theorem unshare_kind (hgate : e.gate = true) (hfake : s.kernel.cfg.noFakeNs = false)
    (hret : (s.unshare t e flags).2 = 0) : (s.unshare t e flags).1.kind =
      s.newKinds t (passedFlags s.kernel.cfg.cnnHooked flags) := by
  unfold unshare sysUnshare at hret ⊢
  unfold passedFlags
  cases hours : has flags (OURS ||| CLONE_SYSVSEM) with
  | false =>
    rw [hours] at hret
    exact kernelUnshare_kind hret
  | true =>
    have hg : (s.unshareOps t e).gateAllow = true := hgate
    have hn : (s.unshareOps t e).noFakeNs = false := hfake
    rw [hours, hg, hn] at hret
    rw [hg, hn]
    cases hhook : s.kernel.cfg.cnnHooked with
    | false =>
      have hh : (s.unshareOps t e).cnnHooked = false := hhook
      rw [hh] at hret ⊢
      exact unshareLegacy_kind hret
    | true =>
      have hh : (s.unshareOps t e).cnnHooked = true := hhook
      rw [hh] at hret ⊢
      simp only [Bool.not_true, Bool.false_eq_true, if_false, Bool.and_false] at hret ⊢
      split at hret
      next hp =>
        rw [if_pos hp]
        exact kernelUnshare_kind hret
      next hp =>
        rw [if_neg hp]
        obtain ⟨hk, hkind⟩ := flushIpc_same s s t e flags
        rw [← newKinds_congr hk hkind, ← kernelUnshare_kind hret]
        split <;> rfl

/-! ## The call -/

/-- The legacy path asks the kernel for a new uts namespace, where it is asked
    for none of the kernel's, to get an nsproxy. -/
def SpareUts (s : Detailed) (flags : Flags) (κ : Other) : Prop :=
  κ = .uts ∧ s.kernel.cfg.cnnHooked = false ∧ has flags (OURS ||| CLONE_SYSVSEM) = true ∧
    ∀ κ : Other, has flags κ.flag = false

theorem has_passedFlags (h : has (passedFlags s.kernel.cfg.cnnHooked flags) κ.flag = true) :
    has flags κ.flag = true ∨ s.SpareUts flags κ := by
  unfold passedFlags at h
  by_cases hl : (has flags (OURS ||| CLONE_SYSVSEM) && !s.kernel.cfg.cnnHooked) = true
  swap
  · rw [if_neg hl] at h
    exact Or.inl h
  rw [if_pos hl] at h
  have hsub : ∀ κ : Other, has (without flags OURS) κ.flag = has flags κ.flag := by
    intro κ
    unfold without
    cases κ <;> exact has_masked (by decide)
  unfold legacyFlags at h
  dsimp only at h
  split at h
  · rw [hsub] at h
    exact Or.inl h
  next hns =>
    rw [has_comm, has_or, Bool.or_eq_true, has_comm, hsub] at h
    refine h.imp id fun huts => ?_
    obtain ⟨hours, hhook⟩ := Bool.and_eq_true_iff.1 hl
    refine ⟨?_, by simpa using hhook, hours, fun κ' => ?_⟩
    · cases κ <;> first | rfl | exact absurd huts (by decide)
    · rw [← hsub]
      by_contra hκ
      refine hns (has_of_sub ?_ (Bool.not_eq_false _ ▸ hκ))
      cases κ' <;> decide

/-- What a call should change of tasks: the caller is on an nsproxy with the
    namespaces that it asked for, and the other tasks are where they were. -/
structure Changes (t : ℕ) (flags : Flags) (s s' : Detailed) : Prop where
  caller : ∃ x y, s.kernel.nsproxyOf t = some x ∧ s'.kernel.nsproxyOf t = some y ∧
    Sys.Asked s.kernel flags x y
  apart : ∀ u, u ≠ t → s'.kernel.task u = s.kernel.task u ∧
    s'.kernel.namesOf u = s.kernel.namesOf u ∧ ∀ κ, s'.kindOf u κ = s.kindOf u κ

/-- **A successful `unshare` changes what was asked.**  Of the other namespaces
    it changes those whose flag is given, or the uts namespace, where the
    legacy path makes one to get an nsproxy.  The undo list is flushed just if
    the ipc namespace or the list is to be left, where the call is not sent
    past the flush. -/
theorem unshare_changes {cfg : Config}
    (hrun : Machine.Run Kernel.step (Kernel.init cfg) s.kernel) (ht : s.kernel.live t = true)
    (hgate : e.gate = true) (hfake : s.kernel.cfg.noFakeNs = false)
    (hret : (s.unshare t e flags).2 = 0) :
    Changes t flags s (s.unshare t e flags).1 ∧
      (∀ κ, (s.unshare t e flags).1.kindOf t κ ≠ s.kindOf t κ →
        has flags κ.flag = true ∨ s.SpareUts flags κ) ∧
      ((has flags (OURS ||| CLONE_SYSVSEM) = true → s.kernel.cfg.cnnHooked = true →
          s.kernel.unsharePrecheck t e flags = true) →
        Sys.Flushes t flags s.toSys (s.unshare t e flags).1.toSys) := by
  obtain ⟨hw, hb⟩ := Kernel.run_backed hrun
  have hsys := s.unshare_toSys t e flags
  have hret' : (s.toSys.unshare t e flags).2 = 0 := by
    rw [hsys]
    exact hret
  have hseat := Sys.unshare_seated hw hb ht hgate hfake hret'
  rw [hsys] at hseat
  obtain ⟨hseat, hflush⟩ := hseat
  have hkind := unshare_kind hgate hfake hret
  rw [← and_assoc]
  refine ⟨?_, hflush⟩
  unfold newKinds at hkind
  split at hseat
  next hf =>
    rw [if_pos hf] at hkind
    obtain ⟨x, y, hx, hasked, hseat⟩ := hseat
    dsimp only [Prod.map] at hseat
    refine ⟨⟨⟨x, y, hx, hseat.nsproxyOf, hasked⟩, fun u hu => ?_⟩, fun κ hκ => ?_⟩
    · obtain ⟨htask, hnames⟩ := hseat.apart hw hu
      refine ⟨htask, hnames, fun κ => ?_⟩
      unfold kindOf
      rw [htask, hkind]
      cases hq : (s.kernel.task u).nsproxy with
      | none => rfl
      | some q =>
        rw [Option.map_some, Option.map_some,
          Function.update_of_ne (Nat.ne_of_lt (hw.task u q hq).2)]
    · refine has_passedFlags ?_
      by_contra hno
      refine hκ ?_
      obtain ⟨q, hq, -⟩ := Kernel.nsproxyOf_some hx
      unfold kindOf
      rw [hseat.task, Function.update_self, Option.map_some, hkind, Function.update_self, copyKinds,
        if_neg hno, hq]
      rfl
  next hf =>
    rw [if_neg hf] at hkind
    obtain ⟨hours, hsame⟩ := hseat
    dsimp only [Prod.map] at hsame
    have hkinds : ∀ u κ, (s.unshare t e flags).1.kindOf u κ = s.kindOf u κ := by
      intro u κ
      unfold kindOf
      rw [hsame, hkind]
    obtain ⟨x, hx⟩ := Kernel.run_nsproxy hrun ht
    refine ⟨⟨⟨x, x, hx, by rw [hsame]; exact hx, Sys.asked_refl s.kernel hours x⟩,
      fun u _ => ⟨by rw [hsame], by rw [hsame], hkinds u⟩⟩, fun κ hκ => ?_⟩
    exact absurd (hkinds t κ) hκ

/-! ## One task on the host -/

/-- Nothing fails but, maybe, the checks of capabilities. -/
def settled (capable : Bool) : Env := ⟨true, capable, capable, 0, 0, 0, 0, 0, 0, 0, 0, false⟩

/-- The task of `Sys.sample`, in the first namespace of every kind. -/
def sample (cfg : Config) : Detailed := { Sys.sample cfg with kind := fun _ _ => 0 }

/-- It leaves two namespaces at once. -/
theorem unshare_changes_both : Changes 0 (CLONE_NEWPID ||| CLONE_NEWIPC) (sample .hooked)
    ((sample .hooked).unshare 0 (settled true) (CLONE_NEWPID ||| CLONE_NEWIPC)).1 :=
  (unshare_changes (show Machine.Run Kernel.step (Kernel.init .hooked) (sample .hooked).kernel from
    Relation.ReflTransGen.refl) (by decide) rfl rfl (by decide)).1

/-- **What a successful call changes is not always what was asked.**  Without
    the hook, `CLONE_NEWPID` gives the caller a uts namespace too; with it, a
    caller without the capability gets an ipc namespace together with its user
    namespace, and keeps its undo list. -/
theorem unshare_changes_more :
    (((sample ⟨false, false, true, true, false⟩).unshare 0 (settled true) CLONE_NEWPID).2 = 0 ∧
      has CLONE_NEWPID Other.uts.flag = false ∧
      ((sample ⟨false, false, true, true, false⟩).unshare 0 (settled true) CLONE_NEWPID).1.kindOf
        0 .uts ≠ (sample ⟨false, false, true, true, false⟩).kindOf 0 .uts) ∧
    ((sample .hooked).unshare 0 (settled false) (CLONE_NEWUSER ||| CLONE_NEWIPC)).2 = 0 ∧
      ((sample .hooked).unshare 0 (settled false) (CLONE_NEWUSER ||| CLONE_NEWIPC)).1.undoOf 0 =
        some 0 := by
  decide

end Detailed

end DroidLkm.Slot
