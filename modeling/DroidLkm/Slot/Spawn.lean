/-
  Namespaces of tasks — what a child is given.

  * `Leaves`: of the proxies before `b` none is gone and none names anything else,
    and no task but `c` is touched;
  * `Child`: the nsproxy of a child, which it shares with its parent or has alone;
  * `copyEntry_spec`, `kernelClone_spec`: `copy_namespaces` and `copy_process`, with
    the wraps in front or not.
-/
import DroidLkm.Slot.Carried
import DroidLkm.Slot.Entering

namespace DroidLkm.Slot

/-- What an nsproxy names. -/
def Nsproxy.names (x : Nsproxy) : ℕ × Option ℕ × ℕ := (x.pidNsForChildren, x.ipcNs, x.other)

namespace Kernel

variable {k k' k₁ k₂ : Kernel} {t c q b : ℕ} {new : Option ℕ} {flags inner : Flags} {e : Env}
  {x y : Nsproxy} {newPid newIpc : Option ℕ} {err : ℤ}

/-! ## What is left alone -/

structure Leaves (b c : ℕ) (k k' : Kernel) : Prop where
  nsp : ∀ q < b, (k'.nsp q).map Nsproxy.names = (k.nsp q).map Nsproxy.names
  task : ∀ t, t ≠ c → k'.task t = k.task t

theorem Leaves.refl (b c : ℕ) (k : Kernel) : Leaves b c k k := ⟨fun _ _ => rfl, fun _ _ => rfl⟩

theorem Leaves.trans (h : Leaves b c k k₁) (h' : Leaves b c k₁ k₂) : Leaves b c k k₂ :=
  ⟨fun q hq => (h'.nsp q hq).trans (h.nsp q hq), fun t ht => (h'.task t ht).trans (h.task t ht)⟩

theorem Leaves.of_quiet (h : Quiet k k') : Leaves b c k k' :=
  ⟨fun q _ => by rw [h.nsp], fun t _ => by rw [h.task]⟩

/-- A task that is left alone names what it did. -/
theorem Leaves.namesOf (h : Leaves b c k k') (hx : k.nsproxyOf t = some x) (ht : t ≠ c)
    (hb : ∀ q, (k.task t).nsproxy = some q → q < b) :
    (k'.nsproxyOf t).map Nsproxy.names = some x.names := by
  obtain ⟨q, hq, hqx⟩ := nsproxyOf_some hx
  have hn := h.nsp q (hb q hq)
  rw [nsproxyOf, h.task t ht, hq, Option.bind_some, hn, hqx]
  rfl

theorem leaves_added (ha : Added k k' x) (hb : b ≤ k.nextNsp) : Leaves b c k k' := by
  refine ⟨fun q hq => ?_, fun t _ => by rw [ha.task]⟩
  rw [ha.nsp, Function.update_of_ne (Nat.ne_of_lt (Nat.lt_of_lt_of_le hq hb))]

theorem leaves_setTask (k : Kernel) (b c : ℕ) (new : Option ℕ) : Leaves b c k (k.setTask c new) :=
  ⟨fun _ _ => rfl, fun _ ht => Function.update_of_ne ht _ _⟩

theorem leaves_modifyNsp {f : Nsproxy → Nsproxy} (h : b ≤ q ∨ ∀ x, (f x).names = x.names) :
    Leaves b c k (k.modifyNsp q f) := by
  refine ⟨fun q' hq' => ?_, fun _ _ => rfl⟩
  by_cases he : q' = q
  · subst he
    have hf := h.resolve_left (by omega)
    simp only [modifyNsp, Function.update_self, Option.map_map]
    exact congrArg (fun g => (k.nsp q').map g) (funext hf)
  · simp only [modifyNsp, Function.update_of_ne he]

/-- The reference that is put is not the last one, or the nsproxy is a later one. -/
theorem leaves_putNsproxy (h : b ≤ q ∨ ∀ x, k.nsp q = some x → 1 < x.count) :
    Leaves b c k (k.putNsproxy q) := by
  refine ⟨fun q' hq' => ?_, fun _ _ => rfl⟩
  by_cases he : q' = q
  · subst he
    have hcount := h.resolve_left (by omega)
    simp only [putNsproxy, Function.update_self]
    cases hx : k.nsp q' with
    | none => rfl
    | some x =>
      rw [Option.bind_some, if_neg (Nat.not_le.2 (hcount x hx))]
      rfl
  · simp only [putNsproxy, Function.update_of_ne he]

/-- The nsproxy of a task is a later one, or it is shared. -/
def Spare (b : ℕ) (k : Kernel) (c : ℕ) : Prop :=
  ∀ q, (k.task c).nsproxy = some q → b ≤ q ∨ ∀ x, k.nsp q = some x → 1 < x.count

theorem leaves_switchTask (h : Spare b k c) (new : Option ℕ) :
    Leaves b c k (k.switchTask c new) := by
  unfold switchTask
  split
  · exact leaves_setTask k b c new
  next q hq => exact (leaves_setTask k b c new).trans (leaves_putNsproxy (h q hq))

theorem leaves_switch (h : Spare b k c) (new : Option ℕ) :
    Leaves b c k (k.switchTaskNamespaces c new) :=
  (leaves_switchTask h new).trans (Leaves.of_quiet (switchTaskNamespaces_quiet k c new))

theorem leaves_exit (h : Spare b k c) : Leaves b c k (k.exitTaskNamespaces c) := by
  have hs := leaves_switch h none
  unfold exitTaskNamespaces exitNsWrap
  dsimp only
  split
  · split
    · exact hs.trans (Leaves.of_quiet (nsproxyDrop_quiet _ _))
    · exact hs
  · exact hs

theorem leaves_attach (hb : b ≤ q) (newPid newIpc : Option ℕ) :
    Leaves b c k (k.attach q newPid newIpc) := by
  have hpid : Leaves b c k (k.attachPidNs q newPid) := by
    cases newPid with
    | none => exact Leaves.refl b c k
    | some n => exact ⟨(leaves_modifyNsp (c := c) (Or.inl hb)).nsp, fun _ _ => rfl⟩
  refine hpid.trans ?_
  cases newIpc with
  | none => exact Leaves.refl b c _
  | some n => exact ⟨(leaves_modifyNsp (c := c) (Or.inl hb)).nsp, fun _ _ => rfl⟩

/-! ## The child -/

/-- A task has an nsproxy that names this pid and this ipc namespace. -/
def On (k : Kernel) (c q : ℕ) (p : ℕ) (i : Option ℕ) : Prop :=
  (k.task c).nsproxy = some q ∧ ∃ y, k.nsp q = some y ∧ y.pidNsForChildren = p ∧ y.ipcNs = i

/-- What `c` has been given: the namespaces that were asked for, of the rest those of
    `x`; an nsproxy of its own, or `old`, which it shares. -/
def Child (k : Kernel) (flags : Flags) (x : Nsproxy) (old : Option ℕ) (k' : Kernel) (c : ℕ) :
    Prop :=
  ∃ q, On k' c q ((made (has flags CLONE_NEWPID) k.nextPid).getD x.pidNsForChildren)
      ((made (has flags CLONE_NEWIPC) k.nextIpc).or x.ipcNs) ∧
    if has flags KERNEL_NS then k.nextNsp ≤ q
    else old = some q ∧ ∀ y, k'.nsp q = some y → 1 < y.count

theorem On.quiet {p : ℕ} {i : Option ℕ} (h : On k c q p i) (hq : Quiet k k') : On k' c q p i := by
  rw [On, hq.task, hq.nsp]
  exact h

theorem Child.quiet (h : Child k flags x new k₁ c) (hq : Quiet k₁ k₂) :
    Child k flags x new k₂ c := by
  obtain ⟨q, hon, hown⟩ := h
  refine ⟨q, hon.quiet hq, ?_⟩
  rw [hq.nsp]
  exact hown

theorem Child.spare (h : Child k flags x new k' c) : Spare k.nextNsp k' c := by
  obtain ⟨q, hon, hown⟩ := h
  intro q' hq'
  rw [hon.1] at hq'
  cases hq'
  split at hown
  · exact Or.inl hown
  · exact Or.inr hown.2

theorem made_false (n : ℕ) : made false n = none := rfl

/-- Without the flags of the module the child names what `x` does. -/
theorem not_ours (ho : has flags OURS = false) :
    has flags CLONE_NEWPID = false ∧ has flags CLONE_NEWIPC = false := by
  rwa [has_ours, Bool.or_eq_false_iff] at ho

theorem not_ours_of_kernel (hns : has flags KERNEL_NS = false) : has flags OURS = false := by
  cases ho : has flags OURS with
  | false => rfl
  | true =>
    rw [ours_kernel_ns ho] at hns
    cases hns

/-- **The kernel's `copy_namespaces`.** -/
theorem copyNamespaces_spec (hw : Wf k) (hx : k.nsproxyOf c = some x) (flags : Flags) (t : ℕ)
    (e : Env) :
    Leaves k.nextNsp c k (k.copyNamespaces flags t c e).1 ∧
      ((k.copyNamespaces flags t c e).2 = 0 →
        Child k flags x (k.task c).nsproxy (k.copyNamespaces flags t c e).1 c) := by
  obtain ⟨q, hq, hqx⟩ := nsproxyOf_some hx
  unfold copyNamespaces
  cases hns : has flags KERNEL_NS with
  | false =>
    obtain ⟨hp, hi⟩ := not_ours (not_ours_of_kernel hns)
    rw [if_pos (show (!false) = true from rfl), hq]
    refine ⟨leaves_modifyNsp (Or.inr fun _ => rfl), fun _ => ⟨q, ⟨hq, ?_⟩, ?_⟩⟩
    · refine ⟨{ x with count := x.count + 1 }, ?_, ?_⟩
      · simp [modifyNsp, hqx]
      · rw [hp, hi]
        exact ⟨rfl, rfl⟩
    · rw [hns, if_neg Bool.false_ne_true]
      refine ⟨rfl, fun y hy => ?_⟩
      simp only [modifyNsp, Function.update_self, hqx, Option.map_some, Option.some.injEq] at hy
      have hpos := (hw.nsp q x hqx).2.1
      rw [← hy]
      exact Nat.succ_lt_succ hpos
  | true =>
    rw [if_neg (show ¬ (!true) = true from Bool.false_ne_true)]
    split
    · exact ⟨Leaves.refl _ _ _, fun (h : -EPERM = 0) => absurd h (by decide)⟩
    split
    · exact ⟨Leaves.refl _ _ _, fun (h : -EINVAL = 0) => absurd h (by decide)⟩
    rcases hr : k.createEntry flags t c e with ⟨k₁, err | q₁⟩ <;> dsimp only
    · obtain ⟨hquiet, herr⟩ := createEntry_error hr
      exact ⟨Leaves.of_quiet hquiet, fun h => absurd h herr⟩
    · obtain ⟨x', hx', rfl, ha⟩ := createEntry_ok hr
      rw [hx] at hx'
      cases hx'
      refine ⟨(leaves_added ha (Nat.le_refl _)).trans (leaves_setTask k₁ _ c _), fun _ => ?_⟩
      refine ⟨k.nextNsp, ⟨?_, k.newNsp flags x, ?_, rfl, rfl⟩, ?_⟩
      · simp [setTask]
      · rw [show (k₁.setTask c (some k.nextNsp)).nsp = k₁.nsp from rfl, ha.nsp,
          Function.update_self]
      · rw [hns, if_pos rfl]

/-- The private nsproxy of a child that shares that of its parent. -/
theorem cnPriv_leaves (newPid newIpc : Option ℕ) (e : Env) (hw : Wf k) (hs : Spare b k c)
    (hb : b ≤ k.nextNsp) (hns : has inner NS_FLAGS = false) :
    Leaves b c k (k.cnPriv inner c newPid newIpc e).1 ∧
      ((k.cnPriv inner c newPid newIpc e).2 = 0 → ∀ p i, On k c q p i →
        On (k.cnPriv inner c newPid newIpc e).1 c k.nextNsp p i) := by
  unfold cnPriv
  rw [hns, if_neg Bool.false_ne_true]
  split
  · exact ⟨Leaves.refl _ _ _, fun (h : -EFAULT = 0) => absurd h (by decide)⟩
  rcases hr : k.createNewNamespaces 0 c e.cnnPriv with ⟨k₁, err | priv⟩ <;> dsimp only
  · obtain ⟨rfl, herr, -⟩ := createPriv_error hr
    exact ⟨Leaves.of_quiet (putNew_quiet _ _ _), fun h => absurd h herr⟩
  obtain ⟨rfl, -, x, hx, rfl⟩ := createPriv_ok hr
  obtain ⟨q', hq', hqx⟩ := nsproxyOf_some hx
  have hlt := (hw.task c q' hq').2
  have hold : ∀ q, q ≠ k.nextNsp → (k.pushNsp (k.copyNsp 0 x)).nsp q = k.nsp q :=
    fun q hne => Function.update_of_ne hne _ _
  have hs' : Spare b (k.pushNsp (k.copyNsp 0 x)) c := by
    intro q₁ hq₁
    rw [hold q₁ (Nat.ne_of_lt (hw.task c q₁ hq₁).2)]
    exact hs q₁ hq₁
  refine ⟨(leaves_added (added_pushNsp k _) hb).trans (leaves_switch hs' _), ?_⟩
  rintro - p i ⟨hq, y, hy, rfl, rfl⟩
  rw [hq'] at hq
  cases hq
  rw [hqx] at hy
  cases hy
  have hne : ((k.pushNsp (k.copyNsp 0 x)).task c).nsproxy ≠ some k.nextNsp := by
    intro h
    exact Nat.lt_irrefl _ (hw.task c _ h).2
  obtain ⟨htask, hnsp⟩ := switchTaskNamespaces_to hne
  refine ⟨by rw [htask, Function.update_self], k.copyNsp 0 x, ?_, rfl, rfl⟩
  rw [hnsp, (added_pushNsp k _).nsp, Function.update_self]

/-- The new namespaces are written into an nsproxy that the child has alone. -/
theorem cnAttach_spec (newPid newIpc : Option ℕ) {p : ℕ} {i : Option ℕ} (h : On k c q p i)
    (hb : b ≤ q) :
    Leaves b c k (k.cnAttach c newPid newIpc) ∧
      On (k.cnAttach c newPid newIpc) c q (newPid.getD p) (newIpc.or i) := by
  obtain ⟨hq, y, hy, rfl, rfl⟩ := h
  have hl := leaves_attach (k := k) (c := c) hb newPid newIpc
  have hwrote := attach_wrote hy newPid newIpc
  have hon : On (k.attach q newPid newIpc) c q (newPid.getD y.pidNsForChildren)
      (newIpc.or y.ipcNs) := by
    refine ⟨by rw [hwrote.task, hq], y.withNew newPid newIpc, ?_, rfl, rfl⟩
    rw [hwrote.nsp, Function.update_self]
  unfold cnAttach
  rw [hq]
  dsimp only
  split
  · exact ⟨hl, hon⟩
  · exact ⟨hl.trans (Leaves.of_quiet (nsproxyHold_quiet _ _)), hon.quiet (nsproxyHold_quiet _ _)⟩

theorem without_newpid_newipc (flags : Flags) :
    has (without flags OURS) CLONE_NEWPID = false ∧ has (without flags OURS) CLONE_NEWIPC = false :=
  not_ours without_ours

/-- **`droid_lkm_cn_wrap`.** -/
theorem cnWrap_spec (hw : Wf k) (hc : c < k.nextTask) (hx : k.nsproxyOf c = some x) (flags : Flags)
    (t : ℕ) (e : Env) :
    Leaves k.nextNsp c k (k.cnWrap flags t c e).1 ∧
      ((k.cnWrap flags t c e).2 = 0 →
        Child k flags x (k.task c).nsproxy (k.cnWrap flags t c e).1 c) := by
  have hcopy := copyNamespaces_spec hw hx flags t e
  have hheld : Leaves k.nextNsp c k (if (k.copyNamespaces flags t c e).2 = 0
      then (k.copyNamespaces flags t c e).1.holdOf c else (k.copyNamespaces flags t c e).1) ∧
      ((k.copyNamespaces flags t c e).2 = 0 →
        Child k flags x (k.task c).nsproxy (if (k.copyNamespaces flags t c e).2 = 0
          then (k.copyNamespaces flags t c e).1.holdOf c
          else (k.copyNamespaces flags t c e).1) c) := by
    split
    · exact ⟨hcopy.1.trans (Leaves.of_quiet (holdOf_quiet _ c)),
        fun h => (hcopy.2 h).quiet (holdOf_quiet _ c)⟩
    · exact hcopy
  unfold cnWrap
  dsimp only
  split
  · exact hheld
  next hours =>
  have ho : has flags OURS = true := by simpa using hours
  split
  · exact hcopy
  split
  · exact hheld
  split
  · exact hcopy
  rcases hr : k.newNamespaces flags t c e with ⟨k₁, err | ⟨newPid, newIpc⟩⟩ <;> dsimp only
  · obtain ⟨hq, herr, -⟩ := newNamespaces_error hr
    exact ⟨Leaves.of_quiet hq, fun h => absurd h herr⟩
  obtain ⟨hq, -, rfl, rfl⟩ := newNamespaces_ok hr
  have hg := hw.newNamespaces flags t c e
  rw [hr] at hg
  have hw₁ : Wf k₁ := hg.1.wf
  have hx₁ : k₁.nsproxyOf c = some x := by rw [hq.nsproxyOf, hx]
  have hc₁ : c < k₁.nextTask := by rw [hq.nextTask]; exact hc
  obtain ⟨hin, hchild⟩ := copyNamespaces_spec hw₁ hx₁ (without flags OURS) t e
  have hg₂ := hw₁.copyNamespaces (without flags OURS) t hc₁ e
  rcases hr₂ : k₁.copyNamespaces (without flags OURS) t c e with ⟨k₂, ret⟩
  rw [hr₂] at hin hchild hg₂
  rw [hq.nextNsp] at hin
  dsimp only at hin hchild ⊢
  have hall := (Leaves.of_quiet hq).trans hin
  by_cases hz : ret = 0
  swap
  · rw [if_pos hz]
    exact ⟨hall.trans (Leaves.of_quiet (putNew_quiet _ _ _)), fun h => absurd h hz⟩
  rw [if_neg (not_not.2 hz)]
  have hkid := hchild hz
  have hspare : Spare k.nextNsp k₂ c := by
    have := hkid.spare
    rwa [hq.nextNsp] at this
  obtain ⟨q, hon, hown⟩ := hkid
  obtain ⟨hp, hi⟩ := without_newpid_newipc flags
  rw [hp, hi, made_false, made_false, Option.getD_none, Option.none_or] at hon
  rw [without_kernel_ns] at hown
  -- the nsproxy that the namespaces are written into is the child's alone
  have hpriv : Leaves k.nextNsp c k₂ (k₂.cnPriv (without flags OURS) c
      (made (has flags CLONE_NEWPID) k.nextPid) (made (has flags CLONE_NEWIPC) k.nextIpc) e).1 ∧
      ((k₂.cnPriv (without flags OURS) c (made (has flags CLONE_NEWPID) k.nextPid)
        (made (has flags CLONE_NEWIPC) k.nextIpc) e).2 = 0 →
        ∃ q, k.nextNsp ≤ q ∧ On (k₂.cnPriv (without flags OURS) c
          (made (has flags CLONE_NEWPID) k.nextPid) (made (has flags CLONE_NEWIPC) k.nextIpc) e).1
          c q x.pidNsForChildren x.ipcNs) := by
    have hnext : k.nextNsp ≤ k₂.nextNsp := by
      rw [← hq.nextNsp]
      exact hg₂.nsp
    cases hns : has (without flags OURS) NS_FLAGS with
    | true =>
      rw [hns, if_pos rfl, hq.nextNsp] at hown
      unfold cnPriv
      rw [hns, if_pos rfl]
      exact ⟨Leaves.refl _ _ _, fun _ => ⟨q, hown, hon⟩⟩
    | false =>
      obtain ⟨hl, hto⟩ := cnPriv_leaves (q := q)
        (made (has flags CLONE_NEWPID) k.nextPid) (made (has flags CLONE_NEWIPC) k.nextIpc) e
        hg₂.wf hspare hnext hns
      exact ⟨hl, fun h => ⟨k₂.nextNsp, hnext, hto h _ _ hon⟩⟩
  rcases hr₃ : k₂.cnPriv (without flags OURS) c (made (has flags CLONE_NEWPID) k.nextPid)
    (made (has flags CLONE_NEWIPC) k.nextIpc) e with ⟨k₃, ret'⟩
  rw [hr₃] at hpriv
  dsimp only at hpriv ⊢
  by_cases hz' : ret' = 0
  swap
  · rw [if_pos hz']
    exact ⟨hall.trans hpriv.1, fun h => absurd h hz'⟩
  rw [if_neg (not_not.2 hz')]
  obtain ⟨q', hq', hon'⟩ := hpriv.2 hz'
  obtain ⟨hl, hon''⟩ := cnAttach_spec (made (has flags CLONE_NEWPID) k.nextPid)
    (made (has flags CLONE_NEWIPC) k.nextIpc) hon' hq'
  refine ⟨(hall.trans hpriv.1).trans hl, fun _ => ⟨q', hon'', ?_⟩⟩
  rw [ours_kernel_ns ho, if_pos rfl]
  exact hq'

/-- **`copy_namespaces`, with the wrap in front or not.** -/
theorem copyEntry_spec (hw : Wf k) (hc : c < k.nextTask) (hx : k.nsproxyOf c = some x)
    (flags : Flags) (t : ℕ) (e : Env) :
    Leaves k.nextNsp c k (k.copyEntry flags t c e).1 ∧
      ((k.copyEntry flags t c e).2 = 0 →
        Child k flags x (k.task c).nsproxy (k.copyEntry flags t c e).1 c) := by
  unfold copyEntry
  split
  · exact cnWrap_spec hw hc hx flags t e
  · exact copyNamespaces_spec hw hx flags t e

/-- **`copy_process`.** -/
theorem kernelClone_spec (hw : Wf k) (hx : k.nsproxyOf t = some x) (flags : Flags) (e : Env) :
    Leaves k.nextNsp k.nextTask k (k.kernelClone flags t e).1 ∧
      ∀ c, (k.kernelClone flags t e).2 = .ok c →
        c = k.nextTask ∧ Child k flags x (k.task t).nsproxy (k.kernelClone flags t e).1 c := by
  unfold kernelClone
  split
  · exact ⟨Leaves.refl _ _ _, fun c h => by cases h⟩
  dsimp only
  generalize hk₁ : ({ k with
    task := Function.update k.task k.nextTask (k.task t)
    nextTask := k.nextTask + 1 } : Kernel) = k₁
  have hnew : Leaves k.nextNsp k.nextTask k k₁ := by
    rw [← hk₁]
    exact ⟨fun _ _ => rfl, fun t ht => Function.update_of_ne ht _ _⟩
  have hw₁ : Wf k₁ := hk₁ ▸ (hw.newTask (k.task t) fun q hq => (hw.task t q hq).2).wf
  have htask : k₁.task k.nextTask = k.task t := by rw [← hk₁]; exact Function.update_self ..
  have hx₁ : k₁.nsproxyOf k.nextTask = some x := by
    rw [nsproxyOf, htask, ← hx, nsproxyOf, ← hk₁]
  have hsame : k₁.nextNsp = k.nextNsp ∧ k₁.nextPid = k.nextPid ∧ k₁.nextIpc = k.nextIpc := by
    rw [← hk₁]
    exact ⟨rfl, rfl, rfl⟩
  have hc : k.nextTask < k₁.nextTask := by rw [← hk₁]; exact Nat.lt_succ_self _
  obtain ⟨hl, hchild⟩ := copyEntry_spec hw₁ hc hx₁ flags t e
  rw [hsame.1] at hl
  rcases hr : k₁.copyEntry flags t k.nextTask e with ⟨k₂, ret⟩
  rw [hr] at hl hchild
  dsimp only at hl hchild ⊢
  have hall := hnew.trans hl
  by_cases hz : ret = 0
  swap
  · rw [if_pos hz]
    exact ⟨hall.trans (leaves_setTask k₂ _ _ none), fun c h => by cases h⟩
  rw [if_neg (not_not.2 hz)]
  have hkid := hchild hz
  split
  · refine ⟨hall.trans (leaves_exit ?_), fun c h => by cases h⟩
    have := hkid.spare
    rwa [hsame.1] at this
  · refine ⟨hall.trans ⟨fun _ _ => rfl, fun t ht => Function.update_of_ne ht _ _⟩, ?_⟩
    rintro c ⟨⟩
    obtain ⟨q, hon, hown⟩ := hkid
    rw [hsame.1, htask] at hown
    rw [hsame.2.1, hsame.2.2] at hon
    refine ⟨rfl, q, ⟨?_, hon.2⟩, hown⟩
    dsimp only
    rw [Function.update_self]
    exact hon.1

/-- A child without namespaces of its own is made if nothing else fails. -/
theorem kernelClone_returns (k : Kernel) (t : ℕ) (e : Env) (hns : has flags KERNEL_NS = false) :
    (∃ c, (k.kernelClone flags t e).2 = .ok c) ↔ e.before = 0 ∧ e.after = 0 := by
  have hcopy : ∀ (k : Kernel) (c : ℕ), (k.copyNamespaces flags t c e).2 = 0 := by
    intro k c
    unfold copyNamespaces
    rw [if_pos (by rw [hns]; rfl)]
    split <;> rfl
  have hentry : ∀ (k : Kernel) (c : ℕ), (k.copyEntry flags t c e).2 = 0 := by
    intro k c
    unfold copyEntry
    split
    · unfold cnWrap
      dsimp only
      rw [if_pos (by rw [not_ours_of_kernel hns]; rfl)]
      exact hcopy k c
    · exact hcopy k c
  unfold kernelClone
  by_cases hb : e.before = 0
  swap
  · rw [if_pos hb]
    exact iff_of_false (fun ⟨c, h⟩ => by cases h) fun h => hb h.1
  rw [if_neg (not_not.2 hb)]
  dsimp only
  rw [if_neg (not_not.2 (hentry _ _))]
  by_cases ha : e.after = 0
  · rw [if_neg (not_not.2 ha)]
    exact iff_of_true ⟨_, rfl⟩ ⟨hb, ha⟩
  · rw [if_pos ha]
    exact iff_of_false (fun ⟨c, h⟩ => by cases h) fun h => ha h.2

end Kernel

end DroidLkm.Slot
