/-
  Namespaces of tasks — `clone` and its caller.

  * `Transparent`: the caller names what it did, and a child names the namespaces
    just made if they were asked for;
  * `leave_ok`, `leave_fails`: the restore step of `droid_lkm_clone_ctx_leave`;
  * `clone_transparent`: `clone` and `clone3` are transparent unless the restore step
    fails for a caller whose child shares the private nsproxy;
  * `clone_loses`: then the child is back in the old namespaces.
-/
import DroidLkm.Slot.Spawn

namespace DroidLkm.Slot.Kernel

variable {k k' k₁ k₂ : Kernel} {t c p q : ℕ} {flags inner : Flags} {e : Env} {x y z : Nsproxy}
  {ctx : CloneCtx} {u : UserArgs}

/-- The caller names what it did; a child names the pid namespace just made if and
    only if `CLONE_NEWPID` was given, and so with the ipc namespace. -/
def Transparent (k : Kernel) (flags : Flags) (t : ℕ) (r : Kernel × Except ℤ ℕ) : Prop :=
  r.1.namesOf t = k.namesOf t ∧
    ∀ c, r.2 = .ok c → ∃ y, r.1.nsproxyOf c = some y ∧
      (y.pidNsForChildren = k.nextPid ↔ has flags CLONE_NEWPID = true) ∧
      (y.ipcNs = some k.nextIpc ↔ has flags CLONE_NEWIPC = true)

/-- A call that fails before it has made anything. -/
theorem transparent_error {err : ℤ} (h : Quiet k k') : Transparent k flags t (k', .error err) :=
  ⟨h.namesOf t, fun _ hc => by cases hc⟩

/-! ## Names that are new -/

/-- What was there before is not new. -/
theorem made_iff (hw : Wf k) (hx : k.nsproxyOf t = some x) (flags : Flags) :
    ((made (has flags CLONE_NEWPID) k.nextPid).getD x.pidNsForChildren = k.nextPid ↔
        has flags CLONE_NEWPID = true) ∧
      ((made (has flags CLONE_NEWIPC) k.nextIpc).or x.ipcNs = some k.nextIpc ↔
        has flags CLONE_NEWIPC = true) := by
  obtain ⟨-, -, hpid, hipc⟩ := hw.names hx
  unfold made
  refine ⟨?_, ?_⟩
  · cases has flags CLONE_NEWPID with
    | true => simp
    | false => simpa using Nat.ne_of_lt hpid
  · cases has flags CLONE_NEWIPC with
    | true => simp
    | false => simpa using fun h => Nat.lt_irrefl _ (hipc _ h)

theorem on_names {i : Option ℕ} (h : On k c q p i) :
    ∃ y, k.nsproxyOf c = some y ∧ y.pidNsForChildren = p ∧ y.ipcNs = i := by
  obtain ⟨hq, y, hy, hp, hi⟩ := h
  exact ⟨y, by rw [nsproxyOf, hq]; exact hy, hp, hi⟩

/-- **A call of the kernel alone.** -/
theorem kernelClone_transparent (hw : Wf k) (hx : k.nsproxyOf t = some x) (e : Env)
    (hpid : has inner CLONE_NEWPID = has flags CLONE_NEWPID)
    (hipc : has inner CLONE_NEWIPC = has flags CLONE_NEWIPC) :
    Transparent k flags t (k.kernelClone inner t e) := by
  obtain ⟨hl, hchild⟩ := kernelClone_spec hw hx inner e
  have ht : t < k.nextTask := (hw.names hx).1
  refine ⟨?_, fun c hc => ?_⟩
  · have hn := hl.namesOf hx (Nat.ne_of_lt ht) fun q hq => (hw.task t q hq).2
    rw [namesOf, namesOf, hx]
    exact hn
  · obtain ⟨-, q, hon, -⟩ := hchild c hc
    obtain ⟨y, hy, hp, hi⟩ := on_names hon
    obtain ⟨hmp, hmi⟩ := made_iff hw hx flags
    refine ⟨y, hy, ?_, ?_⟩
    · rw [hp, hpid]
      exact hmp
    · rw [hi, hipc]
      exact hmi

/-! ## Leaving -/

/-- The caller is on the private nsproxy. -/
structure Inside (k : Kernel) (t p : ℕ) (z : Nsproxy) : Prop where
  wf : Wf k
  task : (k.task t).nsproxy = some p
  nsp : k.nsp p = some z
  sym : k.cfg.switchSym = true

theorem Inside.nsproxyOf (h : Inside k t p z) : k.nsproxyOf t = some z := by
  rw [Kernel.nsproxyOf, h.task]
  exact h.nsp

/-- **The restore step**: the caller is on another nsproxy, with its old names. -/
theorem leave_ok (h : Inside k t p z) (hleave : e.cnnLeave = 0) :
    (k.cloneCtxLeave t ctx e).namesOf t = some (ctx.savePid, ctx.saveIpc, z.other) ∧
      ∀ c q a i, c ≠ t → On k c q a i → (q = p → 1 < z.count) →
        On (k.cloneCtxLeave t ctx e) c q a i := by
  have hnew := createNewNamespaces_eq h.nsproxyOf
    (show has 0 OURS = false from by decide) e.cnnLeave
  rw [if_neg (not_not.2 hleave)] at hnew
  have hp : p < k.nextNsp := (h.wf.task t p h.task).2
  unfold cloneCtxLeave
  rw [hnew]
  dsimp only
  generalize hk₁ : (k.pushNsp (k.copyNsp 0 z)).restore k.nextNsp ctx = k₁
  have htask : k₁.task = k.task := by rw [← hk₁]; rfl
  have hnsp : k₁.nsp = Function.update k.nsp k.nextNsp (some { k.copyNsp 0 z with
      pidNsForChildren := ctx.savePid, ipcNs := ctx.saveIpc }) := by
    rw [← hk₁]
    simp [restore, setIpcNs, setPidNs, modifyNsp, pushNsp]
  have hsym : (k₁.cfg.releaseHooked || k₁.cfg.switchSym) = true := by
    have hcfg : k₁.cfg = k.cfg := by rw [← hk₁]; rfl
    rw [hcfg, h.sym, Bool.or_true]
  unfold nsproxySwitch
  rw [if_pos hsym]
  have hquiet := nsproxySwitchRun_quiet k₁ t (some k.nextNsp)
  have hsw : k₁.switchTask t (some k.nextNsp) = (k₁.setTask t (some k.nextNsp)).putNsproxy p := by
    rw [switchTask, htask, h.task]
  have htask₂ : ∀ c, ((k₁.nsproxySwitchRun t (some k.nextNsp) switchTask).task c).nsproxy =
      if c = t then some k.nextNsp else (k.task c).nsproxy := by
    intro c
    rw [hquiet.task, hsw]
    change (Function.update k₁.task t { k₁.task t with nsproxy := some k.nextNsp } c).nsproxy = _
    rw [htask]
    by_cases hc : c = t
    · rw [if_pos hc, hc, Function.update_self]
    · rw [if_neg hc, Function.update_of_ne hc]
  have hput : (k₁.nsproxySwitchRun t (some k.nextNsp) switchTask).nsp = Function.update k₁.nsp p
      (if z.count ≤ 1 then none else some { z with count := z.count - 1 }) := by
    rw [hquiet.nsp, hsw]
    change Function.update k₁.nsp p ((k₁.nsp p).bind _) = _
    rw [hnsp, Function.update_of_ne (Nat.ne_of_lt hp), h.nsp]
    rfl
  refine ⟨?_, ?_⟩
  · rw [namesOf, Kernel.nsproxyOf, htask₂, if_pos rfl, Option.bind_some, hput,
      Function.update_of_ne (Nat.ne_of_gt hp), hnsp, Function.update_self]
    rfl
  · rintro c q a i hc ⟨hq, y, hy, ha, hi⟩ hcount
    refine ⟨by rw [htask₂, if_neg hc, hq], ?_⟩
    rw [hput]
    by_cases heq : q = p
    · subst heq
      rw [h.nsp] at hy
      cases hy
      refine ⟨{ z with count := z.count - 1 }, ?_, ha, hi⟩
      rw [Function.update_self, if_neg (Nat.not_le.2 (hcount rfl))]
    · have hlt := (h.wf.task c q hq).2
      refine ⟨y, ?_, ha, hi⟩
      rw [Function.update_of_ne heq, hnsp, Function.update_of_ne (Nat.ne_of_lt hlt), hy]

/-- **A restore step that fails** writes over the private nsproxy. -/
theorem leave_fails (ctx : CloneCtx) (h : Inside k t p z) (hleave : e.cnnLeave ≠ 0) :
    (k.cloneCtxLeave t ctx e).namesOf t = some (ctx.savePid, ctx.saveIpc, z.other) ∧
      ∀ c q a i, On k c q a i →
        if q = p then On (k.cloneCtxLeave t ctx e) c q ctx.savePid ctx.saveIpc
        else On (k.cloneCtxLeave t ctx e) c q a i := by
  have hnew := createNewNamespaces_eq h.nsproxyOf
    (show has 0 OURS = false from by decide) e.cnnLeave
  rw [if_pos hleave] at hnew
  have hleft : k.cloneCtxLeave t ctx e = k.restore p ctx := by
    unfold cloneCtxLeave
    rw [hnew]
    dsimp only
    rw [h.task]
  have hnsp : (k.restore p ctx).nsp = Function.update k.nsp p
      (some { z with pidNsForChildren := ctx.savePid, ipcNs := ctx.saveIpc }) := by
    simp [restore, setIpcNs, setPidNs, modifyNsp, h.nsp]
  have htask : (k.restore p ctx).task = k.task := rfl
  rw [hleft]
  refine ⟨?_, ?_⟩
  · rw [namesOf, Kernel.nsproxyOf, htask, h.task, Option.bind_some, hnsp, Function.update_self]
    rfl
  · rintro c q a i ⟨hq, y, hy, ha, hi⟩
    split
    next heq =>
      subst heq
      refine ⟨by rw [htask, hq],
        { z with pidNsForChildren := ctx.savePid, ipcNs := ctx.saveIpc }, ?_, rfl, rfl⟩
      rw [hnsp, Function.update_self]
    next hne =>
      refine ⟨by rw [htask, hq], y, ?_, ha, hi⟩
      rw [hnsp, Function.update_of_ne hne, hy]

/-! ## Between entering and leaving -/

/-- A call that leaves its caller alone and may make a child; without namespaces of the
    child's own it makes one just if `ret`. -/
structure Forks (t : ℕ) (inner : Flags) (ret : Prop) (orig : Kernel → Kernel × Except ℤ ℕ) :
    Prop where
  ours : has inner OURS = false
  grows : ∀ k, Wf k → Grows k (orig k).1
  leaves : ∀ k x, Wf k → k.nsproxyOf t = some x → Leaves k.nextNsp k.nextTask k (orig k).1
  child : ∀ k x, Wf k → k.nsproxyOf t = some x → ∀ c, (orig k).2 = .ok c →
    c = k.nextTask ∧ Child k inner x (k.task t).nsproxy (orig k).1 c
  returns : ∀ k x, Wf k → k.nsproxyOf t = some x → has inner KERNEL_NS = false →
    ((∃ c, (orig k).2 = .ok c) ↔ ret)

/-- **Around such a call** the child loses its namespaces if it shares the private
    nsproxy and the restore step fails. -/
theorem cloneBetween_transparent_iff {ret : Prop} {orig : Kernel → Kernel × Except ℤ ℕ} (hw : Wf k)
    (hx : k.nsproxyOf t = some x) (hready : k.cloneNsReady flags e = true)
    (hf : Forks t inner ret orig) :
    Transparent k flags t (k.cloneBetween flags t e orig) ↔
      ¬ (cloneNsCheck flags = 0 ∧ k.canSeat flags t e ∧ has inner KERNEL_NS = false ∧ ret ∧
        e.cnnLeave ≠ 0) := by
  obtain ⟨ho, hsym⟩ := has_ready hready
  have ht : t < k.nextTask := (hw.names hx).1
  have hspec := cloneCtxEnter_spec hw flags t e
  have hgrows := (hw.cloneCtxEnter flags ht e).1
  unfold cloneBetween
  by_cases hc : cloneNsCheck flags = 0
  swap
  · rw [if_pos hc]
    exact iff_of_true (transparent_error (Quiet.refl k)) fun h => hc h.1
  rw [if_neg (not_not.2 hc)]
  rcases hr : k.cloneCtxEnter flags t e with ⟨k₁, err | ctx⟩ <;> rw [hr] at hspec hgrows <;>
    dsimp only at hspec hgrows ⊢
  · exact iff_of_true (transparent_error hspec.1) fun h => hspec.2.2 h.2.1
  obtain ⟨hcan, x', hin⟩ := hspec
  obtain rfl : x = x' := Option.some.inj (hx.symm.trans hin.old)
  have hw₁ : Wf k₁ := hgrows.wf
  have hq₁ : (k₁.task t).nsproxy = some k.nextNsp := by rw [hin.task, Function.update_self]
  have hx₁ : k₁.nsproxyOf t = some (k.privNsp flags x) := by
    rw [Kernel.nsproxyOf, hq₁]
    exact hin.nsp
  have ht₁ : t ≠ k₁.nextTask := by rw [hin.nextTask]; exact Nat.ne_of_lt ht
  have hpriv : k.nextNsp < k₁.nextNsp := (hw₁.task t _ hq₁).2
  have hl := hf.leaves k₁ _ hw₁ hx₁
  have hg := hf.grows k₁ hw₁
  have hchild := hf.child k₁ _ hw₁ hx₁
  have hreturns := hf.returns k₁ _ hw₁ hx₁
  rcases hr₂ : orig k₁ with ⟨k₂, r⟩
  rw [hr₂] at hl hg hchild hreturns
  dsimp only at hl hg hchild hreturns ⊢
  -- the caller is still on the private nsproxy
  obtain ⟨z, hz, hznames⟩ : ∃ z,
      k₂.nsp k.nextNsp = some z ∧ z.names = (k.privNsp flags x).names := by
    have hn := hl.nsp _ hpriv
    rw [hin.nsp] at hn
    exact Option.map_eq_some_iff.1 hn
  have hinside : Inside k₂ t k.nextNsp z :=
    ⟨hg.wf, by rw [hl.task t ht₁, hq₁], hz, by rw [hg.cfg, hin.cfg, hsym]⟩
  have hother : z.other = x.other := congrArg (·.2.2) hznames
  have hself : (k₂.cloneCtxLeave t ctx e).namesOf t = k.namesOf t := by
    have hleave : (k₂.cloneCtxLeave t ctx e).namesOf t =
        some (ctx.savePid, ctx.saveIpc, z.other) := by
      by_cases h : e.cnnLeave = 0
      · exact (leave_ok hinside h).1
      · exact (leave_fails ctx hinside h).1
    rw [hleave, hin.savePid, hin.saveIpc, hother, namesOf, hx]
    rfl
  rcases r with err | c
  · refine iff_of_true ⟨hself, fun c h => by cases h⟩ fun h => ?_
    obtain ⟨c, hc⟩ := (hreturns h.2.2.1).2 h.2.2.2.1
    cases hc
  obtain ⟨rfl, q, hon, hown⟩ := hchild c rfl
  obtain ⟨hnp, hni⟩ := not_ours hf.ours
  rw [hnp, hni, made_false, made_false, Option.getD_none, Option.none_or] at hon
  obtain ⟨hmp, hmi⟩ := made_iff hw hx flags
  -- a child that names what the private nsproxy does keeps the new namespaces
  have hkeeps : On (k₂.cloneCtxLeave t ctx e) k₁.nextTask q (k.privNsp flags x).pidNsForChildren
      (k.privNsp flags x).ipcNs →
      Transparent k flags t (k₂.cloneCtxLeave t ctx e, .ok k₁.nextTask) := by
    intro hk
    refine ⟨hself, ?_⟩
    rintro c ⟨⟩
    obtain ⟨y, hy, hp, hi⟩ := on_names hk
    exact ⟨y, hy, by rw [hp]; exact hmp, by rw [hi]; exact hmi⟩
  by_cases hleave : e.cnnLeave = 0
  · refine iff_of_true (hkeeps ?_) fun h => h.2.2.2.2 hleave
    refine (leave_ok hinside hleave).2 _ q _ _ (Ne.symm ht₁) hon fun hq => ?_
    cases hns : has inner KERNEL_NS with
    | true =>
      rw [hns, if_pos rfl] at hown
      omega
    | false =>
      rw [hns, if_neg Bool.false_ne_true] at hown
      exact hown.2 z (hq ▸ hz)
  have hlost := (leave_fails ctx hinside hleave).2 _ q _ _ hon
  cases hns : has inner KERNEL_NS with
  | true =>
    rw [hns, if_pos rfl] at hown
    rw [if_neg (by omega)] at hlost
    exact iff_of_true (hkeeps hlost) fun h => by cases h.2.2.1
  | false =>
    rw [hns, if_neg Bool.false_ne_true, hq₁] at hown
    rw [if_pos (Option.some.inj hown.1).symm] at hlost
    refine iff_of_false (fun h => ?_) fun h =>
      h ⟨hc, hcan, rfl, (hreturns hns).1 ⟨_, rfl⟩, hleave⟩
    obtain ⟨y, hy, hyp, hyi⟩ := h.2 _ rfl
    obtain ⟨y', hy', hp, hi⟩ := on_names hlost
    obtain rfl : y = y' := Option.some.inj (hy.symm.trans hy')
    rw [hp, hin.savePid] at hyp
    rw [hi, hin.saveIpc] at hyi
    obtain ⟨-, -, hpid, hipc⟩ := hw.names hx
    rw [has_ours, Bool.or_eq_true] at ho
    rcases ho with ho | ho
    · exact Nat.ne_of_lt hpid (hyp.2 ho)
    · exact Nat.lt_irrefl _ (hipc _ (hyi.2 ho))

/-! ## The calls -/

theorem kernelClone_forks (ho : has inner OURS = false) (t : ℕ) (e : Env) :
    Forks t inner (e.before = 0 ∧ e.after = 0) fun k => k.kernelClone inner t e where
  ours := ho
  grows := fun _ hw => hw.kernelClone inner t e
  leaves := fun _ _ hw hx => (kernelClone_spec hw hx inner e).1
  child := fun _ _ hw hx => (kernelClone_spec hw hx inner e).2
  returns := fun k _ _ _ hns => kernelClone_returns k t e hns

/-- A call that only fails. -/
theorem error_forks {ret : Prop} (ho : has inner OURS = false) (t : ℕ) (err : ℤ) (hno : ¬ ret) :
    Forks t inner ret fun k => (k, .error err) where
  ours := ho
  grows := fun _ hw => hw.refl
  leaves := fun _ _ _ _ => Leaves.refl _ _ _
  child := fun _ _ _ _ _ h => by cases h
  returns := fun _ _ _ _ _ => iff_of_false (fun ⟨_, h⟩ => by cases h) hno

theorem kernelClone3_forks (ho : has inner OURS = false) (t : ℕ) (u : UserArgs) (e : Env) :
    Forks t inner (u.copyTo = true ∧ u.kernelCopy = 0 ∧ e.before = 0 ∧ e.after = 0) fun k =>
      if !u.copyTo then (k, .error (-EFAULT)) else k.kernelClone3 inner t u e := by
  have hk := kernelClone_forks ho t e
  cases hto : u.copyTo with
  | false =>
    exact error_forks ho t (-EFAULT) fun h => by cases h.1
  | true =>
  unfold kernelClone3
  by_cases hu : u.kernelCopy = 0
  · simp only [hu, Bool.not_true, Bool.false_eq_true, if_false, ne_eq, not_true_eq_false, true_and]
    exact hk
  · simp only [hu, Bool.not_true, Bool.false_eq_true, if_false, ne_eq, not_false_eq_true, if_true,
      false_and, and_false]
    exact error_forks ho t u.kernelCopy id

/-- The child of a `clone` shares the private nsproxy, and the restore step fails. -/
def Loses (k : Kernel) (flags : Flags) (t : ℕ) (e : Env) : Prop :=
  k.cloneNsReady flags e = true ∧ cloneNsCheck flags = 0 ∧ k.canSeat flags t e ∧
    has (cloneFlags (without flags OURS)) KERNEL_NS = false ∧ (e.before = 0 ∧ e.after = 0) ∧
    e.cnnLeave ≠ 0

/-- The same for `clone3`. -/
def Loses3 (k : Kernel) (flags : Flags) (t : ℕ) (u : UserArgs) (e : Env) : Prop :=
  (u.given = true ∧ u.copyFrom = true ∧ k.cloneNsReady flags e = true) ∧ cloneNsCheck flags = 0 ∧
    k.canSeat flags t e ∧ has (without flags OURS) KERNEL_NS = false ∧
    (u.copyTo = true ∧ u.kernelCopy = 0 ∧ e.before = 0 ∧ e.after = 0) ∧ e.cnnLeave ≠ 0

theorem sysClone_transparent_iff (hw : Wf k) (hx : k.nsproxyOf t = some x) :
    Transparent k flags t (k.sysClone flags t e) ↔ ¬ k.Loses flags t e := by
  unfold sysClone Loses
  cases hr : k.cloneNsReady flags e with
  | false =>
    rw [if_pos (show (!false) = true from rfl)]
    exact iff_of_true (kernelClone_transparent hw hx e (has_cloneFlags (by decide))
      (has_cloneFlags (by decide))) fun h => by cases h.1
  | true =>
    rw [if_neg (show ¬ (!true) = true from Bool.false_ne_true),
      cloneBetween_transparent_iff hw hx hr (kernelClone_forks cloneFlags_ours t e),
      and_iff_right rfl]

theorem kernelClone3_transparent (flags : Flags) (hw : Wf k) (hx : k.nsproxyOf t = some x)
    (u : UserArgs) (e : Env) :
    Transparent k flags t (k.kernelClone3 flags t u e) := by
  unfold kernelClone3
  split
  · exact transparent_error (Quiet.refl k)
  · exact kernelClone_transparent hw hx e rfl rfl

theorem sysClone3_transparent_iff (hw : Wf k) (hx : k.nsproxyOf t = some x) :
    Transparent k flags t (k.sysClone3 flags t u e) ↔ ¬ k.Loses3 flags t u e := by
  have hkernel := kernelClone3_transparent flags hw hx u e
  unfold sysClone3 Loses3
  by_cases h : u.given = true ∧ u.copyFrom = true ∧ k.cloneNsReady flags e = true
  · obtain ⟨hg, hf, hr⟩ := h
    rw [if_neg (by rw [hg, hf, hr]; exact Bool.false_ne_true),
      cloneBetween_transparent_iff hw hx hr (kernelClone3_forks without_ours t u e),
      and_iff_right (show u.given = true ∧ u.copyFrom = true ∧ k.cloneNsReady flags e = true from
        ⟨hg, hf, hr⟩)]
  · have hpass : (!u.given || !u.copyFrom || !k.cloneNsReady flags e) = true := by
      rw [← Bool.not_eq_false]
      intro hno
      simp only [Bool.or_eq_false_iff, Bool.not_eq_false'] at hno
      exact h ⟨hno.1.1, hno.1.2, hno.2⟩
    rw [if_pos hpass]
    exact iff_of_true hkernel fun hl => h hl.1

/-- **`clone` and `clone3` are transparent to their caller** but in these cases. -/
theorem clone_transparent (hw : Wf k) (hx : k.nsproxyOf t = some x) (flags : Flags) (u : UserArgs)
    (e : Env) :
    (Transparent k flags t (k.sysClone flags t e) ↔ ¬ k.Loses flags t e) ∧
      (Transparent k flags t (k.sysClone3 flags t u e) ↔ ¬ k.Loses3 flags t u e) :=
  ⟨sysClone_transparent_iff hw hx, sysClone3_transparent_iff hw hx⟩

/-- The restore step has no memory for an nsproxy; everything else works. -/
def leaveNoMemory : Env where
  gate := true
  capable := true
  capableIn := true
  pidns := 0
  ipcns := 0
  cnn := 0
  cnnPriv := 0
  cnnLeave := -ENOMEM
  check := 0
  before := 0
  after := 0
  user := false

/-- A child with namespaces of its own besides keeps the new ones. -/
theorem clone_transparent_newuts : Transparent (init .hooked) (CLONE_NEWPID ||| CLONE_NEWUTS) 0
    ((init .hooked).sysClone (CLONE_NEWPID ||| CLONE_NEWUTS) 0 leaveNoMemory) :=
  (clone_transparent (x := ⟨1, 0, some 0, 0⟩) (init_wf .hooked) rfl (CLONE_NEWPID ||| CLONE_NEWUTS)
    ⟨true, true, true, 0⟩ leaveNoMemory).1.2 fun h => absurd h.2.2.2.1 (by decide)

/-- **A child that is back in the host's pid namespace**, though `clone` has returned it
    for `CLONE_NEWPID`. -/
theorem clone_loses :
    ((init .hooked).sysClone CLONE_NEWPID 0 leaveNoMemory).2 = .ok 1 ∧
      ¬ Transparent (init .hooked) CLONE_NEWPID 0
        ((init .hooked).sysClone CLONE_NEWPID 0 leaveNoMemory) := by
  have hret : ((init .hooked).sysClone CLONE_NEWPID 0 leaveNoMemory).2 = .ok 1 := by decide
  have hpid : (((init .hooked).sysClone CLONE_NEWPID 0 leaveNoMemory).1.nsproxyOf 1).map
      (·.pidNsForChildren) = some 0 := by decide
  refine ⟨hret, fun h => ?_⟩
  obtain ⟨y, hy, hp, -⟩ := h.2 1 hret
  rw [hy] at hpid
  have hnew := hp.2 (by decide)
  rw [Option.map_some, hnew] at hpid
  cases hpid

end DroidLkm.Slot.Kernel
