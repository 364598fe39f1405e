/-
  Namespaces of tasks — the private nsproxy of a `clone`.

  * `canSeat`: the namespaces that are asked for can be made and written into a
    private nsproxy;
  * `Entered`: the caller is on the private nsproxy, which names them;
  * `cloneCtxEnter_spec`: `droid_lkm_clone_ctx_enter` comes to that just then, and
    otherwise leaves tasks and proxies alone.
-/
import DroidLkm.Slot.UnshareFail

namespace DroidLkm.Slot.Kernel

variable {k k' k₁ : Kernel} {t q : ℕ} {flags : Flags} {e : Env} {x y : Nsproxy} {ctx : CloneCtx}
  {newPid newIpc : Option ℕ} {err : ℤ}

/-! ## Attaching -/

theorem attach_grows (h : (newPid.isSome || newIpc.isSome) = true) (k : Kernel) (q : ℕ) :
    (k.attach q newPid newIpc).attached ≠ k.attached := by
  have hlen : k.attached.length < (k.attach q newPid newIpc).attached.length := by
    rcases newPid with _ | n <;> rcases newIpc with _ | m
    · cases h
    · exact Nat.lt_succ_self _
    · exact Nat.lt_succ_self _
    · exact Nat.lt_succ_of_lt (Nat.lt_succ_self _)
  exact fun heq => Nat.ne_of_gt hlen (congrArg List.length heq)

/-- One of the two is made. -/
theorem made_some (ho : has flags OURS = true) (n m : ℕ) :
    ((made (has flags CLONE_NEWPID) n).isSome || (made (has flags CLONE_NEWIPC) m).isSome) =
      true := by
  rw [has_ours] at ho
  unfold made
  cases hp : has flags CLONE_NEWPID <;> cases hi : has flags CLONE_NEWIPC <;> simp [hp, hi] at ho ⊢

/-- `droid_lkm_clone_ns_ready` asks for the flags of the module, and the hooks. -/
theorem has_ready (h : k.cloneNsReady flags e = true) :
    has flags OURS = true ∧ k.cfg.switchSym = true := by
  unfold cloneNsReady at h
  simp only [Bool.and_eq_true] at h
  exact ⟨h.1.1.1, h.1.2⟩

theorem cloneFlags_ours : has (cloneFlags (without flags OURS)) OURS = false := by
  rw [has_cloneFlags (by decide)]
  exact without_ours

/-! ## Switching -/

theorem switchTask_same (k : Kernel) (t : ℕ) (new : Option ℕ) :
    (k.switchTask t new).cfg = k.cfg ∧ (k.switchTask t new).nextTask = k.nextTask ∧
      (k.switchTask t new).attached = k.attached := by
  unfold switchTask
  split <;> exact ⟨rfl, rfl, rfl⟩

/-- The task is on another nsproxy that was not its own, and that is as it was. -/
theorem switchTaskNamespaces_to (hne : (k.task t).nsproxy ≠ some q) :
    (k.switchTaskNamespaces t (some q)).task =
        Function.update k.task t { k.task t with nsproxy := some q } ∧
      (k.switchTaskNamespaces t (some q)).nsp q = k.nsp q := by
  have hq := switchTaskNamespaces_quiet k t (some q)
  rw [hq.task, hq.nsp]
  unfold switchTask
  split
  · exact ⟨rfl, rfl⟩
  next old hold =>
    refine ⟨rfl, Function.update_of_ne ?_ _ _⟩
    rintro rfl
    exact hne hold

/-! ## Entering -/

/-- The copy of an nsproxy cannot be made. -/
theorem createPriv_error {err' : ℤ} (h : k.createNewNamespaces 0 t err = (k', .error err')) :
    k' = k ∧ err' ≠ 0 ∧ ¬ (k.nsproxyOf t ≠ none ∧ err = 0) := by
  obtain ⟨hk, herr⟩ := createNewNamespaces_error h
  refine ⟨hk, herr, ?_⟩
  rintro ⟨hx, he⟩
  obtain ⟨x, hx⟩ := Option.ne_none_iff_exists'.1 hx
  rw [createNewNamespaces_eq hx (by decide), if_neg (not_not.2 he)] at h
  cases (Prod.mk.inj h).2

theorem createPriv_ok (h : k.createNewNamespaces 0 t err = (k', .ok q)) :
    q = k.nextNsp ∧ err = 0 ∧ ∃ x, k.nsproxyOf t = some x ∧ k' = k.pushNsp (k.copyNsp 0 x) := by
  obtain ⟨hq, -, x, hx, hk⟩ := createNewNamespaces_ok h
  refine ⟨hq, ?_, x, hx, hk⟩
  by_contra he
  rw [createNewNamespaces_eq hx (by decide), if_pos he] at h
  cases (Prod.mk.inj h).2

/-- The namespaces that are asked for can be made and written into a private
    nsproxy. -/
def canSeat (k : Kernel) (flags : Flags) (t : ℕ) (e : Env) : Prop :=
  k.canMake flags t t e = true ∧ k.nsproxyOf t ≠ none ∧ e.cnnPriv = 0

/-- The private nsproxy of a task that was on `x`. -/
def privNsp (k : Kernel) (flags : Flags) (x : Nsproxy) : Nsproxy :=
  (k.copyNsp 0 x).withNew (made (has flags CLONE_NEWPID) k.nextPid)
    (made (has flags CLONE_NEWIPC) k.nextIpc)

structure Entered (k : Kernel) (flags : Flags) (t : ℕ) (x : Nsproxy) (k' : Kernel)
    (ctx : CloneCtx) : Prop where
  old : k.nsproxyOf t = some x
  priv : ctx.priv = k.nextNsp
  savePid : ctx.savePid = x.pidNsForChildren
  saveIpc : ctx.saveIpc = x.ipcNs
  cfg : k'.cfg = k.cfg
  task : k'.task = Function.update k.task t { k.task t with nsproxy := some k.nextNsp }
  nsp : k'.nsp k.nextNsp = some (k.privNsp flags x)
  nextTask : k'.nextTask = k.nextTask
  attached : has flags OURS = true → k'.attached ≠ k.attached

/-- **What `droid_lkm_clone_ctx_enter` does.** -/
theorem cloneCtxEnter_spec (hw : Wf k) (flags : Flags) (t : ℕ) (e : Env) :
    match k.cloneCtxEnter flags t e with
    | (k', .error err) => Quiet k k' ∧ err ≠ 0 ∧ ¬ k.canSeat flags t e
    | (k', .ok ctx) => k.canSeat flags t e ∧ ∃ x, Entered k flags t x k' ctx := by
  unfold cloneCtxEnter canSeat
  rcases hn : k.newNamespaces flags t t e with ⟨k₁, err | ⟨newPid, newIpc⟩⟩ <;> dsimp only
  · obtain ⟨hq, herr, hcan⟩ := newNamespaces_error hn
    refine ⟨hq, herr, fun h => ?_⟩
    rw [hcan] at h
    cases h.1
  obtain ⟨hq, hcan, rfl, rfl⟩ := newNamespaces_ok hn
  rcases hr : k₁.createNewNamespaces 0 t e.cnnPriv with ⟨k₂, err | priv⟩ <;> dsimp only
  · obtain ⟨rfl, herr, hno⟩ := createPriv_error hr
    rw [hq.nsproxyOf] at hno
    exact ⟨hq.trans (putNew_quiet _ _ _), herr, fun h => hno h.2⟩
  obtain ⟨rfl, hpriv, x, hx, rfl⟩ := createPriv_ok hr
  have hx₀ : k.nsproxyOf t = some x := by rw [← hq.nsproxyOf]; exact hx
  have hne : ((k₁.pushNsp (k₁.copyNsp 0 x)).task t).nsproxy ≠ some k₁.nextNsp := by
    intro h
    change (k₁.task t).nsproxy = some k₁.nextNsp at h
    rw [hq.task, hq.nextNsp] at h
    exact Nat.lt_irrefl _ (hw.task t _ h).2
  obtain ⟨htask, hnsp⟩ := switchTaskNamespaces_to hne
  have hself : (k₁.pushNsp (k₁.copyNsp 0 x)).nsp k₁.nextNsp = some (k.copyNsp 0 x) := by
    rw [(added_pushNsp k₁ _).nsp, Function.update_self, copyNsp_congr hq.nextOther]
  rw [hself] at hnsp
  rw [hnsp]
  dsimp only
  have hwrote := attach_wrote hnsp (made (has flags CLONE_NEWPID) k.nextPid)
    (made (has flags CLONE_NEWIPC) k.nextIpc)
  have hquiet := switchTaskNamespaces_quiet (k₁.pushNsp (k₁.copyNsp 0 x)) t (some k₁.nextNsp)
  obtain ⟨hcfg, hnext, hatt⟩ := switchTask_same (k₁.pushNsp (k₁.copyNsp 0 x)) t (some k₁.nextNsp)
  refine ⟨⟨hcan, by rw [hx₀]; exact nofun, hpriv⟩, x, hx₀, hq.nextNsp, rfl, rfl, ?_, ?_, ?_, ?_, ?_⟩
  · exact hwrote.cfg.trans (hquiet.cfg.trans (hcfg.trans hq.cfg))
  · rw [hwrote.task, htask, ← hq.nextNsp]
    change Function.update k₁.task t { k₁.task t with nsproxy := some k₁.nextNsp } = _
    rw [hq.task]
  · rw [hwrote.nsp, hq.nextNsp, Function.update_self]
    rfl
  · exact hwrote.nextTask.trans (hquiet.nextTask.trans (hnext.trans hq.nextTask))
  · intro ho heq
    have hgrow := attach_grows (made_some ho k.nextPid k.nextIpc)
      ((k₁.pushNsp (k₁.copyNsp 0 x)).switchTaskNamespaces t (some k₁.nextNsp)) k₁.nextNsp
    exact hgrow (heq.trans (hquiet.attached.trans (hatt.trans hq.attached)).symm)

end DroidLkm.Slot.Kernel
