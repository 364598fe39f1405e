/-
  Pid namespaces: no task gets out of its own.

  * `kernelUnshare_within`, `slotInstallPidns_within`, `setnsRun_confines`: what
    the caller of `unshare` and of `setns` is given;
  * `pidnsInstall_iff`: the loop of `droid_lkm_pidns_install` ends, and the
    namespace is entered just if it is below the caller;
  * `confinement`: in every reachable state.
-/
import Mathlib.Tactic.SplitIfs
import DroidLkm.Slot.Children

namespace DroidLkm.Slot

namespace Kernel

open Machine

variable {k k' k₁ k₂ : Kernel} {t p q n a T : ℕ} {flags : Flags} {e : Env} {x y : Nsproxy}

/-! ## `unshare` -/

theorem kernelUnshare_within (hw : Wf k) (hf : Forest k) (ht : t < k.nextTask)
    (hs : Stands k (k.task t).activePidNs t) (flags : Flags) (e : Env) :
    Within T t k (k.kernelUnshare flags t e).1 ∧
      Stands (k.kernelUnshare flags t e).1 (k.task t).activePidNs t ∧
      ((k.kernelUnshare flags t e).2 = 0 → has flags KERNEL_NS = true →
        Fresh (k.kernelUnshare flags t e).1 k.nextNsp t) := by
  unfold kernelUnshare
  split
  · next hbefore => exact ⟨Within.refl hw hf, hs, fun h => absurd h hbefore⟩
  split
  · next hns =>
    refine ⟨Within.refl hw hf, hs, fun _ hk => ?_⟩
    rw [hk] at hns
    cases hns
  split
  · exact ⟨Within.refl hw hf, hs, fun (h : -EPERM = 0) => absurd h (by decide)⟩
  have hwi : Within T t k (k.createEntry flags t t e).1 := createEntry_within hw hf hs flags e
  rcases hr : k.createEntry flags t t e with ⟨k₁, err | q⟩ <;> rw [hr] at hwi <;>
    dsimp only at hwi ⊢
  · obtain ⟨hquiet, herr⟩ := createEntry_error hr
    exact ⟨hwi, hs.quiet hw hf hquiet hwi.loc.pids, fun h => absurd h herr⟩
  · obtain ⟨-, rfl, y, ha, hb⟩ := createEntry_below hw hf hs hr
    obtain ⟨hsw, hst⟩ := hwi.switchTo ht (by rw [ha.nextNsp]; exact Nat.lt_succ_self _)
      (ha.names hb)
    refine ⟨hsw, hst, fun _ _ => ?_⟩
    intro q hq
    rw [(switchTaskNamespaces_switched k₁ t _).task, Function.update_self] at hq
    cases hq
    exact Nat.le_refl _

theorem ipcnsCreate_within (hw : Wf k) (hf : Forest k) (hs : Stands k a t) (err : ℤ) :
    Quiet k (k.ipcnsCreate err).1 ∧ Within T t k (k.ipcnsCreate err).1 ∧
      Stands (k.ipcnsCreate err).1 a t := by
  have hq : Quiet k (k.ipcnsCreate err).1 := by
    unfold Kernel.ipcnsCreate
    split
    · exact Quiet.refl k
    · exact ⟨rfl, rfl, rfl, rfl, rfl, rfl, rfl⟩
  have hp := ipcnsCreate_pids k err
  exact ⟨hq, Within.quiet hw hf (hw.ipcnsCreate err).1 hq hp, hs.quiet hw hf hq hp⟩

theorem slotInstallIpcns_within (h : Within T t k k₁) (hfresh : Fresh k₁ k.nextNsp t)
    (hs : Stands k₁ a t) (e : Env) : Within T t k (k₁.slotInstallIpcns t e).1 ∧
      Stands (k₁.slotInstallIpcns t e).1 a t ∧ Fresh (k₁.slotInstallIpcns t e).1 k.nextNsp t := by
  obtain ⟨hq, hwi, hst⟩ := ipcnsCreate_within (T := T) h.grows.wf h.forest' hs e.ipcns
  have hg := (h.grows.wf.ipcnsCreate e.ipcns).2
  unfold Kernel.slotInstallIpcns
  rcases hr : k₁.ipcnsCreate e.ipcns with ⟨k₂, err | n⟩ <;> rw [hr] at hq hwi hst hg <;>
    dsimp only at hq hwi hst hg ⊢
  · refine ⟨h.trans hwi, hst, ?_⟩
    rw [Fresh, hq.task]
    exact hfresh
  · split
    · next hnone =>
      have hquiet := ipcnsPut_quiet k₂ (some n)
      have hpids := ipcnsPut_pids k₂ (some n)
      refine ⟨(h.trans hwi).next (hwi.grows.wf.ipcnsPut (some n)) (Local.of_quiet hquiet hpids),
        hst.quiet hwi.grows.wf hwi.forest' hquiet hpids, ?_⟩
      rw [Fresh, hquiet.task, hnone]
      rintro q ⟨⟩
    · next q hsome =>
      have hold : k.nextNsp ≤ q := hfresh q (hq.task ▸ hsome)
      have hbred : Bred k₂ a none (some n) :=
        ⟨⟨by simp, fun n' hn' => hg n' (congrArg _ (Option.some.inj hn'))⟩, by simp⟩
      obtain ⟨hat, hats⟩ := (h.trans hwi).attach hsome hold hbred hst
      refine ⟨hat, hats, ?_⟩
      have htask := (attach_nsp k₂ q none (some n)).1
      rw [Fresh, show (k₂.attachIpcNs q (some n)).task = k₂.task from htask, hq.task]
      exact hfresh

/-- **A pid namespace is made under that for the children of the caller.** -/
theorem pidnsCreateForCurrent_within (hw : Wf k) (hf : Forest k) (hs : Stands k a t) (err : ℤ) :
    Quiet k (k.pidnsCreateForCurrent t err).1 ∧
      Within T t k (k.pidnsCreateForCurrent t err).1 ∧
      Stands (k.pidnsCreateForCurrent t err).1 a t ∧
      ∀ n, (k.pidnsCreateForCurrent t err).2 = .ok n →
        n < (k.pidnsCreateForCurrent t err).1.nextPid ∧
          ∀ x, k.nsproxyOf t = some x → Below (k.pidnsCreateForCurrent t err).1 a n := by
  unfold Kernel.pidnsCreateForCurrent
  have hlt : ((k.nsproxyOf t).map (·.pidNsForChildren)).getD 0 < k.nextPid := by
    cases hx : k.nsproxyOf t with
    | none => exact hw.host.2
    | some x => exact (hw.names hx).2.2.1
  have hp : ∀ x, k.nsproxyOf t = some x →
      Below k a (((k.nsproxyOf t).map (·.pidNsForChildren)).getD 0) := by
    intro x hx
    rw [hx]
    exact hs x hx
  generalize ((k.nsproxyOf t).map (·.pidNsForChildren)).getD 0 = p at hlt hp
  have hq : Quiet k (k.pidnsCreate p err).1 := by
    unfold Kernel.pidnsCreate
    dsimp only
    split_ifs
    · exact Quiet.refl k
    · exact Quiet.refl k
    · exact ⟨rfl, rfl, rfl, rfl, rfl, rfl, rfl⟩
  obtain ⟨hpids, hnew⟩ := pidnsCreate_pids hlt err
  refine ⟨hq, Within.quiet hw hf (hw.pidnsCreate p err).1 hq hpids, hs.quiet hw hf hq hpids, ?_⟩
  intro n hn
  obtain ⟨hnext, hused, hparent⟩ := hnew n hn
  refine ⟨hused, fun x hx => Ancestry.Below.up (by omega) ?_⟩
  rw [hparent]
  exact (hp x hx).pids hf hlt hpids

theorem slotInstallPidns_within (h : Within T t k k₁) (hfresh : Fresh k₁ k.nextNsp t)
    (hs : Stands k₁ a t) (e : Env) : Within T t k (k₁.slotInstallPidns t e).1 ∧
      Stands (k₁.slotInstallPidns t e).1 a t := by
  obtain ⟨hq, hwi, hst, hn⟩ :=
    pidnsCreateForCurrent_within (T := T) h.grows.wf h.forest' hs e.pidns
  unfold Kernel.slotInstallPidns
  rcases hr : k₁.pidnsCreateForCurrent t e.pidns with ⟨k₂, err | n⟩ <;> rw [hr] at hq hwi hst hn <;>
    dsimp only at hq hwi hst hn ⊢
  · exact ⟨h.trans hwi, hst⟩
  obtain ⟨hused, hbelow⟩ := hn n rfl
  split
  · have hquiet := pidnsPut_quiet k₂ (some n)
    have hpids := pidnsPut_pids k₂ (some n)
    exact ⟨(h.trans hwi).next (hwi.grows.wf.pidnsPut (some n)) (Local.of_quiet hquiet hpids),
      hst.quiet hwi.grows.wf hwi.forest' hquiet hpids⟩
  next q hsome =>
  have hold : k.nextNsp ≤ q := hfresh q (hq.task ▸ hsome)
  have hgiven : Given k₂ (some n) none := by
    refine ⟨?_, by simp⟩
    rintro n' ⟨⟩
    exact hused
  cases hx : k₁.nsproxyOf t with
  | some x =>
    refine (h.trans hwi).attach hsome hold ⟨hgiven, ?_⟩ hst
    rintro n' ⟨⟩
    exact hbelow x hx
  | none =>
    refine ⟨(h.trans hwi).next (hwi.grows.wf.attach hgiven) (attach_local hold (some n) none), ?_⟩
    rw [← hq.nsproxyOf, nsproxyOf, hsome] at hx
    obtain ⟨htask, hnsp⟩ := attach_nsp k₂ q (some n) none
    intro x hx'
    rw [nsproxyOf, show (k₂.attachPidNs q (some n)).task = k₂.task from htask, hsome,
      Option.bind_some, show (k₂.attachPidNs q (some n)).nsp = _ from hnsp, Function.update_self,
      show k₂.nsp q = none from hx] at hx'
    cases hx'

theorem installIpcns_within (h : Within T t k k₁) (hfresh : Fresh k₁ k.nextNsp t)
    (hs : Stands k₁ a t) (k₀ : Kernel) (flags : Flags) (e : Env) :
    Within T t k (installIpcns (k₀.unshareOps t e) k₁ flags).1 ∧
      Stands (installIpcns (k₀.unshareOps t e) k₁ flags).1 a t ∧
      Fresh (installIpcns (k₀.unshareOps t e) k₁ flags).1 k.nextNsp t := by
  unfold installIpcns
  split
  · exact slotInstallIpcns_within h hfresh hs e
  · exact ⟨h, hs, hfresh⟩

theorem installPidns_within (h : Within T t k k₁) (hfresh : Fresh k₁ k.nextNsp t)
    (hs : Stands k₁ a t) (k₀ : Kernel) (flags : Flags) (e : Env) :
    Within T t k (installPidns (k₀.unshareOps t e) k₁ flags).1 ∧
      Stands (installPidns (k₀.unshareOps t e) k₁ flags).1 a t := by
  unfold installPidns
  split
  · exact slotInstallPidns_within h hfresh hs e
  · exact ⟨h, hs⟩

theorem unshareLegacy_confines (hw : Wf k) (hf : Forest k) (ht : t < k.nextTask)
    (hs : Stands k (k.task t).activePidNs t) (flags : Flags) (e : Env) (k₀ : Kernel) :
    Confines k t (Slot.unshareLegacy (k₀.unshareOps t e) k flags).1 := by
  have hu := fun T => kernelUnshare_within (T := T) hw hf ht hs (legacyFlags flags) e
  unfold Slot.unshareLegacy
  simp only [flushIpc, unshareOps, id_eq, ite_self]
  split
  · exact Confines.of_within (fun T => (hu T).1) ht (hu 0).2.1
  next hret =>
  rw [not_not] at hret
  have hfresh := (hu 0).2.2 hret (has_legacyFlags flags).1
  have hipc := fun T => installIpcns_within (hu T).1 hfresh (hu T).2.1 k₀ flags e
  split
  · exact Confines.of_within (fun T => (hipc T).1) ht (hipc 0).2.1
  · have hpid := fun T => installPidns_within (hipc T).1 (hipc T).2.2 (hipc T).2.1 k₀ flags e
    exact Confines.of_within (fun T => (hpid T).1) ht (hpid 0).2

theorem kernelUnshare_confines (hw : Wf k) (hf : Forest k) (ht : t < k.nextTask)
    (hs : Stands k (k.task t).activePidNs t) (flags : Flags) (e : Env) :
    Confines k t (k.kernelUnshare flags t e).1 := by
  have hu := fun T => kernelUnshare_within (T := T) hw hf ht hs flags e
  exact Confines.of_within (fun T => (hu T).1) ht (hu 0).2.1

theorem sysUnshare_confines (hw : Wf k) (hf : Forest k) (ht : t < k.nextTask)
    (hs : Stands k (k.task t).activePidNs t) (flags : Flags) (e : Env) :
    Confines k t (Slot.sysUnshare (k.unshareOps t e) k flags).1 := by
  have hu := kernelUnshare_confines hw hf ht hs flags e
  have hl := unshareLegacy_confines hw hf ht hs flags e k
  unfold Slot.sysUnshare
  simp only [flushIpc, unshareOps, id_eq, ite_self]
  split
  · exact hu
  split
  · exact hu
  split
  · exact Confines.of_within (fun _ => Within.refl hw hf) ht hs
  split
  · exact hl
  · exact hu

/-! ## `setns` -/

/-- What an installation may do with the nsproxy it is given: nothing, or write
    it, with what is below `a`. -/
inductive Installs (a : ℕ) (k : Kernel) (q : ℕ) : Kernel → Prop where
  | refused : Installs a k q k
  | written (f : Nsproxy → Nsproxy) (hg : Grows k (k.modifyNsp q f))
      (hf : ∀ x, Below k a x.pidNsForChildren → Below k a (f x).pidNsForChildren) :
      Installs a k q (k.modifyNsp q f)

theorem Installs.within (hi : Installs a k₁ q k₂) (h : Within T p k k₁) (hq : k.nextNsp ≤ q)
    (hb : ∀ x, k₁.nsp q = some x → Below k₁ a x.pidNsForChildren) :
    Within T p k k₂ ∧ ∀ x, k₂.nsp q = some x → Below k₂ a x.pidNsForChildren := by
  cases hi with
  | refused => exact ⟨h, hb⟩
  | written f hg hf =>
    refine ⟨h.next hg (modifyNsp_local hq f), ?_⟩
    intro x hx
    simp only [modifyNsp, Function.update_self] at hx
    obtain ⟨y, hy, rfl⟩ := Option.map_eq_some_iff.1 hx
    exact (hf y (hb y hy)).pids h.forest' (hg.wf.nsp q (f y) (by simp [modifyNsp, hy])).2.2.1
      (Pids.of_eq rfl rfl)

/-- Nobody has been given it yet. -/
theorem Installs.stands (hi : Installs a k₁ q k₂) (hw : Wf k₁) (hf : Forest k₁)
    (hq : (k₁.task p).nsproxy ≠ some q) (hs : Stands k₁ a p) : Stands k₂ a p := by
  cases hi with
  | refused => exact hs
  | written f hg _ =>
    intro x hx
    obtain ⟨q', hq', hqx⟩ := nsproxyOf_some hx
    have hne : q' ≠ q := by
      rintro rfl
      exact hq hq'
    simp only [modifyNsp, Function.update_of_ne hne] at hqx
    have hx₁ : k₁.nsproxyOf p = some x := by
      rw [nsproxyOf, show (k₁.task p).nsproxy = some q' from hq']
      exact hqx
    exact (hs x hx₁).pids hf (hw.names hx₁).2.2.1 (Pids.of_eq rfl rfl)

/-- The kernel frees an nsproxy. -/
theorem Within.free (h : Within T p k k₁) (hs : Stands k₁ a p) (q : ℕ) :
    Within T p k { k₁ with nsp := Function.update k₁.nsp q none } ∧
      Stands { k₁ with nsp := Function.update k₁.nsp q none } a p := by
  have hsame : ∀ q' x, Function.update k₁.nsp q none q' = some x → k₁.nsp q' = some x := by
    intro q' x hx
    by_cases he : q' = q
    · subst he
      rw [Function.update_self] at hx
      cases hx
    · rwa [Function.update_of_ne he] at hx
  have hpids : Pids k₁ { k₁ with nsp := Function.update k₁.nsp q none } := Pids.of_eq rfl rfl
  constructor
  · refine h.next (h.grows.wf.setNsp (by simp)) ⟨hpids, ?_, fun _ _ _ => rfl, fun _ _ => rfl⟩
    intro q' _ x hx
    exact ⟨x, hsame q' x hx, rfl⟩
  · intro x hx
    obtain ⟨q', hq', hqx⟩ := nsproxyOf_some hx
    have hx₁ : k₁.nsproxyOf p = some x := by
      rw [nsproxyOf, show (k₁.task p).nsproxy = some q' from hq']
      exact hsame q' x hqx
    exact (hs x hx₁).pids h.forest' (h.grows.wf.names hx₁).2.2.1 hpids

/-- **`setns`, with an installation that keeps to what is below the caller.** -/
theorem setnsRun_confines (hw : Wf k) (hf : Forest k) (ht : t < k.nextTask)
    (hs : Stands k (k.task t).activePidNs t) (e : Env) {install : Kernel → ℕ → Kernel × ℤ}
    (hi : ∀ k₁ q, k.createEntry 0 t t e = (k₁, .ok q) → Within k.nextTask t k k₁ →
      Installs (k.task t).activePidNs k₁ q (install k₁ q).1) :
    Confines k t (k.setnsRun t e install).1 := by
  have hwi := fun T => createEntry_within (T := T) (p := t) hw hf hs 0 e
  unfold setnsRun
  rcases hr : k.createEntry 0 t t e with ⟨k₁, err | q⟩ <;> rw [hr] at hwi hi <;>
    dsimp only at hwi ⊢
  · have hquiet := (createEntry_error hr).1
    exact Confines.of_within hwi ht (hs.quiet hw hf hquiet (hwi 0).loc.pids)
  obtain ⟨-, rfl, y, ha, hb⟩ := createEntry_below hw hf hs hr
  have hins := hi k₁ k.nextNsp rfl (hwi _)
  have hnot : (k₁.task t).nsproxy ≠ some k.nextNsp := by
    rw [ha.task]
    intro hq
    exact Nat.lt_irrefl _ (hw.task t _ hq).2
  rcases hr' : install k₁ k.nextNsp with ⟨k₂, ret⟩
  rw [hr'] at hins
  dsimp only at hins ⊢
  have hin := fun T => hins.within (hwi T) (Nat.le_refl _) (ha.names hb)
  have hs₁ := hs.added hw hf ha (hwi 0).loc.pids
  have hs₂ := hins.stands (hwi 0).grows.wf (hwi 0).forest' hnot hs₁
  split
  · have hfree := fun T => (hin T).1.free hs₂ k.nextNsp
    exact Confines.of_within (fun T => (hfree T).1) ht (hfree 0).2
  · have hlt : k.nextNsp < k₂.nextNsp := by
      have hmade : k.nextNsp < k₁.nextNsp := by
        rw [ha.nextNsp]
        exact Nat.lt_succ_self _
      cases hins with
      | refused => exact hmade
      | written f _ _ => exact hmade
    have hsw := fun T => (hin T).1.switchTo ht hlt (hin T).2
    exact Confines.of_within (fun T => (hsw T).1) ht (hsw 0).2

/-! ## Installations -/

/-- **The loop of `droid_lkm_pidns_install` ends**, without reading the parent of
    `init_pid_ns`. -/
theorem pidnsAncestor_walk (hf : Forest k) (bound : ℕ) :
    ∀ {fuel n : ℕ}, n < k.nextPid → (k.pidns n).level ≤ fuel →
      Ancestry.Walk (fun n => (k.pidns n).parent) (fun n => (k.pidns n).level) 0 bound n
        (k.pidnsAncestor bound fuel n) := by
  intro fuel
  induction fuel with
  | zero =>
    intro n _ hle
    exact Ancestry.Walk.stop (by omega)
  | succ fuel ih =>
    intro n hn hle
    unfold pidnsAncestor
    split
    · next hlt =>
      have hroot : n ≠ 0 := by
        rintro rfl
        have htop : (k.pidns 0).level = 0 := hf.top.2
        omega
      obtain ⟨hup, hlevel⟩ := hf.node n hn hroot
      exact Ancestry.Walk.up hlt hroot (ih hup (by omega))
    · next hnot => exact Ancestry.Walk.stop (Nat.le_of_not_lt hnot)

/-- **`droid_lkm_pidns_install` succeeds just for the caller's pid namespace and
    those below it.** -/
theorem pidnsInstall_iff (hf : Forest k) (hn : n < k.nextPid) (t q : ℕ) (e : Env) :
    (pidnsInstall t n e k q).2 = 0 ↔
      e.capableIn = true ∧ e.capable = true ∧ Below k (k.task t).activePidNs n := by
  have hwalk := pidnsAncestor_walk hf (k.pidns (k.task t).activePidNs).level hn (Nat.le_refl _)
  unfold pidnsInstall
  dsimp only
  split
  · next hcap =>
    refine ⟨fun (h : -EPERM = 0) => absurd h (by decide), ?_⟩
    rintro ⟨hin, hc, -⟩
    simp [hin, hc] at hcap
  next hcap =>
  simp only [Bool.or_eq_true, Bool.not_eq_true', not_or, Bool.not_eq_false] at hcap
  split
  · next hlevel =>
    refine ⟨fun (h : -EINVAL = 0) => absurd h (by decide), ?_⟩
    rintro ⟨-, -, hb⟩
    have := (Ancestry.Levelled.used_of_below hf hb hn).2
    omega
  next hlevel =>
  have hiff := Ancestry.Levelled.walk_eq_iff hf hwalk hn (Nat.le_of_not_lt hlevel)
  split
  · next hne =>
    refine ⟨fun (h : -EINVAL = 0) => absurd h (by decide), ?_⟩
    rintro ⟨-, -, hb⟩
    exact absurd (hiff.2 hb) hne
  · next heq =>
    rw [not_not] at heq
    exact iff_of_true rfl ⟨hcap.1, hcap.2, hiff.1 heq⟩

/-- The same of the host's entry. -/
theorem hostPidInstall_iff (hf : Forest k) (t q : ℕ) (e : Env) :
    (hostPidInstall t e k q).2 = 0 ↔
      e.capableIn = true ∧ e.capable = true ∧ Below k (k.task t).activePidNs 0 := by
  have hbelow : Below k (k.task t).activePidNs 0 ↔ (k.task t).activePidNs = 0 :=
    Ancestry.below_root_iff
  have htop : (k.pidns 0).level = 0 := hf.top.2
  unfold hostPidInstall
  dsimp only
  rw [hbelow]
  split
  · next hcap =>
    refine ⟨fun (h : -EPERM = 0) => absurd h (by decide), ?_⟩
    rintro ⟨hin, hc, -⟩
    simp [hin, hc] at hcap
  next hcap =>
  simp only [Bool.or_eq_true, Bool.not_eq_true', not_or, Bool.not_eq_false] at hcap
  split
  · next hne =>
    refine ⟨fun (h : -EINVAL = 0) => absurd h (by decide), ?_⟩
    rintro ⟨-, -, hz⟩
    rw [hz, htop] at hne
    omega
  · next hz => exact iff_of_true rfl ⟨hcap.1, hcap.2, by omega⟩

/-- What installs by writing the pid namespace, and only if it is below `a`. -/
theorem installs_setPidNs (hw : Wf k) (hn : n < k.nextPid) {r : Kernel × ℤ}
    (hr : r.1 = if r.2 = 0 then k.setPidNs q n else k) (hb : r.2 = 0 → Below k a n) :
    Installs a k q r.1 := by
  rw [hr]
  split
  · next h0 => exact Installs.written _ (hw.setPidNs hn) fun _ _ => hb h0
  · exact Installs.refused

theorem pidnsInstall_installs (hw : Wf k) (hf : Forest k) (hn : n < k.nextPid) (t q : ℕ)
    (e : Env) : Installs (k.task t).activePidNs k q (pidnsInstall t n e k q).1 := by
  refine installs_setPidNs hw hn ?_ fun h => ((pidnsInstall_iff hf hn t q e).1 h).2.2
  unfold pidnsInstall
  dsimp only
  split_ifs <;> simp_all [EPERM, EINVAL]

theorem hostPidInstall_installs (hw : Wf k) (hf : Forest k) (t q : ℕ) (e : Env) :
    Installs (k.task t).activePidNs k q (hostPidInstall t e k q).1 := by
  refine installs_setPidNs hw hw.host.2 ?_ fun h => ((hostPidInstall_iff hf t q e).1 h).2.2
  unfold hostPidInstall
  dsimp only
  split_ifs <;> simp_all [EPERM, EINVAL]

theorem ipcnsInstall_installs (hw : Wf k) (hn : n < k.nextIpc) (a q : ℕ) (e : Env) :
    Installs a k q (ipcnsInstall n e k q).1 := by
  unfold ipcnsInstall
  split
  · exact Installs.refused
  · refine Installs.written _ (hw.setIpcNs ?_) fun _ h => h
    rintro n' ⟨⟩
    exact hn

theorem otherInstall_installs (hw : Wf k) (a q other : ℕ) (err : ℤ) :
    Installs a k q (otherInstall other err k q).1 := by
  unfold otherInstall
  split
  · exact Installs.refused
  · exact Installs.written _ (hw.modifyNsp fun x hx => (hw.nsp q x hx).2) fun _ h => h

/-! ## Runs -/

/-- The levels fit, and every task is confined to its own pid namespace. -/
structure Confined (k : Kernel) : Prop where
  forest : Forest k
  stands : ∀ t, Stands k (k.task t).activePidNs t

theorem Confines.confined (h : Confines k t k') (hc : Confined k) (ht : t < k.nextTask) :
    Confined k' := by
  refine ⟨h.within.forest', ?_⟩
  intro t'
  by_cases hlt : t' < k.nextTask
  · rw [h.within.loc.active t' hlt]
    by_cases he : t' = t
    · subst he
      exact h.self
    · exact h.within.stands hlt he (hc.stands t')
  · intro x hx
    exact (h.brood t' (by omega) x hx).2

theorem Quiet.confined (hq : Quiet k k') (hp : Pids k k') (hw : Wf k) (hc : Confined k) :
    Confined k' := by
  refine ⟨hp.forest hc.forest, ?_⟩
  intro t
  rw [hq.task]
  exact (hc.stands t).quiet hw hc.forest hq hp

end Kernel

open Kernel

/-- The task that makes a call. -/
def Act.caller : Act → Option ℕ
  | .fork t _ _ => some t
  | .clone t _ _ => some t
  | .clone3 t _ _ _ => some t
  | .unshare t _ _ => some t
  | .unshare32 t _ _ => some t
  | .setnsIpc t _ _ => some t
  | .setnsPid t _ _ => some t
  | .setnsHost t _ => some t
  | .setnsOther t _ _ _ => some t
  | .openIpc _ => none
  | .closeIpc _ => none
  | .exit t => some t

/-- The restore step of `clone` and `clone3` does not fail. -/
def Act.restores : Act → Bool
  | .clone _ _ e => e.cnnLeave == 0
  | .clone3 _ _ _ e => e.cnnLeave == 0
  | _ => true

namespace Kernel

open Machine

variable {k k' k₁ : Kernel} {t q n : ℕ} {e : Env} {act : Act} {cfg : Config}

/-- **A call leaves its caller, and the children it makes, where the caller was.** -/
theorem step_confines (hw : Wf k) (hc : Confined k) (hs : k.step act = some k')
    (hr : act.restores = true) (ht : act.caller = some t) : Confines k t k' := by
  have hf := hc.forest
  have hst := hc.stands t
  cases act with
  | fork t' flags e =>
    obtain rfl := Option.some.inj ht
    obtain ⟨ht, rfl⟩ := by simpa [step] using hs
    exact kernelClone_confines hw hf (hw.live ht) hst _ e
  | clone t' flags e =>
    obtain rfl := Option.some.inj ht
    obtain ⟨ht, rfl⟩ := by simpa [step] using hs
    exact sysClone_confines hw hf (hw.live ht) hst flags (by simpa [Act.restores] using hr)
  | clone3 t' flags u e =>
    obtain rfl := Option.some.inj ht
    obtain ⟨ht, rfl⟩ := by simpa [step] using hs
    exact sysClone3_confines hw hf (hw.live ht) hst flags u (by simpa [Act.restores] using hr)
  | unshare t' flags e =>
    obtain rfl := Option.some.inj ht
    obtain ⟨ht, rfl⟩ := by simpa [step] using hs
    exact sysUnshare_confines hw hf (hw.live ht) hst flags e
  | unshare32 t' flags e =>
    obtain rfl := Option.some.inj ht
    obtain ⟨ht, rfl⟩ := by simpa [step] using hs
    exact kernelUnshare_confines hw hf (hw.live ht) hst flags e
  | setnsIpc t' n e =>
    obtain rfl := Option.some.inj ht
    obtain ⟨⟨ht, hn⟩, rfl⟩ := by simpa [step] using hs
    refine setnsRun_confines hw hf (hw.live ht) hst e ?_
    intro k₁ q _ hwi
    exact ipcnsInstall_installs hwi.grows.wf (Nat.lt_of_lt_of_le (hw.handle n hn) hwi.grows.ipc) _ q e
  | setnsPid t' n e =>
    obtain rfl := Option.some.inj ht
    obtain ⟨⟨ht, hn⟩, rfl⟩ := by simpa [step] using hs
    refine setnsRun_confines hw hf (hw.live ht) hst e ?_
    intro k₁ q _ hwi
    rw [← hwi.loc.active t' (hw.live ht)]
    exact pidnsInstall_installs hwi.grows.wf hwi.forest' (Nat.lt_of_lt_of_le hn hwi.grows.pid) t' q e
  | setnsHost t' e =>
    obtain rfl := Option.some.inj ht
    obtain ⟨ht, rfl⟩ := by simpa [step] using hs
    refine setnsRun_confines hw hf (hw.live ht) hst e ?_
    intro k₁ q _ hwi
    rw [← hwi.loc.active t' (hw.live ht)]
    exact hostPidInstall_installs hwi.grows.wf hwi.forest' t' q e
  | setnsOther t' other err e =>
    obtain rfl := Option.some.inj ht
    obtain ⟨ht, rfl⟩ := by simpa [step] using hs
    refine setnsRun_confines hw hf (hw.live ht) hst e ?_
    intro k₁ q _ hwi
    exact otherInstall_installs hwi.grows.wf _ q other err
  | openIpc t' => cases ht
  | closeIpc n => cases ht
  | exit t' =>
    obtain rfl := Option.some.inj ht
    obtain ⟨ht, rfl⟩ := by simpa [step] using hs
    have hsw := exitTaskNamespaces_switched k t'
    refine Confines.of_within (fun T => ?_) (hw.live ht) hsw.stands_none
    exact ⟨hf, hw, hw.exitTaskNamespaces t', hsw.local (Or.inl rfl)⟩

theorem step_caller (hs : k.step act = some k') (ht : act.caller = some t) : k.live t = true := by
  cases act <;> simp only [Act.caller, Option.some.injEq, reduceCtorEq] at ht
  case setnsIpc t' n e =>
    obtain rfl := ht
    exact (by simpa [step] using hs : (k.live t' = true ∧ n ∈ k.handles) ∧ _).1.1
  case setnsPid t' n e =>
    obtain rfl := ht
    exact (by simpa [step] using hs : (k.live t' = true ∧ n < k.nextPid) ∧ _).1.1
  all_goals
    obtain rfl := ht
    exact (by simpa [step] using hs : k.live _ = true ∧ _).1

/-- What is not the call of a task leaves the tasks alone. -/
theorem step_quiet (hs : k.step act = some k') (ht : act.caller = none) :
    Quiet k k' ∧ Pids k k' := by
  cases act with
  | openIpc t =>
    obtain rfl := by simpa [step] using hs
    exact ⟨⟨rfl, rfl, rfl, rfl, rfl, rfl, rfl⟩, Pids.of_eq rfl rfl⟩
  | closeIpc n =>
    obtain ⟨-, rfl⟩ := by simpa [step] using hs
    have hq : Quiet k { k with handles := k.handles.erase n } := ⟨rfl, rfl, rfl, rfl, rfl, rfl, rfl⟩
    have hp : Pids k { k with handles := k.handles.erase n } := Pids.of_eq rfl rfl
    exact ⟨hq.trans (ipcnsPut_quiet _ (some n)), hp.trans (ipcnsPut_pids _ (some n))⟩
  | _ => cases ht

theorem step_confined (hw : Wf k) (hc : Confined k) (hs : k.step act = some k')
    (hr : act.restores = true) : Confined k' := by
  cases ht : act.caller with
  | some t => exact (step_confines hw hc hs hr ht).confined hc (hw.live (step_caller hs ht))
  | none =>
    obtain ⟨hq, hp⟩ := step_quiet hs ht
    exact hq.confined hp hw hc

theorem init_confined (cfg : Config) : Confined (init cfg) := by
  refine ⟨⟨⟨Nat.one_pos, rfl⟩, ?_⟩, ?_⟩
  · intro n hn hn0
    have : n < 1 := hn
    omega
  · intro t x hx
    obtain ⟨q, hq, hqx⟩ := nsproxyOf_some hx
    simp only [init] at hqx
    split at hqx <;> cases hqx
    exact Below.refl _ 0

theorem run_confined (h : RunIf step (fun _ act => act.restores = true) (init cfg) k) :
    Wf k ∧ Confined k := by
  refine h.inv (I := fun k => Wf k ∧ Confined k) ⟨init_wf cfg, init_confined cfg⟩ ?_
  rintro k act k' ⟨hw, hc⟩ hr hs
  exact ⟨(step_grows hw hs).wf, step_confined hw hc hs hr⟩

/-- What an installation is asked, on the nsproxy that the kernel has prepared. -/
theorem install_iff (hw : Wf k) (hc : Confined k) (hn : n < k.nextPid)
    (h : k.createEntry 0 t t e = (k₁, .ok q)) :
    Ancestry.Walk (fun n => (k₁.pidns n).parent) (fun n => (k₁.pidns n).level) 0
      (k₁.pidns (k₁.task t).activePidNs).level n
      (k₁.pidnsAncestor (k₁.pidns (k₁.task t).activePidNs).level (k₁.pidns n).level n) ∧
    ((pidnsInstall t n e k₁ q).2 = 0 ↔
      e.capableIn = true ∧ e.capable = true ∧ Below k (k.task t).activePidNs n) ∧
    ((hostPidInstall t e k₁ q).2 = 0 ↔
      e.capableIn = true ∧ e.capable = true ∧ Below k (k.task t).activePidNs 0) := by
  have hwi : Within (t + 1) t k (k.createEntry 0 t t e).1 :=
    createEntry_within hw hc.forest (hc.stands t) 0 e
  rw [h] at hwi
  have hactive := hwi.loc.active t (Nat.lt_succ_self t)
  dsimp only at hwi hactive
  have hf := hwi.forest'
  have hn₁ := Nat.lt_of_lt_of_le hn hwi.grows.pid
  refine ⟨pidnsAncestor_walk hf _ hn₁ (Nat.le_refl _), ?_, ?_⟩
  · rw [pidnsInstall_iff hf hn₁, hactive, hwi.loc.pids.below_iff hc.forest hn]
  · rw [hostPidInstall_iff hf, hactive, hwi.loc.pids.below_iff hc.forest hw.host.2]

/-- **The pid namespaces are a forest, and the tasks are confined to it.**  In a
    run in which the restore step of `clone` does not fail: the level of every
    pid namespace fits, and the way up from it ends at `init_pid_ns`; the loop
    of `droid_lkm_pidns_install` ends without reading the parent of
    `init_pid_ns`, and the installation succeeds just if the caller is capable
    and the target is its own pid namespace or below it; the namespace for the
    children of a task is the task's or below it; and so is the namespace in
    which a child begins. -/
theorem confinement (h : RunIf step (fun _ act => act.restores = true) (init cfg) k) :
    (∀ n < k.nextPid, n ≠ 0 → (k.pidns n).parent < k.nextPid ∧
      (k.pidns n).level = (k.pidns (k.pidns n).parent).level + 1 ∧ Below k 0 n) ∧
    (∀ t n e k₁ q, n < k.nextPid → k.createEntry 0 t t e = (k₁, .ok q) →
      Ancestry.Walk (fun n => (k₁.pidns n).parent) (fun n => (k₁.pidns n).level) 0
        (k₁.pidns (k₁.task t).activePidNs).level n
        (k₁.pidnsAncestor (k₁.pidns (k₁.task t).activePidNs).level (k₁.pidns n).level n) ∧
      ((pidnsInstall t n e k₁ q).2 = 0 ↔
        e.capableIn = true ∧ e.capable = true ∧ Below k (k.task t).activePidNs n) ∧
      ((hostPidInstall t e k₁ q).2 = 0 ↔
        e.capableIn = true ∧ e.capable = true ∧ Below k (k.task t).activePidNs 0)) ∧
    (∀ t, k.live t = true → ∃ x, k.nsproxyOf t = some x ∧
      Below k (k.task t).activePidNs x.pidNsForChildren) ∧
    (∀ act k' t c, act.restores = true → k.step act = some k' → act.caller = some t →
      k.nextTask ≤ c → k'.live c = true →
        Below k' (k.task t).activePidNs (k'.task c).activePidNs) := by
  obtain ⟨hw, hc⟩ := run_confined h
  refine ⟨?_, ?_, ?_, ?_⟩
  · intro n hn hn0
    obtain ⟨hup, hlevel⟩ := hc.forest.node n hn hn0
    exact ⟨hup, hlevel, hc.forest.below_root hn⟩
  · intro t n e k₁ q hn hr
    exact install_iff hw hc hn hr
  · intro t ht
    obtain ⟨x, hx⟩ := run_nsproxy h.run ht
    exact ⟨x, hx, hc.stands t x hx⟩
  · intro act k' t c hr hs ht hle hlive
    obtain ⟨x, hx⟩ := run_nsproxy (h.snoc hr hs).run hlive
    exact ((step_confines hw hc hs hr ht).brood c hle x hx).1

/-- A task in a pid namespace of the module makes another below it, and has a
    child there. -/
theorem confinement_nested : ∃ k, RunIf step (fun _ act => act.restores = true)
      (init ⟨true, true, true, true, false⟩) k ∧
    ((k.task 1).activePidNs = 1 ∧ (k.pidns 2).level = 2) ∧
    ∃ x, k.nsproxyOf 1 = some x ∧ Below k (k.task 1).activePidNs x.pidNsForChildren := by
  obtain ⟨k, hrun, hk⟩ := execIf_check (C := fun _ act => act.restores = true) step
    (fun _ act => act.restores) (fun _ _ h => h) (init ⟨true, true, true, true, false⟩)
    [.clone 0 CLONE_NEWPID ⟨true, true, true, 0, 0, 0, 0, 0, 0, 0, 0, false⟩,
      .unshare 1 CLONE_NEWPID ⟨true, true, true, 0, 0, 0, 0, 0, 0, 0, 0, false⟩,
      .fork 1 0 ⟨true, true, true, 0, 0, 0, 0, 0, 0, 0, 0, false⟩]
    (fun k => decide (k.live 1 = true ∧ (k.task 1).activePidNs = 1 ∧ (k.pidns 2).level = 2))
    (by decide)
  obtain ⟨hlive, hk⟩ := of_decide_eq_true hk
  exact ⟨k, hrun, hk, (confinement hrun).2.2.1 1 hlive⟩

end Kernel

end DroidLkm.Slot
