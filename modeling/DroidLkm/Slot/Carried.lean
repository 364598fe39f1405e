/-
  Namespaces of tasks — who names a namespace that the module has made.

  * `Carries`: the nsproxy of a task names one, other than those of the host;
  * `Tame`: a call after which nobody names one who did not before; one lemma
    for each function, on a caller who names none and is not given a new one;
  * `Spares`: an `unshare` may give the caller one, and nobody else.
-/
import Mathlib.Tactic.ByContra
import DroidLkm.Slot.Effects
import DroidLkm.Slot.Machine

namespace DroidLkm.Slot

/-- Of the two kinds of namespaces the nsproxy names the host's. -/
def Nsproxy.Bare (x : Nsproxy) : Prop := x.pidNsForChildren = 0 ∧ ∀ n, x.ipcNs = some n → n = 0

namespace Kernel

variable {k k' k₁ k₂ : Kernel} {t tsk u p q b : ℕ} {new : Option ℕ} {flags : Flags} {e : Env}
  {x y : Nsproxy} {err err' : ℤ} {n : ℕ}

/-- A task whose nsproxy names a namespace of the module, not the host's. -/
def Carries (k : Kernel) (t : ℕ) : Prop := ∃ x, k.nsproxyOf t = some x ∧ ¬x.Bare

/-- Every nsproxy names what it named, or nothing that is the module's. -/
def Keeps (k k' : Kernel) (q : ℕ) : Prop := ∀ x', k'.nsp q = some x' → x'.Bare ∨
  ∃ x, k.nsp q = some x ∧ x'.pidNsForChildren = x.pidNsForChildren ∧ x'.ipcNs = x.ipcNs

structure Tame (k k' : Kernel) : Prop where
  nsp : ∀ q, Keeps k k' q
  task : ∀ u, (k'.task u).nsproxy = (k.task u).nsproxy ∨ ¬Carries k' u

/-! ## Nobody names more than before -/

theorem bare_congr (h : x.Bare) (hp : y.pidNsForChildren = x.pidNsForChildren)
    (hi : y.ipcNs = x.ipcNs) : y.Bare :=
  ⟨hp.trans h.1, fun n hn => h.2 n (hi ▸ hn)⟩

theorem Keeps.bare (h : Keeps k k' q) (hb : ∀ x, k.nsp q = some x → x.Bare) :
    ∀ x, k'.nsp q = some x → x.Bare := by
  intro x' hx'
  rcases h x' hx' with hb' | ⟨x, hx, hp, hi⟩
  · exact hb'
  · exact bare_congr (hb x hx) hp hi

theorem Keeps.of_eq (h : k'.nsp q = k.nsp q) : Keeps k k' q :=
  fun x' hx' => .inr ⟨x', h ▸ hx', rfl, rfl⟩

theorem Keeps.trans (h : Keeps k k₁ q) (h' : Keeps k₁ k₂ q) : Keeps k k₂ q := by
  intro x'' hx''
  rcases h' x'' hx'' with hb | ⟨x', hx', hp', hi'⟩
  · exact .inl hb
  rcases h x' hx' with hb | ⟨x, hx, hp, hi⟩
  · exact .inl (bare_congr hb hp' hi')
  · exact .inr ⟨x, hx, hp'.trans hp, hi'.trans hi⟩

theorem not_carries (hq : (k.task t).nsproxy = some q) (hb : ∀ x, k.nsp q = some x → x.Bare) :
    ¬Carries k t := by
  rintro ⟨x, hx, hn⟩
  rw [nsproxyOf, hq] at hx
  exact hn (hb x hx)

theorem not_carries_none (hq : (k.task t).nsproxy = none) : ¬Carries k t := by
  rintro ⟨x, hx, -⟩
  rw [nsproxyOf, hq] at hx
  cases hx

/-- A task that names nothing of the module has an nsproxy that does not. -/
theorem bare_of_not_carries (h : ¬Carries k t) (hx : k.nsproxyOf t = some x) : x.Bare := by
  by_contra hb
  exact h ⟨x, hx, hb⟩

theorem Keeps.carries (h : ∀ q, (k.task u).nsproxy = some q → Keeps k k' q)
    (ht : (k'.task u).nsproxy = (k.task u).nsproxy) (hn : Carries k' u) : Carries k u := by
  obtain ⟨x', hx', hb⟩ := hn
  obtain ⟨q, hq, hqx⟩ := nsproxyOf_some hx'
  rw [ht] at hq
  rcases h q hq x' hqx with hb' | ⟨x, hx, hp, hi⟩
  · exact absurd hb' hb
  · refine ⟨x, by rw [nsproxyOf, hq]; exact hx, fun hbx => hb (bare_congr hbx hp hi)⟩

/-- **Nobody names more than before.** -/
theorem Tame.carries (h : Tame k k') (hn : Carries k' u) : Carries k u := by
  rcases h.task u with ht | ht
  · exact Keeps.carries (fun q _ => h.nsp q) ht hn
  · exact absurd hn ht

theorem Tame.trans (h : Tame k k₁) (h' : Tame k₁ k₂) : Tame k k₂ := by
  refine ⟨fun q => (h.nsp q).trans (h'.nsp q), fun u => ?_⟩
  rcases h'.task u with ht' | ht'
  · rcases h.task u with ht | ht
    · exact .inl (ht'.trans ht)
    · exact .inr fun hn => ht (Keeps.carries (fun q _ => h'.nsp q) ht' hn)
  · exact .inr ht'

theorem Tame.of_quiet (h : Quiet k k') : Tame k k' :=
  ⟨fun _ => .of_eq (by rw [h.nsp]), fun _ => .inl (by rw [h.task])⟩

theorem Tame.refl (k : Kernel) : Tame k k := .of_quiet (Quiet.refl k)

/-! ## Proxies -/

theorem keeps_modifyNsp {f : Nsproxy → Nsproxy}
    (hf : ∀ x, (f x).pidNsForChildren = x.pidNsForChildren ∧ (f x).ipcNs = x.ipcNs) :
    Keeps k (k.modifyNsp p f) q := by
  by_cases hq : q = p
  · subst hq
    intro x' hx'
    simp only [modifyNsp, Function.update_self, Option.map_eq_some_iff] at hx'
    obtain ⟨x, hx, rfl⟩ := hx'
    exact .inr ⟨x, hx, (hf x).1, (hf x).2⟩
  · exact .of_eq (Function.update_of_ne hq _ _)

theorem keeps_putNsproxy : Keeps k (k.putNsproxy p) q := by
  by_cases hq : q = p
  · subst hq
    intro x' hx'
    simp only [putNsproxy, Function.update_self] at hx'
    obtain ⟨x, hx, hx'⟩ := Option.bind_eq_some_iff.1 hx'
    split at hx' <;> cases hx'
    exact .inr ⟨x, hx, rfl, rfl⟩
  · exact .of_eq (Function.update_of_ne hq _ _)

/-- A task is given another nsproxy, or none; the rest is as it was. -/
structure Moved (p : ℕ) (new : Option ℕ) (k k' : Kernel) : Prop where
  nsp : ∀ q, Keeps k k' q
  task : ∀ u, (k'.task u).nsproxy = if u = p then new else (k.task u).nsproxy

theorem Moved.quiet (h : Moved p new k k₁) (hq : Quiet k₁ k₂) : Moved p new k k₂ :=
  ⟨fun q => (h.nsp q).trans (.of_eq (by rw [hq.nsp])), fun u => by rw [hq.task]; exact h.task u⟩

theorem setTask_moved (k : Kernel) (p : ℕ) (new : Option ℕ) : Moved p new k (k.setTask p new) := by
  refine ⟨fun _ => .of_eq rfl, fun u => ?_⟩
  by_cases hu : u = p
  · subst hu
    simp [setTask]
  · simp [setTask, hu]

theorem switchTask_moved (k : Kernel) (p : ℕ) (new : Option ℕ) :
    Moved p new k (k.switchTask p new) := by
  have hs := setTask_moved k p new
  unfold switchTask
  split
  · exact hs
  · exact ⟨fun q => (hs.nsp q).trans keeps_putNsproxy, hs.task⟩

theorem switchRun_moved (k : Kernel) (p : ℕ) (new : Option ℕ) :
    Moved p new k (k.nsproxySwitchRun p new switchTask) := by
  have hs := switchTask_moved k p new
  unfold nsproxySwitchRun
  dsimp only
  split
  · exact hs.quiet (nsproxyDrop_quiet _ _)
  · exact hs

theorem switchTaskNamespaces_moved (k : Kernel) (p : ℕ) (new : Option ℕ) :
    Moved p new k (k.switchTaskNamespaces p new) := by
  unfold switchTaskNamespaces
  split
  · exact switchRun_moved k p new
  · exact switchTask_moved k p new

theorem exitTaskNamespaces_moved (k : Kernel) (p : ℕ) :
    Moved p none k (k.exitTaskNamespaces p) := by
  have hs := switchTaskNamespaces_moved k p none
  unfold exitTaskNamespaces
  split
  · unfold exitNsWrap
    dsimp only
    split
    · exact hs.quiet (nsproxyDrop_quiet _ _)
    · exact hs
  · exact hs

theorem Moved.tame_none (h : Moved p none k k') : Tame k k' := by
  refine ⟨h.nsp, fun u => ?_⟩
  by_cases hu : u = p
  · exact .inr (not_carries_none (by rw [h.task, if_pos hu]))
  · exact .inl (by rw [h.task, if_neg hu])

/-- The nsproxy that the task is given names nothing of the module. -/
theorem Moved.tame (h : Moved p (some q) k k') (hb : ∀ x, k.nsp q = some x → x.Bare) :
    Tame k k' := by
  refine ⟨h.nsp, fun u => ?_⟩
  by_cases hu : u = p
  · exact .inr (not_carries (by rw [h.task, if_pos hu]) ((h.nsp q).bare hb))
  · exact .inl (by rw [h.task, if_neg hu])

theorem Added.tame (h : Added k k' x) (hb : x.Bare) :
    Tame k k' ∧ ∀ y, k'.nsp k.nextNsp = some y → y.Bare := by
  have hself : ∀ y, k'.nsp k.nextNsp = some y → y.Bare := by
    intro y hy
    rw [h.nsp, Function.update_self] at hy
    obtain rfl := Option.some.inj hy
    exact hb
  refine ⟨⟨fun q => ?_, fun u => .inl (by rw [h.task])⟩, hself⟩
  by_cases hq : q = k.nextNsp
  · subst hq
    exact fun y hy => .inl (hself y hy)
  · exact .of_eq (by rw [h.nsp, Function.update_of_ne hq])

/-! ## Calls that make no namespace -/

/-- No namespace of the module is made for these flags. -/
def Plain (k : Kernel) (flags : Flags) (e : Env) : Prop :=
  has flags OURS = false ∨ e.gate = false ∨ k.cfg.cnnHooked = false ∧ k.cfg.cnHooked = false

theorem Plain.cnn (h : Plain k flags e) :
    has flags OURS = false ∨ e.gate = false ∨ k.cfg.cnnHooked = false :=
  h.imp_right fun h => h.imp_right fun h => h.1

/-- The kernel refuses what the module does not take over. -/
theorem createEntry_plain
    (hp : has flags OURS = false ∨ e.gate = false ∨ k.cfg.cnnHooked = false)
    (h : k.createEntry flags t tsk e = (k', .ok q)) : has flags OURS = false := by
  rcases hp with hf | hg | hc
  · exact hf
  · unfold createEntry cnnWrap at h
    rw [hg, Bool.not_false, Bool.or_true, if_pos rfl] at h
    split at h
    · rcases hr : k.createNewNamespaces flags tsk e.cnn with ⟨k₁, err | q₁⟩ <;> rw [hr] at h <;>
        cases h
      exact (createNewNamespaces_ok hr).2.1
    · exact (createNewNamespaces_ok h).2.1
  · unfold createEntry at h
    rw [hc, if_neg Bool.false_ne_true] at h
    exact (createNewNamespaces_ok h).2.1

theorem createEntry_tame
    (hp : has flags OURS = false ∨ e.gate = false ∨ k.cfg.cnnHooked = false)
    (hn : ¬Carries k tsk) (h : k.createEntry flags t tsk e = (k', .ok q)) :
    Tame k k' ∧ ∀ y, k'.nsp q = some y → y.Bare := by
  have hf := createEntry_plain hp h
  obtain ⟨x, hx, rfl, ha⟩ := createEntry_ok h
  rw [newNsp_eq hf] at ha
  exact ha.tame (bare_congr (bare_of_not_carries hn hx) rfl rfl)

theorem copyNamespaces_tame
    (hp : has flags OURS = false ∨ e.gate = false ∨ k.cfg.cnnHooked = false)
    (hn : ¬Carries k tsk) : Tame k (k.copyNamespaces flags t tsk e).1 := by
  unfold copyNamespaces
  split
  · split
    · exact .refl k
    · exact ⟨fun _ => keeps_modifyNsp fun _ => ⟨rfl, rfl⟩, fun _ => .inl rfl⟩
  split
  · exact .refl k
  split
  · exact .refl k
  rcases hr : k.createEntry flags t tsk e with ⟨k₁, err | q⟩ <;> dsimp only
  · exact .of_quiet (createEntry_error hr).1
  · obtain ⟨ht, hb⟩ := createEntry_tame hp hn hr
    exact ht.trans ((setTask_moved k₁ tsk (some q)).tame hb)

theorem copyEntry_tame (t : ℕ) (hp : Plain k flags e) (hn : ¬Carries k tsk) :
    Tame k (k.copyEntry flags t tsk e).1 := by
  have hcopy : Tame k (k.copyNamespaces flags t tsk e).1 := copyNamespaces_tame hp.cnn hn
  have hhold : Tame k (if (k.copyNamespaces flags t tsk e).2 = 0 then
      (k.copyNamespaces flags t tsk e).1.holdOf tsk else (k.copyNamespaces flags t tsk e).1) := by
    split
    · exact hcopy.trans (.of_quiet (holdOf_quiet _ _))
    · exact hcopy
  unfold copyEntry
  split
  · next hc =>
    unfold cnWrap
    dsimp only
    split
    · exact hhold
    next hf =>
    split
    · exact hcopy
    split
    · exact hhold
    next hg =>
    rcases hp with h | h | ⟨-, h⟩
    · rw [h] at hf
      exact absurd rfl hf
    · rw [h] at hg
      exact absurd rfl hg
    · rw [h] at hc
      cases hc
  · exact hcopy

/-- A child begins with the nsproxy of its parent. -/
theorem newTask_tame (hn : ¬Carries k t) :
    Tame k { k with
      task := Function.update k.task k.nextTask (k.task t)
      nextTask := k.nextTask + 1 } ∧
    ¬Carries { k with
      task := Function.update k.task k.nextTask (k.task t)
      nextTask := k.nextTask + 1 } k.nextTask := by
  have hchild : ¬Carries { k with
      task := Function.update k.task k.nextTask (k.task t)
      nextTask := k.nextTask + 1 } k.nextTask := by
    rintro ⟨x, hx, hb⟩
    rw [nsproxyOf] at hx
    dsimp only at hx
    rw [Function.update_self] at hx
    exact hn ⟨x, hx, hb⟩
  refine ⟨⟨fun _ => .of_eq rfl, fun u => ?_⟩, hchild⟩
  by_cases hu : u = k.nextTask
  · exact .inr (hu ▸ hchild)
  · exact .inl (congrArg Task.nsproxy (Function.update_of_ne hu _ _))

theorem setActive_tame (k : Kernel) (c n : ℕ) :
    Tame k { k with task := Function.update k.task c { k.task c with activePidNs := n } } := by
  refine ⟨fun _ => .of_eq rfl, fun u => .inl ?_⟩
  by_cases hu : u = c
  · subst hu
    simp
  · simp [hu]

theorem kernelClone_tame (hp : Plain k flags e) (hn : ¬Carries k t) :
    Tame k (k.kernelClone flags t e).1 := by
  unfold kernelClone
  split
  · exact .refl k
  obtain ⟨h₀, hchild⟩ := newTask_tame hn
  have h₁ := h₀.trans (copyEntry_tame t hp hchild)
  dsimp only
  split
  · exact h₁.trans (setTask_moved _ _ none).tame_none
  split
  · exact h₁.trans (exitTaskNamespaces_moved _ _).tame_none
  · exact h₁.trans (setActive_tame _ _ _)

/-- The module's own `clone` is not used. -/
theorem Plain.not_ready (hp : Plain k flags e) : k.cloneNsReady flags e = false := by
  unfold cloneNsReady
  rcases hp with h | h | ⟨h, -⟩ <;> rw [h] <;> simp

theorem sysClone_tame (hp : Plain k flags e) (hn : ¬Carries k t) :
    Tame k (k.sysClone flags t e).1 := by
  unfold sysClone
  rw [hp.not_ready, Bool.not_false, if_pos rfl]
  refine kernelClone_tame ?_ hn
  unfold Plain
  rw [has_cloneFlags (by decide)]
  exact hp

theorem sysClone3_tame (u : UserArgs) (hp : Plain k flags e) (hn : ¬Carries k t) :
    Tame k (k.sysClone3 flags t u e).1 := by
  unfold sysClone3
  rw [hp.not_ready, Bool.not_false, Bool.or_true, if_pos rfl, kernelClone3]
  split
  · exact .refl k
  · exact kernelClone_tame hp hn

theorem kernelUnshare_tame
    (hp : has flags OURS = false ∨ e.gate = false ∨ k.cfg.cnnHooked = false)
    (hn : ¬Carries k t) : Tame k (k.kernelUnshare flags t e).1 := by
  unfold kernelUnshare
  split
  · exact .refl k
  split
  · exact .refl k
  split
  · exact .refl k
  rcases hr : k.createEntry flags t t e with ⟨k₁, err | q⟩ <;> dsimp only
  · exact .of_quiet (createEntry_error hr).1
  · obtain ⟨ht, hb⟩ := createEntry_tame hp hn hr
    exact ht.trans ((switchTaskNamespaces_moved k₁ t (some q)).tame hb)

/-! ## `setns` -/

/-- What is written into an nsproxy that names nothing of the module. -/
theorem modifyNsp_tame {f : Nsproxy → Nsproxy} (hb : ∀ x, k.nsp q = some x → x.Bare)
    (hf : ∀ x : Nsproxy, x.Bare → (f x).Bare) :
    Tame k (k.modifyNsp q f) ∧ ∀ y, (k.modifyNsp q f).nsp q = some y → y.Bare := by
  have hself : ∀ y, (k.modifyNsp q f).nsp q = some y → y.Bare := by
    intro y hy
    simp only [modifyNsp, Function.update_self, Option.map_eq_some_iff] at hy
    obtain ⟨x, hx, rfl⟩ := hy
    exact hf x (hb x hx)
  refine ⟨⟨fun p => ?_, fun _ => .inl rfl⟩, hself⟩
  by_cases hp : p = q
  · subst hp
    exact fun y hy => .inl (hself y hy)
  · exact .of_eq (Function.update_of_ne hp _ _)

theorem setnsRun_tame {install : Kernel → ℕ → Kernel × ℤ} (hn : ¬Carries k t)
    (hi : ∀ k q, (∀ x, k.nsp q = some x → x.Bare) →
      Tame k (install k q).1 ∧ ∀ y, (install k q).1.nsp q = some y → y.Bare) :
    Tame k (k.setnsRun t e install).1 := by
  unfold setnsRun
  rcases hr : k.createEntry 0 t t e with ⟨k₁, err | q⟩ <;> dsimp only
  · exact .of_quiet (createEntry_error hr).1
  · obtain ⟨h₁, hb₁⟩ := createEntry_tame (.inl (by decide)) hn hr
    obtain ⟨h₂, hb₂⟩ := hi k₁ q hb₁
    split
    · refine (h₁.trans h₂).trans ⟨fun p => ?_, fun _ => .inl rfl⟩
      by_cases hp : p = q
      · subst hp
        intro y hy
        dsimp only at hy
        rw [Function.update_self] at hy
        cases hy
      · exact .of_eq (Function.update_of_ne hp _ _)
    · exact (h₁.trans h₂).trans ((switchTaskNamespaces_moved _ t (some q)).tame hb₂)

/-! ## `unshare` of the module -/

/-- Another nsproxy than `q` names no more, and no task but `t` has `q`. -/
structure Spares (q t : ℕ) (k k' : Kernel) : Prop where
  nsp : ∀ p, p ≠ q → Keeps k k' p
  task : ∀ u, u ≠ t → (k'.task u).nsproxy = (k.task u).nsproxy ∧ (k.task u).nsproxy ≠ some q

theorem Spares.carries (h : Spares q t k k') (hu : u ≠ t) (hn : Carries k' u) : Carries k u := by
  obtain ⟨ht, hq⟩ := h.task u hu
  refine Keeps.carries (fun p hp => h.nsp p ?_) ht hn
  rintro rfl
  exact hq hp

/-- More is written into the same nsproxy. -/
theorem Spares.wrote (h : Spares q t k k₁) (ht : k₂.task = k₁.task)
    (hn : ∀ p, p ≠ q → k₂.nsp p = k₁.nsp p) : Spares q t k k₂ := by
  refine ⟨fun p hp => (h.nsp p hp).trans (.of_eq (hn p hp)), fun u hu => ?_⟩
  rw [ht]
  exact h.task u hu

/-- `unshare` of the kernel changes the caller alone, and gives it a new
    nsproxy. -/
theorem kernelUnshare_spares (hw : Wf k) (hns : has flags KERNEL_NS = true)
    (h : k.kernelUnshare flags t e = (k', 0)) :
    Spares k.nextNsp t k k' ∧ (k'.task t).nsproxy = some k.nextNsp := by
  unfold kernelUnshare at h
  rw [hns, Bool.not_true, if_neg Bool.false_ne_true] at h
  split at h
  · next he => exact absurd (Prod.mk.inj h).2 he
  split at h
  · cases h
  rcases hr : k.createEntry flags t t e with ⟨k₁, err | q⟩ <;> rw [hr] at h <;> cases h
  · exact absurd rfl (createEntry_error hr).2
  obtain ⟨x, -, rfl, ha⟩ := createEntry_ok hr
  have hm := switchTaskNamespaces_moved k₁ t (some k.nextNsp)
  refine ⟨⟨fun p hp => ?_, fun u hu => ?_⟩, by rw [hm.task, if_pos rfl]⟩
  · refine Keeps.trans (.of_eq ?_) (hm.nsp p)
    rw [ha.nsp, Function.update_of_ne hp]
  · rw [hm.task, if_neg hu, ha.task]
    refine ⟨rfl, fun hq => ?_⟩
    exact absurd (hw.task u _ hq).2 (Nat.lt_irrefl _)

theorem kernelUnshare_failed (h : k.kernelUnshare flags t e = (k', err)) (he : err ≠ 0) :
    Quiet k k' := by
  unfold kernelUnshare at h
  split at h
  · cases h
    exact Quiet.refl k
  split at h
  · cases h
    exact absurd rfl he
  split at h
  · cases h
    exact Quiet.refl k
  rcases hr : k.createEntry flags t t e with ⟨k₁, err₁ | q⟩ <;> rw [hr] at h <;> cases h
  · exact (createEntry_error hr).1
  · exact absurd rfl he

theorem ipcnsCreate_error (h : k.ipcnsCreate err = (k', .error err')) : k' = k ∧ err' ≠ 0 := by
  unfold ipcnsCreate at h
  split at h
  · next he =>
    cases h
    exact ⟨rfl, he⟩
  · cases h

theorem pidnsCreate_error (h : k.pidnsCreate p err = (k', .error err')) : k' = k := by
  unfold pidnsCreate at h
  dsimp only at h
  split_ifs at h <;> cases h <;> rfl

theorem ipcnsCreate_ok (h : k.ipcnsCreate err = (k', .ok n)) : Quiet k k' := by
  unfold ipcnsCreate at h
  split at h <;> cases h
  exact ⟨rfl, rfl, rfl, rfl, rfl, rfl, rfl⟩

theorem pidnsCreate_ok (h : k.pidnsCreate p err = (k', .ok n)) : Quiet k k' := by
  unfold pidnsCreate at h
  dsimp only at h
  split_ifs at h <;> cases h
  exact ⟨rfl, rfl, rfl, rfl, rfl, rfl, rfl⟩

theorem slotInstallIpcns_failed (h : (k.slotInstallIpcns t e).2 ≠ 0) :
    Quiet k (k.slotInstallIpcns t e).1 := by
  unfold slotInstallIpcns at h ⊢
  rcases hr : k.ipcnsCreate e.ipcns with ⟨k₁, err | n⟩ <;> rw [hr] at h <;> dsimp only at h ⊢
  · rw [(ipcnsCreate_error hr).1]
    exact Quiet.refl k
  · split
    · exact (ipcnsCreate_ok hr).trans (ipcnsPut_quiet k₁ (some n))
    · next q hq =>
      rw [hq] at h
      exact absurd rfl h

/-- A namespace is installed in the nsproxy of the caller alone. -/
theorem Spares.slotInstallIpcns (h : Spares q t k k₁) (hq : (k₁.task t).nsproxy = some q)
    (e : Env) : Spares q t k (k₁.slotInstallIpcns t e).1 ∧
      ((k₁.slotInstallIpcns t e).1.task t).nsproxy = some q := by
  unfold Kernel.slotInstallIpcns
  rcases hr : k₁.ipcnsCreate e.ipcns with ⟨k₂, err | n⟩ <;> dsimp only
  · rw [(ipcnsCreate_error hr).1]
    exact ⟨h, hq⟩
  · have hquiet := ipcnsCreate_ok hr
    rw [hquiet.task, hq]
    refine ⟨h.wrote hquiet.task fun p hp => ?_, hquiet.task ▸ hq⟩
    rw [← hquiet.nsp]
    exact Function.update_of_ne hp _ _

theorem Spares.slotInstallPidns (h : Spares q t k k₁) (hq : (k₁.task t).nsproxy = some q)
    (e : Env) : Spares q t k (k₁.slotInstallPidns t e).1 := by
  unfold Kernel.slotInstallPidns
  rcases hr : k₁.pidnsCreateForCurrent t e.pidns with ⟨k₂, err | n⟩ <;> dsimp only
  · rw [pidnsCreate_error hr]
    exact h
  · have hquiet := pidnsCreate_ok hr
    rw [hquiet.task, hq]
    refine h.wrote hquiet.task fun p hp => ?_
    rw [← hquiet.nsp]
    exact Function.update_of_ne hp _ _

end Kernel

end DroidLkm.Slot
