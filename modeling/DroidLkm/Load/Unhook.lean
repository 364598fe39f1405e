/-
  The hooks of a load that fails.

  * `Installs`, `Removes`, `Swept`: what becomes of one hook that is tried, removed,
    or left to the end;
  * `made`: its record;
  * `hooksUp`, `hooksProc`: the records after `droid_lkm_slot_init` and after
    `droid_lkm_proc_init`;
  * `unhooked_up`, `unhooked_removed`, `unhooked_status`: when nothing is left of
    them, for each place from which a load can fail.
-/
import DroidLkm.Load.Init

namespace DroidLkm.Load

variable {e : Env} {x : Record} {h : Hook}

/-! ## One hook -/

namespace Engine

variable {k : Engine}

/-- Who redirects the function when the hook is installed; for a library that hands
    back no handle, that is not a success. -/
def redirOf (k : Engine) (h : Hook) : Option Owner :=
  if k.mode = 2 ∨ k.mode = 1 then if k.redirInstall h = 0 then some .own else none
  else if k.vcInstall h = 0 then some .library else none

/-- The hook can be installed. -/
def Installs (k : Engine) (h : Hook) : Prop :=
  k.redirOf h ≠ none ∧ (k.mode = 2 ∨ k.mode = 1 ∨ k.vcHandle h = true)

def routeOf (k : Engine) (h : Hook) : Route :=
  if k.mode = 2 then .kprobe else if k.mode = 1 then .text else k.vcRoute h

/-- An installed hook is taken back by its removal. -/
def Removes (k : Engine) (h : Hook) : Prop :=
  k.Installs h ∧ k.routeOf h ≠ .slot ∧ k.redirRemove h = 0

/-- What `ds_hook_exit` and `hk_exit` leave of the redirection of a function. -/
def Swept (k : Engine) (h : Hook) : Prop :=
  k.redirOf h = none ∨ k.hkExit h = true ∨ k.redirOf h = some .library ∧ k.vcExit h = true

instance (k : Engine) (h : Hook) : Decidable (k.Installs h) :=
  inferInstanceAs (Decidable (_ ∧ _))

instance (k : Engine) (h : Hook) : Decidable (k.Removes h) :=
  inferInstanceAs (Decidable (_ ∧ _))

/-- The record of a hook that has been installed from nothing, or has failed to be. -/
def made (k : Engine) (h : Hook) : Record :=
  if k.Installs h then ⟨true, k.routeOf h, false, k.redirOf h⟩
  else ⟨false, .none, false, k.redirOf h⟩

/-- A redirection on a forced route. -/
theorem routeInstall_fresh (r : Route) (hmode : k.mode = 2 ∨ k.mode = 1)
    (hr : k.routeOf h = r) :
    ((k.routeInstall h r Record.fresh.clear).1 = 0 ↔ k.Installs h) ∧
      (k.routeInstall h r Record.fresh.clear).2 = k.made h := by
  have hred : k.redirOf h = if k.redirInstall h = 0 then some .own else none := if_pos hmode
  have hinst : k.Installs h ↔ k.redirInstall h = 0 := by
    rw [Installs, hred, ← or_assoc]
    by_cases hi : k.redirInstall h = 0 <;> simp [hi, hmode]
  unfold routeInstall
  by_cases hi : k.redirInstall h = 0
  · rw [made, if_pos (hinst.2 hi), hred, hr, if_pos hi, if_neg (not_not.2 hi)]
    exact ⟨iff_of_true rfl (hinst.2 hi), rfl⟩
  · rw [made, if_neg (mt hinst.1 hi), hred, if_neg hi, if_pos hi]
    exact ⟨iff_of_false hi (mt hinst.1 hi), rfl⟩

theorem enodata_ne : -ENODATA ≠ 0 := by decide

/-- What a hook that has not been tried before has after it has been. -/
theorem install_fresh (k : Engine) (h : Hook) :
    ((k.install h Record.fresh).1 = 0 ↔ k.Installs h) ∧
      (k.install h Record.fresh).2 = k.made h := by
  unfold install
  by_cases h2 : k.mode = 2
  · rw [if_pos h2]
    exact routeInstall_fresh .kprobe (Or.inl h2) (if_pos h2)
  by_cases h1 : k.mode = 1
  · rw [if_neg h2, if_pos h1]
    exact routeInstall_fresh .text (Or.inr h1) (by rw [routeOf, if_neg h2, if_pos h1])
  have hmode : ¬ (k.mode = 2 ∨ k.mode = 1) := not_or.2 ⟨h2, h1⟩
  have hred : k.redirOf h = if k.vcInstall h = 0 then some .library else none := if_neg hmode
  have hroute : k.routeOf h = k.vcRoute h := by rw [routeOf, if_neg h2, if_neg h1]
  have hinst : k.Installs h ↔ k.vcInstall h = 0 ∧ k.vcHandle h = true := by
    rw [Installs, hred, ← or_assoc, or_iff_right hmode]
    by_cases hi : k.vcInstall h = 0 <;> simp [hi]
  rw [if_neg h2, if_neg h1]
  unfold auto
  by_cases hi : k.vcInstall h = 0
  · rw [if_neg (not_not.2 hi), made, hred, hroute, if_pos hi]
    cases hh : k.vcHandle h with
    | true =>
      have hins : k.Installs h := hinst.2 ⟨hi, hh⟩
      rw [if_pos hins]
      exact ⟨iff_of_true rfl hins, rfl⟩
    | false =>
      have hins : ¬ k.Installs h := fun hins => by rw [(hinst.1 hins).2] at hh; cases hh
      rw [if_neg hins]
      exact ⟨iff_of_false enodata_ne hins, rfl⟩
  · have hins : ¬ k.Installs h := fun hins => hi (hinst.1 hins).1
    rw [if_pos hi, made, if_neg hins, hred, if_neg hi]
    exact ⟨iff_of_false hi hins, rfl⟩

/-- The redirection of a hook that was tried and then removed. -/
theorem remove_made (k : Engine) (h : Hook) :
    (k.remove h (k.made h)).redir = if k.Removes h then none else k.redirOf h := by
  unfold remove made Removes
  by_cases hi : k.Installs h
  · by_cases hr : k.routeOf h = .slot
    · simp [hi, hr]
    · by_cases hz : k.redirRemove h = 0 <;> simp [hi, hr, hz]
  · simp [hi]

theorem made_redir (k : Engine) (h : Hook) : (k.made h).redir = k.redirOf h := by
  unfold made
  split <;> rfl

/-- What `ds_hook_exit` and `hk_exit` leave of a redirection. -/
theorem exits_redir (hx : x.redir = none ∨ x.redir = k.redirOf h) :
    (k.exits h x).redir = none ↔ x.redir = none ∨ k.Swept h := by
  have hexits : (k.exits h x).redir =
      if k.hkExit h = true ∨ x.redir = some .library ∧ k.vcExit h = true then none
      else x.redir := by
    unfold exits
    by_cases hk : k.hkExit h = true <;>
      by_cases hv : x.redir = some .library ∧ k.vcExit h = true <;> simp [hk, hv]
  rw [hexits, Swept]
  rcases hx with hx | hx
  · simp [hx]
  · rw [hx]
    by_cases hc : k.hkExit h = true ∨ k.redirOf h = some .library ∧ k.vcExit h = true
    · simp [hc]
    · simp [hc]

theorem exits_fresh (k : Engine) (h : Hook) : (k.exits h Record.fresh).redir = none := by
  unfold exits Record.fresh
  dsimp only
  split
  · rfl
  · split <;> rfl

theorem exits_made (k : Engine) (h : Hook) :
    (k.exits h (k.made h)).redir = none ↔ k.Swept h := by
  rw [exits_redir (Or.inr (made_redir k h)), made_redir]
  exact or_iff_right_of_imp Or.inl

theorem exits_remove_made (k : Engine) (h : Hook) :
    (k.exits h (k.remove h (k.made h))).redir = none ↔ k.Removes h ∨ k.Swept h := by
  have hred := remove_made k h
  by_cases hr : k.Removes h
  · rw [if_pos hr] at hred
    rw [exits_redir (Or.inl hred)]
    exact iff_of_true (Or.inl hred) (Or.inl hr)
  · rw [if_neg hr] at hred
    rw [exits_redir (Or.inr hred), hred, or_iff_right hr]
    exact or_iff_right_of_imp Or.inl

/-! ## The hooks of a load -/

theorem hookInstall_fresh {s : Hooks} (hs : s.record h = Record.fresh) :
    ((k.hookInstall h s).1 = 0 ↔ k.Installs h) ∧ (k.hookInstall h s).2 = s.set h (k.made h) := by
  unfold hookInstall
  rw [hs]
  exact ⟨(install_fresh k h).1, congrArg (s.set h) (install_fresh k h).2⟩

theorem hookInstallCritical_fresh {s : Hooks} (hs : s.record h = Record.fresh) :
    (k.hookInstallCritical h s).2 =
      { s.set h (k.made h) with criticalMissing := s.criticalMissing || !decide (k.Installs h) } := by
  obtain ⟨hret, hset⟩ := hookInstall_fresh (k := k) hs
  unfold hookInstallCritical
  dsimp only
  rw [hset]
  simp [hret]

end Engine

/-- The records after `droid_lkm_slot_init`. -/
def Env.hooksUp (e : Env) : Hooks where
  record
    | .cnn => e.hk.made .cnn
    | .cn => e.hk.made .cn
    | .switch =>
      if e.hk.Installs .switch ∧ ¬ e.hk.Installs .exitNs then
        e.hk.remove .switch (e.hk.made .switch)
      else e.hk.made .switch
    | .exitNs => if e.hk.Installs .switch then e.hk.made .exitNs else Record.fresh
    | _ => Record.fresh
  field := false
  criticalMissing := !decide (e.hk.Installs .cnn ∧ e.hk.Installs .cn)

theorem slotInit_hooks (e : Env) :
    e.nsproxyReleaseHooksInstall (e.hk.hookInstallCritical .cn
      (e.hk.hookInstallCritical .cnn Hooks.fresh).2).2 = e.hooksUp := by
  rw [Engine.hookInstallCritical_fresh (s := Hooks.fresh) rfl,
    Engine.hookInstallCritical_fresh (by simp [Hooks.fresh])]
  unfold Env.nsproxyReleaseHooksInstall
  dsimp only
  generalize hs : ({ (Hooks.set _ Hook.cn _) with criticalMissing := _ } : Hooks) = s
  have hrec : s.record = fun
      | .cnn => e.hk.made .cnn
      | .cn => e.hk.made .cn
      | _ => Record.fresh := by
    rw [← hs]
    funext h
    cases h <;> simp [Hooks.fresh]
  have hfield : s.field = false := by rw [← hs]; rfl
  have hcrit : s.criticalMissing = !decide (e.hk.Installs .cnn ∧ e.hk.Installs .cn) := by
    rw [← hs]
    simp [Hooks.fresh]
  obtain ⟨hsw, hswset⟩ := Engine.hookInstall_fresh (k := e.hk) (s := s) (h := .switch) (by rw [hrec])
  obtain ⟨hex, hexset⟩ := Engine.hookInstall_fresh (k := e.hk) (h := .exitNs)
    (s := s.set .switch (e.hk.made .switch)) (by simp [hrec])
  rw [hswset]
  by_cases hi : e.hk.Installs .switch
  case neg =>
    rw [if_pos (mt hsw.1 hi)]
    refine Hooks.ext (funext fun h => ?_) hfield hcrit
    cases h <;> simp [Env.hooksUp, hrec, hi]
  case pos =>
    rw [if_neg (not_not.2 (hsw.2 hi)), hexset]
    by_cases hx : e.hk.Installs .exitNs
    · rw [if_neg (not_not.2 (hex.2 hx))]
      refine Hooks.ext (funext fun h => ?_) hfield hcrit
      cases h <;> simp [Env.hooksUp, hrec, hi, hx]
    · rw [if_pos (mt hex.1 hx)]
      refine Hooks.ext (funext fun h => ?_) (by simp [Engine.hookRemove, hfield, Env.hooksUp]) hcrit
      cases h <;> simp [Env.hooksUp, Engine.hookRemove, hrec, hi, hx]

namespace Env

/-- `droid_lkm_proc_init` gets to its hook. -/
def ProcTried (e : Env) : Prop :=
  e.procSyms = true ∧ e.nsOpsHostInit = 0 ∧ e.hostOps = true ∧ e.stealNsLinkIops = 0 ∧
    e.origNsLookup = true

/-- The hook of `droid_lkm_proc_init` can be installed. -/
def NsdirTakes (e : Env) : Prop := e.hk.fieldWrite = 0 ∨ e.hk.Installs .nsdir

def ProcFails (e : Env) : Prop := ¬ e.ProcTried ∨ e.NsdirTakes ∧ e.tryModuleGet = false

instance (e : Env) : Decidable e.ProcTried := inferInstanceAs (Decidable (_ ∧ _))

instance (e : Env) : Decidable e.NsdirTakes := inferInstanceAs (Decidable (_ ∨ _))

instance (e : Env) : Decidable e.ProcFails := inferInstanceAs (Decidable (_ ∨ _))

/-- The record of the hook that has been tried. -/
def nsdirMade (e : Env) : Record :=
  if e.hk.fieldWrite = 0 then ⟨true, .slot, true, none⟩ else e.hk.made .nsdir

/-- The records once it has been tried. -/
def hooksProc (e : Env) : Hooks :=
  { e.hooksUp.set .nsdir e.nsdirMade with field := decide (e.hk.fieldWrite = 0) }

theorem hookInstallSlot_up (e : Env) :
    ((e.hk.hookInstallSlot e.hooksUp).1 = 0 ↔ e.NsdirTakes) ∧
      (e.hk.hookInstallSlot e.hooksUp).2 = e.hooksProc := by
  unfold Engine.hookInstallSlot NsdirTakes hooksProc nsdirMade
  by_cases hw : e.hk.fieldWrite = 0
  · rw [if_pos hw, if_pos hw]
    refine ⟨iff_of_true rfl (Or.inl hw), ?_⟩
    rw [decide_eq_true hw]
    rfl
  · obtain ⟨hret, hset⟩ := Engine.hookInstall_fresh (k := e.hk) (s := e.hooksUp) (h := .nsdir) rfl
    rw [if_neg hw, if_neg hw, hret, hset, or_iff_right hw]
    refine ⟨Iff.rfl, ?_⟩
    rw [decide_eq_false hw]
    rfl

/-- What `err_slot` and the labels below it make of the hooks. -/
def shut (e : Env) (s : Hooks) : Hooks :=
  e.hk.hookExits (e.hk.hookRemove .cn (e.hk.hookRemove .cnn (e.hk.hookRemove .nsdir s)))

/-- Nothing of the hooks is in force. -/
def Unhooked (s : Hooks) : Prop := (∀ h, (s.record h).redir = none) ∧ s.field = false

/-- The hooks of `droid_lkm_slot_init` come back. -/
def HooksBack (e : Env) : Prop :=
  (e.hk.Removes .cnn ∨ e.hk.Swept .cnn) ∧ (e.hk.Removes .cn ∨ e.hk.Swept .cn) ∧
    (e.hk.Swept .switch ∨ e.hk.Removes .switch ∧ ¬ e.hk.Installs .exitNs) ∧
    (e.hk.Installs .switch → e.hk.Swept .exitNs)

/-- The hook of `droid_lkm_proc_init` comes back. -/
def NsdirBack (e : Env) : Prop :=
  (e.hk.fieldWrite = 0 → e.hk.fieldRestore = 0) ∧
    (e.hk.fieldWrite ≠ 0 → e.hk.Removes .nsdir ∨ e.hk.Swept .nsdir)

/-- The function hooks of `droid_lkm_slot_init` in the end. -/
theorem unhooked_slot (e : Env) :
    ((e.hk.exits .cnn (e.hk.remove .cnn (e.hooksUp.record .cnn))).redir = none ∧
      (e.hk.exits .cn (e.hk.remove .cn (e.hooksUp.record .cn))).redir = none ∧
      (e.hk.exits .switch (e.hooksUp.record .switch)).redir = none ∧
      (e.hk.exits .exitNs (e.hooksUp.record .exitNs)).redir = none) ↔ e.HooksBack := by
  refine and_congr (Engine.exits_remove_made ..) (and_congr (Engine.exits_remove_made ..)
    (and_congr ?_ ?_))
  · dsimp only [hooksUp]
    split
    case isTrue hx =>
      rw [Engine.exits_remove_made, and_iff_left hx.2, or_comm]
    case isFalse hx =>
      rw [Engine.exits_made]
      exact (or_iff_left fun hr => hx ⟨hr.1.1, hr.2⟩).symm
  · dsimp only [hooksUp]
    split
    case isTrue hi => rw [Engine.exits_made, imp_iff_right hi]
    case isFalse hi => exact iff_of_true (Engine.exits_fresh ..) fun h => absurd h hi

/-- The four hooks of `droid_lkm_slot_init` are as it left them. -/
def SlotHooks (e : Env) (s : Hooks) : Prop :=
  s.record .cnn = e.hooksUp.record .cnn ∧ s.record .cn = e.hooksUp.record .cn ∧
    s.record .switch = e.hooksUp.record .switch ∧ s.record .exitNs = e.hooksUp.record .exitNs

theorem made_slot (k : Engine) (h : Hook) : (k.made h).slot = false := by
  unfold Engine.made
  split <;> rfl

/-- What is left of the hooks in the end. -/
theorem unhooked_shut {s : Hooks} (hs : e.SlotHooks s) :
    Unhooked (e.shut s) ↔ e.HooksBack ∧
      ((e.hk.exits .nsdir (e.hk.remove .nsdir (s.record .nsdir))).redir = none ∧
        (e.hk.hookRemove .nsdir s).field = false) ∧
      (e.hk.exits .status (s.record .status)).redir = none := by
  obtain ⟨hcnn, hcn, hsw, hex⟩ := hs
  have hslot : (s.record .cnn).slot = false ∧ (s.record .cn).slot = false :=
    ⟨hcnn ▸ made_slot e.hk .cnn, hcn ▸ made_slot e.hk .cn⟩
  have hfield : (e.shut s).field = (e.hk.hookRemove .nsdir s).field := by
    simp [shut, Engine.hookExits, Engine.hookRemove, hslot]
  rw [← unhooked_slot, ← hcnn, ← hcn, ← hsw, ← hex, Unhooked, hfield]
  have hrec : (∀ h, ((e.shut s).record h).redir = none) ↔
      (e.hk.exits .cnn (e.hk.remove .cnn (s.record .cnn))).redir = none ∧
      (e.hk.exits .cn (e.hk.remove .cn (s.record .cn))).redir = none ∧
      (e.hk.exits .switch (s.record .switch)).redir = none ∧
      (e.hk.exits .exitNs (s.record .exitNs)).redir = none ∧
      (e.hk.exits .nsdir (e.hk.remove .nsdir (s.record .nsdir))).redir = none ∧
      (e.hk.exits .status (s.record .status)).redir = none := by
    have hall : ∀ p : Hook → Prop, (∀ h, p h) ↔
        p .cnn ∧ p .cn ∧ p .switch ∧ p .exitNs ∧ p .nsdir ∧ p .status := by
      refine fun p => ⟨fun h => ⟨h _, h _, h _, h _, h _, h _⟩, fun h x => ?_⟩
      cases x
      · exact h.1
      · exact h.2.1
      · exact h.2.2.1
      · exact h.2.2.2.1
      · exact h.2.2.2.2.1
      · exact h.2.2.2.2.2
    rw [hall]
    simp [shut, Engine.hookExits, Engine.hookRemove]
  rw [hrec]
  tauto

theorem slotHooks_up (e : Env) : e.SlotHooks e.hooksUp := ⟨rfl, rfl, rfl, rfl⟩

theorem slotHooks_proc (e : Env) : e.SlotHooks e.hooksProc := ⟨rfl, rfl, rfl, rfl⟩

theorem SlotHooks.remove {s : Hooks} (hs : e.SlotHooks s) :
    e.SlotHooks (e.hk.hookRemove .nsdir s) := by
  simpa [SlotHooks, Engine.hookRemove] using hs

theorem remove_fresh (k : Engine) (h : Hook) : k.remove h Record.fresh = Record.fresh := rfl

/-- The load failed before `droid_lkm_proc_init` tried its hook. -/
theorem unhooked_up (e : Env) : Unhooked (e.shut e.hooksUp) ↔ e.HooksBack := by
  rw [unhooked_shut e.slotHooks_up]
  refine and_iff_left ⟨⟨?_, ?_⟩, Engine.exits_fresh ..⟩
  · have hr : e.hooksUp.record .nsdir = Record.fresh := rfl
    rw [hr, remove_fresh]
    exact Engine.exits_fresh ..
  · simp [Engine.hookRemove, hooksUp]

/-- The hook of `droid_lkm_proc_init`, once tried, in the end. -/
theorem nsdir_back (e : Env) :
    (e.hk.exits .nsdir (e.hk.remove .nsdir e.nsdirMade)).redir = none ∧
      (e.hk.hookRemove .nsdir e.hooksProc).field = false ↔ e.NsdirBack := by
  have hrec : e.hooksProc.record .nsdir = e.nsdirMade := by simp [hooksProc]
  have hfield : (e.hk.hookRemove .nsdir e.hooksProc).field =
      (decide (e.hk.fieldWrite = 0) && !(e.nsdirMade.live && e.nsdirMade.route = .slot &&
        e.nsdirMade.slot && e.hk.fieldRestore = 0)) := by
    rw [← hrec]
    rfl
  rw [hfield, NsdirBack, nsdirMade]
  by_cases hw : e.hk.fieldWrite = 0
  · have hx : (e.hk.exits .nsdir (e.hk.remove .nsdir ⟨true, .slot, true, none⟩)).redir = none :=
      (Engine.exits_redir (Or.inl rfl)).2 (Or.inl rfl)
    rw [if_pos hw, and_iff_right hx]
    simp [hw]
  · rw [if_neg hw, Engine.exits_remove_made]
    simp [hw]

theorem hookRemove_twice (k : Engine) (h : Hook) (s : Hooks) :
    (k.hookRemove h (k.hookRemove h s)).field = (k.hookRemove h s).field ∧
      k.remove h ((k.hookRemove h s).record h) = k.remove h (s.record h) := by
  have hlive : ((k.hookRemove h s).record h).live = false := by
    simp only [Engine.hookRemove, Hooks.set_record, Function.update_self, Engine.remove]
    split
    case isTrue hl => simpa using hl
    case isFalse => split <;> rfl
  refine ⟨?_, ?_⟩
  · rw [Engine.hookRemove, hlive]
    simp
  · rw [Engine.remove, hlive]
    simp [Engine.hookRemove]

/-- The load failed after `droid_lkm_proc_init` had removed its hook. -/
theorem unhooked_removed (e : Env) :
    Unhooked (e.shut (e.hk.hookRemove .nsdir e.hooksProc)) ↔ e.HooksBack ∧ e.NsdirBack := by
  obtain ⟨hfield, hrec⟩ := hookRemove_twice e.hk .nsdir e.hooksProc
  have hmade : e.hooksProc.record .nsdir = e.nsdirMade := by simp [hooksProc]
  have hstatus : (e.hk.hookRemove .nsdir e.hooksProc).record .status = Record.fresh := by
    simp [Engine.hookRemove, hooksProc, hooksUp]
  rw [unhooked_shut e.slotHooks_proc.remove, hfield, hrec, hmade, nsdir_back, hstatus,
    and_iff_left (Engine.exits_fresh ..)]

/-- `droid_lkm_status_init` gets to its hook. -/
def StatusTried (e : Env) : Prop :=
  e.statusEnable = true ∧ e.statusHelpers = true ∧ e.statusLayout = true

instance (e : Env) : Decidable e.StatusTried := inferInstanceAs (Decidable (_ ∧ _))

theorem statusInit_hooks (e : Env) {s : Hooks} (hs : s.record .status = Record.fresh) :
    (e.statusInit s).2 = if e.StatusTried then s.set .status (e.hk.made .status) else s := by
  have hset := (Engine.hookInstall_fresh (k := e.hk) hs).2
  unfold statusInit
  by_cases ht : e.StatusTried
  · rw [if_pos ht]
    obtain ⟨h1, h2, h3⟩ := ht
    simp [h1, h2, h3, hset]
  · rw [if_neg ht]
    split
    case isTrue => rfl
    split
    case isTrue => rfl
    split
    case isTrue => rfl
    case isFalse h1 h2 h3 => exact absurd ⟨by simpa using h1, by simpa using h2, by simpa using h3⟩ ht

/-- The load was refused after all hooks had been tried. -/
theorem unhooked_status (e : Env) :
    Unhooked (e.shut (e.statusInit e.hooksProc).2) ↔
      e.HooksBack ∧ e.NsdirBack ∧ (e.StatusTried → e.hk.Swept .status) := by
  have hfresh : e.hooksProc.record .status = Record.fresh := by simp [hooksProc, hooksUp]
  have hmade : e.hooksProc.record .nsdir = e.nsdirMade := by simp [hooksProc]
  rw [statusInit_hooks e hfresh]
  split
  case isTrue ht =>
    have hslot : e.SlotHooks (e.hooksProc.set .status (e.hk.made .status)) := ⟨rfl, rfl, rfl, rfl⟩
    have hfield : (e.hk.hookRemove .nsdir (e.hooksProc.set .status (e.hk.made .status))).field =
        (e.hk.hookRemove .nsdir e.hooksProc).field := rfl
    have hrec : (e.hooksProc.set .status (e.hk.made .status)).record .nsdir = e.nsdirMade := hmade
    have hst : (e.hooksProc.set .status (e.hk.made .status)).record .status = e.hk.made .status := by
      simp
    rw [unhooked_shut hslot, hfield, hrec, hst, nsdir_back, Engine.exits_made, imp_iff_right ht]
  case isFalse ht =>
    rw [unhooked_shut e.slotHooks_proc, hmade, nsdir_back, hfresh]
    refine and_congr_right fun _ => and_congr_right fun _ => ?_
    exact iff_of_true (Engine.exits_fresh ..) fun h => absurd h ht

end Env

end DroidLkm.Load
