/-
  What the module has of one slot, and what the operations make of it.

  * `View`: the contents of the slot, the saved original, the pointer to it and
    the flag of its row;
  * `patch_spec`, `attach_spec`, `unpatch_spec`: every operation changes the view
    of one slot, by a function of that view alone (`patchV`, `attachV`,
    `unpatchV`);
  * `Within m n s`: at most `n` entries, and nothing outside the slots that the
    module takes over has changed.
-/
import DroidLkm.Tables.Tracking
import DroidLkm.Lib.Pointwise

namespace DroidLkm.Tables

open SwapLog Pointwise

/-! ## The slots -/

theorem IpcCall.mem_slots (c : IpcCall) : c ∈ IpcCall.slots := by
  cases c <;> decide

/-- All the slots that the module takes over. -/
def Site.all : List Site :=
  [.unshare, .reboot, .clone, .clone3] ++ IpcCall.slots.map (.ipc .native) ++
    IpcCall.slots.map (.ipc .compat)

theorem Site.mem_all (σ : Site) : σ ∈ Site.all := by
  cases σ with
  | ipc t c => cases t <;> simp [Site.all, c.mem_slots]
  | _ => decide

theorem Site.slots_nodup : (Site.all.map Site.slot).Nodup := by decide +kernel

/-- Each has a slot of its own. -/
theorem Site.slot_inj {σ τ : Site} (h : σ.slot = τ.slot) : σ = τ :=
  List.inj_on_of_nodup_map Site.slots_nodup σ.mem_all τ.mem_all h

theorem Site.nr_nonneg (σ : Site) : 0 ≤ σ.nr := by
  have h : ∀ τ ∈ Site.all, 0 ≤ τ.nr := by decide +kernel
  exact h σ σ.mem_all

/-! ## The view of a slot -/

/-- What the module has of a slot. -/
structure View where
  cur : ℕ
  saved : Option ℕ
  orig : ℕ
  patched : Bool

namespace State

def flag (s : State) : Site → Bool
  | .ipc t c => s.patched t c
  | _ => false

def view (s : State) (σ : Site) : View := ⟨s.mem σ.slot, s.saved σ.slot, s.orig σ, s.flag σ⟩

variable {s t : State} {σ : Site}

/-- A call about one slot. -/
theorem view_of_slot (hmem : ∀ k, k ≠ σ.slot → t.mem k = s.mem k)
    (hsaved : ∀ k, k ≠ σ.slot → t.saved k = s.saved k) (horig : t.orig = s.orig)
    (hpatched : t.patched = s.patched) :
    t.view = amend s.view σ fun v =>
      { v with cur := t.mem σ.slot, saved := t.saved σ.slot } := by
  refine eq_amend ?_ fun τ hτ => ?_
  · unfold view flag
    rw [horig, hpatched]
  · have hne : τ.slot ≠ σ.slot := fun h => hτ (Site.slot_inj h)
    unfold view flag
    rw [hmem _ hne, hsaved _ hne, horig, hpatched]

theorem setOrig_view (s : State) (σ : Site) (w : ℕ) :
    (s.setOrig σ w).view = amend s.view σ fun v => { v with orig := w } := by
  refine eq_amend ?_ fun τ hτ => ?_
  · simp [view, setOrig, flag, saved]
  · simp [view, setOrig, flag, saved, hτ]

theorem setPatched_view (s : State) (tab : Tab) (c : IpcCall) (b : Bool) :
    (s.setPatched tab c b).view = amend s.view (.ipc tab c) fun v => { v with patched := b } := by
  refine eq_amend ?_ fun τ hτ => ?_
  · simp [view, setPatched, flag, saved]
  · have hflag : (s.setPatched tab c b).flag τ = s.flag τ := by
      cases τ with
      | ipc t d =>
        dsimp only [flag, setPatched]
        by_cases ht : t = tab
        · subst ht
          rw [Function.update_self, Function.update_of_ne fun hd => hτ (by rw [hd])]
        · rw [Function.update_of_ne ht]
      | _ => rfl
    unfold view
    rw [hflag]
    rfl

/-- At most `n` slots are saved, none of them twice, and the slots that the module
    does not take over are as in `m`. -/
structure Within (m : Tab × ℤ → ℕ) (n : ℕ) (s : State) : Prop where
  once : s.Once
  length : s.saves.length ≤ n
  others : ∀ k, (∀ σ : Site, σ.slot ≠ k) → s.mem k = m k

end State

open State (Within)

variable {e : Env} {m : Tab × ℤ → ℕ} {n : ℕ} {s : State} {σ : Site}

namespace Env

theorem table_cases (e : Env) (t : Tab) : e.table t = none ∨ e.table t = some t := by
  cases t <;> unfold table <;> dsimp only <;> split <;> simp

/-! ## The operations on the view of a slot -/

/-- The patch gets to its write. -/
def Takes (e : Env) (σ : Site) (v : View) : Prop := e.table σ.tab ≠ none ∧ v.saved = none

instance (e : Env) (σ : Site) (v : View) : Decidable (e.Takes σ v) :=
  inferInstanceAs (Decidable (_ ∧ _))

/-- The contents and the saved original after a patch. -/
def writeV (e : Env) (σ : Site) (v : View) : View :=
  { v with
    cur := if e.patchErr σ.slot = 0 then e.fn σ else v.cur
    saved := some v.cur }

def patchV (e : Env) (σ : Site) (v : View) : View :=
  if e.Takes σ v then { e.writeV σ v with orig := v.cur } else v

/-- `ipcAttach` and the flag of the row. -/
def attachV (e : Env) (σ : Site) (v : View) : View :=
  if e.Takes σ v ∧ e.safeRead σ.slot then
    if e.patchErr σ.slot = 0 then { e.writeV σ v with orig := v.cur, patched := true }
    else e.writeV σ v
  else v

def unpatchV (e : Env) (σ : Site) (v : View) : View :=
  if e.table σ.tab = none then v
  else
    match v.saved with
    | none => v
    | some o => { v with cur := if e.unpatchErr σ.slot = 0 then o else v.cur, saved := none }

theorem free_iff (hs : s.saves.length < slotSaveMax) :
    s.Free (e.table σ.tab) σ.nr ↔ e.Takes σ (s.view σ) := by
  unfold State.Free Takes
  rcases e.table_cases σ.tab with h | h <;> rw [h]
  · simp
  · refine ⟨?_, fun h' => ⟨_, rfl, σ.nr_nonneg, hs, h'.2⟩⟩
    rintro ⟨t, ht, -, -, hnone⟩
    obtain rfl := Option.some.inj ht
    exact ⟨Option.some_ne_none _, hnone⟩

/-- `slotPatch` of one of the slots: its view, before the pointer is stored. -/
theorem slotPatch_spec (hs : Within m n s) (hn : n < slotSaveMax) (σ : Site) :
    let p := s.slotPatch (e.table σ.tab) σ.nr (e.fn σ) (e.patchErr σ.slot)
    Within m (n + 1) p.2.2 ∧
      if e.Takes σ (s.view σ) then
        p.1 = e.patchErr σ.slot ∧ p.2.1 = some (s.view σ).cur ∧
          p.2.2.view = amend s.view σ (e.writeV σ)
      else p.1 ≠ 0 ∧ p.2 = (none, s) := by
  intro p
  have hlen : s.saves.length < slotSaveMax := Nat.lt_of_le_of_lt hs.length hn
  have hroom : p.2.2.saves.length ≤ n + 1 :=
    Nat.le_trans State.slotPatch_length (Nat.succ_le_succ hs.length)
  by_cases ht : e.Takes σ (s.view σ)
  · have htab : e.table σ.tab = some σ.tab := (e.table_cases _).resolve_left ht.1
    have hf : s.Free (some σ.tab) σ.nr := htab ▸ (free_iff hlen).2 ht
    have hp : p = s.slotPatch (some σ.tab) σ.nr (e.fn σ) (e.patchErr σ.slot) := by
      rw [← htab]
    have hmem : ∀ k, k ≠ σ.slot → p.2.2.mem k = s.mem k := fun k hk => by
      rw [hp, State.slotPatch_mem hf]
      split
      · exact Function.update_of_ne hk ..
      · rfl
    refine ⟨⟨State.slotPatch_once hs.once, hroom, fun k hk => ?_⟩, ?_⟩
    · rw [hmem k (Ne.symm (hk σ)), hs.others k hk]
    · rw [if_pos ht]
      refine ⟨?_, ?_, ?_⟩
      · rw [hp, State.slotPatch_free hf]
      · rw [hp, State.slotPatch_free hf]; rfl
      · rw [State.view_of_slot hmem (fun k hk => ?_) State.slotPatch_rest.1 State.slotPatch_rest.2]
        · rw [hp, State.slotPatch_mem hf, State.slotPatch_saved hf]
          refine eq_amend ?_ fun τ hτ => amend_ne _ _ hτ
          rw [amend_self, writeV, View.mk.injEq]
          refine ⟨?_, if_pos rfl, rfl, rfl⟩
          split
          · exact Function.update_self ..
          · rfl
        · rw [hp, State.slotPatch_saved hf]
          exact if_neg (Ne.symm hk)
  · have hf : p.1 ≠ 0 ∧ p.2 = (none, s) := State.slotPatch_not_free (mt (free_iff hlen).1 ht)
    rw [if_neg ht]
    refine ⟨?_, hf⟩
    rw [hf.2]
    exact ⟨hs.once, Nat.le_trans hs.length (Nat.le_succ n), hs.others⟩

theorem patch_spec (hs : Within m n s) (hn : n < slotSaveMax) (σ : Site) :
    Within m (n + 1) (e.patch σ s).2 ∧ (e.patch σ s).2.view = amend s.view σ (e.patchV σ) ∧
      ((e.patch σ s).1 = 0 ↔ e.Takes σ (s.view σ) ∧ e.patchErr σ.slot = 0) := by
  have hspec := slotPatch_spec (e := e) hs hn σ
  unfold patch
  dsimp only at hspec ⊢
  obtain ⟨hw, hrest⟩ := hspec
  by_cases ht : e.Takes σ (s.view σ)
  · rw [if_pos ht] at hrest
    obtain ⟨hret, hout, hview⟩ := hrest
    rw [hout, hret]
    refine ⟨⟨hw.once, hw.length, hw.others⟩, ?_, by simp [ht]⟩
    rw [Option.elim_some, State.setOrig_view, hview, amend_amend]
    exact eq_amend (by simp [patchV, ht, writeV]) fun τ hτ => amend_ne _ _ hτ
  · rw [if_neg ht] at hrest
    obtain ⟨hret, hp⟩ := hrest
    rw [hp] at hw ⊢
    have hid : e.patchV σ (s.view σ) = s.view σ := if_neg ht
    exact ⟨hw, (amend_id _ _ hid).symm, by simp [ht, hret]⟩

theorem eio_ne : - EIO ≠ 0 := by decide

/-- `ipcAttach` of a row that is wired, with the flag. -/
theorem attach_spec (hs : Within m n s) (hn : n < slotSaveMax) (tab : Tab) (c : IpcCall) :
    let a := e.ipcAttach tab c s
    let t := if a.1 ≠ 0 then a.2 else a.2.setPatched tab c true
    Within m (n + 1) t ∧ t.view = amend s.view (.ipc tab c) (e.attachV (.ipc tab c)) := by
  have hspec := slotPatch_spec (e := e) hs hn (.ipc tab c)
  have hkeep : Within m (n + 1) s := ⟨hs.once, Nat.le_trans hs.length (Nat.le_succ n), hs.others⟩
  unfold ipcAttach
  dsimp only at hspec ⊢
  by_cases hread : e.table tab = none ∨ (!e.safeRead (Site.ipc tab c).slot) = true
  · rw [if_pos hread]
    dsimp only
    rw [if_pos eio_ne]
    have hid : e.attachV (.ipc tab c) (s.view (.ipc tab c)) = s.view (.ipc tab c) := by
      refine if_neg fun h => ?_
      rcases hread with hnone | hfalse
      · exact h.1.1 hnone
      · rw [h.2] at hfalse; cases hfalse
    exact ⟨hkeep, (amend_id _ _ hid).symm⟩
  · rw [if_neg hread]
    have hok : e.safeRead (Site.ipc tab c).slot = true :=
      (Bool.eq_false_or_eq_true _).resolve_right fun h => hread (Or.inr (by rw [h]; rfl))
    obtain ⟨hw, hrest⟩ := hspec
    by_cases ht : e.Takes (.ipc tab c) (s.view (.ipc tab c))
    · rw [if_pos ht] at hrest
      obtain ⟨hret, hout, hview⟩ := hrest
      dsimp only [Site.tab] at hw hret hout hview
      rw [hret, hout]
      by_cases herr : e.patchErr (Site.ipc tab c).slot = 0
      · rw [if_neg (not_not.2 herr), if_neg (by simp)]
        refine ⟨⟨hw.once, hw.length, hw.others⟩, ?_⟩
        rw [Option.elim_some, State.setPatched_view, State.setOrig_view, hview, amend_amend,
          amend_amend]
        exact eq_amend (by simp [attachV, ht, hok, herr, writeV]) fun τ hτ => amend_ne _ _ hτ
      · rw [if_pos herr]
        dsimp only
        rw [if_pos eio_ne]
        refine ⟨hw, hview.trans ?_⟩
        exact eq_amend (by simp [attachV, ht, hok, herr]) fun τ hτ => amend_ne _ _ hτ
    · rw [if_neg ht] at hrest
      obtain ⟨hret, hp⟩ := hrest
      dsimp only [Site.tab] at hret hp
      rw [if_pos hret]
      dsimp only
      rw [if_pos eio_ne, hp]
      have hid : e.attachV (.ipc tab c) (s.view (.ipc tab c)) = s.view (.ipc tab c) :=
        if_neg fun h => ht h.1
      exact ⟨hkeep, (amend_id _ _ hid).symm⟩

theorem unpatch_spec (hs : Within m n s) (σ : Site) :
    Within m n (e.unpatch σ s) ∧ (e.unpatch σ s).view = amend s.view σ (e.unpatchV σ) := by
  unfold unpatch
  rcases e.table_cases σ.tab with htab | htab
  · rw [htab]
    have hid : e.unpatchV σ (s.view σ) = s.view σ := if_pos htab
    exact ⟨hs, (amend_id _ _ hid).symm⟩
  · rw [htab]
    have htab' : e.table σ.tab ≠ none := htab ▸ Option.some_ne_none _
    cases hsv : s.saved σ.slot with
    | none =>
      have hid : e.unpatchV σ (s.view σ) = s.view σ := by
        unfold unpatchV State.view
        rw [if_neg htab', hsv]
      rw [State.slotUnpatch_none hsv]
      exact ⟨hs, (amend_id _ _ hid).symm⟩
    | some o =>
      generalize ht : s.slotUnpatch (some σ.tab) σ.nr (e.unpatchErr σ.slot) = t
      have hmem : t.mem = if e.unpatchErr σ.slot = 0 then Function.update s.mem σ.slot o
          else s.mem := ht ▸ State.slotUnpatch_mem hs.once hsv
      have hsaved : ∀ k, t.saved k = if σ.slot = k then none else s.saved k :=
        ht ▸ State.slotUnpatch_saved hs.once
      have hrest : t.orig = s.orig ∧ t.patched = s.patched := ht ▸ State.slotUnpatch_rest hs.once
      have hlen : t.saves.length ≤ s.saves.length := ht ▸ State.slotUnpatch_length hs.once
      have hother : ∀ k, k ≠ σ.slot → t.mem k = s.mem k := fun k hk => by
        rw [hmem]
        split
        · exact Function.update_of_ne hk ..
        · rfl
      refine ⟨⟨ht ▸ State.slotUnpatch_once hs.once, Nat.le_trans hlen hs.length, fun k hk => ?_⟩, ?_⟩
      · rw [hother k (Ne.symm (hk σ)), hs.others k hk]
      · rw [State.view_of_slot hother (fun k hk => ?_) hrest.1 hrest.2]
        · refine eq_amend ?_ fun τ hτ => amend_ne _ _ hτ
          rw [amend_self, hmem, hsaved]
          unfold unpatchV State.view
          rw [if_neg htab', hsv]
          dsimp only
          rw [View.mk.injEq]
          refine ⟨?_, if_pos rfl, rfl, rfl⟩
          split
          · exact Function.update_self ..
          · rfl
        · rw [hsaved, if_neg (Ne.symm hk)]

end Env

end DroidLkm.Tables
