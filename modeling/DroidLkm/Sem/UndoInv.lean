/-
  Undo lists — what holds of them.

  * `Settled`: the steps that take a task to another ipc namespace past
    `droid_lkm_exit_sem` find its undo list empty;
  * `Listed`, `Made`: an entry on a list, and an entry that was made;
  * `Mine`: a list all of whose entries belong to the namespace of its task;
  * `PcOk`: what a task in a call relies on; `Keeps`: what the others leave of it;
  * `Inv`: all of it.  `Inv.setPc`, `Inv.link`, `Inv.unlink` and so on: the parts of a step.
-/
import DroidLkm.Ids.Standing
import DroidLkm.Lib.Machine
import DroidLkm.Sem.UndoWorld

namespace DroidLkm.Sem.Undo

open Ids IpcIds

variable {w w' : World} {t u n sma ulp un : ℕ} {semid : ℤ} {sops : List Sembuf} {o : Option ℕ}
  {x : Pc} {arr : ℕ × ℕ} {stage : Stage} {next : Next} {cfg : Config}

/-- The undo list of a task is empty. -/
def Bare (w : World) (t : ℕ) : Prop := ∀ ulp, w.undoList t = some ulp → w.list ulp = []

/-- A task that comes to another ipc namespace without `droid_lkm_exit_sem` has an empty undo
    list: by `setns`, and by an `unshare` that makes a namespace and has not flushed. -/
def Settled (w : World) : Act → Prop
  | .setns t n => n ≠ w.ns t → Bare w t
  | .run t _ => ∀ rest, w.pc t = .unshare false (.newIpcns :: rest) → Bare w t
  | _ => True

/-! ## The invariant -/

namespace World

def Held (w : World) (arr : ℕ × ℕ) (semid : ℤ) : Prop :=
  IpcIds.Held w.cfg.limits (w.ids arr.1) arr.2 semid

def Stands (w : World) (arr : ℕ × ℕ) (semid : ℤ) : Prop :=
  IpcIds.Stands w.cfg.limits (w.ids arr.1) arr.2 semid

end World

/-- An entry on a list. -/
structure Listed (w : World) (ulp un : ℕ) : Prop where
  ulp_lt : ulp < w.nextUlp
  lt : un < w.nextUndo
  ulp : (w.undo un).ulp = ulp
  linked : (w.undo un).linked = true
  freed : (w.undo un).freed = 0
  stands : w.Stands (w.undo un).arr (w.undo un).semid

/-- An entry that is off its list has been freed once, or its task is about to. -/
def Gone (w : World) (un : ℕ) : Prop :=
  (w.undo un).linked = false ∧ ((w.undo un).freed = 1 ∨ (w.undo un).freed = 0 ∧
    ∃ t n next, w.pc t = .loop n (w.undo un).ulp (.unlinked un) next)

structure Made (w : World) (un : ℕ) : Prop where
  arr_lt : (w.undo un).arr.2 < (w.ids (w.undo un).arr.1).fresh
  size : (w.undo un).size = w.nsems (w.undo un).arr.1 (w.undo un).arr.2
  place : un ∈ w.list (w.undo un).ulp ∨ Gone w un

/-- The task has made the list, and its entries are those of arrays of its namespace. -/
structure Mine (w : World) (t ulp : ℕ) : Prop where
  lt : ulp < w.nextUlp
  owner : w.owner ulp = t
  home : ∀ un ∈ w.list ulp, (w.undo un).arr.1 = w.ns t

/-- What `find_alloc_undo` returns, if it has not been freed since. -/
def Fit (w : World) (t : ℕ) (semid : ℤ) (un : ℕ) : Prop :=
  un < w.nextUndo ∧ ((w.undo un).semid ≠ -1 → un ∈ w.list (w.undo un).ulp ∧
    (w.undo un).semid = semid ∧ Mine w t (w.undo un).ulp)

def StageOk (w : World) (n ulp : ℕ) : Stage → Prop
  | .obtained semid sma => w.Held (n, sma) semid
  | .unlinked un => un < w.nextUndo ∧ (w.undo un).ulp = ulp ∧ un ∉ w.list ulp ∧
      (w.undo un).linked = false ∧ (w.undo un).freed = 0
  | _ => True

def PcOk (w : World) (t : ℕ) : Pc → Prop
  | .missed _ _ ulp => Mine w t ulp
  | .sized semid _ ulp sma => Mine w t ulp ∧ w.Held (w.ns t, sma) semid
  | .found semid _ un => ∀ u, un = some u → Fit w t semid u
  | .looked sops un sma => (∃ semid, w.Held (w.ns t, sma) semid ∧
      ∀ u, un = some u → Fit w t semid u) ∧ (scanSops sops).max < w.nsems (w.ns t) sma
  | .asleep arr sops un => arr.2 < (w.ids arr.1).fresh ∧
      (scanSops sops).max < w.nsems arr.1 arr.2 ∧
      ∀ u, un = some u → u < w.nextUndo ∧ (w.undo u).arr = arr
  | .unshare flushed _ => flushed = true → w.undoList t = none
  | .exited n => n = w.ns t
  | .loop n ulp stage _ => n = w.ns t ∧ w.undoList t = none ∧ Mine w t ulp ∧ StageOk w n ulp stage
  | .user | .dead => True

structure Inv (w : World) : Prop where
  table : ∀ n, Sound w.cfg.limits (w.ids n)
  listed : ∀ ulp, ∀ un ∈ w.list ulp, Listed w ulp un
  nodup : ∀ ulp, (w.list ulp).Nodup
  made : ∀ un < w.nextUndo, Made w un
  removing : ∀ n sma, w.removing n = some sma → ∃ i, (w.ids n).idr.find i = some sma
  undoList : ∀ t ulp, w.undoList t = some ulp → Mine w t ulp
  pc : ∀ t, PcOk w t (w.pc t)

/-! ## What the others leave -/

/-- What a step leaves of that on which a task relies. -/
structure Keeps (t : ℕ) (w w' : World) : Prop where
  cfg : w'.cfg = w.cfg
  ns : w'.ns t = w.ns t
  undoList : w'.undoList t = w.undoList t
  tables : ∀ n, Extends (w.ids n) (w'.ids n)
  nsems : ∀ n, ∀ p < (w.ids n).fresh, w'.nsems n p = w.nsems n p
  nextUlp : w.nextUlp ≤ w'.nextUlp
  nextUndo : w.nextUndo ≤ w'.nextUndo
  owner : ∀ ulp < w.nextUlp, w'.owner ulp = w.owner ulp
  undo : ∀ un < w.nextUndo, (w'.undo un).arr = (w.undo un).arr ∧
    (w'.undo un).ulp = (w.undo un).ulp ∧
    ((w'.undo un).semid = (w.undo un).semid ∨ (w'.undo un).semid = -1)
  added : ∀ ulp < w.nextUlp, w.owner ulp = t → ∀ un ∈ w'.list ulp, un ∈ w.list ulp
  kept : ∀ ulp < w.nextUlp, w.owner ulp = t → ∀ un ∈ w.list ulp, (w'.undo un).semid ≠ -1 →
    un ∈ w'.list ulp
  gone : ∀ un < w.nextUndo, w.owner (w.undo un).ulp = t → (w.undo un).linked = false →
    (w'.undo un).linked = false ∧ (w'.undo un).freed = (w.undo un).freed

theorem World.Held.keeps (h : w.Held arr semid) (hk : Keeps t w w') : w'.Held arr semid := by
  unfold World.Held
  rw [hk.cfg]
  exact IpcIds.Held.extends h (hk.tables arr.1)

theorem Mine.keeps (h : Mine w t ulp) (hi : Inv w) (hk : Keeps t w w') : Mine w' t ulp := by
  refine ⟨lt_of_lt_of_le h.lt hk.nextUlp, (hk.owner ulp h.lt).trans h.owner, fun un hun => ?_⟩
  have hold := hk.added ulp h.lt h.owner un hun
  rw [(hk.undo un (hi.listed ulp un hold).lt).1, hk.ns]
  exact h.home un hold

theorem Fit.keeps (h : Fit w t semid un) (hi : Inv w) (hk : Keeps t w w') :
    Fit w' t semid un := by
  obtain ⟨hlt, hfit⟩ := h
  obtain ⟨-, hulp, hsemid⟩ := hk.undo un hlt
  refine ⟨lt_of_lt_of_le hlt hk.nextUndo, fun hne => ?_⟩
  have heq := hsemid.resolve_right hne
  rw [heq] at hne
  obtain ⟨hmem, hid, hmine⟩ := hfit hne
  rw [hulp, heq]
  refine ⟨hk.kept _ hmine.lt hmine.owner un hmem ?_, hid, hmine.keeps hi hk⟩
  rw [heq]
  exact hne

theorem StageOk.keeps (h : StageOk w n ulp stage) (hm : Mine w t ulp)
    (hk : Keeps t w w') : StageOk w' n ulp stage := by
  cases stage with
  | obtained semid sma => exact World.Held.keeps h hk
  | unlinked un =>
    obtain ⟨hlt, hulp, hmem, hlinked, hfreed⟩ := h
    obtain ⟨hl, hf⟩ := hk.gone un hlt (hulp ▸ hm.owner) hlinked
    exact ⟨lt_of_lt_of_le hlt hk.nextUndo, (hk.undo un hlt).2.1.trans hulp,
      fun hun => hmem (hk.added ulp hm.lt hm.owner un hun), hl, hf.trans hfreed⟩
  | head => trivial
  | seen un => trivial
  | read semid => trivial

/-- **A task in a call** goes on relying on what it has. -/
theorem PcOk.keeps (h : PcOk w t x) (hi : Inv w) (hk : Keeps t w w') : PcOk w' t x := by
  cases x with
  | missed semid sops ulp => exact Mine.keeps h hi hk
  | sized semid sops ulp sma =>
    refine ⟨h.1.keeps hi hk, ?_⟩
    rw [hk.ns]
    exact h.2.keeps hk
  | found semid sops un => exact fun u hu => (h u hu).keeps hi hk
  | looked sops un sma =>
    obtain ⟨⟨semid, hheld, hfit⟩, hmax⟩ := h
    refine ⟨⟨semid, ?_, fun u hu => (hfit u hu).keeps hi hk⟩, ?_⟩
    · rw [hk.ns]
      exact hheld.keeps hk
    · rw [hk.ns, hk.nsems _ _ hheld.lt]
      exact hmax
  | asleep arr sops un =>
    obtain ⟨hlt, hmax, hun⟩ := h
    refine ⟨lt_of_lt_of_le hlt (hk.tables arr.1).fresh, ?_, fun u hu => ?_⟩
    · rw [hk.nsems _ _ hlt]
      exact hmax
    · obtain ⟨hu', harr⟩ := hun u hu
      exact ⟨lt_of_lt_of_le hu' hk.nextUndo, (hk.undo u hu').1.trans harr⟩
  | unshare flushed events =>
    intro hf
    rw [hk.undoList]
    exact h hf
  | exited n => exact h.trans hk.ns.symm
  | loop n ulp stage next =>
    obtain ⟨hn, hlist, hmine, hstage⟩ := h
    exact ⟨hn.trans hk.ns.symm, hk.undoList.trans hlist, hmine.keeps hi hk,
      hstage.keeps hmine hk⟩
  | user => trivial
  | dead => trivial

/-! ## Steps that leave the entries as they are -/

/-- Lists may be put in another order or be new; entries and tables stay. -/
structure Calm (w w' : World) : Prop where
  cfg : w'.cfg = w.cfg
  ids : w'.ids = w.ids
  nsems : w'.nsems = w.nsems
  undo : w'.undo = w.undo
  nextUndo : w'.nextUndo = w.nextUndo
  nextUlp : w.nextUlp ≤ w'.nextUlp
  owner : ∀ ulp < w.nextUlp, w'.owner ulp = w.owner ulp
  list : ∀ ulp un, un ∈ w'.list ulp ↔ un ∈ w.list ulp
  nodup : (∀ ulp, (w.list ulp).Nodup) → ∀ ulp, (w'.list ulp).Nodup

theorem Calm.keeps (hc : Calm w w') (hns : w'.ns t = w.ns t)
    (hl : w'.undoList t = w.undoList t) : Keeps t w w' where
  cfg := hc.cfg
  ns := hns
  undoList := hl
  tables n := by
    rw [hc.ids]
    exact Extends.refl _
  nsems n p _ := by rw [hc.nsems]
  nextUlp := hc.nextUlp
  nextUndo := le_of_eq hc.nextUndo.symm
  owner := hc.owner
  undo un _ := by
    rw [hc.undo]
    exact ⟨rfl, rfl, Or.inl rfl⟩
  added ulp _ _ un hun := (hc.list ulp un).1 hun
  kept ulp _ _ un hun _ := (hc.list ulp un).2 hun
  gone un _ _ hl := by
    rw [hc.undo]
    exact ⟨hl, rfl⟩

theorem Calm.mine (hc : Calm w w') (h : Mine w t ulp) (hns : w'.ns t = w.ns t) :
    Mine w' t ulp := by
  refine ⟨lt_of_lt_of_le h.lt hc.nextUlp, (hc.owner ulp h.lt).trans h.owner, fun un hun => ?_⟩
  rw [hc.undo, hns]
  exact h.home un ((hc.list ulp un).1 hun)

/-- A step of one task, in which it does not come from where it frees an entry. -/
theorem Inv.calm (h : Inv w) (hc : Calm w w') (hremoving : w'.removing = w.removing)
    (hns : ∀ u, u ≠ t → w'.ns u = w.ns u) (hlist : ∀ u, u ≠ t → w'.undoList u = w.undoList u)
    (hpcs : ∀ u, u ≠ t → w'.pc u = w.pc u)
    (hun : ∀ n ulp un next, w.pc t ≠ .loop n ulp (.unlinked un) next)
    (hundo : ∀ ulp, w'.undoList t = some ulp → Mine w' t ulp) (hpc : PcOk w' t (w'.pc t)) :
    Inv w' := by
  refine ⟨fun n => ?_, fun ulp un hmem => ?_, hc.nodup h.nodup, fun un hlt => ?_,
    fun n sma hr => ?_, fun u ulp hl => ?_, fun u => ?_⟩
  · rw [hc.cfg, hc.ids]
    exact h.table n
  · have hl := h.listed ulp un ((hc.list ulp un).1 hmem)
    refine ⟨lt_of_lt_of_le hl.ulp_lt hc.nextUlp, ?_, ?_, ?_, ?_, ?_⟩
    · rw [hc.nextUndo]
      exact hl.lt
    · rw [hc.undo]
      exact hl.ulp
    · rw [hc.undo]
      exact hl.linked
    · rw [hc.undo]
      exact hl.freed
    · unfold World.Stands
      rw [hc.cfg, hc.ids, hc.undo]
      exact hl.stands
  · rw [hc.nextUndo] at hlt
    obtain ⟨harr, hsize, hplace⟩ := h.made un hlt
    refine ⟨?_, ?_, ?_⟩
    · rw [hc.undo, hc.ids]
      exact harr
    · rw [hc.undo, hc.nsems]
      exact hsize
    · rw [hc.undo]
      rcases hplace with hmem | ⟨hl, hf⟩
      · exact Or.inl ((hc.list _ un).2 hmem)
      · right
        unfold Gone
        rw [hc.undo]
        refine ⟨hl, hf.imp_right fun ⟨h0, u, n, next, hp⟩ => ⟨h0, u, n, next, ?_⟩⟩
        rw [hpcs u, hp]
        rintro rfl
        exact hun _ _ _ _ hp
  · rw [hc.ids]
    exact h.removing n sma (hremoving ▸ hr)
  · by_cases hu : u = t
    · exact hu ▸ hundo ulp (hu ▸ hl)
    · exact hc.mine (h.undoList u ulp ((hlist u hu) ▸ hl)) (hns u hu)
  · by_cases hu : u = t
    · exact hu ▸ hpc
    · rw [hpcs u hu]
      exact (h.pc u).keeps h (hc.keeps (hns u hu) (hlist u hu))

theorem calm_setPc (w : World) (t : ℕ) (x : Pc) : Calm w (w.setPc t x) :=
  ⟨rfl, rfl, rfl, rfl, rfl, le_rfl, fun _ _ => rfl, fun _ _ => Iff.rfl, fun h => h⟩

/-- A task goes on. -/
theorem Inv.setPc (h : Inv w) (hx : PcOk w t x)
    (hun : ∀ n ulp un next, w.pc t ≠ .loop n ulp (.unlinked un) next) : Inv (w.setPc t x) := by
  have hc := calm_setPc w t x
  refine h.calm hc rfl (fun _ _ => rfl) (fun _ _ => rfl)
    (fun u hu => Function.update_of_ne hu _ _) hun
    (fun ulp hl => hc.mine (h.undoList t ulp hl) rfl) ?_
  show PcOk (w.setPc t x) t (Function.update w.pc t x t)
  rw [Function.update_self]
  exact hx.keeps h (hc.keeps rfl rfl)

theorem calm_toFront (hun : un ∈ w.list ulp) : Calm w (w.toFront ulp un) := by
  refine ⟨rfl, rfl, rfl, rfl, rfl, le_rfl, fun _ _ => rfl, fun l v => ?_, fun h l => ?_⟩
  · show v ∈ Function.update w.list ulp (un :: (w.list ulp).erase un) l ↔ v ∈ w.list l
    by_cases hl : l = ulp
    · subst hl
      rw [Function.update_self]
      exact (List.perm_cons_erase hun).symm.mem_iff
    · rw [Function.update_of_ne hl]
  · show (Function.update w.list ulp (un :: (w.list ulp).erase un) l).Nodup
    by_cases hl : l = ulp
    · subst hl
      rw [Function.update_self]
      exact (List.perm_cons_erase hun).nodup_iff.1 (h l)
    · rw [Function.update_of_ne hl]
      exact h l

/-- A task has found an entry, and goes on with it. -/
theorem Inv.toFront (h : Inv w) (hun : w.lookup ulp semid = some un) (hm : Mine w t ulp)
    (hpc : ∀ n ulp un next, w.pc t ≠ .loop n ulp (.unlinked un) next) :
    Inv ((w.toFront ulp un).setPc t (.found semid sops (some un))) := by
  have hmem := List.mem_of_find?_eq_some hun
  have hid : (w.undo un).semid = semid := by
    simpa using List.find?_some hun
  have hl := h.listed ulp un hmem
  have hc := calm_toFront hmem
  have hi : Inv (w.toFront ulp un) := by
    refine h.calm (t := t) hc rfl (fun _ _ => rfl) (fun _ _ => rfl) (fun _ _ => rfl) hpc
      (fun l hl => hc.mine (h.undoList t l hl) rfl) ?_
    exact (h.pc t).keeps h (hc.keeps rfl rfl)
  refine hi.setPc (fun u hu => ?_) hpc
  cases hu
  refine ⟨hl.lt, fun _ => ⟨?_, hid, ?_⟩⟩
  · exact (hc.list _ un).2 (hl.ulp.symm ▸ hmem)
  · have hulp : ((w.toFront ulp un).undo un).ulp = ulp := hl.ulp
    rw [hulp]
    exact hc.mine hm rfl

/-- `get_undo_list` of a task that is not in a call. -/
theorem Inv.getUndoList {v : World} {noMem noEntry : Bool} (h : Inv w) (hpc : w.pc t = .user)
    (hv : w.getUndoList t noMem noEntry = some (v, ulp)) :
    Inv v ∧ v.pc = w.pc ∧ Mine v t ulp := by
  unfold World.getUndoList at hv
  split at hv
  next l hl =>
    obtain ⟨rfl, rfl⟩ := by simpa using hv
    exact ⟨h, rfl, h.undoList t _ hl⟩
  next hl =>
    split at hv
    · cases hv
    dsimp only at hv
    obtain ⟨he, rfl⟩ := Prod.mk.inj (Option.some.inj hv)
    have hempty : w.list w.nextUlp = [] := by
      refine List.eq_nil_iff_forall_not_mem.2 fun un hun => ?_
      exact lt_irrefl _ (h.listed _ un hun).ulp_lt
    have hvl : v.list = w.list := by
      rw [← he]
      show Function.update w.list w.nextUlp [] = w.list
      rw [← hempty, Function.update_eq_self]
    have hc : Calm w v := by
      subst he
      refine ⟨rfl, rfl, rfl, rfl, rfl, Nat.le_succ _, fun l hlt => ?_, fun l un => ?_, ?_⟩
      · exact Function.update_of_ne (Nat.ne_of_lt hlt) _ _
      · rw [hvl]
      · rw [hvl]
        exact fun h => h
    have hmine : Mine v t w.nextUlp := by
      refine ⟨?_, ?_, fun un hun => ?_⟩
      · rw [← he]
        exact Nat.lt_succ_self _
      · rw [← he]
        exact Function.update_self ..
      · rw [hvl, hempty] at hun
        cases hun
    have hpcs : v.pc = w.pc := by rw [← he]; rfl
    refine ⟨?_, hpcs, hmine⟩
    refine h.calm (t := t) hc (by rw [← he]; rfl) (fun u _ => by rw [← he]; rfl) (fun u hu => ?_)
      (fun u _ => by rw [hpcs]) (fun _ _ _ _ hp => ?_) (fun l hl' => ?_) ?_
    · rw [← he]
      exact Function.update_of_ne hu _ _
    · rw [hpc] at hp
      cases hp
    · have hself : v.undoList t = if noEntry then none else some w.nextUlp := by
        rw [← he]
        exact Function.update_self ..
      rw [hself] at hl'
      split at hl'
      · cases hl'
      · cases hl'
        exact hmine
    · rw [hpcs, hpc]
      trivial

/-- `droid_lkm_exit_sem_impl` as far as the loop. -/
theorem Inv.exitSem (h : Inv w) (hn : n = w.ns t)
    (hun : ∀ n ulp un next, w.pc t ≠ .loop n ulp (.unlinked un) next) :
    Inv (w.exitSem t n next) := by
  unfold World.exitSem
  split
  next hl =>
    refine h.setPc ?_ hun
    cases next with
    | unshare rest => exact fun _ => hl
    | dead => trivial
  next ulp hl =>
    set v : World := { w with undoList := Function.update w.undoList t none } with hv
    have hc : Calm w (v.setPc t (.loop n ulp .head next)) :=
      ⟨rfl, rfl, rfl, rfl, rfl, le_rfl, fun _ _ => rfl, fun _ _ => Iff.rfl, fun h => h⟩
    have hnone : (v.setPc t (.loop n ulp .head next)).undoList t = none := Function.update_self ..
    refine h.calm (t := t) hc rfl (fun _ _ => rfl) (fun u hu => Function.update_of_ne hu _ _)
      (fun u hu => Function.update_of_ne hu _ _) hun (fun l hl' => ?_) ?_
    · rw [hnone] at hl'
      cases hl'
    · show PcOk _ t (Function.update w.pc t _ t)
      rw [Function.update_self]
      exact ⟨hn, hnone, hc.mine (h.undoList t ulp hl) rfl, trivial⟩

/-- A task with an empty undo list comes to another namespace. -/
theorem Inv.setNs (h : Inv w) (hb : Bare w t ∨ n = w.ns t)
    (hpc : w.pc t = .user ∨ ∃ flushed events, w.pc t = .unshare flushed events) (m : ℕ) :
    Inv { w with ns := Function.update w.ns t n, nextNs := m } := by
  have hc : Calm w { w with ns := Function.update w.ns t n, nextNs := m } :=
    ⟨rfl, rfl, rfl, rfl, rfl, le_rfl, fun _ _ => rfl, fun _ _ => Iff.rfl, fun h => h⟩
  refine h.calm (t := t) hc rfl (fun u hu => Function.update_of_ne hu _ _) (fun _ _ => rfl)
    (fun _ _ => rfl) (fun _ _ _ _ hp => ?_) (fun ulp hl => ?_) ?_
  · rcases hpc with hpc | ⟨flushed, events, hpc⟩
    · rw [hpc] at hp
      cases hp
    · rw [hpc] at hp
      cases hp
  · obtain ⟨hlt, howner, hhome⟩ := h.undoList t ulp hl
    refine ⟨hlt, howner, fun un hun => ?_⟩
    rcases hb with hb | rfl
    · rw [hb ulp hl] at hun
      cases hun
    · show (w.undo un).arr.1 = Function.update w.ns t (w.ns t) t
      rw [Function.update_self]
      exact hhome un hun
  · show PcOk _ t (w.pc t)
    have hold := h.pc t
    rcases hpc with hpc | ⟨flushed, events, hpc⟩
    · rw [hpc]
      trivial
    · rw [hpc] at hold ⊢
      exact hold

/-- `freeary` begins. -/
theorem Inv.lock (h : Inv w) {i : ℕ} (hf : (w.ids n).idr.find i = some sma) :
    Inv { w with removing := Function.update w.removing n (some sma) } := by
  have hc : Calm w { w with removing := Function.update w.removing n (some sma) } :=
    ⟨rfl, rfl, rfl, rfl, rfl, le_rfl, fun _ _ => rfl, fun _ _ => Iff.rfl, fun h => h⟩
  refine ⟨h.table, fun ulp un hun => ?_, h.nodup, fun un hlt => ?_, fun m p hr => ?_,
    fun u ulp hl => hc.mine (h.undoList u ulp hl) rfl,
    fun u => (h.pc u).keeps h (hc.keeps rfl rfl)⟩
  · obtain ⟨h1, h2, h3, h4, h5, h6⟩ := h.listed ulp un hun
    exact ⟨h1, h2, h3, h4, h5, h6⟩
  · obtain ⟨h1, h2, h3⟩ := h.made un hlt
    exact ⟨h1, h2, h3⟩
  · have hr' : Function.update w.removing n (some sma) m = some p := hr
    by_cases hm : m = n
    · subst hm
      rw [Function.update_self] at hr'
      cases hr'
      exact ⟨i, hf⟩
    · rw [Function.update_of_ne hm] at hr'
      exact h.removing m p hr'

/-! ## Steps that change a table -/

/-- A table changes; entries and lists stay. -/
structure Tables (w w' : World) : Prop where
  cfg : w'.cfg = w.cfg
  sound : ∀ n, Sound w.cfg.limits (w'.ids n)
  tables : ∀ n, Extends (w.ids n) (w'.ids n)
  nsems : ∀ n, ∀ p < (w.ids n).fresh, w'.nsems n p = w.nsems n p
  undo : w'.undo = w.undo
  nextUndo : w'.nextUndo = w.nextUndo
  list : w'.list = w.list
  nextUlp : w'.nextUlp = w.nextUlp
  owner : w'.owner = w.owner
  undoList : w'.undoList = w.undoList
  ns : w'.ns = w.ns

theorem Tables.keeps (ht : Tables w w') (t : ℕ) : Keeps t w w' where
  cfg := ht.cfg
  ns := by rw [ht.ns]
  undoList := by rw [ht.undoList]
  tables := ht.tables
  nsems := ht.nsems
  nextUlp := le_of_eq ht.nextUlp.symm
  nextUndo := le_of_eq ht.nextUndo.symm
  owner ulp _ := by rw [ht.owner]
  undo un _ := by
    rw [ht.undo]
    exact ⟨rfl, rfl, Or.inl rfl⟩
  added ulp _ _ un hun := ht.list ▸ hun
  kept ulp _ _ un hun _ := ht.list.symm ▸ hun
  gone un _ _ hl := by
    rw [ht.undo]
    exact ⟨hl, rfl⟩

/-- The arrays of the entries are there still; some tasks may have returned. -/
theorem Inv.tables (h : Inv w) (ht : Tables w w')
    (hvalid : ∀ ulp, ∀ un ∈ w.list ulp,
      (w'.perm (w.undo un).arr.1 (w.undo un).arr.2).deleted = false)
    (hremoving : ∀ n sma, w'.removing n = some sma → ∃ i, (w'.ids n).idr.find i = some sma)
    (hpc : ∀ t, w'.pc t = w.pc t ∨ w'.pc t = .user ∧ ∃ arr sops un, w.pc t = .asleep arr sops un) :
    Inv w' := by
  refine ⟨fun n => ?_, fun ulp un hun => ?_, fun ulp => ?_, fun un hlt => ?_, hremoving,
    fun t ulp hl => ?_, fun t => ?_⟩
  · rw [ht.cfg]
    exact ht.sound n
  · rw [ht.list] at hun
    obtain ⟨hulp, hlt, hul, hlinked, hfreed, hst⟩ := h.listed ulp un hun
    have hst' : w'.Held (w.undo un).arr (w.undo un).semid :=
      World.Held.keeps hst.toHeld (ht.keeps 0)
    refine ⟨by rwa [ht.nextUlp], by rwa [ht.nextUndo], by rwa [ht.undo], by rwa [ht.undo],
      by rwa [ht.undo], ?_⟩
    rw [ht.undo]
    exact ⟨hst', hvalid ulp un hun⟩
  · rw [ht.list]
    exact h.nodup ulp
  · rw [ht.nextUndo] at hlt
    obtain ⟨harr, hsize, hplace⟩ := h.made un hlt
    refine ⟨?_, ?_, ?_⟩
    · rw [ht.undo]
      exact lt_of_lt_of_le harr (ht.tables _).fresh
    · rw [ht.undo, ht.nsems _ _ harr]
      exact hsize
    · rw [ht.undo, ht.list]
      refine hplace.imp_right fun ⟨hl, hf⟩ => ?_
      unfold Gone
      rw [ht.undo]
      refine ⟨hl, hf.imp_right fun ⟨h0, t, n, next, hp⟩ => ⟨h0, t, n, next, ?_⟩⟩
      rcases hpc t with hs | ⟨-, arr, sops, o, hs⟩
      · exact hs.trans hp
      · rw [hp] at hs
        cases hs
  · rw [ht.undoList] at hl
    exact (h.undoList t ulp hl).keeps h (ht.keeps t)
  · rcases hpc t with hs | ⟨hs, -⟩
    · rw [hs]
      exact (h.pc t).keeps h (ht.keeps t)
    · rw [hs]
      trivial

theorem Inv.semget (h : Inv w) (n : ℕ) (a : GetArgs) (nsems : ℕ) : Inv (w.semget n a nsems) := by
  have hg := (h.table n).ipcget a
  have hids : ∀ m, Gets w.cfg.limits (w.ids m) ((w.semget n a nsems).ids m) := by
    intro m
    show Gets _ _ (Function.update w.ids n ((w.ids n).ipcget w.cfg.limits a).1 m)
    by_cases hm : m = n
    · subst hm
      rw [Function.update_self]
      exact hg
    · rw [Function.update_of_ne hm]
      exact ⟨h.table m, le_rfl, fun _ _ => rfl, fun _ _ hf => hf⟩
  refine h.tables ⟨rfl, fun m => (hids m).sound, fun m => (hids m).extends, fun m p hp => ?_, rfl,
    rfl, rfl, rfl, rfl, rfl, rfl⟩ (fun ulp un hun => ?_) (fun m p hr => ?_) (fun _ => Or.inl rfl)
  · show Function.update w.nsems n (Function.update (w.nsems n) (w.ids n).fresh nsems) m p = _
    by_cases hm : m = n
    · subst hm
      rw [Function.update_self, Function.update_of_ne (Nat.ne_of_lt hp)]
    · rw [Function.update_of_ne hm]
  · have hst := (h.listed ulp un hun).stands
    unfold World.perm
    rw [(hids _).perm _ hst.lt]
    exact hst.valid
  · obtain ⟨i, hi⟩ := h.removing m p hr
    exact ⟨i, (hids m).find i p hi⟩

theorem wakeAll_cases (arr : ℕ × ℕ) (x : Pc) : World.wakeAll arr x = x ∨
    World.wakeAll arr x = .user ∧ ∃ a sops un, x = .asleep a sops un := by
  cases x with
  | asleep a sops un =>
    by_cases ha : a = arr
    · exact Or.inr ⟨if_pos ha, a, sops, un, rfl⟩
    · exact Or.inl (if_neg ha)
  | _ => exact Or.inl rfl

/-- `freeary` ends when no entry is left on the array. -/
theorem Inv.rmidEnd (h : Inv w) (hr : w.removing n = some sma)
    (hnone : ∀ un < w.nextUndo, w.linkedTo (n, sma) un = false) : Inv (w.rmidEnd n sma) := by
  obtain ⟨i, hi⟩ := h.removing n sma hr
  have hg := (h.table n).ipcRmid hi
  have hself : (w.rmidEnd n sma).ids n = (w.ids n).ipcRmid w.cfg.limits sma :=
    Function.update_self ..
  have hother : ∀ m, m ≠ n → (w.rmidEnd n sma).ids m = w.ids m :=
    fun m hm => Function.update_of_ne hm _ _
  refine h.tables ⟨rfl, fun m => ?_, fun m => ?_, fun _ _ _ => rfl, rfl, rfl, rfl, rfl, rfl, rfl,
    rfl⟩ (fun ulp un hun => ?_) (fun m p hm => ?_) fun t => wakeAll_cases _ _
  · by_cases hm : m = n
    · subst hm
      rw [hself]
      exact hg.sound
    · rw [hother m hm]
      exact h.table m
  · by_cases hm : m = n
    · subst hm
      rw [hself]
      exact hg.extends
    · rw [hother m hm]
      exact Extends.refl _
  · -- an entry on a list is on its array, which is another one
    have hl := h.listed ulp un hun
    have hne : (w.undo un).arr ≠ (n, sma) := by
      intro harr
      have hfalse := hnone un hl.lt
      rw [World.linkedTo, hl.linked, harr, beq_self_eq_true] at hfalse
      cases hfalse
    unfold World.perm
    by_cases hm : (w.undo un).arr.1 = n
    · have hp : (w.undo un).arr.2 ≠ sma := fun hp => hne (Prod.ext hm hp)
      rw [hm, hself, hg.perm, Function.update_of_ne hp, ← hm]
      exact hl.stands.valid
    · rw [hother _ hm]
      exact hl.stands.valid
  · have hr' : Function.update w.removing n none m = some p := hm
    by_cases hmn : m = n
    · subst hmn
      rw [Function.update_self] at hr'
      cases hr'
    · rw [Function.update_of_ne hmn] at hr'
      obtain ⟨j, hj⟩ := h.removing m p hr'
      exact ⟨j, by rw [hother m hmn]; exact hj⟩

/-! ## Steps that change an entry -/

/-- An entry is taken off its list, and `f` is where the tasks are then. -/
def leave (w : World) (ulp un : ℕ) (y : SemUndo) (f : ℕ → Pc) : World :=
  { (w.setUndo un y).setList ulp ((w.list ulp).erase un) with pc := f }

/-- It keeps what it was made for, unless `semid` is cleared. -/
structure Leaves (w : World) (un : ℕ) (y : SemUndo) : Prop where
  arr : y.arr = (w.undo un).arr
  ulp : y.ulp = (w.undo un).ulp
  size : y.size = (w.undo un).size
  semid : y.semid = (w.undo un).semid ∨ y.semid = -1
  linked : y.linked = false

section
variable {y : SemUndo} {f : ℕ → Pc} {v : ℕ}

theorem leave_self : (leave w ulp un y f).undo un = y := Function.update_self ..

theorem leave_undo (hy : Leaves w un y) : ((leave w ulp un y f).undo v).arr = (w.undo v).arr ∧
    ((leave w ulp un y f).undo v).ulp = (w.undo v).ulp ∧
    ((leave w ulp un y f).undo v).size = (w.undo v).size ∧
    (((leave w ulp un y f).undo v).semid = (w.undo v).semid ∨
      ((leave w ulp un y f).undo v).semid = -1) := by
  show (Function.update w.undo un y v).arr = _ ∧ (Function.update w.undo un y v).ulp = _ ∧
    (Function.update w.undo un y v).size = _ ∧ ((Function.update w.undo un y v).semid = _ ∨ _)
  by_cases hv : v = un
  · subst hv
    rw [Function.update_self]
    refine ⟨hy.arr, hy.ulp, hy.size, hy.semid.imp_right fun hs => ?_⟩
    exact (congrArg SemUndo.semid (Function.update_self ..)).trans hs
  · rw [Function.update_of_ne hv]
    exact ⟨rfl, rfl, rfl, Or.inl rfl⟩

theorem mem_leave (h : Inv w) {l : ℕ} : v ∈ (leave w ulp un y f).list l ↔
    v ∈ w.list l ∧ (l = ulp → v ≠ un) := by
  show v ∈ Function.update w.list ulp ((w.list ulp).erase un) l ↔ _
  by_cases hl : l = ulp
  · subst hl
    rw [Function.update_self, (h.nodup l).mem_erase_iff, and_comm]
    simp
  · rw [Function.update_of_ne hl]
    simp [hl]

theorem Mine.leave (hm : Mine w t n) (h : Inv w) (hy : Leaves w un y) :
    Mine (leave w ulp un y f) t n := by
  refine ⟨hm.lt, hm.owner, fun v hv => ?_⟩
  rw [(leave_undo hy).1]
  exact hm.home v ((mem_leave h).1 hv).1

/-- For those that do not have the list, or whoever finds that the entry is invalid. -/
theorem keeps_leave (h : Inv w) (hun : un ∈ w.list ulp) (hy : Leaves w un y)
    (ht : w.owner ulp ≠ t ∨ y.semid = -1) : Keeps t w (leave w ulp un y f) where
  cfg := rfl
  ns := rfl
  undoList := rfl
  tables _ := Extends.refl _
  nsems _ _ _ := rfl
  nextUlp := le_rfl
  nextUndo := le_rfl
  owner _ _ := rfl
  undo v _ := ⟨(leave_undo hy).1, (leave_undo hy).2.1, (leave_undo hy).2.2.2⟩
  added l _ _ v hv := ((mem_leave h).1 hv).1
  kept l _ howner v hv hs := by
    refine (mem_leave h).2 ⟨hv, ?_⟩
    rintro rfl rfl
    rw [leave_self] at hs
    exact hs (ht.resolve_left fun hne => hne howner)
  gone v _ _ hl := by
    have hne : v ≠ un := by
      rintro rfl
      rw [(h.listed ulp v hun).linked] at hl
      cases hl
    have hv : (leave w ulp un y f).undo v = w.undo v := Function.update_of_ne hne _ _
    rw [hv]
    exact ⟨hl, rfl⟩

theorem Inv.leave (h : Inv w) (hun : un ∈ w.list ulp) (hy : Leaves w un y)
    (hfreed : y.freed = 1 ∨ y.freed = 0 ∧ ∃ t n next, f t = .loop n ulp (.unlinked un) next)
    (hf : ∀ t n l v next, w.pc t = .loop n l (.unlinked v) next → f t = w.pc t)
    (hpc : ∀ t, PcOk (leave w ulp un y f) t (f t)) : Inv (leave w ulp un y f) := by
  have hl := h.listed ulp un hun
  have hother : ∀ v, v ≠ un → (Undo.leave w ulp un y f).undo v = w.undo v :=
    fun v hv => Function.update_of_ne hv _ _
  refine ⟨h.table, fun l v hv => ?_, fun l => ?_, fun v hlt => ?_, h.removing, fun t l hm => ?_,
    hpc⟩
  · obtain ⟨hv, hne⟩ := (mem_leave h).1 hv
    have hl' := h.listed l v hv
    have hvun : v ≠ un := by
      rintro rfl
      exact hne (hl'.ulp.symm.trans hl.ulp) rfl
    refine ⟨hl'.ulp_lt, hl'.lt, ?_, ?_, ?_, ?_⟩
    · rw [hother v hvun]
      exact hl'.ulp
    · rw [hother v hvun]
      exact hl'.linked
    · rw [hother v hvun]
      exact hl'.freed
    · rw [hother v hvun]
      exact hl'.stands
  · show (Function.update w.list ulp ((w.list ulp).erase un) l).Nodup
    by_cases hlu : l = ulp
    · subst hlu
      rw [Function.update_self]
      exact (h.nodup l).erase un
    · rw [Function.update_of_ne hlu]
      exact h.nodup l
  · obtain ⟨harr, hsize, hplace⟩ := h.made v hlt
    obtain ⟨ha, hu, hs, -⟩ : ((Undo.leave w ulp un y f).undo v).arr = (w.undo v).arr ∧
      ((Undo.leave w ulp un y f).undo v).ulp = (w.undo v).ulp ∧
      ((Undo.leave w ulp un y f).undo v).size = (w.undo v).size ∧ _ := leave_undo hy
    refine ⟨by rw [ha]; exact harr, by rw [ha, hs]; exact hsize, ?_⟩
    rw [hu]
    by_cases hv : v = un
    · right
      unfold Gone
      rw [hv, leave_self, hy.ulp, hl.ulp]
      exact ⟨hy.linked, hfreed⟩
    · refine hplace.imp (fun hm => (mem_leave h).2 ⟨hm, fun _ => hv⟩) fun ⟨hlk, hfr⟩ => ?_
      unfold Gone
      rw [hother v hv]
      refine ⟨hlk, hfr.imp_right fun ⟨h0, t, n, next, hp⟩ => ⟨h0, t, n, next, ?_⟩⟩
      exact (hf t n _ v next hp).trans hp
  · exact (h.undoList t l hm).leave h hy

end

/-- `freeary` takes an entry off. -/
theorem Inv.rmidUndo (h : Inv w) (hlt : un < w.nextUndo) (hun : w.linkedTo arr un = true) :
    Inv (w.rmidUndo un) := by
  have hlinked : (w.undo un).linked = true := by
    unfold World.linkedTo at hun
    exact (Bool.and_eq_true _ _ ▸ hun).1
  have hmem : un ∈ w.list (w.undo un).ulp := by
    refine (h.made un hlt).place.resolve_right fun hg => ?_
    rw [hg.1] at hlinked
    cases hlinked
  have hl := h.listed _ un hmem
  have hy : Leaves w un { w.undo un with
      semid := -1, linked := false, freed := (w.undo un).freed + 1 } :=
    ⟨rfl, rfl, rfl, Or.inr rfl, rfl⟩
  refine h.leave (f := w.pc) hmem hy (Or.inl ?_) (fun _ _ _ _ _ _ => rfl) fun t => ?_
  · show (w.undo un).freed + 1 = 1
    rw [hl.freed]
  · exact (h.pc t).keeps h (keeps_leave h hmem hy (Or.inr rfl))

/-- `droid_lkm_exit_sem_impl` takes an entry off. -/
theorem Inv.unlink (h : Inv w) {semid : ℤ} (hpc : w.pc t = .loop n ulp (.obtained semid sma) next)
    (hun : w.lookup ulp semid = some un) :
    Inv ((w.unlinkUndo ulp un).setPc t (.loop n ulp (.unlinked un) next)) := by
  have hmem := List.mem_of_find?_eq_some hun
  have hl := h.listed ulp un hmem
  obtain ⟨hn, hlist, hmine, -⟩ : PcOk w t (.loop n ulp (.obtained semid sma) next) :=
    hpc ▸ h.pc t
  have hy : Leaves w un { w.undo un with linked := false } :=
    ⟨rfl, rfl, rfl, Or.inl rfl, rfl⟩
  refine h.leave (f := Function.update w.pc t (.loop n ulp (.unlinked un) next)) hmem hy
    (Or.inr ⟨hl.freed, t, n, next, Function.update_self ..⟩) (fun u m l v nx hp => ?_) fun u => ?_
  · refine Function.update_of_ne ?_ _ _
    rintro rfl
    rw [hpc] at hp
    cases hp
  · by_cases hu : u = t
    · subst hu
      rw [Function.update_self]
      refine ⟨hn, hlist, hmine.leave h hy, hl.lt, ?_, ?_, ?_, ?_⟩
      · exact (leave_undo hy).2.1.trans hl.ulp
      · exact fun hm => ((mem_leave h).1 hm).2 rfl rfl
      · rw [leave_self]
      · rw [leave_self]
        exact hl.freed
    · rw [Function.update_of_ne hu]
      refine (h.pc u).keeps h (keeps_leave h hmem hy (Or.inl ?_))
      rw [hmine.owner]
      exact Ne.symm hu

/-- And frees it. -/
theorem Inv.free (h : Inv w) (hpc : w.pc t = .loop n ulp (.unlinked un) next) :
    Inv ((w.freeUndo un).setPc t (.loop n ulp .head next)) := by
  obtain ⟨hn, hlist, hmine, hlt, hulp, hmem, hlinked, hfreed⟩ :
    PcOk w t (.loop n ulp (.unlinked un) next) := hpc ▸ h.pc t
  set v := (w.freeUndo un).setPc t (.loop n ulp .head next) with hv
  have hself : v.undo un = { w.undo un with freed := (w.undo un).freed + 1 } :=
    Function.update_self ..
  have hother : ∀ a, a ≠ un → v.undo a = w.undo a := fun a ha => Function.update_of_ne ha _ _
  have hundo : ∀ a, (v.undo a).arr = (w.undo a).arr ∧ (v.undo a).ulp = (w.undo a).ulp ∧
      (v.undo a).size = (w.undo a).size ∧ (v.undo a).semid = (w.undo a).semid ∧
      (v.undo a).linked = (w.undo a).linked := by
    intro a
    by_cases ha : a = un
    · subst ha
      rw [hself]
      exact ⟨rfl, rfl, rfl, rfl, rfl⟩
    · rw [hother a ha]
      exact ⟨rfl, rfl, rfl, rfl, rfl⟩
  have hmine' : ∀ u l, Mine w u l → Mine v u l := by
    intro u l hm
    refine ⟨hm.lt, hm.owner, fun a ha => ?_⟩
    rw [(hundo a).1]
    exact hm.home a ha
  have hkeeps : ∀ u, u ≠ t → Keeps u w v := by
    intro u hu
    refine ⟨rfl, rfl, rfl, fun _ => Extends.refl _, fun _ _ _ => rfl, le_rfl, le_rfl,
      fun _ _ => rfl, fun a _ => ⟨(hundo a).1, (hundo a).2.1, Or.inl (hundo a).2.2.2.1⟩,
      fun _ _ _ _ hm => hm, fun _ _ _ _ hm _ => hm, fun a _ howner hl => ?_⟩
    have ha : a ≠ un := by
      rintro rfl
      rw [hulp, hmine.owner] at howner
      exact hu howner.symm
    rw [hother a ha]
    exact ⟨hl, rfl⟩
  refine ⟨h.table, fun l a ha => ?_, h.nodup, fun a ha => ?_, h.removing,
    fun u l hl => hmine' u l (h.undoList u l hl), fun u => ?_⟩
  · have hl := h.listed l a ha
    have hne : a ≠ un := by
      rintro rfl
      rw [hl.linked] at hlinked
      cases hlinked
    obtain ⟨h1, h2, h3, h4, h5, h6⟩ := hl
    refine ⟨h1, h2, ?_, ?_, ?_, ?_⟩
    · rwa [hother a hne]
    · rwa [hother a hne]
    · rwa [hother a hne]
    · rw [hother a hne]
      exact h6
  · obtain ⟨h1, h2, h3⟩ := h.made a ha
    obtain ⟨harr, hul, hsize, -, hlk⟩ := hundo a
    refine ⟨by rw [harr]; exact h1, by rw [harr, hsize]; exact h2, ?_⟩
    rw [hul]
    refine h3.imp_right fun ⟨hl, hf⟩ => ⟨hlk.trans hl, ?_⟩
    by_cases hau : a = un
    · subst hau
      left
      rw [hself]
      show (w.undo a).freed + 1 = 1
      rw [hfreed]
    · rw [hother a hau]
      refine hf.imp_right fun ⟨h0, u, m, nx, hp⟩ => ⟨h0, u, m, nx, ?_⟩
      refine (Function.update_of_ne ?_ _ _).trans hp
      rintro rfl
      rw [hpc] at hp
      cases hp
      exact hau rfl
  · by_cases hu : u = t
    · subst hu
      show PcOk v u (Function.update w.pc u _ u)
      rw [Function.update_self]
      exact ⟨hn, hlist, hmine' u ulp hmine, trivial⟩
    · show PcOk v u (Function.update w.pc t _ u)
      rw [Function.update_of_ne hu]
      exact (h.pc u).keeps h (hkeeps u hu)

/-- `find_alloc_undo` makes an entry for an array that is there. -/
theorem Inv.link (h : Inv w) (hpc : w.pc t = .sized semid sops ulp sma)
    (hd : (w.perm (w.ns t) sma).deleted = false) :
    Inv ((w.linkUndo (w.ns t) ulp sma semid).setPc t (.found semid sops (some w.nextUndo))) := by
  obtain ⟨hmine, hheld⟩ : PcOk w t (.sized semid sops ulp sma) := hpc ▸ h.pc t
  set v := (w.linkUndo (w.ns t) ulp sma semid).setPc t (.found semid sops (some w.nextUndo))
    with hv
  have hself : v.undo w.nextUndo =
      ⟨ulp, semid, (w.ns t, sma), w.nsems (w.ns t) sma, true, 0⟩ := Function.update_self ..
  have hother : ∀ a < w.nextUndo, v.undo a = w.undo a := fun a ha =>
    Function.update_of_ne (Nat.ne_of_lt ha) _ _
  have hlself : v.list ulp = w.nextUndo :: w.list ulp := Function.update_self ..
  have hlother : ∀ l, l ≠ ulp → v.list l = w.list l := fun l hl => Function.update_of_ne hl _ _
  have hnew : ∀ l, w.nextUndo ∉ w.list l := fun l hm => lt_irrefl _ (h.listed l _ hm).lt
  have hlist : ∀ l a, a ∈ v.list l ↔ (a = w.nextUndo ∧ l = ulp) ∨ a ∈ w.list l := by
    intro l a
    by_cases hl : l = ulp
    · subst hl
      rw [hlself, List.mem_cons]
      simp
    · rw [hlother l hl]
      simp [hl]
  have hmine' : ∀ u l, Mine w u l → Mine v u l := by
    intro u l hm
    refine ⟨hm.lt, hm.owner, fun a ha => ?_⟩
    rcases (hlist l a).1 ha with ⟨rfl, rfl⟩ | ha
    · rw [hself]
      exact congrArg w.ns (hmine.owner.symm.trans hm.owner)
    · rw [hother a (h.listed l a ha).lt]
      exact hm.home a ha
  have hkeeps : ∀ u, u ≠ t → Keeps u w v := by
    intro u hu
    refine ⟨rfl, rfl, rfl, fun _ => Extends.refl _, fun _ _ _ => rfl, le_rfl, Nat.le_succ _,
      fun _ _ => rfl, fun a ha => ?_, fun l _ howner a ha => ?_, fun l _ _ a ha _ => ?_,
      fun a ha _ hl => ?_⟩
    · rw [hother a ha]
      exact ⟨rfl, rfl, Or.inl rfl⟩
    · refine ((hlist l a).1 ha).resolve_left ?_
      rintro ⟨-, rfl⟩
      exact hu (howner.symm.trans hmine.owner)
    · exact (hlist l a).2 (Or.inr ha)
    · rw [hother a ha]
      exact ⟨hl, rfl⟩
  refine ⟨h.table, fun l a ha => ?_, fun l => ?_, fun a ha => ?_, h.removing,
    fun u l hl => hmine' u l (h.undoList u l hl), fun u => ?_⟩
  · rcases (hlist l a).1 ha with ⟨rfl, rfl⟩ | ha
    · refine ⟨hmine.lt, Nat.lt_succ_self _, ?_, ?_, ?_, ?_⟩
      · rw [hself]
      · rw [hself]
      · rw [hself]
      · rw [hself]
        exact ⟨hheld, hd⟩
    · obtain ⟨h1, h2, h3, h4, h5, h6⟩ := h.listed l a ha
      have ha' := hother a h2
      refine ⟨h1, Nat.lt_succ_of_lt h2, by rwa [ha'], by rwa [ha'], by rwa [ha'], ?_⟩
      rw [ha']
      exact h6
  · by_cases hl : l = ulp
    · subst hl
      rw [hlself]
      exact List.nodup_cons.2 ⟨hnew l, h.nodup l⟩
    · rw [hlother l hl]
      exact h.nodup l
  · rcases Nat.lt_succ_iff_lt_or_eq.1 ha with ha | rfl
    · obtain ⟨h1, h2, h3⟩ := h.made a ha
      have ha' := hother a ha
      refine ⟨by rw [ha']; exact h1, by rw [ha']; exact h2, ?_⟩
      rw [ha']
      refine h3.imp (fun hm => (hlist _ a).2 (Or.inr hm)) fun ⟨hl, hf⟩ => ?_
      unfold Gone
      rw [ha']
      refine ⟨hl, hf.imp_right fun ⟨h0, u, m, nx, hp⟩ => ⟨h0, u, m, nx, ?_⟩⟩
      refine (Function.update_of_ne ?_ _ _).trans hp
      rintro rfl
      rw [hpc] at hp
      cases hp
    · refine ⟨?_, ?_, Or.inl ?_⟩
      · rw [hself]
        exact hheld.lt
      · rw [hself]
        rfl
      · rw [hself]
        exact (hlist _ _).2 (Or.inl ⟨rfl, rfl⟩)
  · by_cases hu : u = t
    · subst hu
      show PcOk v u (Function.update w.pc u _ u)
      rw [Function.update_self]
      intro a ha
      cases ha
      refine ⟨Nat.lt_succ_self _, fun _ => ?_⟩
      rw [hself]
      exact ⟨(hlist _ _).2 (Or.inl ⟨rfl, rfl⟩), rfl, hmine' u ulp hmine⟩
    · show PcOk v u (Function.update w.pc t _ u)
      rw [Function.update_of_ne hu]
      exact (h.pc u).keeps h (hkeeps u hu)

end DroidLkm.Sem.Undo
