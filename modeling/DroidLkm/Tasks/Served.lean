/-
  The IPC entries of tasks — what the tasks may rely on.

  * `EntryMem`: an entry that has to be allocated is;
  * `Kept`: a segment is on its creator's list, an adjustment in the undo list that is
    found for its task, kept by such steps;
  * `entries_serve`: what the calls then do, up to the exit.
-/
import DroidLkm.Tasks.Lists

namespace DroidLkm.Tasks

open Machine

variable {s s' : St} {act : Act} {t u ul id semid : ℕ} {x : Option TaskIpc}
  {noList noEntry : Bool} {rest : List ℕ}

/-- The entry that the call allocates is there, or there is memory for it. -/
def EntryMem (s : St) : Act → Prop
  | .shmget t noEntry => ¬s.Missing t noEntry
  | .semBegin t _ noList noEntry _ => noList = false → ¬s.Missing t noEntry
  | .unshare t newipc noEntry => newipc = true → ¬s.Missing t noEntry
  | _ => True

instance (s : St) : (act : Act) → Decidable (EntryMem s act)
  | .shmget t noEntry => inferInstanceAs (Decidable (¬s.Missing t noEntry))
  | .semBegin t _ noList noEntry _ =>
    inferInstanceAs (Decidable (noList = false → ¬s.Missing t noEntry))
  | .unshare t newipc noEntry =>
    inferInstanceAs (Decidable (newipc = true → ¬s.Missing t noEntry))
  | .clone .. | .semEnd .. | .exit _ | .deferredRun | .shmRmid _ | .semRmid _ | .setval .. =>
    inferInstanceAs (Decidable True)

/-- What a task has made and recorded is where its exit looks for it. -/
structure Kept (s : St) : Prop where
  noOops : s.oops = false
  listed : ∀ id sg, s.seg id = some sg → sg.linked = true → id ∈ (s.ent sg.creator).shmClist
  made : ∀ t id, id ∈ (s.ent t).shmClist →
    ∃ sg, s.seg id = some sg ∧ sg.creator = t ∧ sg.linked = true
  nodup : ∀ t, (s.ent t).shmClist.Nodup
  fresh : ∀ id sg, s.seg id = some sg → id < s.nextSeg
  found : ∀ ul l a, s.undo ul = some l → a ∈ l.log → (s.ent a.task).undoList = some ul
  pending : ∀ t p, s.pending t = some p → (s.ent t).undoList = some p.undo

theorem init_kept (n : ℕ) : Kept (St.init n) where
  noOops := rfl
  listed := by rintro id sg ⟨⟩
  made := by rintro t id ⟨⟩
  nodup := fun _ => List.nodup_nil
  fresh := by rintro id sg ⟨⟩
  found := by rintro ul l a ⟨⟩
  pending := by rintro t p ⟨⟩

/-- The lists of segments are as before. -/
theorem Kept.same (h : Kept s) (hoops : s'.oops = false)
    (hc : ∀ u, (s'.ent u).shmClist = (s.ent u).shmClist) (hseg : s'.seg = s.seg)
    (hnext : s'.nextSeg = s.nextSeg)
    (hfound : ∀ ul l a, s'.undo ul = some l → a ∈ l.log → (s'.ent a.task).undoList = some ul)
    (hpend : ∀ t p, s'.pending t = some p → (s'.ent t).undoList = some p.undo) : Kept s' where
  noOops := hoops
  listed := by
    intro id sg hsg hl
    rw [hc]
    rw [hseg] at hsg
    exact h.listed id sg hsg hl
  made := by
    intro u id hid
    rw [hc] at hid
    rw [hseg]
    exact h.made u id hid
  nodup := by
    intro u
    rw [hc]
    exact h.nodup u
  fresh := by
    intro id sg hsg
    rw [hnext]
    rw [hseg] at hsg
    exact h.fresh id sg hsg
  found := hfound
  pending := hpend

/-! ## Undo lists -/

theorem newUndo_ent (hm : ¬s.Missing t noEntry) : (s.newUndo t noEntry).ent u =
    if u = t then { s.ent t with undoList := some s.nextUndo } else s.ent u := by
  rw [St.newUndo_eq, if_neg hm]
  exact St.setEnt_ent ..

theorem Kept.newUndo (h : Kept s) (hul : (s.ent t).undoList = none)
    (hm : ¬s.Missing t noEntry) : Kept (s.newUndo t noEntry) := by
  have hold : ∀ u ul, (s.ent u).undoList = some ul →
      ((s.newUndo t noEntry).ent u).undoList = some ul := by
    intro u ul hu
    rw [newUndo_ent hm, if_neg]
    · exact hu
    · rintro rfl
      cases hul.symm.trans hu
  have hrest : (s.newUndo t noEntry).oops = s.oops ∧ (s.newUndo t noEntry).seg = s.seg ∧
      (s.newUndo t noEntry).nextSeg = s.nextSeg ∧ (s.newUndo t noEntry).pending = s.pending ∧
      (s.newUndo t noEntry).undo = Function.update s.undo s.nextUndo (some ⟨1, []⟩) := by
    rw [St.newUndo_eq, if_neg hm]
    exact ⟨rfl, rfl, rfl, rfl, rfl⟩
  obtain ⟨hoops, hseg, hnext, hpend, hundo⟩ := hrest
  refine h.same (hoops.trans h.noOops) (fun u => ?_) hseg hnext (fun ul l a hl ha => ?_)
    fun u p hp => ?_
  · rw [newUndo_ent hm]
    split
    next hut => rw [hut]
    · rfl
  · rw [hundo, Function.update_apply] at hl
    split at hl
    · obtain rfl := Option.some.inj hl
      cases ha
    · exact hold _ ul (h.found ul l a hl ha)
  · rw [hpend] at hp
    exact hold u _ (h.pending u p hp)

theorem Kept.exitSem (h : Kept s) (hW : Wf s) (hno : s.pending t = none) :
    Kept (s.exitSem t) := by
  rcases hW.exitSem_cases t with ⟨-, hs⟩ | ⟨ul, l, hul, hl, hs⟩
  · rw [hs]
    exact h
  have hold : ∀ u v, u ≠ t → (s.ent u).undoList = some v →
      ((s.exitSem t).ent u).undoList = some v := by
    intro u v hut hu
    rw [hs]
    change ((s.setEnt t _).ent u).undoList = some v
    rw [St.setEnt_ent, if_neg hut]
    exact hu
  refine h.same (by rw [hs]; exact h.noOops) (exitSem_clist hW t) (by rw [hs]; rfl)
    (by rw [hs]; rfl) (fun v l' a hl' ha => ?_) fun u p hp => ?_
  · have hv : v ≠ ul ∧ s.undo v = some l' := by
      rw [hs] at hl'
      change Function.update s.undo ul none v = some l' at hl'
      rw [Function.update_apply] at hl'
      split at hl'
      · cases hl'
      next hne => exact ⟨hne, hl'⟩
    have hfound := h.found v l' a hv.2 ha
    refine hold _ v ?_ hfound
    rintro rfl
    exact hv.1 (Option.some.inj (hfound.symm.trans hul))
  · rw [hs] at hp
    refine hold u _ ?_ (h.pending u p hp)
    rintro rfl
    cases hno.symm.trans hp

theorem exitSem_undoList (h : Wf s) : ((s.exitSem t).ent t).undoList = none := by
  rcases h.exitSem_cases t with ⟨hul, hs⟩ | ⟨ul, l, -, -, hs⟩
  · rw [hs]
    exact hul
  · rw [hs]
    change ((s.setEnt t _).ent t).undoList = none
    rw [St.setEnt_ent, if_pos rfl]
    rfl

/-! ## Segments -/

theorem Kept.newseg (h : Kept s) (hm : ¬s.Missing t noEntry) : Kept (s.newseg t noEntry) := by
  have hent : ∀ u, (s.newseg t noEntry).ent u = if u = t then
      { s.ent t with shmClist := s.nextSeg :: (s.ent t).shmClist } else s.ent u := by
    intro u
    rw [St.newseg_eq, if_neg hm]
    exact St.setEnt_ent ..
  have hul : ∀ u, ((s.newseg t noEntry).ent u).undoList = (s.ent u).undoList := by
    intro u
    rw [hent]
    split
    next hut => rw [hut]
    · rfl
  have hseg : ∀ id, (s.newseg t noEntry).seg id =
      if id = s.nextSeg then some ⟨t, true⟩ else s.seg id := by
    intro id
    rw [St.newseg_eq, if_neg hm]
    exact Function.update_apply ..
  have hrest : (s.newseg t noEntry).oops = s.oops ∧ (s.newseg t noEntry).undo = s.undo ∧
      (s.newseg t noEntry).pending = s.pending ∧
      (s.newseg t noEntry).nextSeg = s.nextSeg + 1 := by
    rw [St.newseg_eq, if_neg hm]
    exact ⟨rfl, rfl, rfl, rfl⟩
  obtain ⟨hoops, hundo, hpend, hnext⟩ := hrest
  have hnew : ∀ u, s.nextSeg ∉ (s.ent u).shmClist := by
    intro u hmem
    obtain ⟨sg, hsg, -⟩ := h.made u _ hmem
    exact absurd (h.fresh _ sg hsg) (Nat.lt_irrefl _)
  refine ⟨hoops.trans h.noOops, fun id sg hsg hl => ?_, fun u id hid => ?_, fun u => ?_,
    fun id sg hsg => ?_, fun ul l a hl ha => ?_, fun u p hp => ?_⟩
  · rw [hseg] at hsg
    rw [hent]
    split at hsg
    next hid =>
      obtain rfl := Option.some.inj hsg
      rw [if_pos rfl, hid]
      exact List.mem_cons_self
    · have hmem := h.listed id sg hsg hl
      split
      next hc => exact List.mem_cons_of_mem _ (hc ▸ hmem)
      · exact hmem
  · rw [hseg]
    rw [hent] at hid
    split at hid
    next hut =>
      rcases List.mem_cons.1 hid with rfl | hid
      · exact ⟨⟨t, true⟩, if_pos rfl, hut.symm, rfl⟩
      · rw [if_neg (fun he : id = s.nextSeg => hnew t (he ▸ hid)), hut]
        exact h.made t id hid
    · rw [if_neg (fun he : id = s.nextSeg => hnew u (he ▸ hid))]
      exact h.made u id hid
  · rw [hent]
    split
    · exact List.nodup_cons.2 ⟨hnew t, h.nodup t⟩
    · exact h.nodup u
  · rw [hnext]
    rw [hseg] at hsg
    split at hsg
    next hid => omega
    · exact Nat.lt_succ_of_lt (h.fresh id sg hsg)
  · rw [hundo] at hl
    rw [hul]
    exact h.found ul l a hl ha
  · rw [hpend] at hp
    rw [hul]
    exact h.pending u p hp

/-- The segments of a task, off its list. -/
def unlinked (s : St) (t id : ℕ) : Option Seg :=
  if id ∈ (s.ent t).shmClist then (s.seg id).map Seg.unlink else s.seg id

theorem unlinked_some {sg : Seg} (h : unlinked s t id = some sg) :
    ∃ sg₀, s.seg id = some sg₀ ∧ sg.creator = sg₀.creator ∧
      (sg.linked = true → sg₀.linked = true ∧ id ∉ (s.ent t).shmClist) := by
  unfold unlinked at h
  split at h
  · obtain ⟨sg₀, hsg, rfl⟩ := Option.map_eq_some_iff.1 h
    exact ⟨sg₀, hsg, rfl, fun hl => by cases hl⟩
  next hid => exact ⟨sg, h, rfl, fun hl => ⟨hl, hid⟩⟩

/-- A task has its list emptied, with its entry or without. -/
theorem Kept.unlink (h : Kept s) (hc : (x.getD ⟨none, [], false⟩).shmClist = [])
    (hul : (x.getD ⟨none, [], false⟩).undoList = (s.ent t).undoList) (d : List ℕ) :
    Kept { s.setEnt t x with deferred := d, seg := unlinked s t } := by
  have hsame : ∀ u, ((s.setEnt t x).ent u).undoList = (s.ent u).undoList := by
    intro u
    rw [St.setEnt_ent]
    split
    next hut => rw [hut]; exact hul
    · rfl
  have hclist : ∀ u, ((s.setEnt t x).ent u).shmClist =
      if u = t then [] else (s.ent u).shmClist := by
    intro u
    rw [St.setEnt_ent]
    split
    · exact hc
    · rfl
  refine ⟨h.noOops, fun id sg hsg hl => ?_, fun u id hid => ?_, fun u => ?_, fun id sg hsg => ?_,
    fun ul l a hl ha => (hsame _).trans (h.found ul l a hl ha),
    fun u p hp => (hsame u).trans (h.pending u p hp)⟩
  · obtain ⟨sg₀, hsg₀, hcr, himp⟩ := unlinked_some hsg
    obtain ⟨hl₀, hnot⟩ := himp hl
    have hmem := h.listed id sg₀ hsg₀ hl₀
    rw [← hcr] at hmem
    change id ∈ ((s.setEnt t x).ent sg.creator).shmClist
    rw [hclist, if_neg]
    · exact hmem
    · intro he
      exact hnot (he ▸ hmem)
  · change id ∈ ((s.setEnt t x).ent u).shmClist at hid
    rw [hclist] at hid
    split at hid
    · cases hid
    next hut =>
      obtain ⟨sg, hsg, hcr, hl⟩ := h.made u id hid
      refine ⟨sg, ?_, hcr, hl⟩
      change unlinked s t id = some sg
      unfold unlinked
      rw [if_neg]
      · exact hsg
      · intro hid'
        obtain ⟨sg', hsg', hcr', -⟩ := h.made t id hid'
        obtain rfl := Option.some.inj (hsg.symm.trans hsg')
        exact hut (hcr.symm.trans hcr')
  · change ((s.setEnt t x).ent u).shmClist.Nodup
    rw [hclist]
    split
    · exact List.nodup_nil
    · exact h.nodup u
  · obtain ⟨sg₀, hsg₀, -⟩ := unlinked_some hsg
    exact h.fresh id sg₀ hsg₀

theorem Kept.exitShm (h : Kept s) (hm : ¬s.Missing t noEntry) : Kept (s.exitShm t noEntry) := by
  rw [St.exitShm_eq, if_neg hm]
  exact h.unlink (x := some { s.ent t with shmClist := [] }) rfl rfl s.deferred

theorem Kept.shmRmid (h : Kept s) : Kept (s.shmRmid id) := by
  have hseg : ∀ i sg, (s.shmRmid id).seg i = some sg ↔ i ≠ id ∧ s.seg i = some sg := by
    intro i sg
    change Function.update s.seg id none i = some sg ↔ _
    rw [Function.update_apply]
    split
    next hi =>
      constructor
      · rintro ⟨⟩
      · exact fun hx => absurd hi hx.1
    next hi => exact ⟨fun hx => ⟨hi, hx⟩, And.right⟩
  refine ⟨h.noOops, fun i sg hsg hl => ?_, fun u i hi => ?_, fun u => ?_, fun i sg hsg => ?_,
    fun ul l a hl ha => ?_, fun u p hp => ?_⟩
  · obtain ⟨hne, hsg⟩ := (hseg i sg).1 hsg
    rw [shmRmid_ent]
    exact (List.mem_erase_of_ne hne).2 (h.listed i sg hsg hl)
  · rw [shmRmid_ent] at hi
    obtain ⟨hne, hi⟩ := (h.nodup u).mem_erase_iff.1 hi
    obtain ⟨sg, hsg, hcr, hl⟩ := h.made u i hi
    exact ⟨sg, (hseg i sg).2 ⟨hne, hsg⟩, hcr, hl⟩
  · rw [shmRmid_ent]
    exact (h.nodup u).erase id
  · exact h.fresh i sg ((hseg i sg).1 hsg).2
  · rw [shmRmid_ent]
    exact h.found ul l a hl ha
  · rw [shmRmid_ent]
    exact h.pending u p hp

/-! ## The steps -/

theorem Kept.clearAdj (h : Kept s) (p : Adj → Bool) : Kept (s.clearAdj p) := by
  refine h.same h.noOops (fun _ => rfl) rfl rfl (fun ul l a hl ha => ?_) h.pending
  obtain ⟨l₀, hl₀, rfl⟩ := Option.map_eq_some_iff.1 hl
  exact h.found ul l₀ a hl₀ (List.mem_of_mem_filter ha)

theorem exitDefer_ent (s : St) (t u : ℕ) : ((s.exitDefer t).ent u).undoList =
    (s.ent u).undoList ∧ ((s.exitDefer t).ent u).shmClist = (s.ent u).shmClist := by
  rcases s.exitDefer_eq t with hs | ⟨-, -, hs⟩
  · rw [hs]
    exact ⟨rfl, rfl⟩
  · rw [hs]
    change ((s.setEnt t _).ent u).undoList = _ ∧ ((s.setEnt t _).ent u).shmClist = _
    rw [St.setEnt_ent]
    split
    next hut =>
      rw [hut]
      exact ⟨rfl, rfl⟩
    · exact ⟨rfl, rfl⟩

theorem Kept.exit (h : Kept s) (t : ℕ) :
    Kept { s.exitDefer t with exited := Function.update s.exited t true } := by
  have hent := exitDefer_ent s t
  have hrest : (s.exitDefer t).oops = s.oops ∧ (s.exitDefer t).seg = s.seg ∧
      (s.exitDefer t).nextSeg = s.nextSeg ∧ (s.exitDefer t).undo = s.undo ∧
      (s.exitDefer t).pending = s.pending := by
    rcases s.exitDefer_eq t with hs | ⟨-, -, hs⟩
    · rw [hs]
      exact ⟨rfl, rfl, rfl, rfl, rfl⟩
    · rw [hs]
      exact ⟨rfl, rfl, rfl, rfl, rfl⟩
  obtain ⟨hoops, hseg, hnext, hundo, hpend⟩ := hrest
  refine h.same (hoops.trans h.noOops) (fun u => (hent u).2) hseg hnext (fun ul l a hl ha => ?_)
    fun u p hp => ?_
  · exact (hent _).1.trans (h.found ul l a (hundo ▸ hl) ha)
  · exact (hent u).1.trans (h.pending u p (hpend ▸ hp))

theorem Kept.semEnd (h : Kept s) {sops : List Sembuf} {ok : Bool}
    (hs : step s (.semEnd t sops ok) = some s') : Kept s' := by
  have hclear : ∀ u p, Function.update s.pending t none u = some p →
      (s.ent u).undoList = some p.undo := by
    intro u p hp
    rw [Function.update_apply] at hp
    split at hp
    · cases hp
    · exact h.pending u p hp
  obtain ⟨p, hp, ⟨-, rfl⟩ | ⟨l, hl, rfl⟩⟩ := semEnd_cases hs
  · exact h.same h.noOops (fun _ => rfl) rfl rfl h.found hclear
  refine h.same h.noOops (fun _ => rfl) rfl rfl (fun ul l' a hl' ha => ?_) hclear
  dsimp only at hl'
  rw [Function.update_apply] at hl'
  split at hl'
  next hul =>
    subst hul
    obtain rfl := Option.some.inj hl'
    rcases List.mem_append.1 ha with ha | ha
    · exact h.found _ l a hl ha
    · obtain ⟨o, -, rfl⟩ := List.mem_map.1 ha
      exact h.pending t p hp
  · exact h.found ul l' a hl' ha

theorem Kept.semBegin (h : Kept s) {err : Bool} (hm : noList = false → ¬s.Missing t noEntry)
    (hs : step s (.semBegin t semid noList noEntry err) = some s') : Kept s' := by
  have hset : ∀ {r : St} {ul : ℕ}, Kept r → (r.ent t).undoList = some ul →
      Kept { r with pending := Function.update r.pending t (some ⟨ul, semid⟩) } := by
    intro r ul hr hul
    refine hr.same hr.noOops (fun _ => rfl) rfl rfl hr.found fun u p hp => ?_
    dsimp only at hp
    rw [Function.update_apply] at hp
    split at hp
    next hut =>
      obtain rfl := Option.some.inj hp
      rw [hut]
      exact hul
    · exact hr.pending u p hp
  obtain ⟨-, -, rfl | ⟨r, ul, ⟨rfl, hul⟩ | ⟨hul, hno, rfl, rfl⟩, rfl | rfl⟩⟩ := semBegin_cases hs
  · exact h
  · exact h
  · exact hset h hul
  · exact h.newUndo hul (hm hno)
  · refine hset (h.newUndo hul (hm hno)) ?_
    rw [newUndo_ent (hm hno), if_pos rfl]

theorem step_kept (hW : Wf s) (h : Kept s) (hm : EntryMem s act) (hs : step s act = some s') :
    Kept s' := by
  cases act with
  | clone t sysvsem =>
    unfold step at hs
    dsimp only at hs
    split at hs
    · obtain rfl := Option.some.inj hs
      exact h.same h.noOops (fun _ => rfl) rfl rfl h.found h.pending
    · cases hs
  | shmget t noEntry =>
    obtain ⟨-, -, rfl⟩ := shmget_cases hs
    exact h.newseg hm
  | semBegin t semid noList noEntry err => exact h.semBegin hm hs
  | semEnd t sops ok => exact h.semEnd hs
  | unshare t newipc noEntry =>
    obtain ⟨-, -, hno, rfl⟩ := unshare_cases hs
    have hE := h.exitSem hW hno
    have hK : Kept (if newipc then (s.exitSem t).exitShm t noEntry else s.exitSem t) := by
      split
      next hipc =>
        refine hE.exitShm ?_
        rintro ⟨hht, hmem⟩
        refine hm hipc ⟨?_, hmem⟩
        rcases hW.exitSem_cases t with ⟨-, hx⟩ | ⟨ul, l, -, -, hx⟩
        · rw [hx] at hht
          exact hht
        · rw [hx] at hht
          cases (Function.update_self ..).symm.trans hht
      · exact hE
    exact ⟨hK.noOops, hK.listed, hK.made, hK.nodup, hK.fresh, hK.found, hK.pending⟩
  | exit t =>
    obtain ⟨-, -, rfl⟩ := exit_cases hs
    exact h.exit t
  | deferredRun =>
    rcases hd : s.deferred with _ | ⟨t, rest⟩
    · unfold step at hs
      rw [hd] at hs
      cases hs
    rw [deferredRun_eq hW hd] at hs
    obtain rfl := Option.some.inj hs
    have hno : s.pending t = none := by
      rcases hp : s.pending t with _ | p
      · rfl
      · have hex := hW.gone t (by rw [hd]; exact List.mem_cons_self)
        cases (running_iff.1 (hW.pend t p hp).1).2.symm.trans hex
    have hseg : unlinked (s.exitSem t) t = unlinked s t := by
      funext id
      unfold unlinked
      rw [exitSem_clist hW]
      rcases hW.exitSem_cases t with ⟨-, hx⟩ | ⟨ul, l, -, -, hx⟩
      · rw [hx]
      · rw [hx]
        rfl
    have hK := (h.exitSem hW hno).unlink (x := none) rfl (exitSem_undoList hW).symm rest
    rw [hseg] at hK
    exact hK
  | shmRmid id =>
    unfold step at hs
    dsimp only at hs
    split at hs
    · obtain rfl := Option.some.inj hs
      exact h.shmRmid
    · cases hs
  | semRmid semid =>
    obtain rfl := Option.some.inj hs
    have hC := h.clearAdj (·.semid == semid)
    exact hC.same hC.noOops (fun _ => rfl) rfl rfl hC.found
      fun u p hp => hC.pending u p (Option.filter_eq_some_iff.1 hp).1
  | setval semid num val =>
    obtain rfl := Option.some.inj hs
    have hC := h.clearAdj fun a => a.semid == semid && a.num == num
    exact hC.same hC.noOops (fun _ => rfl) rfl rfl hC.found hC.pending

theorem run_kept {n : ℕ} (h : RunIf step EntryMem (St.init n) s) : Wf s ∧ Kept s :=
  h.inv (I := fun s => Wf s ∧ Kept s) ⟨init_wf n, init_kept n⟩
    fun _ _ _ hi hm hs => ⟨step_wf hi.1 hs, step_kept hi.1 hi.2 hm hs⟩

/-! ## What the tasks may rely on -/

/-- What holds in a state, and of the calls that may be made in it. -/
structure Serves (s : St) : Prop where
  /-- no list that is missing has been used -/
  noOops : s.oops = false
  /-- a segment is on its creator's list, -/
  listed : ∀ id sg, s.seg id = some sg → sg.linked = true →
    ∃ e, s.ht sg.creator = some e ∧ id ∈ e.shmClist
  /-- and an adjustment in the list that is found for its task -/
  found : ∀ ul l a, s.undo ul = some l → a ∈ l.log → s.undoList a.task = some ul
  shmget : ∀ t noEntry s', EntryMem s (.shmget t noEntry) →
    step s (.shmget t noEntry) = some s' →
      s'.oops = false ∧ ∃ e, s'.ht t = some e ∧ s.nextSeg ∈ e.shmClist
  exitShm : ∀ t newipc noEntry s', EntryMem s (.unshare t newipc noEntry) →
    step s (.unshare t newipc noEntry) = some s' → s'.oops = false
  /-- `get_undo_list` succeeds with a list that is registered -/
  getUndoList : ∀ t noList noEntry s' ul, (noList = false → ¬s.Missing t noEntry) →
    s.getUndoList t noList noEntry = (s', .ok ul) → s'.undoList t = some ul
  /-- an operation that succeeds has recorded its adjustments there -/
  recorded : ∀ t p sops s', s.pending t = some p → step s (.semEnd t sops true) = some s' →
    ∃ ul l, s'.undoList t = some ul ∧ s'.undo ul = some l ∧
      ∀ a ∈ recorded s t p.semid sops, a ∈ l.log
  /-- an exit leaves the entry to the worker, -/
  exit : ∀ t s', step s (.exit t) = some s' → (s'.ht t).isSome → t ∈ s'.deferred
  /-- which leaves nothing of the task on any list -/
  worker : ∀ t rest, s.deferred = t :: rest → ∃ s', step s .deferredRun = some s' ∧
    s'.deferred = rest ∧ s'.oops = false ∧ s'.ht t = none ∧
      (∀ id sg, s'.seg id = some sg → sg.creator = t → sg.linked = false) ∧
      ∀ ul l a, s'.undo ul = some l → a ∈ l.log → a.task ≠ t

theorem ht_of_mem (h : id ∈ (s.ent t).shmClist) : ∃ e, s.ht t = some e ∧ id ∈ e.shmClist := by
  unfold St.ent at h
  cases hx : s.ht t with
  | none =>
    rw [hx] at h
    cases h
  | some e =>
    rw [hx] at h
    exact ⟨e, rfl, h⟩

theorem getUndoList_registered (h : (s.getUndoList t noList noEntry) = (s', .ok ul))
    (hm : noList = false → ¬s.Missing t noEntry) : s'.undoList t = some ul := by
  rw [St.undoList_eq]
  rcases s.getUndoList_cases t noList noEntry with
    ⟨ul', hul, hg⟩ | ⟨hul, ⟨-, hg⟩ | ⟨hno, hg⟩⟩
  · cases hg.symm.trans h
    exact hul
  · cases hg.symm.trans h
  · cases hg.symm.trans h
    rw [newUndo_ent (hm hno), if_pos rfl]

theorem Kept.worker (hW : Wf s) (h : Kept s) (hd : s.deferred = t :: rest) :
    ∃ s', step s .deferredRun = some s' ∧ s'.deferred = rest ∧ s'.oops = false ∧
      s'.ht t = none ∧
      (∀ id sg, s'.seg id = some sg → sg.creator = t → sg.linked = false) ∧
      ∀ ul l a, s'.undo ul = some l → a ∈ l.log → a.task ≠ t := by
  obtain ⟨s', hs, hdef, hht⟩ : ∃ s', step s .deferredRun = some s' ∧ s'.deferred = rest ∧
      s'.ht t = none := ⟨_, deferredRun_eq hW hd, rfl, Function.update_self ..⟩
  have hK := step_kept hW h (show EntryMem s .deferredRun from trivial) hs
  refine ⟨s', hs, hdef, hK.noOops, hht, fun id sg hsg hc => ?_, fun ul l a hl ha hat => ?_⟩
  · cases hl : sg.linked with
    | false => rfl
    | true =>
      have hmem := hK.listed id sg hsg hl
      rw [hc, ent_of_none hht] at hmem
      cases hmem
  · have hf := hK.found ul l a hl ha
    rw [hat, ent_of_none hht] at hf
    cases hf

/-- **The entries serve their tasks**, as long as each entry that has to be allocated is. -/
theorem entries_serve {n : ℕ} (h : RunIf step EntryMem (St.init n) s) : Serves s := by
  obtain ⟨hW, hK⟩ := run_kept h
  refine ⟨hK.noOops, fun id sg hsg hl => ht_of_mem (hK.listed id sg hsg hl),
    fun ul l a hl ha => St.undoList_eq.trans (hK.found ul l a hl ha), ?_, ?_, ?_, ?_, ?_, ?_⟩
  · intro t noEntry s' hm hs
    have hK' := step_kept hW hK hm hs
    obtain ⟨-, -, rfl⟩ := shmget_cases hs
    refine ⟨hK'.noOops, ht_of_mem ?_⟩
    rw [St.newseg_eq, if_neg hm]
    change s.nextSeg ∈ ((s.setEnt t _).ent t).shmClist
    rw [St.setEnt_ent, if_pos rfl]
    exact List.mem_cons_self
  · intro t newipc noEntry s' hm hs
    exact (step_kept hW hK hm hs).noOops
  · intro t noList noEntry s' ul hm hg
    exact getUndoList_registered hg hm
  · intro t p sops s' hp hs
    obtain ⟨p', hp', ⟨hf, -⟩ | ⟨l, hl, rfl⟩⟩ := semEnd_cases hs
    · cases hf
    obtain rfl := Option.some.inj (hp.symm.trans hp')
    refine ⟨p.undo, _, St.undoList_eq.trans (hK.pending t p hp), Function.update_self ..,
      fun a ha => List.mem_append_right _ ha⟩
  · intro t s' hs hsome
    have hW' := step_wf hW hs
    refine hW'.left t ?_ hsome
    obtain ⟨-, -, rfl⟩ := exit_cases hs
    exact Function.update_self ..
  · intro t rest hd
    exact hK.worker hW hd

/-- A task makes a segment, records an adjustment and exits, and the worker runs. -/
theorem entries_serve_exit : ∃ s, RunIf step EntryMem (St.init 1) s ∧ Serves s ∧
    s.applied = [⟨5, 0, 1, 0, 0⟩] ∧ s.seg 0 = some ⟨0, false⟩ ∧ s.ht 0 = none := by
  obtain ⟨s, hrun, hs⟩ := execIf_check step (fun s act => decide (EntryMem s act))
    (fun _ _ => of_decide_eq_true) (St.init 1)
    [.shmget 0 false, .semBegin 0 5 false false false, .semEnd 0 [⟨0, -1, true⟩] true, .exit 0,
      .deferredRun]
    (fun s => decide (s.applied = [⟨5, 0, 1, 0, 0⟩] ∧ s.seg 0 = some ⟨0, false⟩ ∧ s.ht 0 = none))
    (by decide +kernel)
  exact ⟨s, hrun, entries_serve hrun, of_decide_eq_true hs⟩

/-- Without the memory for an entry, `newseg` uses a list that is not there, and an operation
    on semaphores succeeds with its adjustment in a list that nothing finds. -/
theorem entry_missing : (∃ s, Run step (St.init 1) s ∧ s.oops = true) ∧
    ∃ s, Run step (St.init 1) s ∧ s.undo 0 = some ⟨1, [⟨5, 0, 1, 0, 0⟩]⟩ ∧
      s.undoList 0 = none :=
  ⟨⟨_, exec_run (show exec step (St.init 1) [.shmget 0 true] = some _ from rfl), rfl⟩,
    ⟨_, exec_run (show exec step (St.init 1) [.semBegin 0 5 false true false,
      .semEnd 0 [⟨0, -1, true⟩] true] = some _ from rfl), rfl, rfl⟩⟩

end DroidLkm.Tasks
