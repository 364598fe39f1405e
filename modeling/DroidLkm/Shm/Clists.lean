/-
  SysV shared memory — the lists of the creators.

  * `Links`: a list holds segments that are there and that its task has made,
    and each `exit_shm` is where its list says;
  * `step_links`: every step keeps it.
-/
import DroidLkm.Shm.Orphans

namespace DroidLkm.Shm

open St

variable {s s' : St} {act : Act} {t n id id' : ℕ} {sg sg' : Seg} {pc : ExitPc}

/-! ## Lists and segments -/

/-- The lists hold segments that are there, each on its creator's list only, and each
    `exit_shm` is where its list says. -/
structure Links (s : St) : Prop where
  owned : ∀ t id, id ∈ s.clist t → ∃ sg, s.seg id = some sg ∧ sg.creator = t
  nodup : ∀ t, (s.clist t).Nodup
  fresh : ∀ id sg, s.seg id = some sg → id < s.next
  tested : ∀ t id n b, s.exit t = .tested id n b →
    id ∈ s.clist t ∧ ∃ sg, s.seg id = some sg ∧ sg.ns = n
  unlinked : ∀ t id n, s.exit t = .unlinked id n →
    id < s.next ∧ ∀ sg, s.seg id = some sg → sg.ns = n ∧ id ∉ s.clist sg.creator
  done : ∀ t, s.exit t = .done → s.clist t = []

theorem linked_iff : s.linked id sg = true ↔ id ∈ s.clist sg.creator := by simp [linked]

theorem linked_false : s.linked id sg = false ↔ id ∉ s.clist sg.creator := by simp [linked]

/-- Nothing that the lists are about has changed. -/
theorem Links.congr (h : Links s)
    (hseg : ∀ id sg', s'.seg id = some sg' → ∃ sg, s.seg id = some sg ∧ sg.ns = sg'.ns ∧
      sg.creator = sg'.creator)
    (hseg' : ∀ id sg, s.seg id = some sg → ∃ sg', s'.seg id = some sg' ∧ sg.ns = sg'.ns ∧
      sg.creator = sg'.creator)
    (hclist : s'.clist = s.clist) (hnext : s'.next = s.next) (hexit : s'.exit = s.exit) :
    Links s' := by
  refine ⟨fun t id hid => ?_, fun t => ?_, fun id sg hsg => ?_, fun t id n b ht => ?_,
    fun t id n ht => ?_, fun t ht => ?_⟩
  · rw [hclist] at hid
    obtain ⟨sg, hsg, rfl⟩ := h.owned t id hid
    obtain ⟨sg', hsg', -, hc⟩ := hseg' id sg hsg
    exact ⟨sg', hsg', hc.symm⟩
  · rw [hclist]
    exact h.nodup t
  · obtain ⟨sg₀, hsg₀, -⟩ := hseg id sg hsg
    rw [hnext]
    exact h.fresh id sg₀ hsg₀
  · rw [hexit] at ht
    obtain ⟨hid, sg, hsg, rfl⟩ := h.tested t id n b ht
    obtain ⟨sg', hsg', hn, -⟩ := hseg' id sg hsg
    exact ⟨by rw [hclist]; exact hid, sg', hsg', hn.symm⟩
  · rw [hexit] at ht
    obtain ⟨hid, hall⟩ := h.unlinked t id n ht
    refine ⟨by rw [hnext]; exact hid, fun sg' hsg' => ?_⟩
    obtain ⟨sg, hsg, hn, hc⟩ := hseg id sg' hsg'
    rw [← hn, ← hc, hclist]
    exact hall sg hsg
  · rw [hexit] at ht
    rw [hclist]
    exact h.done t ht

theorem Links.same (h : Links s) (hseg : s'.seg = s.seg) (hclist : s'.clist = s.clist)
    (hnext : s'.next = s.next) (hexit : s'.exit = s.exit) : Links s' :=
  h.congr (fun id sg hsg => ⟨sg, by rw [← hseg]; exact hsg, rfl, rfl⟩)
    (fun id sg hsg => ⟨sg, by rw [hseg]; exact hsg, rfl, rfl⟩) hclist hnext hexit

theorem Links.setSeg (h : Links s) (hsg : s.seg id = some sg) (hn : sg'.ns = sg.ns)
    (hc : sg'.creator = sg.creator) : Links (s.setSeg id sg') := by
  refine h.congr (fun i x hx => ?_) (fun i x hx => ?_) rfl rfl rfl
  · rw [setSeg_seg] at hx
    split at hx
    next hi =>
      obtain rfl := Option.some.inj hx
      exact ⟨sg, hi ▸ hsg, hn.symm, hc.symm⟩
    · exact ⟨x, hx, rfl, rfl⟩
  · rw [setSeg_seg]
    split
    next hi =>
      obtain rfl := Option.some.inj (hsg.symm.trans (hi ▸ hx))
      exact ⟨sg', rfl, hn.symm, hc.symm⟩
    · exact ⟨x, hx, rfl, rfl⟩

/-- A step of an `exit_shm` that leaves the lists alone. -/
theorem Links.setExit (h : Links s)
    (htested : ∀ id n b, pc = .tested id n b →
      id ∈ s.clist t ∧ ∃ sg, s.seg id = some sg ∧ sg.ns = n)
    (hunlinked : ∀ id n, pc ≠ .unlinked id n) (hdone : pc = .done → s.clist t = []) :
    Links (s.setExit t pc) := by
  have hexit : ∀ u q, (s.setExit t pc).exit u = q → (u = t ∧ pc = q) ∨ s.exit u = q := by
    intro u q hq
    rw [setExit_exit] at hq
    split at hq
    next hu => exact .inl ⟨hu, hq⟩
    · exact .inr hq
  refine ⟨h.owned, h.nodup, h.fresh, fun u id n b hu => ?_, fun u id n hu => ?_,
    fun u hu => ?_⟩
  · rcases hexit u _ hu with ⟨rfl, hpc⟩ | hu
    · exact htested id n b hpc
    · exact h.tested u id n b hu
  · rcases hexit u _ hu with ⟨-, hpc⟩ | hu
    · exact absurd hpc (hunlinked id n)
    · exact h.unlinked u id n hu
  · rcases hexit u _ hu with ⟨rfl, hpc⟩ | hu
    · exact hdone hpc
    · exact h.done u hu

theorem mem_clist_destroy (h : Links s) (hsg : s.seg id = some sg) :
    id' ∈ (s.shmDestroy id sg).clist t ↔ id' ∈ s.clist t ∧ id' ≠ id := by
  unfold shmDestroy
  dsimp only
  by_cases ht : t = sg.creator
  · subst ht
    rw [Function.update_self, (h.nodup _).mem_erase_iff, and_comm]
  · rw [Function.update_of_ne ht]
    refine ⟨fun hid => ⟨hid, ?_⟩, And.left⟩
    rintro rfl
    obtain ⟨sg', hsg', rfl⟩ := h.owned t _ hid
    obtain rfl := Option.some.inj (hsg.symm.trans hsg')
    exact ht rfl

theorem seg_destroy : (s.shmDestroy id sg).seg id' = if id' = id then none else s.seg id' := by
  unfold shmDestroy
  by_cases h : id' = id
  · rw [if_pos h, h]
    exact Function.update_self ..
  · rw [if_neg h]
    exact Function.update_of_ne h ..

theorem Links.shmDestroy (h : Links s) (hsg : s.seg id = some sg)
    (hlock : s.linked id sg = true → s.taskLocked sg.creator = false) :
    Links (s.shmDestroy id sg) := by
  have hmem := @mem_clist_destroy s
  have hseg : ∀ i x, (s.shmDestroy id sg).seg i = some x → i ≠ id ∧ s.seg i = some x := by
    intro i x hx
    rw [seg_destroy] at hx
    split at hx
    · cases hx
    next hi => exact ⟨hi, hx⟩
  refine ⟨fun t i hi => ?_, fun t => ?_, fun i x hx => h.fresh i x (hseg i x hx).2,
    fun t i n b ht => ?_, fun t i n ht => ?_, fun t ht => ?_⟩
  · obtain ⟨hi, hne⟩ := (hmem h hsg).1 hi
    obtain ⟨x, hx, hc⟩ := h.owned t i hi
    exact ⟨x, by rw [seg_destroy, if_neg hne]; exact hx, hc⟩
  · unfold St.shmDestroy
    dsimp only
    by_cases ht : t = sg.creator
    · rw [ht, Function.update_self]
      exact (h.nodup _).erase _
    · rw [Function.update_of_ne ht]
      exact h.nodup t
  · have ht' : s.exit t = .tested i n b := ht
    obtain ⟨hi, x, hx, hn⟩ := h.tested t i n b ht'
    have hne : i ≠ id := by
      rintro rfl
      obtain ⟨y, hy, rfl⟩ := h.owned t i hi
      obtain rfl := Option.some.inj (hsg.symm.trans hy)
      have hfree := hlock (linked_iff.2 hi)
      rw [taskLocked, ht'] at hfree
      cases hfree
    exact ⟨(hmem h hsg).2 ⟨hi, hne⟩, x, by rw [seg_destroy, if_neg hne]; exact hx, hn⟩
  · obtain ⟨hi, hall⟩ := h.unlinked t i n ht
    refine ⟨hi, fun x hx => ?_⟩
    obtain ⟨-, hx⟩ := hseg i x hx
    obtain ⟨hn, hnot⟩ := hall x hx
    exact ⟨hn, fun hin => hnot ((hmem h hsg).1 hin).1⟩
  · have hnil : s.clist t = [] := h.done t ht
    unfold St.shmDestroy
    dsimp only
    by_cases htc : t = sg.creator
    · rw [htc] at hnil
      rw [htc, Function.update_self, hnil]
      rfl
    · rw [Function.update_of_ne htc]
      exact hnil

/-- The segment is taken off the list by `exit_shm`. -/
theorem Links.exitUnlink {b : Bool} (h : Links s) (ht : s.exit t = .tested id n b) :
    Links ({ s with clist := Function.update s.clist t ((s.clist t).erase id) }.setExit t
      (if b then .unlinked id n else .looping)) := by
  obtain ⟨hid, sg, hsg, hn⟩ := h.tested t id n b ht
  have hc : ∀ u, (Function.update s.clist t ((s.clist t).erase id)) u = if u = t then
      (s.clist t).erase id else s.clist u := fun u => Function.update_apply ..
  have hexit : ∀ u, (Function.update s.exit t (if b then .unlinked id n else .looping)) u =
      if u = t then (if b then .unlinked id n else .looping) else s.exit u :=
    fun u => Function.update_apply ..
  have hsub : ∀ u i, i ∈ (Function.update s.clist t ((s.clist t).erase id)) u → i ∈ s.clist u := by
    intro u i hi
    rw [hc] at hi
    split at hi
    next hu => exact hu ▸ List.mem_of_mem_erase hi
    · exact hi
  have howner : ∀ u, id ∈ s.clist u → u = t := by
    intro u hu
    obtain ⟨x, hx, rfl⟩ := h.owned t id hid
    obtain ⟨y, hy, rfl⟩ := h.owned u id hu
    obtain rfl := Option.some.inj (hx.symm.trans hy)
    rfl
  refine ⟨fun u i hi => h.owned u i (hsub u i hi), fun u => ?_, h.fresh, fun u i m c hu => ?_,
    fun u i m hu => ?_, fun u hu => ?_⟩
  · show ((Function.update s.clist t ((s.clist t).erase id)) u).Nodup
    rw [hc]
    split
    · exact (h.nodup t).erase id
    · exact h.nodup u
  · have hu' : s.exit u = .tested i m c ∧ u ≠ t := by
      have hu : (Function.update s.exit t (if b then .unlinked id n else .looping)) u =
        .tested i m c := hu
      rw [hexit] at hu
      split at hu
      · split at hu <;> cases hu
      next hne => exact ⟨hu, hne⟩
    obtain ⟨hi, hx⟩ := h.tested u i m c hu'.1
    refine ⟨?_, hx⟩
    show i ∈ (Function.update s.clist t ((s.clist t).erase id)) u
    rw [hc, if_neg hu'.2]
    exact hi
  · have hu : (Function.update s.exit t (if b then .unlinked id n else .looping)) u =
      .unlinked i m := hu
    rw [hexit] at hu
    split at hu
    · split at hu
      · obtain ⟨rfl, rfl⟩ := ExitPc.unlinked.inj hu
        refine ⟨h.fresh id sg hsg, fun x hx => ?_⟩
        obtain rfl := Option.some.inj (hsg.symm.trans hx)
        refine ⟨hn, fun hin => ?_⟩
        have hcr := howner _ (hsub _ _ hin)
        have hin : id ∈ (Function.update s.clist t ((s.clist t).erase id)) sg.creator := hin
        rw [hc, if_pos hcr, (h.nodup t).mem_erase_iff] at hin
        exact hin.1 rfl
      · cases hu
    · obtain ⟨hi, hall⟩ := h.unlinked u i m hu
      refine ⟨hi, fun x hx => ?_⟩
      obtain ⟨hm, hnot⟩ := hall x hx
      exact ⟨hm, fun hin => hnot (hsub _ _ hin)⟩
  · have hu : (Function.update s.exit t (if b then .unlinked id n else .looping)) u = .done := hu
    rw [hexit] at hu
    split at hu
    · split at hu <;> cases hu
    next hne =>
      show (Function.update s.clist t ((s.clist t).erase id)) u = []
      rw [hc, if_neg hne]
      exact h.done u hu

theorem Links.shmget (h : Links s) (hidle : s.exit t = .idle) :
    Links { s with
      seg := Function.update s.seg s.next (some ⟨n, 0, false, t⟩)
      next := s.next + 1
      clist := Function.update s.clist t (s.next :: s.clist t) } := by
  have hnew : ∀ u, s.next ∉ s.clist u := by
    intro u hu
    obtain ⟨sg, hsg, -⟩ := h.owned u _ hu
    exact Nat.lt_irrefl _ (h.fresh _ sg hsg)
  have hold : ∀ i x, s.seg i = some x →
      (Function.update s.seg s.next (some ⟨n, 0, false, t⟩)) i = some x := by
    intro i x hx
    rw [Function.update_of_ne (Nat.ne_of_lt (h.fresh i x hx))]
    exact hx
  have hc : ∀ u, (Function.update s.clist t (s.next :: s.clist t)) u = if u = t then
      s.next :: s.clist t else s.clist u := fun u => Function.update_apply ..
  refine ⟨fun u i hi => ?_, fun u => ?_, fun i x hx => ?_, fun u i m b hu => ?_,
    fun u i m hu => ?_, fun u hu => ?_⟩
  · have hi' : i ∈ (Function.update s.clist t (s.next :: s.clist t)) u := hi
    rw [hc] at hi'
    split at hi'
    next hu =>
      subst hu
      rcases List.mem_cons.1 hi' with rfl | hi'
      · exact ⟨_, Function.update_self .., rfl⟩
      · obtain ⟨x, hx, hxc⟩ := h.owned u i hi'
        exact ⟨x, hold i x hx, hxc⟩
    · obtain ⟨x, hx, hxc⟩ := h.owned u i hi'
      exact ⟨x, hold i x hx, hxc⟩
  · show ((Function.update s.clist t (s.next :: s.clist t)) u).Nodup
    rw [hc]
    split
    · exact List.nodup_cons.2 ⟨hnew t, h.nodup t⟩
    · exact h.nodup u
  · by_cases hi : i = s.next
    · rw [hi]
      exact Nat.lt_succ_self _
    · have hx' : (Function.update s.seg s.next (some ⟨n, 0, false, t⟩)) i = some x := hx
      rw [Function.update_of_ne hi] at hx'
      exact Nat.lt_succ_of_lt (h.fresh i x hx')
  · obtain ⟨hi, x, hx, hm⟩ := h.tested u i m b hu
    refine ⟨?_, x, hold i x hx, hm⟩
    show i ∈ (Function.update s.clist t (s.next :: s.clist t)) u
    rw [hc, if_neg (by rintro rfl; rw [hidle] at hu; cases hu)]
    exact hi
  · obtain ⟨hi, hall⟩ := h.unlinked u i m hu
    refine ⟨Nat.lt_succ_of_lt hi, fun x hx => ?_⟩
    have hx' : (Function.update s.seg s.next (some ⟨n, 0, false, t⟩)) i = some x := hx
    rw [Function.update_of_ne (Nat.ne_of_lt hi)] at hx'
    obtain ⟨hm, hnot⟩ := hall x hx'
    refine ⟨hm, fun hin => ?_⟩
    have hin : i ∈ (Function.update s.clist t (s.next :: s.clist t)) x.creator := hin
    rw [hc] at hin
    split at hin
    next hxc =>
      rcases List.mem_cons.1 hin with rfl | hin
      · exact Nat.lt_irrefl _ hi
      · exact hnot (hxc ▸ hin)
    · exact hnot hin
  · show (Function.update s.clist t (s.next :: s.clist t)) u = []
    rw [hc, if_neg (by rintro rfl; have hu : s.exit _ = _ := hu; rw [hidle] at hu; cases hu)]
    exact h.done u hu

/-- **Every step keeps the lists right.** -/
theorem step_links (h : Links s) (hs : step s act = some s') : Links s' := by
  cases act with
  | shmget t n =>
    rw [step] at hs
    split at hs
    next hc =>
      cases hs
      exact h.shmget hc.1
    · cases hs
  | attach id =>
    rw [step] at hs
    split at hs
    · cases hs
    next sg hsg =>
      split at hs
      · split at hs
        · cases hs
        · cases hs
          exact h.setSeg hsg rfl rfl
      · cases hs
        exact h.setSeg hsg rfl rfl
  | detach id =>
    rw [step] at hs
    split at hs
    · cases hs
    next sg hsg =>
      split at hs
      · dsimp only at hs
        have hseg : Links (s.setSeg id { sg with nattch := sg.nattch - 1 }) :=
          h.setSeg hsg rfl rfl
        split at hs
        · cases hs
          exact hseg.same rfl rfl rfl rfl
        · cases hs
          exact hseg
      · cases hs
  | rmid id =>
    rw [step] at hs
    split at hs
    · cases hs
    next sg hsg =>
      split at hs
      · split at hs
        · cases hs
          exact h.setSeg hsg rfl rfl
        · cases hs
          exact h.same rfl rfl rfl rfl
      · cases hs
  | exit t =>
    rw [step] at hs
    split at hs
    · cases hs
      exact h.setExit (fun _ _ _ hpc => by cases hpc) (fun _ _ hpc => by cases hpc)
        (fun hpc => by cases hpc)
    · cases hs
  | exitTest t =>
    rw [step] at hs
    split at hs
    · split at hs
      next hnil =>
        cases hs
        exact h.setExit (fun _ _ _ hpc => by cases hpc) (fun _ _ hpc => by cases hpc)
          fun _ => hnil
      next id rest hcons =>
        obtain ⟨sg, hsg, rfl⟩ := Option.map_eq_some_iff.1 hs
        refine h.setExit (fun i n b hpc => ?_) (fun _ _ hpc => by cases hpc)
          (fun hpc => by cases hpc)
        obtain ⟨rfl, rfl, -⟩ := ExitPc.tested.inj hpc
        exact ⟨by rw [hcons]; exact List.mem_cons_self, sg, hsg, rfl⟩
    · cases hs
  | exitUnlink t =>
    rw [step] at hs
    split at hs
    next id n b ht =>
      cases hs
      exact h.exitUnlink ht
    · cases hs
  | exitLock t =>
    have hloop : ∀ s₁ : St, Links s₁ → Links (s₁.setExit t .looping) := fun s₁ h₁ =>
      h₁.setExit (fun _ _ _ hpc => by cases hpc) (fun _ _ hpc => by cases hpc)
        (fun hpc => by cases hpc)
    rw [step] at hs
    split at hs
    next id n ht =>
      split at hs
      · split at hs
        · cases hs
          exact hloop s h
        next sg hsg =>
          split at hs
          · cases hs
            have hnot := ((h.unlinked t id n ht).2 sg hsg).2
            exact hloop _ (h.shmDestroy hsg fun hl => absurd (linked_iff.1 hl) hnot)
          · cases hs
            exact hloop s h
      · cases hs
    · cases hs
  | store w n value =>
    rw [step] at hs
    split at hs
    · cases hs
      exact h.same rfl rfl rfl rfl
    · cases hs
  | writeTest w =>
    rw [step] at hs
    split at hs
    · cases hs
      exact h.same rfl rfl rfl rfl
    · cases hs
  | sweepStart w =>
    rw [step] at hs
    split at hs
    · split at hs
      · cases hs
        exact h.same rfl rfl rfl rfl
      · cases hs
    · cases hs
  | visit n =>
    rw [step] at hs
    split at hs
    · cases hs
      exact h.same rfl rfl rfl rfl
    · split at hs
      · cases hs
        exact h.same rfl rfl rfl rfl
      · split at hs <;> cases hs <;> exact h.same rfl rfl rfl rfl
    · cases hs
  | destroy n =>
    rw [step] at hs
    split at hs
    · split at hs
      · cases hs
      next sg hsg =>
        split at hs
        · cases hs
        next hlock =>
          cases hs
          have hd := h.shmDestroy hsg fun hl => by
            rw [hl, Bool.true_and] at hlock
            exact Bool.eq_false_iff.2 hlock
          exact hd.same rfl rfl rfl rfl
    · cases hs

theorem init_links : Links St.init where
  owned _ _ h := by cases h
  nodup _ := List.nodup_nil
  fresh _ _ h := by cases h
  tested _ _ _ _ h := by cases h
  unlinked _ _ _ h := by cases h
  done _ _ := rfl

end DroidLkm.Shm
