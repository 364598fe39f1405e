/-
  SysV shared memory — no segment without a creator is forgotten.

  * `Safe`: what a writer of an `rwsem` is about, and who sees to the segments
    without attachment and creator; kept by the steps that `Timely` allows;
  * `orphans_tended`: every state of a run of such steps is as asked;
  * `orphans_left`: a run after which a segment is forgotten.
-/
import DroidLkm.Shm.Clists

namespace DroidLkm.Shm

open Machine St

variable {s s' s₁ : St} {act : Act} {t w n m id id' : ℕ} {sg sg' : Seg} {pc : ExitPc} {x : Sem}

/-- The steps that do not cut in: `shm_rmid_forced` is not set between the test of an
    `exit_shm` and its unlinking, and a segment is not attached between the test of a sweep
    and its destruction. -/
def Timely (s : St) : Act → Prop
  | .store _ n (some true) =>
    s.forced n = true ∨ ∀ t id b, s.exit t ≠ .tested id n b
  | .attach id => ∀ sg, s.seg id = some sg → ∀ rest, s.sem sg.ns ≠ .doom id (some rest)
  | _ => True

/-- What a segment without attachment and creator in a namespace where
    `shm_rmid_forced` is set. -/
structure Orphan (s : St) (id : ℕ) (sg : Seg) : Prop where
  seg : s.seg id = some sg
  nattch : sg.nattch = 0
  linked : s.linked id sg = false
  forced : s.forced sg.ns = true

structure Safe (s : St) : Prop where
  unforced : ∀ t id n, s.exit t = .tested id n false → s.forced n = false
  doomed : ∀ n id rest, s.sem n = .doom id rest → ∃ sg, s.seg id = some sg ∧ sg.ns = n ∧
    sg.nattch = 0 ∧ (rest.isSome → s.linked id sg = false)
  dest : ∀ id sg, s.seg id = some sg → sg.dest = true →
    sg.nattch ≠ 0 ∨ ∃ rest, s.sem sg.ns = .doom id rest
  kept : ∀ id sg, Orphan s id sg → InHand s id sg.ns

/-- Somebody else may be about the segment than who was. -/
theorem InHand.mono (h : InHand s id n)
    (hexit : ∀ t, s.exit t = .unlinked id n → InHand s' id n)
    (hwrite : ∀ w, s.write w = .stored n ∨ s.write w = .wants n → InHand s' id n)
    (hsem : (s.sem n).Covers id → InHand s' id n) : InHand s' id n := by
  rcases h with ⟨t, ht⟩ | ⟨w, hw⟩ | hs
  · exact hexit t ht
  · exact hwrite w hw
  · exact hsem hs

theorem inHand_exit (h : s.exit t = .unlinked id n) : InHand s id n := .inl ⟨t, h⟩

theorem inHand_write (h : s.write w = .stored n ∨ s.write w = .wants n) : InHand s id n :=
  .inr (.inl ⟨w, h⟩)

theorem inHand_sem (h : (s.sem n).Covers id) : InHand s id n := .inr (.inr h)

/-! ## A segment changes -/

theorem Safe.setSeg (h : Safe s) (hsg : s.seg id = some sg) (hsem : ∀ rest, s.sem sg.ns ≠ .doom id rest)
    (hdest : sg'.dest = true → sg'.nattch ≠ 0)
    (hkept : ¬Orphan (s.setSeg id sg') id sg') : Safe (s.setSeg id sg') := by
  refine ⟨h.unforced, fun m i rest hm => ?_, fun i y hy hd => ?_, fun i y hy => ?_⟩
  · obtain ⟨y, hy, rfl, hz, hl⟩ := h.doomed m i rest hm
    have hi : i ≠ id := by
      rintro rfl
      obtain rfl := Option.some.inj (hsg.symm.trans hy)
      exact hsem rest hm
    exact ⟨y, by rw [setSeg_seg, if_neg hi]; exact hy, rfl, hz, hl⟩
  · rw [setSeg_seg] at hy
    split at hy
    · obtain rfl := Option.some.inj hy
      exact .inl (hdest hd)
    · exact h.dest i y hy hd
  · have hseg := hy.seg
    rw [setSeg_seg] at hseg
    split at hseg
    next hi =>
      obtain rfl := Option.some.inj hseg
      subst hi
      exact absurd hy hkept
    · exact h.kept i y ⟨hseg, hy.nattch, hy.linked, hy.forced⟩

/-- The writer of an `rwsem` finds a segment that is to go. -/
theorem Safe.doom (h : Safe s) (hsg : s.seg id = some sg) (hn : sg'.ns = sg.ns)
    (hsem : s.sem sg.ns = .free) (hz : sg'.nattch = 0) :
    Safe ((s.setSeg id sg').setSem sg.ns (.doom id none)) := by
  have hcover : ∀ i (y : Seg), y.ns = sg.ns → (s.sem y.ns).Covers i → False := by
    intro i y hy hcov
    rw [hy, hsem] at hcov
    exact hcov
  refine ⟨h.unforced, fun m i rest hm => ?_, fun i y hy hd => ?_, fun i y hy => ?_⟩
  · rw [setSem_sem] at hm
    split at hm
    next hmn =>
      obtain ⟨rfl, rfl⟩ := Sem.doom.inj hm
      refine ⟨sg', ?_, hn.trans hmn.symm, hz, fun hl => by cases hl⟩
      show (s.setSeg id sg').seg id = some sg'
      rw [setSeg_seg, if_pos rfl]
    next hmn =>
      have hm : s.sem m = .doom i rest := hm
      obtain ⟨y, hy, rfl, hyz, hl⟩ := h.doomed m i rest hm
      have hi : i ≠ id := by
        rintro rfl
        obtain rfl := Option.some.inj (hsg.symm.trans hy)
        exact hmn rfl
      refine ⟨y, ?_, rfl, hyz, hl⟩
      show (s.setSeg id sg').seg i = some y
      rw [setSeg_seg, if_neg hi]
      exact hy
  · have hy' : (s.setSeg id sg').seg i = some y := hy
    rw [setSeg_seg] at hy'
    rw [setSem_sem]
    split at hy'
    next hi =>
      obtain rfl := Option.some.inj hy'
      subst hi
      exact .inr ⟨none, if_pos hn⟩
    · rcases h.dest i y hy' hd with hd | ⟨rest, hd⟩
      · exact .inl hd
      · refine .inr ⟨rest, ?_⟩
        rw [if_neg]
        · exact hd
        · intro hyn
          rw [hyn, hsem] at hd
          cases hd
  · have hy' : (s.setSeg id sg').seg i = some y := hy.seg
    rw [setSeg_seg] at hy'
    split at hy'
    next hi =>
      obtain rfl := Option.some.inj hy'
      subst hi
      refine inHand_sem ?_
      rw [setSem_sem, if_pos hn]
      exact .inl rfl
    · refine (h.kept i y ⟨hy', hy.nattch, hy.linked, hy.forced⟩).mono
        (fun t ht => inHand_exit ht) (fun w hw => inHand_write hw) fun hcov => ?_
      refine inHand_sem ?_
      rw [setSem_sem]
      split
      next hyn => exact absurd hcov (hcover i y hyn)
      · exact hcov

/-- A segment goes, and its `rwsem` has another writer or none. -/
theorem Safe.shmDestroy (h : Safe s) (hL : Links s) (hsg : s.seg id = some sg)
    (hx : ∀ i rest, x ≠ .doom i rest)
    (hcov : ∀ i, i ≠ id → (s.sem sg.ns).Covers i → x.Covers i)
    (hdoom : ∀ i rest, s.sem sg.ns = .doom i rest → i = id) :
    Safe ((s.shmDestroy id sg).setSem sg.ns x) := by
  have hlink : ∀ i y, s.linked i y = false → (s.shmDestroy id sg).linked i y = false := by
    intro i y hy
    rw [linked_false, mem_clist_destroy hL hsg]
    exact fun hin => linked_false.1 hy hin.1
  have hlink' : ∀ i y, i ≠ id → (s.shmDestroy id sg).linked i y = false →
      s.linked i y = false := by
    intro i y hne hy
    rw [linked_false, mem_clist_destroy hL hsg] at hy
    rw [linked_false]
    exact fun hin => hy ⟨hin, hne⟩
  have hseg : ∀ i y, (s.shmDestroy id sg).seg i = some y → i ≠ id ∧ s.seg i = some y := by
    intro i y hy
    rw [seg_destroy] at hy
    split at hy
    · cases hy
    next hi => exact ⟨hi, hy⟩
  refine ⟨h.unforced, fun m i rest hm => ?_, fun i y hy hd => ?_, fun i y hy => ?_⟩
  · rw [setSem_sem] at hm
    split at hm
    · exact absurd hm (hx i rest)
    next hmn =>
      have hm : s.sem m = .doom i rest := hm
      obtain ⟨y, hy, rfl, hz, hl⟩ := h.doomed m i rest hm
      have hi : i ≠ id := by
        rintro rfl
        obtain rfl := Option.some.inj (hsg.symm.trans hy)
        exact hmn rfl
      refine ⟨y, ?_, rfl, hz, fun hlf => hlink i y (hl hlf)⟩
      show (s.shmDestroy id sg).seg i = some y
      rw [seg_destroy, if_neg hi]
      exact hy
  · obtain ⟨hi, hy⟩ := hseg i y hy
    rcases h.dest i y hy hd with hd | ⟨rest, hd⟩
    · exact .inl hd
    · refine .inr ⟨rest, ?_⟩
      rw [setSem_sem, if_neg]
      · exact hd
      · intro hyn
        rw [hyn] at hd
        exact hi (hdoom i rest hd)
  · obtain ⟨hi, hyseg⟩ := hseg i y hy.seg
    refine (h.kept i y ⟨hyseg, hy.nattch, hlink' i y hi hy.linked, hy.forced⟩).mono
      (fun t ht => inHand_exit ht) (fun w hw => inHand_write hw) fun hc => ?_
    refine inHand_sem ?_
    rw [setSem_sem]
    split
    next hyn => exact hcov i hi (hyn ▸ hc)
    · exact hc

/-! ## The place of an `exit_shm` changes -/

theorem Safe.setExit (h : Safe s)
    (htested : ∀ id n, pc = .tested id n false → s.forced n = false)
    (hleft : ∀ id sg, s.exit t = .unlinked id sg.ns → ¬Orphan s id sg) :
    Safe (s.setExit t pc) := by
  refine ⟨fun u i n hu => ?_, h.doomed, h.dest, fun i y hy => ?_⟩
  · rw [setExit_exit] at hu
    split at hu
    · exact htested i n hu
    · exact h.unforced u i n hu
  · have hy' : Orphan s i y := ⟨hy.seg, hy.nattch, hy.linked, hy.forced⟩
    refine (h.kept i y hy').mono (fun u hu => ?_) (fun w hw => inHand_write hw)
      fun hc => inHand_sem hc
    refine inHand_exit (t := u) ?_
    rw [setExit_exit, if_neg]
    · exact hu
    · rintro rfl
      exact hleft i y hu hy'

/-- `exit_shm` takes a segment off its list. -/
theorem Safe.exitUnlink {b : Bool} (h : Safe s) (hL : Links s) (ht : s.exit t = .tested id n b) :
    Safe ({ s with clist := Function.update s.clist t ((s.clist t).erase id) }.setExit t
      (if b then .unlinked id n else .looping)) := by
  obtain ⟨-, sg, hsg, hn⟩ := hL.tested t id n b ht
  have hc : ∀ u i, i ∈ (Function.update s.clist t ((s.clist t).erase id)) u →
      i ∈ s.clist u := by
    intro u i hi
    rw [Function.update_apply] at hi
    split at hi
    next hu => exact hu ▸ List.mem_of_mem_erase hi
    · exact hi
  have hc' : ∀ u i, i ≠ id → i ∈ s.clist u →
      i ∈ (Function.update s.clist t ((s.clist t).erase id)) u := by
    intro u i hi hin
    rw [Function.update_apply]
    split
    next hu => exact (List.mem_erase_of_ne hi).2 (hu ▸ hin)
    · exact hin
  refine ⟨fun u i m hu => ?_, fun m i rest hm => ?_, h.dest, fun i y hy => ?_⟩
  · rw [setExit_exit] at hu
    split at hu
    · split at hu <;> cases hu
    · exact h.unforced u i m hu
  · obtain ⟨y, hy, hym, hz, hl⟩ := h.doomed m i rest hm
    refine ⟨y, hy, hym, hz, fun hlf => ?_⟩
    rw [linked_false]
    exact fun hin => linked_false.1 (hl hlf) (hc _ _ hin)
  · by_cases hi : i = id
    · subst hi
      obtain rfl := Option.some.inj (hsg.symm.trans hy.seg)
      cases b with
      | true =>
        refine inHand_exit (t := t) ?_
        rw [setExit_exit, if_pos rfl, if_pos rfl, hn]
      | false =>
        have hf : s.forced sg.ns = true := hy.forced
        rw [hn, h.unforced t i n ht] at hf
        cases hf
    · have hlinked : s.linked i y = false := by
        rw [linked_false]
        exact fun hin => linked_false.1 hy.linked (hc' _ _ hi hin)
      refine (h.kept i y ⟨hy.seg, hy.nattch, hlinked, hy.forced⟩).mono (fun u hu => ?_)
        (fun w hw => inHand_write hw) fun hc => inHand_sem hc
      refine inHand_exit (t := u) ?_
      rw [setExit_exit, if_neg]
      · exact hu
      · rintro rfl
        rw [ht] at hu
        cases hu

theorem Safe.shmget (h : Safe s) (hL : Links s) :
    Safe { s with
      seg := Function.update s.seg s.next (some ⟨n, 0, false, t⟩)
      next := s.next + 1
      clist := Function.update s.clist t (s.next :: s.clist t) } := by
  have hold : ∀ i x, s.seg i = some x →
      (Function.update s.seg s.next (some ⟨n, 0, false, t⟩)) i = some x := by
    intro i x hx
    rw [Function.update_of_ne (Nat.ne_of_lt (hL.fresh i x hx))]
    exact hx
  have hnew : ∀ i x, (Function.update s.seg s.next (some ⟨n, 0, false, t⟩)) i = some x →
      (i = s.next ∧ x = ⟨n, 0, false, t⟩) ∨ i ≠ s.next ∧ s.seg i = some x := by
    intro i x hx
    rw [Function.update_apply] at hx
    split at hx
    next hi => exact .inl ⟨hi, (Option.some.inj hx).symm⟩
    next hi => exact .inr ⟨hi, hx⟩
  have hmem : ∀ u i, i ≠ s.next →
      (i ∈ (Function.update s.clist t (s.next :: s.clist t)) u ↔ i ∈ s.clist u) := by
    intro u i hi
    rw [Function.update_apply]
    split
    next hu => rw [hu, List.mem_cons, or_iff_right hi]
    · rfl
  refine ⟨h.unforced, fun m i rest hm => ?_, fun i y hy hd => ?_, fun i y hy => ?_⟩
  · obtain ⟨y, hy, hym, hz, hl⟩ := h.doomed m i rest hm
    refine ⟨y, hold i y hy, hym, hz, fun hlf => ?_⟩
    rw [linked_false]
    exact fun hin =>
      linked_false.1 (hl hlf) ((hmem _ _ (Nat.ne_of_lt (hL.fresh i y hy))).1 hin)
  · rcases hnew i y hy with ⟨-, rfl⟩ | ⟨-, hy⟩
    · cases hd
    · exact h.dest i y hy hd
  · have hlinked := linked_false.1 hy.linked
    rcases hnew i y hy.seg with ⟨rfl, rfl⟩ | ⟨hi, hys⟩
    · refine absurd ?_ hlinked
      show s.next ∈ (Function.update s.clist t (s.next :: s.clist t)) t
      rw [Function.update_self]
      exact List.mem_cons_self
    · refine h.kept i y ⟨hys, hy.nattch, ?_, hy.forced⟩
      rw [linked_false]
      exact fun hin => hlinked ((hmem _ _ hi).2 hin)

/-! ## A write of `shm_rmid_forced` -/

theorem Safe.store {value : Option Bool} (h : Safe s) (hidle : s.write w = .idle)
    (ht : value = some true → s.forced n = true ∨ ∀ t id b, s.exit t ≠ .tested id n b) :
    Safe ({ s with forced := Function.update s.forced n (value.getD (s.forced n)) }.setWrite w
      (.stored n)) := by
  have hf : ∀ m, m ≠ n →
      (Function.update s.forced n (value.getD (s.forced n))) m = s.forced m :=
    fun m hm => Function.update_of_ne hm ..
  refine ⟨fun u i m hu => ?_, h.doomed, h.dest, fun i y hy => ?_⟩
  · have hm := h.unforced u i m hu
    show (Function.update s.forced n (value.getD (s.forced n))) m = false
    by_cases hmn : m = n
    · subst hmn
      rw [Function.update_self]
      cases value with
      | none => exact hm
      | some b =>
        cases b with
        | false => rfl
        | true =>
          rcases ht rfl with hset | hnone
          · rw [hm] at hset
            cases hset
          · exact absurd hu (hnone u i false)
    · rw [hf m hmn]
      exact hm
  · by_cases hyn : y.ns = n
    · refine inHand_write (w := w) (.inl ?_)
      rw [setWrite_write, if_pos rfl, hyn]
    · have hforced : s.forced y.ns = true := by rw [← hf _ hyn]; exact hy.forced
      refine (h.kept i y ⟨hy.seg, hy.nattch, hy.linked, hforced⟩).mono
        (fun u hu => inHand_exit hu) (fun v hv => ?_) fun hc => inHand_sem hc
      refine inHand_write (w := v) ?_
      rw [setWrite_write, if_neg]
      · exact hv
      · rintro rfl
        rw [hidle] at hv
        rcases hv with hv | hv <;> cases hv

theorem Safe.writeTest (h : Safe s) (hw : s.write w = .stored n) :
    Safe (s.setWrite w (if s.forced n then .wants n else .idle)) := by
  refine ⟨h.unforced, h.doomed, h.dest, fun i y hy => ?_⟩
  refine (h.kept i y ⟨hy.seg, hy.nattch, hy.linked, hy.forced⟩).mono
    (fun u hu => inHand_exit hu) (fun v hv => ?_) fun hc => inHand_sem hc
  refine inHand_write (w := v) ?_
  rw [setWrite_write]
  split
  next hvw =>
    subst hvw
    rw [hw] at hv
    have hyn : n = y.ns := by
      rcases hv with hv | hv
      · exact WritePc.stored.inj hv
      · cases hv
    have hf : s.forced y.ns = true := hy.forced
    rw [hyn, if_pos hf]
    exact .inr rfl
  · exact hv

theorem mem_idsOf (hL : Links s) (hsg : s.seg id = some sg) : id ∈ s.idsOf sg.ns := by
  rw [idsOf, List.mem_filter]
  exact ⟨List.mem_range.2 (hL.fresh id sg hsg), by simp [segOf, hsg]⟩

theorem Safe.sweepStart (h : Safe s) (hL : Links s) (hw : s.write w = .wants n)
    (hsem : s.sem n = .free) : Safe ((s.setSem n (.sweep (s.idsOf n))).setWrite w .idle) := by
  have hsem' : ∀ m, (s.setSem n (.sweep (s.idsOf n))).sem m = if m = n then
      .sweep (s.idsOf n) else s.sem m := fun m => setSem_sem s n m _
  refine ⟨h.unforced, fun m i rest hm => ?_, fun i y hy hd => ?_, fun i y hy => ?_⟩
  · have hm : (s.setSem n (.sweep (s.idsOf n))).sem m = .doom i rest := hm
    rw [hsem'] at hm
    split at hm
    · cases hm
    · exact h.doomed m i rest hm
  · rcases h.dest i y hy hd with hd | ⟨rest, hd⟩
    · exact .inl hd
    · refine .inr ⟨rest, ?_⟩
      show (s.setSem n (.sweep (s.idsOf n))).sem y.ns = _
      rw [hsem', if_neg]
      · exact hd
      · intro hyn
        rw [hyn, hsem] at hd
        cases hd
  · have hy' : Orphan s i y := ⟨hy.seg, hy.nattch, hy.linked, hy.forced⟩
    by_cases hyn : y.ns = n
    · refine inHand_sem ?_
      show ((s.setSem n (.sweep (s.idsOf n))).sem y.ns).Covers i
      rw [hsem', if_pos hyn, ← hyn]
      exact mem_idsOf hL hy.seg
    · refine (h.kept i y hy').mono (fun u hu => inHand_exit hu) (fun v hv => ?_) fun hc => ?_
      · refine inHand_write (w := v) ?_
        rw [setWrite_write, if_neg]
        · exact hv
        · rintro rfl
          rw [hw] at hv
          rcases hv with hv | hv
          · cases hv
          · exact hyn (WritePc.wants.inj hv).symm
      · refine inHand_sem ?_
        show ((s.setSem n (.sweep (s.idsOf n))).sem y.ns).Covers i
        rw [hsem', if_neg hyn]
        exact hc

/-- A sweep goes on: what it leaves behind is no orphan. -/
theorem Safe.visit (h : Safe s) (hold : ∀ i rest, s.sem n ≠ .doom i rest)
    (hdoom : ∀ i rest, x = .doom i rest → ∃ sg, s.seg i = some sg ∧ sg.ns = n ∧
      sg.nattch = 0 ∧ (rest.isSome → s.linked i sg = false))
    (hcov : ∀ i sg, sg.ns = n → Orphan s i sg → (s.sem n).Covers i → x.Covers i) :
    Safe (s.setSem n x) := by
  refine ⟨h.unforced, fun m i rest hm => ?_, fun i y hy hd => ?_, fun i y hy => ?_⟩
  · rw [setSem_sem] at hm
    split at hm
    next hmn => exact hmn ▸ hdoom i rest hm
    · exact h.doomed m i rest hm
  · rcases h.dest i y hy hd with hd | ⟨rest, hd⟩
    · exact .inl hd
    · refine .inr ⟨rest, ?_⟩
      rw [setSem_sem, if_neg]
      · exact hd
      · rintro hyn
        rw [hyn] at hd
        exact hold i rest hd
  · have hy' : Orphan s i y := ⟨hy.seg, hy.nattch, hy.linked, hy.forced⟩
    refine (h.kept i y hy').mono (fun u hu => inHand_exit hu) (fun v hv => inHand_write hv)
      fun hc => ?_
    refine inHand_sem ?_
    rw [setSem_sem]
    split
    next hyn => exact hcov i y hyn hy' (hyn ▸ hc)
    · exact hc

/-! ## A step -/

theorem mayDestroy_iff : s.shmMayDestroy sg = true ↔
    sg.nattch = 0 ∧ (s.forced sg.ns = true ∨ sg.dest = true) := by
  simp [shmMayDestroy]

theorem step_safe (h : Safe s) (hL : Links s) (ht : Timely s act) (hs : step s act = some s') :
    Safe s' := by
  cases act with
  | shmget t n =>
    rw [step] at hs
    split at hs
    · cases hs
      exact h.shmget hL
    · cases hs
  | attach id =>
    have hsem : ∀ sg, s.seg id = some sg → s.sem sg.ns ≠ .doom id none →
        Safe (s.setSeg id { sg with nattch := sg.nattch + 1 }) := by
      intro sg hsg hfree
      refine h.setSeg hsg (fun rest => ?_) (fun _ => Nat.succ_ne_zero _)
        fun ho => Nat.succ_ne_zero _ ho.nattch
      cases rest with
      | none => exact hfree
      | some rest => exact ht sg hsg rest
    rw [step] at hs
    split at hs
    · cases hs
    next sg hsg =>
      split at hs
      next id' hd =>
        split at hs
        · cases hs
        next hne =>
          cases hs
          refine hsem sg hsg fun hd' => hne ?_
          rw [hd] at hd'
          exact (Sem.doom.inj hd').1
      next hnot =>
        cases hs
        exact hsem sg hsg fun hd' => hnot id hd'
  | detach id =>
    rw [step] at hs
    split at hs
    · cases hs
    next sg hsg =>
      split at hs
      next hfree =>
        dsimp only at hs
        split at hs
        next hmay =>
          cases hs
          exact h.doom hsg rfl hfree.1 (mayDestroy_iff.1 hmay).1
        next hmay =>
          cases hs
          refine h.setSeg hsg (fun rest hd => ?_) (fun hd hz => ?_) fun ho => ?_
          · rw [hfree.1] at hd
            cases hd
          · exact hmay (mayDestroy_iff.2 ⟨hz, .inr hd⟩)
          · exact hmay (mayDestroy_iff.2 ⟨ho.nattch, .inl ho.forced⟩)
      · cases hs
  | rmid id =>
    rw [step] at hs
    split at hs
    · cases hs
    next sg hsg =>
      split at hs
      next hfree =>
        split at hs
        next hn =>
          cases hs
          refine h.setSeg hsg (fun rest hd => ?_) (fun _ => hn) fun ho => hn ho.nattch
          rw [hfree] at hd
          cases hd
        next hn =>
          cases hs
          have hself : s.setSeg id sg = s := by
            unfold St.setSeg
            rw [← hsg, Function.update_eq_self]
          have hdoom := h.doom hsg rfl hfree (not_not.1 hn)
          rwa [hself] at hdoom
      · cases hs
  | exit t =>
    rw [step] at hs
    split at hs
    next hidle =>
      cases hs
      refine h.setExit (fun _ _ hpc => by cases hpc) fun i y hu => ?_
      rw [hidle] at hu
      cases hu
    · cases hs
  | exitTest t =>
    rw [step] at hs
    split at hs
    next hloop =>
      have hleft : ∀ (i : ℕ) (y : Seg), s.exit t = .unlinked i y.ns → ¬Orphan s i y := by
        intro i y hu
        rw [hloop] at hu
        cases hu
      split at hs
      · cases hs
        exact h.setExit (fun _ _ hpc => by cases hpc) hleft
      · obtain ⟨sg, -, rfl⟩ := Option.map_eq_some_iff.1 hs
        refine h.setExit (fun i n hpc => ?_) hleft
        obtain ⟨-, rfl, hf⟩ := ExitPc.tested.inj hpc
        exact hf
    · cases hs
  | exitUnlink t =>
    rw [step] at hs
    split at hs
    next id n b hu =>
      cases hs
      exact h.exitUnlink hL hu
    · cases hs
  | exitLock t =>
    rw [step] at hs
    split at hs
    next id n hu =>
      split at hs
      next hfree =>
        -- what the segment was is known from the list
        have hself : ∀ i (y : Seg), s.exit t = .unlinked i y.ns → i = id ∧ y.ns = n := by
          intro i y hu'
          rw [hu] at hu'
          obtain ⟨hi, hn⟩ := ExitPc.unlinked.inj hu'
          exact ⟨hi.symm, hn.symm⟩
        split at hs
        next hnone =>
          cases hs
          refine h.setExit (fun _ _ hpc => by cases hpc) fun i y hu' ho => ?_
          obtain ⟨rfl, -⟩ := hself i y hu'
          have hseg := ho.seg
          rw [hnone] at hseg
          cases hseg
        next sg hsg =>
          have hn := ((hL.unlinked t id n hu).2 sg hsg).1
          split at hs
          next hmay =>
            cases hs
            rw [← hn] at hfree
            have hd := h.shmDestroy (x := .free) hL hsg (fun _ _ hx => by cases hx)
              (fun i _ hc => by rw [hfree] at hc; exact hc)
              fun i rest hd => by rw [hfree] at hd; cases hd
            have hsem : (s.shmDestroy id sg).setSem sg.ns .free = s.shmDestroy id sg := by
              unfold setSem
              rw [← hfree]
              show { s.shmDestroy id sg with
                sem := Function.update (s.shmDestroy id sg).sem sg.ns (s.sem sg.ns) } = _
              rw [show s.sem sg.ns = (s.shmDestroy id sg).sem sg.ns from rfl,
                Function.update_eq_self]
            rw [hsem] at hd
            refine hd.setExit (fun _ _ hpc => by cases hpc) fun i y hu' ho => ?_
            obtain ⟨rfl, -⟩ := hself i y hu'
            have hseg := ho.seg
            rw [seg_destroy, if_pos rfl] at hseg
            cases hseg
          next hmay =>
            cases hs
            refine h.setExit (fun _ _ hpc => by cases hpc) fun i y hu' ho => ?_
            obtain ⟨rfl, -⟩ := hself i y hu'
            obtain rfl := Option.some.inj (hsg.symm.trans ho.seg)
            exact hmay (mayDestroy_iff.2 ⟨ho.nattch, .inl ho.forced⟩)
      · cases hs
    · cases hs
  | store w n value =>
    rw [step] at hs
    split at hs
    next hidle =>
      cases hs
      refine h.store hidle fun hv => ?_
      subst hv
      exact ht
    · cases hs
  | writeTest w =>
    rw [step] at hs
    split at hs
    next n hw =>
      cases hs
      exact h.writeTest hw
    · cases hs
  | sweepStart w =>
    rw [step] at hs
    split at hs
    next n hw =>
      split at hs
      next hsem =>
        cases hs
        exact h.sweepStart hL hw hsem
      · cases hs
    · cases hs
  | visit n =>
    rw [step] at hs
    split at hs
    next hsem =>
      cases hs
      refine h.visit (fun i rest hd => ?_) (fun _ _ hx => by cases hx) fun i y _ _ hc => ?_
      · rw [hsem] at hd
        cases hd
      · rw [hsem] at hc
        cases hc
    next id rest hsem =>
      have hold : ∀ i r, s.sem n ≠ .doom i r := by
        intro i r hd
        rw [hsem] at hd
        cases hd
      have hnext : (∀ (y : Seg), y.ns = n → ¬Orphan s id y) →
          ∀ i (y : Seg), y.ns = n → Orphan s i y → (s.sem n).Covers i →
            (Sem.sweep rest).Covers i := by
        intro hno i y hy ho hc
        rw [hsem] at hc
        rcases List.mem_cons.1 hc with rfl | hc
        · exact absurd ho (hno y hy)
        · exact hc
      split at hs
      next hnone =>
        cases hs
        refine h.visit hold (fun _ _ hx => by cases hx) (hnext fun y hy ho => ?_)
        rw [segOf, ho.seg] at hnone
        simp [hy] at hnone
      next sg hsg =>
        obtain ⟨hsg, hn⟩ : s.seg id = some sg ∧ sg.ns = n := by
          simpa [segOf, Option.filter_eq_some_iff] using hsg
        split at hs
        next hgo =>
          cases hs
          rw [Bool.and_eq_true, Bool.not_eq_true'] at hgo
          obtain ⟨hz, -⟩ := mayDestroy_iff.1 hgo.2
          refine h.visit hold (fun i r hx => ?_) fun i y hy ho hc => ?_
          · obtain ⟨rfl, rfl⟩ := Sem.doom.inj hx
            exact ⟨sg, hsg, hn, hz, fun _ => hgo.1⟩
          · rw [hsem] at hc
            exact (List.mem_cons.1 hc).imp Eq.symm fun hr => ⟨rest, rfl, hr⟩
        next hgo =>
          cases hs
          refine h.visit hold (fun _ _ hx => by cases hx) (hnext fun y _ ho => hgo ?_)
          obtain rfl := Option.some.inj (hsg.symm.trans ho.seg)
          rw [ho.linked, mayDestroy_iff.2 ⟨ho.nattch, .inl ho.forced⟩]
          rfl
    · cases hs
  | destroy n =>
    rw [step] at hs
    split at hs
    next id rest hsem =>
      split at hs
      · cases hs
      next sg hsg =>
        split at hs
        · cases hs
        · cases hs
          obtain ⟨sg', hsg', hn, -, -⟩ := h.doomed n id rest hsem
          obtain rfl := Option.some.inj (hsg.symm.trans hsg')
          rw [← hn] at hsem ⊢
          refine h.shmDestroy hL hsg (fun i r hx => ?_) (fun i hi hc => ?_) fun i r hd => ?_
          · cases rest <;> cases hx
          · rw [hsem] at hc
            obtain ⟨r, rfl, hr⟩ := hc.resolve_left fun he => hi he.symm
            exact hr
          · rw [hsem] at hd
            exact (Sem.doom.inj hd).1.symm
    · cases hs

theorem init_safe : Safe St.init where
  unforced _ _ _ h := by cases h
  doomed _ _ _ h := by cases h
  dest _ _ h := by cases h
  kept _ _ h := by cases h.seg

theorem run_safe (h : RunIf step Timely St.init s) : Links s ∧ Safe s := by
  refine RunIf.inv (I := fun s => Links s ∧ Safe s) h ⟨init_links, init_safe⟩ ?_
  rintro s act s' ⟨hL, hS⟩ ht hs
  exact ⟨step_links hL hs, step_safe hS hL ht hs⟩

/-! ## An `exit_shm` ends -/

theorem fuel_le (hexit : s'.exit t = s.exit t)
    (hlen : (s'.clist t).length ≤ (s.clist t).length) : exitFuel s' t ≤ exitFuel s t := by
  unfold exitFuel
  rw [hexit]
  cases s.exit t <;> dsimp only <;> omega

theorem length_clist_destroy (s : St) (id : ℕ) (sg : Seg) (t : ℕ) :
    ((s.shmDestroy id sg).clist t).length ≤ (s.clist t).length := by
  unfold St.shmDestroy
  dsimp only
  rw [Function.update_apply]
  split
  next ht => exact ht ▸ List.length_erase_le
  · exact Nat.le_refl _

theorem clist_unlink (s : St) (t u id : ℕ) (pc : ExitPc) :
    ({ s with clist := Function.update s.clist t ((s.clist t).erase id) }.setExit t pc).clist u =
      if u = t then (s.clist t).erase id else s.clist u := Function.update_apply ..

/-- A step of the `exit_shm` of `t` brings its end nearer. -/
theorem exitStep_shrinks (hL : Links s) (ha : act.ofExit t) (hs : step s act = some s') :
    exitFuel s' t < exitFuel s t ∧
      ∀ u, u ≠ t → s'.exit u = s.exit u ∧ (s'.clist u).length ≤ (s.clist u).length := by
  rcases ha with rfl | rfl | rfl
  · rw [step] at hs
    split at hs
    next hloop =>
      have hother : ∀ pc u, u ≠ t → (s.setExit t pc).exit u = s.exit u ∧
          ((s.setExit t pc).clist u).length ≤ (s.clist u).length := fun pc u hu =>
        ⟨by rw [setExit_exit, if_neg hu], Nat.le_refl _⟩
      split at hs
      · cases hs
        refine ⟨?_, hother _⟩
        simp [exitFuel, setExit_exit, hloop]
      · obtain ⟨sg, -, rfl⟩ := Option.map_eq_some_iff.1 hs
        refine ⟨?_, hother _⟩
        simp only [exitFuel, setExit_exit, hloop, if_pos]
        exact Nat.lt_succ_self _
    · cases hs
  · rw [step] at hs
    split at hs
    next id n b ht =>
      cases hs
      obtain ⟨hid, -⟩ := hL.tested t id n b ht
      refine ⟨?_, fun u hu => ⟨by rw [setExit_exit, if_neg hu], ?_⟩⟩
      · have hlen : ((s.clist t).erase id).length + 1 = (s.clist t).length :=
          List.length_erase_add_one hid
        unfold exitFuel
        rw [clist_unlink, if_pos rfl, setExit_exit, if_pos rfl, ht]
        cases b with
        | false =>
          show 3 * _ + 1 < 3 * _
          omega
        | true =>
          show 3 * _ + 2 < 3 * _
          omega
      · exact Nat.le_of_eq (by rw [clist_unlink, if_neg hu])
    · cases hs
  · have hback : ∀ s₁ : St, (∀ u, (s₁.clist u).length ≤ (s.clist u).length) →
        s₁.exit = s.exit → ∀ id n, s.exit t = .unlinked id n →
        exitFuel (s₁.setExit t .looping) t < exitFuel s t ∧
          ∀ u, u ≠ t → (s₁.setExit t .looping).exit u = s.exit u ∧
            ((s₁.setExit t .looping).clist u).length ≤ (s.clist u).length := by
      intro s₁ hlen hexit id n hu
      refine ⟨?_, fun u hne => ⟨by rw [setExit_exit, if_neg hne, hexit], hlen u⟩⟩
      have ht := hlen t
      unfold exitFuel
      rw [setExit_exit, if_pos rfl, hu]
      show 3 * (s₁.clist t).length + 1 < 3 * (s.clist t).length + 2
      omega
    rw [step] at hs
    split at hs
    next id n hu =>
      split at hs
      · split at hs
        · cases hs
          exact hback s (fun _ => Nat.le_refl _) rfl id n hu
        next sg _ =>
          split at hs
          · cases hs
            exact hback _ (length_clist_destroy s id sg) rfl id n hu
          · cases hs
            exact hback s (fun _ => Nat.le_refl _) rfl id n hu
      · cases hs
    · cases hs

/-- Any other step leaves an `exit_shm` where it is, with no more to do. -/
theorem other_shrinks (ha : ∀ u, ¬act.ofExit u) (hrun : s.exit t ≠ .idle)
    (hs : step s act = some s') :
    s'.exit t = s.exit t ∧ (s'.clist t).length ≤ (s.clist t).length := by
  cases act with
  | exitTest u => exact absurd (.inl rfl) (ha u)
  | exitUnlink u => exact absurd (.inr (.inl rfl)) (ha u)
  | exitLock u => exact absurd (.inr (.inr rfl)) (ha u)
  | shmget u n =>
    rw [step] at hs
    split at hs
    next hc =>
      cases hs
      have hne : t ≠ u := by
        rintro rfl
        exact hrun hc.1
      exact ⟨rfl, Nat.le_of_eq (congrArg List.length (Function.update_of_ne hne ..))⟩
    · cases hs
  | exit u =>
    rw [step] at hs
    split at hs
    next hidle =>
      cases hs
      refine ⟨?_, Nat.le_refl _⟩
      rw [setExit_exit, if_neg]
      rintro rfl
      exact hrun hidle
    · cases hs
  | destroy n =>
    rw [step] at hs
    split at hs
    next id rest _ =>
      split at hs
      · cases hs
      next sg _ =>
        split at hs
        · cases hs
        · cases hs
          exact ⟨rfl, length_clist_destroy s id sg t⟩
    · cases hs
  | attach id | detach id | rmid id | store w n value | writeTest w | sweepStart w | visit n =>
    rw [step] at hs
    repeat' first
      | exact absurd hs (Option.some_ne_none _).symm
      | split at hs
      | dsimp only at hs
    all_goals
      cases hs
      exact ⟨rfl, Nat.le_refl _⟩

theorem step_shrinks (hL : Links s) (hs : step s act = some s') (hrun : s.exit t ≠ .idle) :
    exitFuel s' t ≤ exitFuel s t ∧ (act.ofExit t → exitFuel s' t < exitFuel s t) := by
  refine ⟨?_, fun ha => (exitStep_shrinks hL ha hs).1⟩
  by_cases hex : ∃ u, act.ofExit u
  · obtain ⟨u, hu⟩ := hex
    obtain ⟨hlt, hother⟩ := exitStep_shrinks hL hu hs
    by_cases htu : t = u
    · exact htu ▸ Nat.le_of_lt hlt
    · exact fuel_le (hother t htu).1 (hother t htu).2
  · obtain ⟨hexit, hlen⟩ := other_shrinks (fun u hu => hex ⟨u, hu⟩) hrun hs
    exact fuel_le hexit hlen

/-- An `exit_shm` can go on, or what it waits for can. -/
theorem exit_moves (hL : Links s) (hS : Safe s) (hidle : s.exit t ≠ .idle)
    (hdone : s.exit t ≠ .done) : ∃ a, (step s a).isSome ∧
      (a.ofExit t ∨ ∃ id n, s.exit t = .unlinked id n ∧
        (a = .visit n ∨ a = .destroy n ∨ ∃ t', a = .exitUnlink t')) := by
  cases hpc : s.exit t with
  | idle => exact absurd hpc hidle
  | done => exact absurd hpc hdone
  | looping =>
    refine ⟨.exitTest t, ?_, .inl (.inl rfl)⟩
    rw [step, if_pos hpc]
    cases hc : s.clist t with
    | nil => rfl
    | cons id rest =>
      obtain ⟨sg, hsg, -⟩ := hL.owned t id (by rw [hc]; exact List.mem_cons_self)
      dsimp only
      rw [hsg]
      rfl
  | tested id n b =>
    refine ⟨.exitUnlink t, ?_, .inl (.inr (.inl rfl))⟩
    rw [step, hpc]
    rfl
  | unlinked id n =>
    cases hsem : s.sem n with
    | free =>
      refine ⟨.exitLock t, ?_, .inl (.inr (.inr rfl))⟩
      rw [step, hpc]
      dsimp only
      rw [if_pos hsem]
      split
      · rfl
      · split <;> rfl
    | sweep rest =>
      refine ⟨.visit n, ?_, .inr ⟨id, n, rfl, .inl rfl⟩⟩
      rw [step, hsem]
      cases rest with
      | nil => rfl
      | cons i rest =>
        dsimp only
        split
        · rfl
        · split <;> rfl
    | doom i rest =>
      obtain ⟨sg, hsg, -⟩ := hS.doomed n i rest hsem
      by_cases hlock : (s.linked i sg && s.taskLocked sg.creator) = true
      · -- the creator's own `exit_shm` holds its lock and can go on
        rw [Bool.and_eq_true, taskLocked] at hlock
        refine ⟨.exitUnlink sg.creator, ?_, .inr ⟨id, n, rfl, .inr (.inr ⟨_, rfl⟩)⟩⟩
        cases hcr : s.exit sg.creator with
        | tested j m b =>
          rw [step, hcr]
          rfl
        | idle | looping | unlinked | done =>
          rw [hcr] at hlock
          cases hlock.2
      · refine ⟨.destroy n, ?_, .inr ⟨id, n, rfl, .inr (.inl rfl)⟩⟩
        rw [step, hsem]
        dsimp only
        rw [hsg]
        dsimp only
        rw [if_neg hlock]
        rfl

/-! ## Every run -/

/-- **Orphaned segments are tended to.**  In every state of a run where no step cuts in
    between a test and what is done about it, a sweep destroys what has no attachment and
    no creator, what has none where `shm_rmid_forced` is set is being seen to, and every
    `exit_shm` comes to its end with an empty list. -/
theorem orphans_tended (h : RunIf step Timely St.init s) : Tended s := by
  obtain ⟨hL, hS⟩ := run_safe h
  refine ⟨fun n id rest hd => ?_, fun id sg hsg hz hl hf => hS.kept id sg ⟨hsg, hz, hl, hf⟩,
    hL.done, fun t id n sg hu hsg => ?_, fun a s' t hs hrun => step_shrinks hL hs hrun,
    fun t hidle hdone => exit_moves hL hS hidle hdone⟩
  · obtain ⟨sg, hsg, hn, hz, hl⟩ := hS.doomed n id (some rest) hd
    exact ⟨sg, hsg, hn, hz, hl rfl⟩
  · obtain ⟨hn, hnot⟩ := (hL.unlinked t id n hu).2 sg hsg
    refine ⟨hn, linked_false.2 hnot, fun hfree => ?_⟩
    rw [mayDestroy_iff, hn]
    refine ⟨fun ⟨hz, hor⟩ => ⟨hz, hor.resolve_right fun hd => ?_⟩,
      fun ⟨hz, hf⟩ => ⟨hz, .inl hf⟩⟩
    rcases hS.dest id sg hsg hd with hne | ⟨rest, hdoom⟩
    · exact hne hz
    · rw [hn, hfree] at hdoom
      cases hdoom

/-- The steps of which `Timely` asks nothing, and an attach while nothing is swept. -/
def plain (s : St) : Act → Bool
  | .store _ _ (some true) => false
  | .attach id => (s.seg id).all fun sg => s.sem sg.ns == .free
  | _ => true

theorem timely_plain (s : St) (act : Act) (h : plain s act = true) : Timely s act := by
  cases act with
  | store w n value =>
    cases value with
    | none => trivial
    | some b =>
      cases b with
      | false => trivial
      | true => cases h
  | attach id =>
    intro sg hsg rest hd
    rw [plain, hsg, Option.all_some, beq_iff_eq, hd] at h
    cases h
  | _ => trivial

/-- A task makes two segments, one of which is attached, and ends; then `shm_rmid_forced` is
    set: in its sweep, and after that. -/
theorem orphans_tended_set : (∃ s, RunIf step Timely St.init s ∧ Tended s ∧ s.exit 0 = .done ∧
      s.sem 0 = .doom 0 (some [1]) ∧ s.seg 0 = some ⟨0, 0, false, 0⟩) ∧
    ∃ s, RunIf step Timely St.init s ∧ Tended s ∧ s.forced 0 = true ∧ s.sem 0 = .free ∧
      s.seg 0 = none ∧ s.seg 1 = some ⟨0, 1, false, 0⟩ := by
  have hended : RunIf step Timely St.init _ := execIf_run plain timely_plain (show exec _ St.init
    [.shmget 0 0, .shmget 0 0, .attach 1, .exit 0, .exitTest 0, .exitUnlink 0, .exitTest 0,
      .exitUnlink 0, .exitTest 0] = some _ from rfl)
  have hstored : RunIf step Timely St.init _ :=
    hended.snoc (show Timely _ (.store 1 0 (some true)) from .inr fun t id b ht => by
      by_cases h0 : t = 0
      · subst h0
        cases ht
      · simp [setExit, setSeg, St.init, h0] at ht) rfl
  have hswept : RunIf step Timely St.init _ := hstored.trans (execIf_run plain timely_plain
    (show exec _ _ [.writeTest 1, .sweepStart 1, .visit 0] = some _ from rfl))
  have hover : RunIf step Timely St.init _ := hswept.trans (execIf_run plain timely_plain
    (show exec _ _ [.destroy 0, .visit 0, .visit 0] = some _ from rfl))
  exact ⟨⟨_, hswept, orphans_tended hswept, rfl, rfl, rfl⟩,
    ⟨_, hover, orphans_tended hover, rfl, rfl, rfl, rfl⟩⟩

/-- `shm_rmid_forced` is set between the test of an `exit_shm` and its unlinking, and the
    sweep is over before that: the segment is left, and nobody is about it. -/
theorem orphans_left : ¬∀ s, Run step St.init s → Tended s := by
  intro hall
  have hrun : Run step St.init _ := exec_run (show exec step St.init
    [.shmget 0 0, .exit 0, .exitTest 0, .store 1 0 (some true), .writeTest 1, .sweepStart 1,
      .visit 0, .visit 0, .exitUnlink 0, .exitTest 0] = some _ from rfl)
  rcases (hall _ hrun).kept 0 ⟨0, 0, false, 0⟩ rfl rfl rfl rfl with ⟨t, ht⟩ | ⟨w, hw⟩ | hc
  · by_cases h0 : t = 0
    · subst h0
      cases ht
    · simp [setExit, setWrite, setSem, St.init, h0] at ht
  · by_cases h1 : w = 1
    · subst h1
      rcases hw with hw | hw <;> cases hw
    · simp [setExit, setWrite, setSem, St.init] at hw
  · exact hc

/-- A segment is attached between the test of a sweep and its destruction. -/
theorem swept_attached : ∃ s, Run step St.init s ∧ s.sem 0 = .doom 0 (some []) ∧
    s.seg 0 = some ⟨0, 1, false, 0⟩ := by
  have hrun : Run step St.init _ := exec_run (show exec step St.init
    [.shmget 0 0, .exit 0, .exitTest 0, .exitUnlink 0, .store 1 0 (some true), .writeTest 1,
      .sweepStart 1, .visit 0, .attach 0] = some _ from rfl)
  exact ⟨_, hrun, rfl, rfl⟩

end DroidLkm.Shm
