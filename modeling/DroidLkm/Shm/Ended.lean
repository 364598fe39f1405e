/-
  SysV shared memory — a segment ends with its last attachment.

  * `Inv.ksysShmget`, `Inv.doShmRmid`, `Inv.exitLock`: the sections that create and
    remove segments keep the invariant of `Attached`;
  * `step_ns`: what a step does to the table, and `Later`: a segment that is gone does
    not come back, one that is marked stays so;
  * `segment_lifetime`: the counts in every reachable state, and what becomes of a
    segment after `IPC_RMID`.
-/
import DroidLkm.Shm.Attached

namespace DroidLkm.Shm.Life

open Machine Ids Ids.Quotas IpcIds

variable {b : Build} {s s' s₁ s₂ : St} {act : Act} {sfd : Sfd} {id key : ℤ}
  {p q i t idx size : ℕ}

/-! ## `shmget` -/

/-- A creation that fails leaves the segments as they are. -/
theorem Inv.newsegFailed (h : Inv b s) {ids : IpcIds}
    (hsound : Sound b { s.ns.newShm key size with shm := ids })
    (hf : Failed b.limits (s.ns.shm.newPerm key) ids s.ns.shm.fresh) :
    Inv b { s with ns := { s.ns.newShm key size with shm := ids } } := by
  have hc := Change.failed hf
  have hback : ∀ i q, ids.idr.find i = some q → s.ns.shm.idr.find i = some q := by
    intro i q hi
    rw [Idr.find, hf.slots] at hi
    exact hi
  have hlive : ∀ q, ids.live q = true → s.ns.shm.live q = true := by
    intro q hq
    obtain ⟨i, hi⟩ := live_iff.1 hq
    exact live_iff.2 ⟨i, hback i q hi⟩
  refine ⟨h.toBase.change hc (fun q hq => by cases hq) hsound (h.booked.addFailed h.stamped hf)
    rfl rfl rfl (fun _ => rfl) (fun q hq => Function.update_of_ne (Nat.ne_of_lt hq) _ _)
    (fun i q hq hi => absurd (h.lt (hback i q hi)) (Nat.not_lt.2 hq)) (fun t q hq => ?_)
    (fun q hq hd => ?_), fun q hq hd => h.marked q (hlive q hq) hd⟩
  · obtain ⟨hql, hqc⟩ := h.clist t q hq
    exact ⟨(live_change hc (h.live_lt hql)).2 ⟨hql, fun hn => by cases hn⟩, hqc⟩
  · have hql := hlive q hq
    rcases hc.key q (h.live_lt hql) with hk | hk
    · exact hk.trans (h.dest q hql hd)
    · exact hk

/-- **A new segment** is held by none. -/
theorem Inv.newsegInserted (h : Inv b s) {ids : IpcIds} {tot : ℕ}
    (hsound : Sound b { s.ns.newShm key size with shm := ids, shmTot := tot })
    (hi : Inserted b.limits (s.ns.shm.newPerm key) ids s.ns.shm.fresh idx)
    (hkey : key = IPC_PRIVATE ∨ ∀ p ∈ s.ns.shm.keyHt, (s.ns.shm.perm p).key ≠ key)
    (hpages : Ns.numpages b size = pages b size) (t : ℕ) :
    Inv b { s with
      ns := { s.ns.newShm key size with shm := ids, shmTot := tot }
      nattch := Function.update s.nattch s.ns.shm.fresh 0
      dest := Function.update s.dest s.ns.shm.fresh false
      creator := Function.update s.creator s.ns.shm.fresh t
      clist := Function.update s.clist t (s.ns.shm.fresh :: s.clist t) } := by
  have hc := Change.inserted hi
  have hnot : s.ns.shm.live s.ns.shm.fresh = false := by
    rw [Bool.eq_false_iff]
    exact fun hl => Nat.lt_irrefl _ (h.live_lt hl)
  have hback : ∀ i q, ids.idr.find i = some q →
      q = s.ns.shm.fresh ∨ s.ns.shm.idr.find i = some q := by
    intro i q hq
    rw [hi.idr, Idr.find_insert] at hq
    split at hq
    · exact .inl (Option.some.inj hq).symm
    · exact .inr hq
  have hnew : ids.live s.ns.shm.fresh = true := by
    refine live_iff.2 ⟨idx, ?_⟩
    rw [hi.idr, Idr.find_insert, if_pos rfl]
  have hold : ∀ q, ids.live q = true → Function.update s.dest s.ns.shm.fresh false q = true →
      s.ns.shm.live q = true ∧ s.dest q = true ∧ q ≠ s.ns.shm.fresh := by
    intro q hq hd
    rw [Function.update_apply] at hd
    split at hd
    · cases hd
    next hne =>
      obtain ⟨i, hiq⟩ := live_iff.1 hq
      exact ⟨live_iff.2 ⟨i, (hback i q hiq).resolve_left hne⟩, hd, hne⟩
  refine ⟨h.toBase.change hc (fun q hq => by cases hq) hsound
    (h.booked.addInserted h.stamped hi hkey) rfl rfl rfl (fun q => ?_)
    (fun q hq => Function.update_of_ne (Nat.ne_of_lt hq) _ _) (fun i q hq hiq => ?_)
    (fun u q hq => ?_) (fun q hq hd => ?_), fun q hq hd => ?_⟩
  · dsimp only
    rw [Function.update_apply]
    split
    next he => rw [he, h.gone hnot]
    · rfl
  · rcases hback i q hiq with rfl | hiq'
    · unfold St.valid
      dsimp only
      rw [hi.perm, Function.update_self]
      refine ⟨rfl, ?_⟩
      change Ns.numpages b (Function.update s.ns.segsz s.ns.shm.fresh size s.ns.shm.fresh) =
        pages b (Function.update s.ns.segsz s.ns.shm.fresh size s.ns.shm.fresh)
      rw [Function.update_self]
      exact hpages
    · exact absurd (h.lt hiq') (Nat.not_lt.2 hq)
  · have hstay : q ∈ s.clist u → ids.live q = true ∧
        Function.update s.creator s.ns.shm.fresh t q = u := by
      intro hq
      obtain ⟨hql, hqc⟩ := h.clist u q hq
      refine ⟨(live_change hc (h.live_lt hql)).2 ⟨hql, fun hn => by cases hn⟩, ?_⟩
      rw [Function.update_of_ne (Nat.ne_of_lt (h.live_lt hql))]
      exact hqc
    dsimp only at hq
    rw [Function.update_apply] at hq
    split at hq
    next hu =>
      subst hu
      rcases List.mem_cons.1 hq with rfl | hq
      · exact ⟨hnew, Function.update_self ..⟩
      · exact hstay hq
    · exact hstay hq
  · obtain ⟨hql, hqd, -⟩ := hold q hq hd
    rcases hc.key q (h.live_lt hql) with hk | hk
    · exact hk.trans (h.dest q hql hqd)
    · exact hk
  · obtain ⟨hql, hqd, hne⟩ := hold q hq hd
    dsimp only
    rw [Function.update_of_ne hne]
    exact h.marked q hql hqd

theorem Inv.newseg (h : Inv b s) (hsize : size < 2 ^ 64)
    (hkey : key = IPC_PRIVATE ∨ ∀ p ∈ s.ns.shm.keyHt, (s.ns.shm.perm p).key ≠ key) (t : ℕ)
    (e : Env) : Inv b (s.newseg b t key size e) := by
  have hsound : Sound b (s.ns.newseg b key size e).1 := h.sound.newseg hsize
  have hcases := newseg_cases b key e h.sound.segsLt hsize
  unfold St.newseg
  rcases hr : s.ns.newseg b key size e with ⟨ns, err | i⟩
  · rw [hr] at hsound hcases
    rcases hcases with ⟨-, -, rfl | ⟨ids, hf, rfl⟩⟩ | ⟨_, _, _, hok, -⟩
    · exact h
    · exact h.newsegFailed hsound hf
    · cases hok
  · rw [hr] at hsound hcases
    rcases hcases with ⟨_, herr, -⟩ | ⟨_, ids, idx, -, hpages, -, -, -, hi, rfl⟩
    · cases herr
    · exact h.newsegInserted hsound hi hkey hpages t

theorem Inv.ksysShmget (h : Inv b s) (hsize : size < 2 ^ 64) (t : ℕ) (creat : Bool) (e : Env) :
    Inv b (s.ksysShmget b t key size creat e) := by
  unfold St.ksysShmget
  split
  next hk => exact h.newseg hsize (.inl hk) t e
  split
  next hfind =>
    split
    · exact h
    · refine h.newseg hsize (.inr fun p hp => ?_) t e
      simpa using List.find?_eq_none.1 hfind p hp
  · exact h

/-! ## `IPC_RMID` and `exit_shm` -/

/-- A segment that is attached is marked. -/
theorem Inv.mark (h : Inv b s) (hp : s.ns.shm.live p = true) (hn : s.nattch p ≠ 0) :
    Inv b { s with
      dest := Function.update s.dest p true
      ns := { s.ns with shm := s.ns.shm.ipcSetKeyPrivate p } } := by
  have hc : Change s.ns.shm (s.ns.shm.ipcSetKeyPrivate p) none := Change.private
  have hidr : (s.ns.shm.ipcSetKeyPrivate p).idr = s.ns.shm.idr := by
    unfold ipcSetKeyPrivate ipcKhtRemove
    split <;> rfl
  have hkey : ((s.ns.shm.ipcSetKeyPrivate p).perm p).key = IPC_PRIVATE := by
    simp [ipcSetKeyPrivate, setPerm]
  have hlive : ∀ q, (s.ns.shm.ipcSetKeyPrivate p).live q = s.ns.shm.live q :=
    live_congr fun i => by rw [hidr]
  refine ⟨h.toBase.change hc (fun q hq => by cases hq) ?_ h.booked.setKeyPrivate rfl rfl rfl
    (fun _ => rfl) (fun _ _ => rfl) (fun i q hq hi => ?_) (fun t q hq => ?_) (fun q hq hd => ?_),
    fun q hq hd => ?_⟩
  · exact ⟨h.sound.sems, h.sound.segs.setKeyPrivate hp, h.sound.nonneg, h.sound.semsLe,
      h.sound.segsLt⟩
  · dsimp only at hi
    rw [hidr] at hi
    exact absurd (h.lt hi) (Nat.not_lt.2 hq)
  · dsimp only
    rw [hlive]
    exact h.clist t q hq
  · dsimp only at hq hd ⊢
    rw [hlive] at hq
    by_cases hqp : q = p
    · rw [hqp]
      exact hkey
    · rw [Function.update_of_ne hqp] at hd
      rcases hc.key q (h.live_lt hq) with hk | hk
      · exact hk.trans (h.dest q hq hd)
      · exact hk
  · dsimp only at hq hd ⊢
    rw [hlive] at hq
    by_cases hqp : q = p
    · rw [hqp]
      exact Nat.pos_of_ne_zero hn
    · rw [Function.update_of_ne hqp] at hd
      exact h.marked q hq hd

theorem Inv.doShmRmid (h : Inv b s) (hp : s.ns.shm.live p = true) : Inv b (s.doShmRmid b p) := by
  unfold St.doShmRmid
  split
  next hn => exact h.mark hp hn
  next hn =>
    obtain ⟨hB, hlive⟩ := h.toBase.shmDestroy hp (Decidable.not_not.1 hn)
    exact ⟨hB, fun q hq hd => h.marked q (hlive q hq).2 hd⟩

theorem Inv.exitUnlink (h : Inv b s) {rest : List ℕ} (ht : s.clist t = p :: rest)
    {ps : List ℕ} (hps : ∀ q ∈ ps, q = p ∨ q ∈ s.exits) :
    Inv b { s with clist := Function.update s.clist t rest, exits := ps } := by
  have hsub : ∀ u q, q ∈ Function.update s.clist t rest u → q ∈ s.clist u := by
    intro u q hq
    rw [Function.update_apply] at hq
    split at hq
    next hu =>
      rw [hu, ht]
      exact List.mem_cons_of_mem _ hq
    · exact hq
  refine ⟨⟨h.sound, h.booked, h.valid, h.paged, h.nattch, h.vma, h.toBase.call, h.found,
    fun q hq => ?_, fun u q hq => h.clist u q (hsub u q hq), h.dest⟩, h.marked⟩
  rcases hps q hq with rfl | hq
  · obtain ⟨i, hi⟩ := live_iff.1 (h.clist t q (by rw [ht]; exact List.mem_cons_self)).1
    exact ⟨i, h.lt hi, .inr hi⟩
  · exact h.exits q hq

theorem Inv.exitLock (h : Inv b s) (hp : p ∈ s.exits) :
    Inv b { s with exits := s.exits.erase p } ∧ (s.valid p = true →
      Inv b (St.settle b { s with exits := s.exits.erase p } p)) := by
  have h' : Inv b { s with exits := s.exits.erase p } :=
    ⟨⟨h.sound, h.booked, h.valid, h.paged, h.nattch, h.vma, h.toBase.call, h.found,
      fun q hq => h.exits q (List.mem_of_mem_erase hq), h.clist, h.dest⟩, h.marked⟩
  refine ⟨h', fun hv => h'.toBase.settle ?_ fun q _ => h.marked q⟩
  obtain ⟨i, hi⟩ := h.exits p hp
  exact live_iff.2 ⟨i, hi.find hv⟩

/-! ## Every run -/

theorem step_inv (h : Inv b s) (hs : step b s act = some s') : Inv b s' := by
  cases act with
  | shmget t key size creat e =>
    unfold step at hs
    dsimp only at hs
    split at hs
    next hsize =>
      obtain rfl := Option.some.inj hs
      exact h.ksysShmget hsize t creat e
    · cases hs
  | shmatFind id =>
    unfold step at hs
    dsimp only at hs
    split at hs
    · cases hs
    next p hp =>
      split at hs
      · cases hs
      · obtain rfl := Option.some.inj hs
        exact h.shmatFind hp
  | shmatHold id p =>
    unfold step at hs
    dsimp only at hs
    split at hs
    next hx =>
      split at hs
      next hv =>
        obtain rfl := Option.some.inj hs
        exact h.shmatHold hx hv
      · obtain rfl := Option.some.inj hs
        exact h.shmatDrop hx
    · cases hs
  | shmatFile id p =>
    unfold step at hs
    dsimp only at hs
    split at hs
    next hx =>
      obtain rfl := Option.some.inj hs
      exact h.shmatFile hx _
    · cases hs
  | shmatEnd x =>
    unfold step at hs
    dsimp only at hs
    split at hs
    next hx =>
      cases x with
      | found => cases hs
      | held id p =>
        obtain ⟨hl, hI⟩ := h.shmatEnd hx (.inl rfl)
        dsimp only at hs
        rw [hl] at hs
        obtain rfl := Option.some.inj hs
        exact hI
      | opened id p =>
        obtain ⟨hl, hI⟩ := h.shmatEnd hx (.inr rfl)
        dsimp only at hs
        rw [hl] at hs
        obtain rfl := Option.some.inj hs
        exact hI
    · cases hs
  | mmap sfd =>
    unfold step at hs
    dsimp only at hs
    split at hs
    · obtain ⟨s₁, ho, rfl⟩ := Option.map_eq_some_iff.1 hs
      obtain ⟨hf, rfl⟩ := h.shmOpen.1 ho
      exact h.open hf false
    · cases hs
  | mmapped sfd err =>
    unfold step at hs
    dsimp only at hs
    split at hs
    next hv =>
      split at hs
      · obtain rfl := Option.some.inj hs
        exact h.close hv
      · obtain rfl := Option.some.inj hs
        refine ⟨h.toBase.hold (fun v hv' => ?_) (fun x hx => .inl hx) (fun _ _ hx => .inl hx)
          (fun p => ?_) s.files, h.marked⟩
        · rcases List.mem_cons.1 hv' with rfl | hv'
          · exact .inr (h.vma ⟨sfd, false⟩ hv)
          · exact .inl (List.mem_of_mem_erase hv')
        · rw [List.countP_cons, h.nattch, St.attached, countP_erase hv]
          rfl
    · cases hs
  | vmaOpen sfd =>
    unfold step at hs
    dsimp only at hs
    split at hs
    next hv =>
      obtain rfl := Option.some.inj hs
      rw [h.shmOpen.2 ⟨h.vma _ hv, rfl⟩]
      exact h.open (h.vma _ hv) true
    · cases hs
  | vmaClose sfd =>
    unfold step at hs
    dsimp only at hs
    split at hs
    next hv =>
      obtain rfl := Option.some.inj hs
      exact h.close hv
    · cases hs
  | rmid id =>
    unfold step at hs
    dsimp only at hs
    split at hs
    · cases hs
    next p hp =>
      obtain rfl := Option.some.inj hs
      exact h.doShmRmid (live_iff.2 ⟨_, obtain_find hp⟩)
  | exitUnlink t =>
    unfold step at hs
    dsimp only at hs
    split at hs
    · cases hs
    next p rest ht =>
      split at hs
      · obtain rfl := Option.some.inj hs
        exact h.exitUnlink ht fun q hq => List.mem_cons.1 hq
      · obtain rfl := Option.some.inj hs
        exact h.exitUnlink ht fun q hq => .inr hq
  | exitLock p =>
    unfold step at hs
    dsimp only at hs
    split at hs
    next hp =>
      split at hs
      next hv =>
        obtain rfl := Option.some.inj hs
        exact (h.exitLock hp).2 hv
      · obtain rfl := Option.some.inj hs
        exact (h.exitLock hp).1
    · cases hs
  | sysctl forced ctlmax ctlall ctlmni =>
    obtain rfl := Option.some.inj hs
    exact ⟨⟨⟨h.sound.sems, h.sound.segs, h.sound.nonneg, h.sound.semsLe, h.sound.segsLt⟩,
      h.booked, h.valid, h.paged, h.nattch, h.vma, h.toBase.call, h.found, h.exits, h.clist,
      h.dest⟩, h.marked⟩

theorem init_inv (b : Build) (forced : Bool) : Inv b (St.init forced) where
  sound := init_sound b
  booked := init_booked
  valid := fun _ _ hi => by cases Idr.find_empty.symm.trans hi
  paged := fun _ _ hi => by cases Idr.find_empty.symm.trans hi
  nattch := fun _ => rfl
  vma := fun _ hv => (List.not_mem_nil hv).elim
  call := fun _ hx => (List.not_mem_nil hx).elim
  found := fun _ _ hx => (List.not_mem_nil hx).elim
  exits := fun _ hp => (List.not_mem_nil hp).elim
  clist := fun _ _ hp => (List.not_mem_nil hp).elim
  dest := fun _ _ hd => by cases hd
  marked := fun _ _ hd => by cases hd

theorem run_inv {forced : Bool} (h : Run (step b) (St.init forced) s) : Inv b s :=
  h.inv (init_inv b forced) fun _ _ _ => step_inv

theorem Inv.lifetime (h : Inv b s) : Lifetime b s where
  nattch := h.nattch
  gone := fun _ hp => h.toBase.gone hp
  shmTot := by
    rw [h.sound.segs.total]
    exact Idr.sumOf_congr rfl fun i p hi => h.paged i p hi
  ends := fun x hx _ _ hxp => h.shmLock.2 (h.toBase.call x hx _ _ hxp)
  closes := fun v hv => h.shmLock.2 (h.vma v hv)

/-! ## What follows `IPC_RMID` -/

/-- Nothing of the table changes, or a segment is removed. -/
def Settled (b : Build) (s s' : St) : Prop :=
  s'.dest = s.dest ∧ (s'.ns.shm = s.ns.shm ∨
    ∃ p, s.ns.shm.live p = true ∧ s'.ns = s.ns.shmDestroy b p)

theorem Settled.of_settle (r : St) (hp : s.ns.shm.live p = true) (hns : r.ns = s.ns)
    (hdest : r.dest = s.dest) (hns' : s'.ns = (r.settle b p).ns)
    (hdest' : s'.dest = (r.settle b p).dest) : Settled b s s' := by
  unfold St.settle at hns' hdest'
  split at hns'
  next hd =>
    rw [if_pos hd] at hdest'
    exact ⟨hdest'.trans hdest, .inr ⟨p, hp, hns'.trans (congrArg (·.shmDestroy b p) hns)⟩⟩
  next hd =>
    rw [if_neg hd] at hdest'
    exact ⟨hdest'.trans hdest, .inl (congrArg Ns.shm (hns'.trans hns))⟩

/-- **What a step does to the table**: nothing, or it removes a segment, or marks one, or
    is a creation. -/
theorem step_ns (h : Inv b s) (hs : step b s act = some s') :
    Settled b s s' ∨
    (∃ p, s'.ns.shm = s.ns.shm.ipcSetKeyPrivate p ∧ s'.dest = Function.update s.dest p true) ∨
    ∃ t key size e, size < 2 ^ 64 ∧ s' = s.newseg b t key size e := by
  cases act with
  | shmget t key size creat e =>
    unfold step at hs
    dsimp only at hs
    split at hs
    next hsize =>
      obtain rfl := Option.some.inj hs
      unfold St.ksysShmget
      split
      · exact .inr (.inr ⟨t, key, size, e, hsize, rfl⟩)
      split
      · split
        · exact .inl ⟨rfl, .inl rfl⟩
        · exact .inr (.inr ⟨t, key, size, e, hsize, rfl⟩)
      · exact .inl ⟨rfl, .inl rfl⟩
    · cases hs
  | shmatFind id =>
    unfold step at hs
    dsimp only at hs
    split at hs
    · cases hs
    · split at hs
      · cases hs
      · obtain rfl := Option.some.inj hs
        exact .inl ⟨rfl, .inl rfl⟩
  | shmatHold id p =>
    unfold step at hs
    dsimp only at hs
    split at hs
    · split at hs
      · obtain rfl := Option.some.inj hs
        exact .inl ⟨rfl, .inl rfl⟩
      · obtain rfl := Option.some.inj hs
        exact .inl ⟨rfl, .inl rfl⟩
    · cases hs
  | shmatFile id p =>
    unfold step at hs
    dsimp only at hs
    split at hs
    · obtain rfl := Option.some.inj hs
      exact .inl ⟨rfl, .inl rfl⟩
    · cases hs
  | shmatEnd x =>
    unfold step at hs
    dsimp only at hs
    split at hs
    · split at hs
      · cases hs
      all_goals
        obtain ⟨p, hl, rfl⟩ := Option.map_eq_some_iff.1 hs
        have hp := live_iff.2 ⟨_, h.shmLock.1 hl⟩
        exact .inl (.of_settle (s.setNattch p (s.nattch p - 1)) hp rfl rfl rfl rfl)
    · cases hs
  | mmap sfd =>
    unfold step at hs
    dsimp only at hs
    split at hs
    · obtain ⟨s₁, ho, rfl⟩ := Option.map_eq_some_iff.1 hs
      obtain ⟨-, rfl⟩ := h.shmOpen.1 ho
      exact .inl ⟨rfl, .inl rfl⟩
    · cases hs
  | mmapped sfd err =>
    unfold step at hs
    dsimp only at hs
    split at hs
    next hv =>
      split at hs
      · obtain rfl := Option.some.inj hs
        rw [h.shmClose hv]
        exact .inl (.of_settle (s.setNattch _ _) (live_iff.2 ⟨_, h.vma _ hv⟩) rfl rfl rfl rfl)
      · obtain rfl := Option.some.inj hs
        exact .inl ⟨rfl, .inl rfl⟩
    · cases hs
  | vmaOpen sfd =>
    unfold step at hs
    dsimp only at hs
    split at hs
    next hv =>
      obtain rfl := Option.some.inj hs
      rw [h.shmOpen.2 ⟨h.vma _ hv, rfl⟩]
      exact .inl ⟨rfl, .inl rfl⟩
    · cases hs
  | vmaClose sfd =>
    unfold step at hs
    dsimp only at hs
    split at hs
    next hv =>
      obtain rfl := Option.some.inj hs
      rw [h.shmClose hv]
      exact .inl (.of_settle (s.setNattch _ _) (live_iff.2 ⟨_, h.vma _ hv⟩) rfl rfl rfl rfl)
    · cases hs
  | rmid id =>
    unfold step at hs
    dsimp only at hs
    split at hs
    · cases hs
    next p hp =>
      obtain rfl := Option.some.inj hs
      unfold St.doShmRmid
      split
      · exact .inr (.inl ⟨p, rfl, rfl⟩)
      · exact .inl ⟨rfl, .inr ⟨p, live_iff.2 ⟨_, obtain_find hp⟩, rfl⟩⟩
  | exitUnlink t =>
    unfold step at hs
    dsimp only at hs
    split at hs
    · cases hs
    · split at hs
      · obtain rfl := Option.some.inj hs
        exact .inl ⟨rfl, .inl rfl⟩
      · obtain rfl := Option.some.inj hs
        exact .inl ⟨rfl, .inl rfl⟩
  | exitLock p =>
    unfold step at hs
    dsimp only at hs
    split at hs
    next hp =>
      split at hs
      next hv =>
        obtain rfl := Option.some.inj hs
        obtain ⟨i, hi⟩ := h.exits p hp
        exact .inl (.of_settle { s with exits := s.exits.erase p }
          (live_iff.2 ⟨i, hi.find hv⟩) rfl rfl rfl rfl)
      · obtain rfl := Option.some.inj hs
        exact .inl ⟨rfl, .inl rfl⟩
    · cases hs
  | sysctl forced ctlmax ctlall ctlmni =>
    obtain rfl := Option.some.inj hs
    exact .inl ⟨rfl, .inl rfl⟩

/-- What may become of the segments that there were. -/
structure Later (s s' : St) : Prop where
  fresh : s.ns.shm.fresh ≤ s'.ns.shm.fresh
  live : ∀ p, p < s.ns.shm.fresh → s'.ns.shm.live p = true → s.ns.shm.live p = true
  dest : ∀ p, p < s.ns.shm.fresh → s.dest p = true → s'.dest p = true

theorem Later.of_change {o : Option ℕ} (hc : Change s.ns.shm s'.ns.shm o)
    (hdest : ∀ p, p < s.ns.shm.fresh → s.dest p = true → s'.dest p = true) : Later s s' :=
  ⟨hc.fresh, fun _ hp hl => ((live_change hc hp).1 hl).1, hdest⟩

theorem newseg_later (h : Inv b s) (hsize : size < 2 ^ 64) (t : ℕ) (key : ℤ) (e : Env) :
    Later s (s.newseg b t key size e) := by
  have hcases := newseg_cases b key e h.sound.segsLt hsize
  unfold St.newseg
  rcases hr : s.ns.newseg b key size e with ⟨ns, err | i⟩
  · rw [hr] at hcases
    rcases hcases with ⟨-, -, rfl | ⟨ids, hf, rfl⟩⟩ | ⟨_, _, _, hok, -⟩
    · exact ⟨Nat.le_refl _, fun _ _ hl => hl, fun _ _ hd => hd⟩
    · exact Later.of_change (Change.failed hf) fun _ _ hd => hd
    · cases hok
  · rw [hr] at hcases
    rcases hcases with ⟨_, herr, -⟩ | ⟨_, ids, idx, -, -, -, -, -, hi, rfl⟩
    · cases herr
    · refine Later.of_change (Change.inserted hi) fun p hp hd => ?_
      dsimp only
      rw [Function.update_of_ne (Nat.ne_of_lt hp)]
      exact hd

theorem step_later (h : Inv b s) (hs : step b s act = some s') : Later s s' := by
  rcases step_ns h hs with ⟨hdest, hshm | ⟨p, hp, hns⟩⟩ | ⟨p, hshm, hdest⟩ |
    ⟨t, key, size, e, hsize, rfl⟩
  · refine ⟨Nat.le_of_eq (by rw [hshm]), fun p _ hl => ?_, fun p _ hd => ?_⟩
    · rw [hshm] at hl
      exact hl
    · rw [hdest]
      exact hd
  · obtain ⟨i, hi⟩ := live_iff.1 hp
    have hc : Change s.ns.shm s'.ns.shm (some p) := by
      rw [hns]
      exact Change.removed h.stamped hi
    refine Later.of_change hc fun q _ hd => ?_
    rw [hdest]
    exact hd
  · have hc : Change s.ns.shm s'.ns.shm none := by
      rw [hshm]
      exact Change.private
    refine Later.of_change hc fun q _ hd => ?_
    rw [hdest, Function.update_apply]
    split
    · rfl
    · exact hd
  · exact newseg_later h hsize t key e

/-- After `IPC_RMID`, as long as the segment is there it is marked. -/
structure After (b : Build) (p : ℕ) (s : St) : Prop where
  inv : Inv b s
  lt : p < s.ns.shm.fresh
  dest : s.ns.shm.live p = true → s.dest p = true

theorem After.step (h : After b p s) (hs : step b s act = some s') : After b p s' := by
  have hl := step_later h.inv hs
  exact ⟨step_inv h.inv hs, Nat.lt_of_lt_of_le h.lt hl.fresh,
    fun hp => hl.dest p h.lt (h.dest (hl.live p h.lt hp))⟩

theorem rmid_after (h : Inv b s) (hp : s.ns.shm.ipcObtainObjectCheck b.limits id = .ok p)
    (hs : step b s (.rmid id) = some s') : After b p s' := by
  have hi := obtain_find hp
  have hlive := live_iff.2 ⟨_, hi⟩
  have hlater := step_later h hs
  refine ⟨step_inv h hs, Nat.lt_of_lt_of_le (h.lt hi) hlater.fresh, ?_⟩
  unfold step at hs
  dsimp only at hs
  rw [hp] at hs
  obtain rfl := Option.some.inj hs
  unfold St.doShmRmid
  split
  · exact fun _ => Function.update_self ..
  next hn =>
    obtain ⟨-, hgone⟩ := h.toBase.shmDestroy hlive (Decidable.not_not.1 hn)
    exact fun hl => absurd rfl (hgone p hl).1

/-- It is there as long as it is held, and no key finds it. -/
theorem After.ends (h : After b p s) :
    (s.ns.shm.live p = true ↔ 0 < s.attached p + s.inFlight p) ∧
      ∀ key, s.ns.shm.ipcFindkey key ≠ some p := by
  refine ⟨⟨fun hl => ?_, fun hpos => ?_⟩, fun key hk => ?_⟩
  · rw [← h.inv.nattch]
    exact h.inv.marked p hl (h.dest hl)
  · rw [← h.inv.nattch] at hpos
    cases hl : s.ns.shm.live p with
    | true => rfl
    | false =>
      rw [h.inv.toBase.gone hl] at hpos
      exact absurd hpos (Nat.lt_irrefl 0)
  · obtain ⟨hl, hne⟩ := (h.inv.booked.keyed p).1 (List.mem_of_find?_eq_some hk)
    exact hne (h.inv.dest p hl (h.dest hl))

/-- **The life of a segment.**  In every reachable state `shm_nattch` is the number of
    mappings of a segment and of the calls of `do_shmat` that hold it, it is 0 when the
    segment is gone, and `shm_tot` is the number of pages of those that are there; from
    an `IPC_RMID` on, a segment is there just as long as it is held, and no key finds it. -/
theorem segment_lifetime {forced : Bool} (h : Run (step b) (St.init forced) s) :
    Lifetime b s ∧ ∀ id p s₁ s₂, s.ns.shm.ipcObtainObjectCheck b.limits id = .ok p →
      step b s (.rmid id) = some s₁ → Run (step b) s₁ s₂ →
      (s₂.ns.shm.live p = true ↔ 0 < s₂.attached p + s₂.inFlight p) ∧
        ∀ key, s₂.ns.shm.ipcFindkey key ≠ some p := by
  have hI := run_inv h
  refine ⟨hI.lifetime, fun id p s₁ s₂ hp hs hrun => ?_⟩
  have hA : After b p s₂ := hrun.inv (rmid_after hI hp hs) fun _ _ _ hA hs => hA.step hs
  exact hA.ends

/-- A segment of two pages, attached and then marked while it is mapped once more; the
    call has not ended. -/
theorem segment_lifetime_marked : ∃ s, Run (step someBuild) (St.init false) s ∧
    s.nattch 0 = s.attached 0 + s.inFlight 0 ∧ s.nattch 0 = 3 ∧ s.dest 0 = true ∧
    s.ns.shmTot = 2 := by
  obtain ⟨s, hrun, hs⟩ := exec_check (step someBuild) (St.init false)
    [.shmget 5 7 5000 true noErr, .shmatFind 0, .shmatHold 0 0, .shmatFile 0 0, .mmap ⟨0, 0⟩,
      .mmapped ⟨0, 0⟩ false, .vmaOpen ⟨0, 0⟩, .rmid 0]
    (fun s => decide (s.nattch 0 = 3 ∧ s.dest 0 = true ∧ s.ns.shmTot = 2)) (by decide +kernel)
  exact ⟨s, hrun, (segment_lifetime hrun).1.nattch 0, of_decide_eq_true hs⟩

end DroidLkm.Shm.Life
