/-
  SysV shared memory — what the attach counts count.

  * `Change`: what a creation, a removal or `ipc_set_key_private` does to the table;
  * `Base`: the attach counts are right and all that is held is there; `Inv`: and a
    segment that is marked is attached;
  * `Inv.open`, `Inv.close`, `Inv.shmatEnd` and others: what is held changes.
-/
import DroidLkm.Shm.Lifetime

namespace DroidLkm.Shm.Life

open Machine Ids Ids.Quotas IpcIds

variable {b : Build} {s s' : St} {ids ids' : IpcIds} {o : Option ℕ} {sfd : Sfd}
  {id key : ℤ} {p q i idx : ℕ}

/-! ## Changes of the table -/

/-- What a step does to the segments that there were: `o` is removed. -/
structure Change (ids ids' : IpcIds) (o : Option ℕ) : Prop where
  fresh : ids.fresh ≤ ids'.fresh
  find : ∀ i q, q < ids.fresh →
    (ids'.idr.find i = some q ↔ ids.idr.find i = some q ∧ o ≠ some q)
  deleted : ∀ q, q < ids.fresh →
    ((ids'.perm q).deleted = true ↔ (ids.perm q).deleted = true ∨ o = some q)
  key : ∀ q, q < ids.fresh →
    (ids'.perm q).key = (ids.perm q).key ∨ (ids'.perm q).key = IPC_PRIVATE

/-- Nothing is removed, and the segments that there were keep what they have. -/
theorem Change.of_same (hfresh : ids.fresh ≤ ids'.fresh)
    (hfind : ∀ i q, q < ids.fresh → (ids'.idr.find i = some q ↔ ids.idr.find i = some q))
    (hperm : ∀ q, q < ids.fresh → ids'.perm q = ids.perm q) : Change ids ids' none where
  fresh := hfresh
  find := fun i q hq => by simp [hfind i q hq]
  deleted := fun q hq => by simp [hperm q hq]
  key := fun q hq => .inl (congrArg Perm.key (hperm q hq))

theorem newPerm_perm (hq : q < ids.fresh) (key : ℤ) : (ids.newPerm key).perm q = ids.perm q :=
  Function.update_of_ne (Nat.ne_of_lt hq) _ _

theorem Change.failed (hf : Failed b.limits (ids.newPerm key) ids' ids.fresh) :
    Change ids ids' none := by
  refine Change.of_same ?_ (fun i q _ => ?_) fun q hq => ?_
  · rw [hf.fresh]
    exact Nat.le_succ _
  · rw [Idr.find, hf.slots]
    exact Iff.rfl
  · rw [hf.perm q (Nat.ne_of_lt hq), newPerm_perm hq]

theorem Change.inserted (hi : Inserted b.limits (ids.newPerm key) ids' ids.fresh idx) :
    Change ids ids' none := by
  refine Change.of_same ?_ (fun i q hq => ?_) fun q hq => ?_
  · rw [hi.fresh]
    exact Nat.le_succ _
  · rw [hi.idr, Idr.find_insert]
    split
    next h =>
      have hfree : ids.idr.find i = none := h ▸ hi.free
      rw [hfree]
      simp [Nat.ne_of_gt hq]
    · exact Iff.rfl
  · rw [hi.perm, Function.update_of_ne (Nat.ne_of_lt hq), newPerm_perm hq]

theorem Change.removed (hs : Stamped b.limits ids) (hi : ids.idr.find idx = some p) :
    Change ids (ids.ipcRmid b.limits p) (some p) := by
  obtain ⟨-, hlt, -, hid⟩ := hs.found idx p hi
  have hr : Removed ids (ids.ipcRmid b.limits p) p idx :=
    ipcRmid_removed (by rw [hid]; exact toIdx_mkId hlt)
  refine ⟨Nat.le_of_eq hr.fresh.symm, fun i q _ => ?_, fun q _ => ?_, fun q _ => ?_⟩
  · rw [hr.idr, Idr.find_remove]
    split
    next h =>
      subst h
      rw [hi]
      simp
    next h =>
      refine ⟨fun hq => ⟨hq, ?_⟩, And.left⟩
      rintro ⟨⟩
      -- it has one index only
      obtain ⟨-, hlt', -, hid'⟩ := hs.found i p hq
      rw [hid] at hid'
      have := congrArg b.limits.toIdx hid'
      rw [toIdx_mkId hlt, toIdx_mkId hlt'] at this
      exact h this.symm
  · rw [hr.perm]
    by_cases hq : q = p
    · simp [hq]
    · simp [hq, Ne.symm hq]
  · rw [hr.perm]
    by_cases hq : q = p
    · simp [hq]
    · simp [hq]

theorem Change.private : Change ids (ids.ipcSetKeyPrivate p) none := by
  have hidr : (ids.ipcSetKeyPrivate p).idr = ids.idr ∧
      (ids.ipcSetKeyPrivate p).fresh = ids.fresh := by
    unfold ipcSetKeyPrivate ipcKhtRemove
    split <;> exact ⟨rfl, rfl⟩
  have hperm : (ids.ipcSetKeyPrivate p).perm =
      Function.update ids.perm p { ids.perm p with key := IPC_PRIVATE } := by
    unfold ipcSetKeyPrivate ipcKhtRemove
    split <;> rfl
  refine ⟨Nat.le_of_eq hidr.2.symm, fun i q _ => ?_, fun q _ => ?_, fun q _ => ?_⟩
  · rw [hidr.1]
    simp
  · rw [hperm]
    by_cases hq : q = p
    · simp [hq]
    · simp [hq]
  · rw [hperm]
    by_cases hq : q = p
    · simp [hq]
    · simp [hq]

/-! ## The invariant -/

/-- A reference to a segment, which may have been removed since. -/
def Kept (ids : IpcIds) (i p : ℕ) : Prop :=
  p < ids.fresh ∧ ((ids.perm p).deleted = true ∨ ids.idr.find i = some p)

theorem Kept.change (h : Kept ids i p) (hc : Change ids ids' o) : Kept ids' i p := by
  obtain ⟨hlt, hk⟩ := h
  refine ⟨Nat.lt_of_lt_of_le hlt hc.fresh, ?_⟩
  rw [hc.deleted p hlt, hc.find i p hlt]
  tauto

/-- What is counted and what is held. -/
structure Base (b : Build) (s : St) : Prop where
  sound : Sound b s.ns
  booked : Booked s.ns.shm
  valid : ∀ i p, s.ns.shm.idr.find i = some p → s.valid p = true
  paged : ∀ i p, s.ns.shm.idr.find i = some p →
    Ns.numpages b (s.ns.segsz p) = pages b (s.ns.segsz p)
  nattch : ∀ p, s.nattch p = s.attached p + s.inFlight p
  vma : ∀ v ∈ s.vmas, s.ns.shm.idr.find (b.limits.toIdx v.sfd.id) = some v.sfd.file
  call : ∀ x ∈ s.calls, ∀ id p, x = .held id p ∨ x = .opened id p →
    s.ns.shm.idr.find (b.limits.toIdx id) = some p
  found : ∀ id p, .found id p ∈ s.calls → Kept s.ns.shm (b.limits.toIdx id) p
  exits : ∀ p ∈ s.exits, ∃ i, Kept s.ns.shm i p
  clist : ∀ t, ∀ p ∈ s.clist t, s.ns.shm.live p = true ∧ s.creator p = t
  dest : ∀ p, s.ns.shm.live p = true → s.dest p = true → (s.ns.shm.perm p).key = IPC_PRIVATE

/-- And what is marked is attached. -/
structure Inv (b : Build) (s : St) : Prop extends Base b s where
  marked : ∀ p, s.ns.shm.live p = true → s.dest p = true → 0 < s.nattch p

theorem Base.stamped (h : Base b s) : Stamped b.limits s.ns.shm := h.sound.segs.stamped

theorem Base.lt (h : Base b s) (hi : s.ns.shm.idr.find i = some p) : p < s.ns.shm.fresh :=
  (h.stamped.found i p hi).1

theorem Base.live_lt (h : Base b s) (hp : s.ns.shm.live p = true) : p < s.ns.shm.fresh := by
  obtain ⟨i, hi⟩ := live_iff.1 hp
  exact h.lt hi

theorem Base.shmLock (h : Base b s) :
    s.shmLock b id = some p ↔ s.ns.shm.idr.find (b.limits.toIdx id) = some p := by
  unfold St.shmLock ipcObtainObjectIdr
  cases hf : s.ns.shm.idr.find (b.limits.toIdx id) with
  | none => exact iff_of_false (fun h => by cases h) (fun h => by cases h)
  | some q =>
    dsimp only
    rw [if_pos (h.valid _ q hf)]

theorem attached_pos {v : Vma} (hv : v ∈ s.vmas) : 0 < s.attached v.sfd.file :=
  List.countP_pos_iff.2 ⟨v, hv, beq_self_eq_true _⟩

theorem inFlight_pos {x : Call} (hx : x ∈ s.calls) (hp : x.holds p = true) : 0 < s.inFlight p :=
  List.countP_pos_iff.2 ⟨x, hx, hp⟩

/-- A segment that is not there is held by none. -/
theorem Base.gone (h : Base b s) (hp : s.ns.shm.live p = false) : s.nattch p = 0 := by
  have hno : ∀ i, s.ns.shm.idr.find i ≠ some p := by
    intro i hi
    cases (live_iff.2 ⟨i, hi⟩).symm.trans hp
  have hvmas : s.attached p = 0 := by
    refine List.countP_eq_zero.2 fun v hv hf => hno (b.limits.toIdx v.sfd.id) ?_
    rw [h.vma v hv]
    exact congrArg some (beq_iff_eq.1 hf)
  have hcalls : s.inFlight p = 0 := by
    refine List.countP_eq_zero.2 fun x hx hf => ?_
    cases x with
    | found => cases hf
    | held id r | opened id r =>
      refine hno (b.limits.toIdx id) ?_
      rw [h.call _ hx id r (by simp)]
      exact congrArg some (beq_iff_eq.1 hf)
  rw [h.nattch, hvmas, hcalls]

/-- **A change of the table** that removes only what is held by none. -/
theorem Base.change (h : Base b s) (hc : Change s.ns.shm s'.ns.shm o)
    (hgone : ∀ p, o = some p → s.nattch p = 0) (hsound : Sound b s'.ns)
    (hbooked : Booked s'.ns.shm) (hvmas : s'.vmas = s.vmas) (hcalls : s'.calls = s.calls)
    (hexits : s'.exits = s.exits) (hnattch : ∀ p, s'.nattch p = s.nattch p)
    (hsegsz : ∀ p, p < s.ns.shm.fresh → s'.ns.segsz p = s.ns.segsz p)
    (hnew : ∀ i p, s.ns.shm.fresh ≤ p → s'.ns.shm.idr.find i = some p → s'.valid p = true ∧
      Ns.numpages b (s'.ns.segsz p) = pages b (s'.ns.segsz p))
    (hclist : ∀ t, ∀ p ∈ s'.clist t, s'.ns.shm.live p = true ∧ s'.creator p = t)
    (hdest : ∀ p, s'.ns.shm.live p = true → s'.dest p = true →
      (s'.ns.shm.perm p).key = IPC_PRIVATE) : Base b s' := by
  have hback : ∀ i p, p < s.ns.shm.fresh → s'.ns.shm.idr.find i = some p →
      s.ns.shm.idr.find i = some p ∧ o ≠ some p := fun i p hlt hi => (hc.find i p hlt).1 hi
  have hstay : ∀ i p, s.ns.shm.idr.find i = some p → 0 < s.nattch p →
      s'.ns.shm.idr.find i = some p := by
    intro i p hi hpos
    refine (hc.find i p (h.lt hi)).2 ⟨hi, fun hg => ?_⟩
    rw [hgone p hg] at hpos
    exact absurd hpos (Nat.lt_irrefl 0)
  refine ⟨hsound, hbooked, fun i p hi => ?_, fun i p hi => ?_, fun p => ?_, fun v hv => ?_,
    fun x hx id p hxp => ?_, fun id p hx => ?_, fun p hp => ?_, hclist, hdest⟩
  · by_cases hlt : p < s.ns.shm.fresh
    · obtain ⟨hi', hg⟩ := hback i p hlt hi
      have hv := h.valid i p hi'
      unfold St.valid at hv ⊢
      rw [Bool.not_eq_true'] at hv ⊢
      rw [Bool.eq_false_iff, Ne, hc.deleted p hlt, hv]
      exact not_or.2 ⟨Bool.false_ne_true, hg⟩
    · exact (hnew i p (Nat.le_of_not_lt hlt) hi).1
  · by_cases hlt : p < s.ns.shm.fresh
    · rw [hsegsz p hlt]
      exact h.paged i p (hback i p hlt hi).1
    · exact (hnew i p (Nat.le_of_not_lt hlt) hi).2
  · rw [hnattch, h.nattch, St.attached, St.inFlight, ← hvmas, ← hcalls]
    rfl
  · rw [hvmas] at hv
    refine hstay _ _ (h.vma v hv) ?_
    rw [h.nattch]
    exact Nat.lt_of_lt_of_le (attached_pos hv) (Nat.le_add_right _ _)
  · rw [hcalls] at hx
    refine hstay _ _ (h.call x hx id p hxp) ?_
    rw [h.nattch]
    refine Nat.lt_of_lt_of_le (inFlight_pos hx ?_) (Nat.le_add_left _ _)
    rcases hxp with rfl | rfl
    · exact beq_self_eq_true _
    · exact beq_self_eq_true _
  · rw [hcalls] at hx
    exact (h.found id p hx).change hc
  · rw [hexits] at hp
    obtain ⟨i, hi⟩ := h.exits p hp
    exact ⟨i, hi.change hc⟩

/-! ## Removal -/

theorem live_change (hc : Change ids ids' o) (hq : q < ids.fresh) :
    ids'.live q = true ↔ ids.live q = true ∧ o ≠ some q := by
  rw [live_iff, live_iff]
  simp only [hc.find _ q hq]
  exact exists_and_right

/-- **`shm_destroy`** of a segment that is held by none. -/
theorem Base.shmDestroy (h : Base b s) (hp : s.ns.shm.live p = true) (h0 : s.nattch p = 0) :
    Base b (s.shmDestroy b p) ∧
      ∀ q, (s.shmDestroy b p).ns.shm.live q = true → q ≠ p ∧ s.ns.shm.live q = true := by
  obtain ⟨idx, hidx⟩ := live_iff.1 hp
  obtain ⟨-, hlt, -, hid⟩ := h.stamped.found idx p hidx
  have hr : Removed s.ns.shm (s.ns.shm.ipcRmid b.limits p) p idx :=
    ipcRmid_removed (by rw [hid]; exact toIdx_mkId hlt)
  have hc := Change.removed h.stamped hidx
  have hsound := h.sound.shmDestroy hp
  have hold : ∀ i q, (s.ns.shm.ipcRmid b.limits p).idr.find i = some q → q < s.ns.shm.fresh := by
    intro i q hi
    rw [← hr.fresh]
    exact (hsound.segs.stamped.found i q hi).1
  have hlive : ∀ q, (s.ns.shm.ipcRmid b.limits p).live q = true →
      s.ns.shm.live q = true ∧ some p ≠ some q := by
    intro q hq
    obtain ⟨i, hi⟩ := live_iff.1 hq
    exact (live_change hc (hold i q hi)).1 hq
  refine ⟨h.change hc (fun q hq => by cases hq; exact h0) hsound
    (h.booked.removed h.stamped hidx hr) rfl rfl rfl (fun _ => rfl) (fun _ _ => rfl)
    (fun i q hq hi => absurd (hold i q hi) (Nat.not_lt.2 hq)) (fun t q hq => ?_)
    (fun q hq hd => ?_), fun q hq => ⟨fun he => (hlive q hq).2 (congrArg some he.symm),
      (hlive q hq).1⟩⟩
  · have hmem : q ∈ s.clist t ∧ q ≠ p := by
      change q ∈ Function.update s.clist (s.creator p) _ t at hq
      rw [Function.update_apply] at hq
      split at hq
      next ht =>
        obtain ⟨hq, hne⟩ := List.mem_filter.1 hq
        exact ⟨ht ▸ hq, bne_iff_ne.1 hne⟩
      next ht =>
        refine ⟨hq, ?_⟩
        rintro rfl
        exact ht (h.clist t q hq).2.symm
    obtain ⟨hql, hqc⟩ := h.clist t q hmem.1
    exact ⟨(live_change hc (h.live_lt hql)).2
      ⟨hql, fun he => hmem.2 (Option.some.inj he).symm⟩, hqc⟩
  · obtain ⟨hql, -⟩ := hlive q hq
    rcases hc.key q (h.live_lt hql) with hk | hk
    · exact hk.trans (h.dest q hql hd)
    · exact hk

/-- A segment that may be destroyed is. -/
theorem Base.settle (h : Base b s) (hp : s.ns.shm.live p = true)
    (hm : ∀ q, q ≠ p → s.ns.shm.live q = true → s.dest q = true → 0 < s.nattch q) :
    Inv b (s.settle b p) := by
  unfold St.settle
  split
  next hd =>
    unfold St.shmMayDestroy at hd
    obtain ⟨h0, -⟩ := (Bool.and_eq_true_iff ..).1 hd
    obtain ⟨hB, hlive⟩ := h.shmDestroy hp (beq_iff_eq.1 h0)
    exact ⟨hB, fun q hq hdq => hm q (hlive q hq).1 (hlive q hq).2 hdq⟩
  next hd =>
    refine ⟨h, fun q hq hdq => ?_⟩
    by_cases hqp : q = p
    · subst hqp
      unfold St.shmMayDestroy at hd
      rw [hdq, Bool.or_true, Bool.and_true] at hd
      exact Nat.pos_of_ne_zero fun h0 => hd (beq_iff_eq.2 h0)
    · exact hm q hqp hq hdq

/-! ## Attachments -/

theorem setNattch_nattch (s : St) (p n q : ℕ) :
    (s.setNattch p n).nattch q = if q = p then n else s.nattch q := Function.update_apply ..

/-- Who holds what changes, and the counts with it. -/
theorem Base.hold (h : Base b s) {f : ℕ → ℕ} {vs : List Vma} {cs : List Call}
    (hvma : ∀ v ∈ vs, v ∈ s.vmas ∨
      s.ns.shm.idr.find (b.limits.toIdx v.sfd.id) = some v.sfd.file)
    (hcall : ∀ x ∈ cs, x ∈ s.calls ∨ ∀ id p, x = .held id p ∨ x = .opened id p →
      s.ns.shm.idr.find (b.limits.toIdx id) = some p)
    (hfound : ∀ id p, .found id p ∈ cs → .found id p ∈ s.calls ∨
      Kept s.ns.shm (b.limits.toIdx id) p)
    (hn : ∀ p, f p = vs.countP (fun v => v.sfd.file == p) + cs.countP fun x => x.holds p)
    (fs : List Sfd) : Base b { s with nattch := f, vmas := vs, calls := cs, files := fs } :=
  ⟨h.sound, h.booked, h.valid, h.paged, hn, fun v hv => (hvma v hv).elim (h.vma v) id,
    fun x hx => (hcall x hx).elim (h.call x) id,
    fun i p hx => (hfound i p hx).elim (h.found i p) id, h.exits, h.clist, h.dest⟩

theorem countP_erase {α : Type} [DecidableEq α] {l : List α} {x : α} (hx : x ∈ l) (f : α → Bool) :
    l.countP f = (l.erase x).countP f + if f x then 1 else 0 := by
  rw [(List.perm_cons_erase hx).countP_eq, List.countP_cons]

theorem Base.shmClose (h : Base b s) {v : Vma} (hv : v ∈ s.vmas) :
    s.shmClose b v.sfd = s.detach b v.sfd.file := by
  unfold St.shmClose
  rw [h.shmLock.2 (h.vma v hv)]

theorem Base.shmOpen (h : Base b s) : s.shmOpen b sfd = some s' ↔
    s.ns.shm.idr.find (b.limits.toIdx sfd.id) = some sfd.file ∧
      s' = s.setNattch sfd.file (s.nattch sfd.file + 1) := by
  unfold St.shmOpen
  cases hl : s.shmLock b sfd.id with
  | none =>
    refine iff_of_false (fun hf => by cases hf) (fun hf => ?_)
    cases hl.symm.trans (h.shmLock.2 hf.1)
  | some p =>
    rw [h.shmLock.1 hl]
    dsimp only
    by_cases hp : p = sfd.file
    · subst hp
      simp [eq_comm]
    · simp [hp]

/-- A mapping is counted. -/
theorem Inv.open (h : Inv b s)
    (hf : s.ns.shm.idr.find (b.limits.toIdx sfd.id) = some sfd.file) (m : Bool) :
    Inv b { s.setNattch sfd.file (s.nattch sfd.file + 1) with vmas := ⟨sfd, m⟩ :: s.vmas } := by
  refine ⟨h.toBase.hold (fun v hv => ?_) (fun x hx => .inl hx) (fun _ _ hx => .inl hx) (fun p => ?_)
    s.files, fun p hp hd => ?_⟩
  · rcases List.mem_cons.1 hv with rfl | hv
    · exact .inr hf
    · exact .inl hv
  · have hn := h.nattch p
    unfold St.attached St.inFlight at hn
    rw [List.countP_cons, setNattch_nattch]
    by_cases hp : p = sfd.file
    · subst hp
      simp only [if_true, beq_self_eq_true]
      omega
    · rw [if_neg hp, hn]
      simp [Ne.symm hp]
  · have hpos := h.marked p hp hd
    dsimp only
    rw [setNattch_nattch]
    split
    · exact Nat.succ_pos _
    · exact hpos

/-- One that held the segment holds it no more. -/
theorem Inv.release (h : Inv b s) {vs : List Vma} {cs : List Call}
    (hp : s.ns.shm.live p = true) (hvs : ∀ v ∈ vs, v ∈ s.vmas) (hcs : ∀ x ∈ cs, x ∈ s.calls)
    (hn : ∀ q, s.nattch q = vs.countP (fun v => v.sfd.file == q) + cs.countP (fun x => x.holds q) +
      if p == q then 1 else 0) :
    Inv b { s.detach b p with vmas := vs, calls := cs } := by
  have hB : Base b { s.setNattch p (s.nattch p - 1) with vmas := vs, calls := cs } := by
    refine h.toBase.hold (fun v hv => .inl (hvs v hv)) (fun x hx => .inl (hcs x hx))
      (fun _ _ hx => .inl (hcs _ hx)) (fun q => ?_) s.files
    have hq := hn q
    rw [setNattch_nattch]
    by_cases he : q = p
    · subst he
      rw [if_pos (beq_self_eq_true q)] at hq
      rw [if_pos rfl]
      omega
    · rw [if_neg (by simpa using Ne.symm he)] at hq
      rw [if_neg he]
      exact hq
  have hset : { s.detach b p with vmas := vs, calls := cs } =
      St.settle b { s.setNattch p (s.nattch p - 1) with vmas := vs, calls := cs } p := by
    unfold St.detach St.settle
    split
    next hd => exact (if_pos hd).symm
    next hd => exact (if_neg hd).symm
  rw [hset]
  refine hB.settle hp fun q hq hl hd => ?_
  dsimp only
  rw [setNattch_nattch, if_neg hq]
  exact h.marked q hl hd

theorem detach_held (b : Build) (s : St) (p : ℕ) :
    (s.detach b p).vmas = s.vmas ∧ (s.detach b p).calls = s.calls := by
  unfold St.detach St.settle
  split <;> exact ⟨rfl, rfl⟩

/-- A mapping goes. -/
theorem Inv.close (h : Inv b s) {v : Vma} (hv : v ∈ s.vmas) :
    Inv b { s.shmClose b v.sfd with vmas := s.vmas.erase v } := by
  rw [h.shmClose hv]
  have key : Inv b { s.detach b v.sfd.file with vmas := s.vmas.erase v, calls := s.calls } := by
    refine h.release (live_iff.2 ⟨_, h.vma v hv⟩) (fun w hw => List.mem_of_mem_erase hw)
      (fun x hx => hx) fun q => ?_
    rw [h.nattch, St.attached, countP_erase hv, St.inFlight]
    omega
  rwa [← (detach_held b s v.sfd.file).2] at key

/-! ## `do_shmat` -/

theorem obtain_find (h : ids.ipcObtainObjectCheck b.limits id = .ok p) :
    ids.idr.find (b.limits.toIdx id) = some p := by
  unfold ipcObtainObjectCheck ipcObtainObjectIdr at h
  cases hf : ids.idr.find (b.limits.toIdx id) with
  | none =>
    rw [hf] at h
    cases h
  | some q =>
    rw [hf] at h
    dsimp only at h
    split at h
    · cases h
    · cases h
      rfl

/-- A call goes on, and holds what it held. -/
theorem Inv.setCalls (h : Inv b s) {cs : List Call}
    (hcs : ∀ x ∈ cs, x ∈ s.calls ∨ ∀ id p, x = .held id p ∨ x = .opened id p →
      s.ns.shm.idr.find (b.limits.toIdx id) = some p)
    (hfound : ∀ id p, .found id p ∈ cs → .found id p ∈ s.calls ∨
      Kept s.ns.shm (b.limits.toIdx id) p)
    (hn : ∀ p, cs.countP (fun x => x.holds p) = s.inFlight p) (fs : List Sfd) :
    Inv b { s with calls := cs, files := fs } := by
  refine ⟨h.toBase.hold (fun v hv => .inl hv) hcs hfound (fun p => ?_) fs, h.marked⟩
  rw [hn]
  exact h.nattch p

theorem Inv.shmatFind (h : Inv b s) (hp : s.ns.shm.ipcObtainObjectCheck b.limits id = .ok p) :
    Inv b { s with calls := .found id p :: s.calls } := by
  refine h.setCalls (fun x hx => ?_) (fun i q hx => ?_) (fun q => ?_) s.files
  · rcases List.mem_cons.1 hx with rfl | hx
    · exact .inr (by simp)
    · exact .inl hx
  · rcases List.mem_cons.1 hx with hx | hx
    · cases hx
      have hi := obtain_find hp
      exact .inr ⟨h.lt hi, .inr hi⟩
    · exact .inl hx
  · exact List.countP_cons_of_neg (by simp [Call.holds])

/-- What a call has found and what is still valid is there. -/
theorem Kept.find (hk : Kept s.ns.shm i p) (hv : s.valid p = true) :
    s.ns.shm.idr.find i = some p := by
  unfold St.valid at hv
  rw [Bool.not_eq_true'] at hv
  refine hk.2.resolve_left ?_
  rw [hv]
  exact Bool.false_ne_true

theorem Inv.shmatHold (h : Inv b s) (hx : .found id p ∈ s.calls) (hv : s.valid p = true) :
    Inv b { s.setNattch p (s.nattch p + 1) with
      calls := .held id p :: s.calls.erase (.found id p) } := by
  have hfind := (h.found id p hx).find hv
  have hcount : ∀ q, s.inFlight q = (s.calls.erase (.found id p)).countP fun x => x.holds q := by
    intro q
    rw [St.inFlight, countP_erase hx]
    exact Nat.add_zero _
  refine ⟨h.toBase.hold (fun v hv => .inl hv) (fun x hx => ?_) (fun i q hx => ?_) (fun q => ?_)
    s.files, fun q hq hd => ?_⟩
  · rcases List.mem_cons.1 hx with rfl | hx
    · refine .inr fun i q hq => ?_
      rcases hq with hq | hq
      · cases hq
        exact hfind
      · cases hq
    · exact .inl (List.mem_of_mem_erase hx)
  · rcases List.mem_cons.1 hx with hx | hx
    · cases hx
    · exact .inl (List.mem_of_mem_erase hx)
  · have hn := h.nattch q
    rw [hcount] at hn
    unfold St.attached at hn
    rw [List.countP_cons, setNattch_nattch]
    by_cases hq : q = p
    · subst hq
      rw [if_pos rfl, if_pos (show (Call.held id q).holds q = true from beq_self_eq_true q)]
      omega
    · rw [if_neg hq, if_neg (show ¬(Call.held id p).holds q = true from by
        simpa [Call.holds] using Ne.symm hq)]
      exact hn
  · have hpos := h.marked q hq hd
    dsimp only
    rw [setNattch_nattch]
    split
    · exact Nat.succ_pos _
    · exact hpos

theorem Inv.shmatDrop (h : Inv b s) (hx : .found id p ∈ s.calls) :
    Inv b { s with calls := s.calls.erase (.found id p) } := by
  refine h.setCalls (fun x hx => .inl (List.mem_of_mem_erase hx))
    (fun _ _ hx => .inl (List.mem_of_mem_erase hx)) (fun q => ?_) s.files
  rw [St.inFlight, countP_erase hx]
  exact (Nat.add_zero _).symm

theorem Inv.shmatFile (h : Inv b s) (hx : .held id p ∈ s.calls) (fs : List Sfd) :
    Inv b { s with calls := .opened id p :: s.calls.erase (.held id p), files := fs } := by
  refine h.setCalls (fun x hx' => ?_) (fun i q hx' => ?_) (fun q => ?_) fs
  · rcases List.mem_cons.1 hx' with rfl | hx'
    · refine .inr fun i q hq => ?_
      rcases hq with hq | hq
      · cases hq
      · cases hq
        exact h.call _ hx id p (.inl rfl)
    · exact .inl (List.mem_of_mem_erase hx')
  · rcases List.mem_cons.1 hx' with hx' | hx'
    · cases hx'
    · exact .inl (List.mem_of_mem_erase hx')
  · rw [St.inFlight, countP_erase hx, List.countP_cons]
    rfl

/-- **The end of a call** finds its segment. -/
theorem Inv.shmatEnd (h : Inv b s) {x : Call} (hx : x ∈ s.calls)
    (hxp : x = .held id p ∨ x = .opened id p) :
    s.shmLock b id = some p ∧ Inv b { s.detach b p with calls := s.calls.erase x } := by
  have hfind := h.toBase.call x hx id p hxp
  refine ⟨h.shmLock.2 hfind, ?_⟩
  have key : Inv b { s.detach b p with vmas := s.vmas, calls := s.calls.erase x } := by
    refine h.release (live_iff.2 ⟨_, hfind⟩) (fun v hv => hv)
      (fun y hy => List.mem_of_mem_erase hy) fun q => ?_
    have hholds : x.holds q = (p == q) := by
      rcases hxp with rfl | rfl
      · rfl
      · rfl
    rw [h.nattch, St.inFlight, countP_erase hx, hholds, St.attached]
    omega
  rwa [← (detach_held b s p).1] at key

end DroidLkm.Shm.Life
