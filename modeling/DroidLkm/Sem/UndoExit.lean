/-
  Undo lists — the loop of `droid_lkm_exit_sem_impl`.

  * `Passes`: a task in the loop goes on, among steps of others, none of which begins an
    `IPC_RMID`; `Ends`: it does not go on for ever, is never held up, and leaves an empty
    list all of whose entries have been freed once;
  * `Local`: what a step of one task leaves of the lists of the others;
  * `rank`: how many steps of the loop are left, `rank_own`: each step is one less;
  * `exit_sem_ends`: the loop ends in runs of `Settled` steps.
-/
import DroidLkm.Sem.UndoMatch

namespace DroidLkm.Sem.Undo

open Ids IpcIds Machine

variable {w w' u v : World} {t n sma ulp un k : ℕ} {semid : ℤ} {sops : List Sembuf} {o : Option ℕ}
  {stage : Stage} {next : Next} {cfg : Config} {act : Act} {b : Bool} {C : World → Act → Prop}

/-- The task whose step it is. -/
def Act.task : Act → Option ℕ
  | .semget t _ _ | .semop t _ _ _ _ | .setns t _ | .unshare t _ _ | .unshare32 t _ _ | .exit t
  | .run t _ => some t
  | .rmid _ _ | .rmidUndo _ _ | .rmidEnd _ => none

/-- It begins an `IPC_RMID`. -/
def Act.removes : Act → Bool
  | .rmid _ _ => true
  | _ => false

/-- The task is in the loop over the list `ulp`. -/
def InLoop (w : World) (t ulp : ℕ) : Prop := ∃ n stage next, w.pc t = .loop n ulp stage next

/-- No `IPC_RMID` is going on. -/
def Quiet (w : World) : Prop := ∀ n, w.removing n = none

/-- The task makes `k` steps of the loop over `ulp` and no other step, while other tasks do
    what `C` allows and no `IPC_RMID` is begun. -/
inductive Passes (C : World → Act → Prop) (t ulp : ℕ) : ℕ → World → World → Prop
  | refl (w : World) : Passes C t ulp 0 w w
  | own {k : ℕ} {w u v : World} {b : Bool} : Passes C t ulp k w u → InLoop u t ulp →
    step u (.run t b) = some v → Passes C t ulp (k + 1) w v
  | other {k : ℕ} {w u v : World} {act : Act} : Passes C t ulp k w u → act.task ≠ some t →
    act.removes = false → C u act → step u act = some v → Passes C t ulp k w v

/-- The list is empty, and each entry that was on it is off its array and was freed once. -/
def Clean (w : World) (ulp : ℕ) : Prop :=
  w.list ulp = [] ∧ ∀ un < w.nextUndo, (w.undo un).ulp = ulp →
    (w.undo un).linked = false ∧ (w.undo un).freed = 1

/-- The loop ends once no `IPC_RMID` is going on, and has cleaned up when it does. -/
structure Ends (C : World → Act → Prop) (w : World) (t ulp : ℕ) : Prop where
  bounded : Quiet w → ∃ most, ∀ k v, Passes C t ulp k w v → k ≤ most
  enabled : Quiet w → ∀ k v, Passes C t ulp k w v → InLoop v t ulp →
    ∀ b, (step v (.run t b)).isSome = true
  clean : ∀ b v, step w (.run t b) = some v → ¬InLoop v t ulp → Clean v ulp
  freed : ∀ un < w.nextUndo, (w.undo un).freed ≤ 1

/-! ## A step of one task -/

/-- What a step of the task `t` leaves, of lists and tables where the invariant holds. -/
structure Local (t : ℕ) (w w' : World) : Prop where
  cfg : w'.cfg = w.cfg
  removing : w'.removing = w.removing
  pc : ∀ u, u ≠ t → w'.pc u = w.pc u
  list : Inv w → ∀ ulp < w.nextUlp, w.owner ulp ≠ t → w'.list ulp = w.list ulp
  semid : ∀ un < w.nextUndo, (w'.undo un).semid = (w.undo un).semid
  deleted : Inv w → ∀ n, ∀ p < (w.ids n).fresh,
    (w'.perm n p).deleted = (w.perm n p).deleted

/-- Only the list of the task, and where it is, may change. -/
theorem Local.of_ids (hcfg : w'.cfg = w.cfg) (hr : w'.removing = w.removing)
    (hids : w'.ids = w.ids) (hpc : ∀ u, u ≠ t → w'.pc u = w.pc u)
    (hlist : Inv w → ∀ ulp < w.nextUlp, w.owner ulp ≠ t → w'.list ulp = w.list ulp)
    (hsemid : ∀ un < w.nextUndo, (w'.undo un).semid = (w.undo un).semid) : Local t w w' := by
  refine ⟨hcfg, hr, hpc, hlist, hsemid, fun _ n p _ => ?_⟩
  unfold World.perm
  rw [hids]

theorem local_setPc (w : World) (t : ℕ) (x : Pc) : Local t w (w.setPc t x) :=
  .of_ids rfl rfl rfl (fun _ hu => Function.update_of_ne hu _ _) (fun _ _ _ _ => rfl)
    fun _ _ => rfl

theorem local_toFront (hm : Inv w → Mine w t ulp) (x : Pc) :
    Local t w ((w.toFront ulp un).setPc t x) := by
  refine .of_ids rfl rfl rfl (fun _ hu => Function.update_of_ne hu _ _) (fun h l _ hne => ?_)
    fun _ _ => rfl
  refine Function.update_of_ne ?_ _ _
  rintro rfl
  exact hne (hm h).owner

theorem Local.semop (noMem noEntry : Bool) :
    Local t w (w.semop t semid sops noMem noEntry) := by
  have hrefl : Local t w w :=
    .of_ids rfl rfl rfl (fun _ _ => rfl) (fun _ _ _ _ => rfl) fun _ _ => rfl
  unfold World.semop World.getUndoList
  split
  · exact hrefl
  split
  · exact local_setPc w t _
  cases hl : w.undoList t with
  | some ulp =>
    dsimp only
    split
    · exact local_toFront (fun h => h.undoList t ulp hl) _
    · exact local_setPc w t _
  | none =>
    cases noMem with
    | true => exact hrefl
    | false =>
      -- a new list, on which nothing is found
      have hnew : ∀ l < w.nextUlp, Function.update w.list w.nextUlp [] l = w.list l :=
        fun l hlt => Function.update_of_ne (Nat.ne_of_lt hlt) _ _
      simp only [Bool.false_eq_true, if_false]
      split
      next un hun =>
        have hmem := List.mem_of_find?_eq_some hun
        rw [show (w.setList w.nextUlp []).list w.nextUlp = [] from Function.update_self ..] at hmem
        cases hmem
      next =>
        exact .of_ids rfl rfl rfl (fun _ hu => Function.update_of_ne hu _ _)
          (fun _ l hlt _ => hnew l hlt) fun _ _ => rfl

theorem Local.allocUndo (hm : Inv w → Mine w t ulp)
    (hs : w.allocUndo t semid sops ulp sma b = some w') : Local t w w' := by
  unfold World.allocUndo at hs
  dsimp only at hs
  split at hs
  · cases hs
    exact local_setPc w t _
  split at hs
  · cases hs
  split at hs
  · cases hs
    exact local_setPc w t _
  split at hs
  · cases hs
    exact local_toFront hm _
  · cases hs
    refine .of_ids rfl rfl rfl (fun _ hu => Function.update_of_ne hu _ _) (fun h l _ hne => ?_)
      fun un hlt => congrArg SemUndo.semid (Function.update_of_ne (Nat.ne_of_lt hlt) _ _)
    refine Function.update_of_ne ?_ _ _
    rintro rfl
    exact hne (hm h).owner

theorem Local.loopStep (hm : Inv w → Mine w t ulp)
    (hs : w.loopStep t n ulp stage next = some w') : Local t w w' := by
  have hsame : ∀ un y, y.semid = (w.undo un).semid → ∀ a,
      (Function.update w.undo un y a).semid = (w.undo a).semid := by
    intro un y hy a
    by_cases ha : a = un
    · subst ha
      rw [Function.update_self]
      exact hy
    · rw [Function.update_of_ne ha]
  unfold World.loopStep at hs
  cases stage with
  | head =>
    dsimp only at hs
    split at hs <;> cases hs <;> exact local_setPc w t _
  | seen un =>
    dsimp only at hs
    split at hs <;> cases hs <;> exact local_setPc w t _
  | read semid =>
    dsimp only at hs
    split at hs <;> cases hs <;> exact local_setPc w t _
  | obtained semid sma =>
    dsimp only at hs
    split at hs
    · cases hs
    split at hs
    · cases hs
      exact local_setPc w t _
    split at hs
    · cases hs
      exact local_setPc w t _
    next un _ =>
      cases hs
      refine .of_ids rfl rfl rfl (fun _ hu => Function.update_of_ne hu _ _) (fun h l _ hne => ?_)
        fun a _ => hsame un { w.undo un with linked := false } rfl a
      refine Function.update_of_ne ?_ _ _
      rintro rfl
      exact hne (hm h).owner
  | unlinked un =>
    cases hs
    exact .of_ids rfl rfl rfl (fun _ hu => Function.update_of_ne hu _ _) (fun _ _ _ _ => rfl)
      fun a _ => hsame un { w.undo un with freed := (w.undo un).freed + 1 } rfl a

theorem local_exitSem (w : World) (t n : ℕ) (next : Next) : Local t w (w.exitSem t n next) := by
  unfold World.exitSem
  split
  · exact local_setPc w t _
  · exact .of_ids rfl rfl rfl (fun _ hu => Function.update_of_ne hu _ _) (fun _ _ _ _ => rfl)
      fun _ _ => rfl

theorem Local.run (hs : w.run t b = some w') : Local t w w' := by
  unfold World.run at hs
  cases hp : w.pc t with
  | user | dead =>
    rw [hp] at hs
    cases hs
  | missed semid sops ulp =>
    rw [hp] at hs
    dsimp only at hs
    split at hs <;> cases hs <;> exact local_setPc w t _
  | sized semid sops ulp sma =>
    rw [hp] at hs
    refine Local.allocUndo (fun h => ?_) hs
    have hpc := h.pc t
    rw [hp] at hpc
    exact hpc.1
  | found semid sops un =>
    rw [hp] at hs
    dsimp only at hs
    split at hs
    · cases hs
      exact local_setPc w t _
    · split at hs <;> cases hs <;> exact local_setPc w t _
  | looked sops un sma =>
    rw [hp] at hs
    unfold World.perform at hs
    dsimp only at hs
    split at hs
    · cases hs
    · split at hs <;> cases hs <;> exact local_setPc w t _
  | asleep arr sops un =>
    rw [hp] at hs
    cases hs
    exact local_setPc w t _
  | unshare flushed events =>
    rw [hp] at hs
    rcases events with - | ⟨- | -, rest⟩
    · cases hs
      exact local_setPc w t _
    · cases hs
      exact local_exitSem w t _ _
    · cases hs
      exact .of_ids rfl rfl rfl (fun _ hu => Function.update_of_ne hu _ _) (fun _ _ _ _ => rfl)
        fun _ _ => rfl
  | exited n =>
    rw [hp] at hs
    cases hs
    exact local_exitSem w t _ _
  | loop n ulp stage next =>
    rw [hp] at hs
    refine Local.loopStep (fun h => ?_) hs
    have hpc := h.pc t
    rw [hp] at hpc
    exact hpc.2.2.1

/-- **A step of one task.** -/
theorem step_local (hs : step w act = some w') (ht : act.task = some t) :
    Local t w w' := by
  have hpcs : ∀ w' : World, w'.cfg = w.cfg → w'.removing = w.removing → w'.ids = w.ids →
      w'.list = w.list → w'.undo = w.undo → (∀ u, u ≠ t → w'.pc u = w.pc u) → Local t w w' := by
    intro w' hc hr hi hl hu hp
    exact .of_ids hc hr hi hp (fun _ _ _ _ => by rw [hl]) fun _ _ => by rw [hu]
  cases act with
  | semget t' a nsems =>
    obtain ⟨-, rfl⟩ := by simpa [step] using hs
    refine ⟨rfl, rfl, fun _ _ => rfl, fun _ _ _ _ => rfl, fun _ _ => rfl, fun h m p hp => ?_⟩
    show ((Function.update w.ids _ _ m).perm p).deleted = ((w.ids m).perm p).deleted
    by_cases hm : m = w.ns t'
    · subst hm
      rw [Function.update_self, ((h.table _).ipcget a).perm p hp]
    · rw [Function.update_of_ne hm]
  | semop t' semid sops noMem noEntry =>
    cases ht
    obtain ⟨-, rfl⟩ := by simpa [step] using hs
    exact Local.semop noMem noEntry
  | setns t' n =>
    obtain ⟨-, rfl⟩ := by simpa [step] using hs
    exact hpcs _ rfl rfl rfl rfl rfl fun _ _ => rfl
  | unshare t' flags e =>
    cases ht
    obtain ⟨-, rfl⟩ := by simpa [step] using hs
    exact local_setPc w t _
  | unshare32 t' flags e =>
    cases ht
    obtain ⟨-, rfl⟩ := by simpa [step] using hs
    exact local_setPc w t _
  | exit t' =>
    cases ht
    obtain ⟨-, rfl⟩ := by simpa [step] using hs
    exact local_setPc w t _
  | run t' b =>
    cases ht
    exact Local.run hs
  | rmid | rmidUndo | rmidEnd => cases ht

theorem quiet_task (hq : Quiet w) (hr : act.removes = false) (hs : step w act = some w') :
    ∃ t, act.task = some t := by
  cases act with
  | rmid n sma => cases hr
  | rmidUndo n un =>
    unfold step at hs
    dsimp only at hs
    rw [hq n] at hs
    cases hs
  | rmidEnd n =>
    unfold step at hs
    dsimp only at hs
    rw [hq n] at hs
    cases hs
  | semget t | semop t | setns t | unshare t | unshare32 t | exit t | run t => exact ⟨t, rfl⟩

theorem step_quiet (hq : Quiet w) (hr : act.removes = false)
    (hs : step w act = some w') : Quiet w' := by
  obtain ⟨t, ht⟩ := quiet_task hq hr hs
  intro n
  rw [(step_local hs ht).removing]
  exact hq n

/-! ## Steps of the loop -/

/-- How many steps of the loop are left.  An entry at the head takes five; where the loop is
    at something that is no longer there, it comes back to the head. -/
def stageRank (w : World) (n ulp : ℕ) : Stage → ℕ
  | .head => 5 * (w.list ulp).length + 1
  | .seen un =>
    if un ∈ w.list ulp then 5 * (w.list ulp).length else 5 * (w.list ulp).length + 4
  | .read semid =>
    if (w.lookup ulp semid).isSome then 5 * (w.list ulp).length - 1
    else 5 * (w.list ulp).length + 3
  | .obtained semid sma =>
    if (w.lookup ulp semid).isSome ∧ (w.perm n sma).deleted = false then
      5 * (w.list ulp).length - 2
    else 5 * (w.list ulp).length + 2
  | .unlinked _ => 5 * (w.list ulp).length + 2

def rank (w : World) (t ulp : ℕ) : ℕ :=
  match w.pc t with
  | .loop n l stage _ => if l = ulp then stageRank w n ulp stage else 0
  | _ => 0

theorem rank_loop (hp : w.pc t = .loop n ulp stage next) :
    rank w t ulp = stageRank w n ulp stage := by
  unfold rank
  rw [hp]
  exact if_pos rfl

theorem lookup_isSome : (w.lookup ulp semid).isSome = true ↔
    ∃ un ∈ w.list ulp, (w.undo un).semid = semid := by
  unfold World.lookup
  rw [List.find?_isSome]
  simp only [beq_iff_eq]

theorem lookup_pos (h : (w.lookup ulp semid).isSome = true) : 0 < (w.list ulp).length := by
  obtain ⟨un, hun, -⟩ := lookup_isSome.1 h
  exact List.length_pos_of_mem hun

theorem stageRank_setPc (x : Pc) (st : Stage) :
    stageRank (w.setPc t x) n ulp st = stageRank w n ulp st := by
  cases st <;> rfl

/-- **A step of the loop** leaves it, from an empty list, or is one less to go. -/
theorem loopStep_cases (h : Inv w) (hpc : w.pc t = .loop n ulp stage next)
    (hs : w.loopStep t n ulp stage next = some w') :
    (stage = .head ∧ w.list ulp = [] ∧ w' = w.setPc t next.pc) ∨
      ∃ stage', w'.pc t = .loop n ulp stage' next ∧
        stageRank w' n ulp stage' < stageRank w n ulp stage := by
  obtain ⟨rfl, -, hmine, hstage⟩ : PcOk w t (.loop n ulp stage next) := hpc ▸ h.pc t
  -- the steps that only go on
  have hgo : ∀ st, stageRank w (w.ns t) ulp st < stageRank w (w.ns t) ulp stage →
      some (w.setPc t (.loop (w.ns t) ulp st next)) = some w' →
      ∃ stage', w'.pc t = .loop (w.ns t) ulp stage' next ∧
        stageRank w' (w.ns t) ulp stage' < stageRank w (w.ns t) ulp stage := by
    intro st hlt he
    cases he
    refine ⟨st, Function.update_self .., ?_⟩
    rw [stageRank_setPc]
    exact hlt
  unfold World.loopStep at hs
  cases stage with
  | head =>
    dsimp only at hs
    split at hs
    next hl =>
      left
      exact ⟨rfl, hl, (Option.some.inj hs).symm⟩
    next un rest hl =>
      refine Or.inr (hgo _ ?_ hs)
      have hmem : un ∈ w.list ulp := by simp [hl]
      simp only [stageRank, if_pos hmem]
      omega
  | seen un =>
    right
    dsimp only at hs
    split at hs
    next hsemid =>
      refine hgo _ ?_ hs
      have hmem : un ∉ w.list ulp := by
        intro hun
        have hnn := (h.table _).nonneg (h.listed ulp un hun).stands
        omega
      simp only [stageRank, if_neg hmem]
      omega
    next hsemid =>
      refine hgo _ ?_ hs
      by_cases hmem : un ∈ w.list ulp
      · have hsome : (w.lookup ulp (w.undo un).semid).isSome = true :=
          lookup_isSome.2 ⟨un, hmem, rfl⟩
        have hpos := lookup_pos hsome
        simp only [stageRank, if_pos hmem, if_pos hsome]
        omega
      · simp only [stageRank, if_neg hmem]
        split <;> omega
  | read semid =>
    right
    dsimp only at hs
    -- what is on the list is found
    have hfind : (w.lookup ulp semid).isSome = true →
        ∃ sma, w.semObtainObjectCheck (w.ns t) semid = .ok sma ∧
          (w.perm (w.ns t) sma).deleted = false := by
      intro hsome
      obtain ⟨un, hmem, rfl⟩ := lookup_isSome.1 hsome
      have hst := (h.listed ulp un hmem).stands
      unfold World.Stands at hst
      rw [hmine.home un hmem] at hst
      exact ⟨_, (h.table _).obtain_eq hst, hst.valid⟩
    split at hs
    next err ho =>
      refine hgo _ ?_ hs
      have hnone : ¬(w.lookup ulp semid).isSome = true := by
        intro hsome
        obtain ⟨sma, hok, -⟩ := hfind hsome
        rw [ho] at hok
        cases hok
      simp only [stageRank, if_neg hnone]
      omega
    next sma ho =>
      refine hgo _ ?_ hs
      by_cases hsome : (w.lookup ulp semid).isSome = true
      · obtain ⟨sma', hok, hd⟩ := hfind hsome
        rw [ho] at hok
        cases hok
        have hpos := lookup_pos hsome
        simp only [stageRank, hsome, hd, and_self, if_true]
        omega
      · simp only [stageRank, hsome, false_and, if_false, Bool.false_eq_true]
        omega
  | obtained semid sma =>
    right
    dsimp only at hs
    split at hs
    · cases hs
    split at hs
    next hd =>
      refine hgo _ ?_ hs
      simp only [stageRank, hd, Bool.true_eq_false, and_false, if_false]
      omega
    next hd =>
      split at hs
      next hnone =>
        refine hgo _ ?_ hs
        simp only [stageRank, hnone, Option.isSome_none, Bool.false_eq_true, false_and, if_false]
        omega
      next un hun =>
        cases hs
        refine ⟨.unlinked un, Function.update_self .., ?_⟩
        have hmem := List.mem_of_find?_eq_some hun
        have hlist : ((w.unlinkUndo ulp un).setPc t
            (.loop (w.ns t) ulp (.unlinked un) next)).list ulp = (w.list ulp).erase un :=
          Function.update_self ..
        have hpos := List.length_pos_of_mem hmem
        simp only [stageRank, hun, Bool.eq_false_of_not_eq_true hd, Option.isSome_some, and_self,
          if_true, hlist, List.length_erase_of_mem hmem]
        omega
  | unlinked un =>
    right
    cases hs
    refine ⟨.head, Function.update_self .., ?_⟩
    exact Nat.lt_succ_self _

theorem rank_own (h : Inv w) (hl : InLoop w t ulp) (hs : step w (.run t b) = some w') :
    rank w' t ulp < rank w t ulp := by
  obtain ⟨n, stage, next, hpc⟩ := hl
  have hrun : w.loopStep t n ulp stage next = some w' := by
    have hr : w.run t b = some w' := hs
    unfold World.run at hr
    rwa [hpc] at hr
  rw [rank_loop hpc]
  rcases loopStep_cases h hpc hrun with ⟨rfl, -, rfl⟩ | ⟨stage', hpc', hlt⟩
  · have hzero : rank (w.setPc t next.pc) t ulp = 0 := by
      unfold rank
      rw [show (w.setPc t next.pc).pc t = next.pc from Function.update_self ..]
      cases next <;> rfl
    rw [hzero]
    exact Nat.succ_pos _
  · rw [rank_loop hpc']
    exact hlt

/-- The others do not put it off. -/
theorem rank_other {x : ℕ} (h : Inv w) (hloc : Local x w w') (hx : t ≠ x) :
    rank w' t ulp = rank w t ulp := by
  unfold rank
  rw [hloc.pc t hx]
  have hpc := h.pc t
  cases hp : w.pc t with
  | loop n l stage next =>
    rw [hp] at hpc
    obtain ⟨-, -, hmine, hstage⟩ := hpc
    dsimp only
    by_cases hl : l = ulp
    · subst hl
      rw [if_pos rfl, if_pos rfl]
      have hlist : w'.list l = w.list l := by
        refine hloc.list h l hmine.lt ?_
        rw [hmine.owner]
        exact hx
      have hlookup : ∀ semid, (w'.lookup l semid).isSome = (w.lookup l semid).isSome := by
        intro semid
        rw [Bool.eq_iff_iff, lookup_isSome, lookup_isSome, hlist]
        refine exists_congr fun un => and_congr_right fun hun => ?_
        rw [hloc.semid un (h.listed l un hun).lt]
      cases stage with
      | head => simp only [stageRank, hlist]
      | seen un => simp only [stageRank, hlist]
      | read semid => simp only [stageRank, hlist, hlookup]
      | obtained semid sma =>
        have hd := hloc.deleted h n sma (IpcIds.Held.lt hstage)
        simp only [stageRank, hlist, hlookup, hd]
      | unlinked un => simp only [stageRank, hlist]
    · rw [if_neg hl, if_neg hl]
  | _ => rfl

/-! ## The loop -/

theorem settled_loop (hl : InLoop w t ulp) (b : Bool) : Settled w (.run t b) := by
  obtain ⟨n, stage, next, hpc⟩ := hl
  intro rest hp
  rw [hpc] at hp
  cases hp

/-- **All the passes**: what has been done and what is left are what was to be done. -/
theorem passes_rank (h : Inv w) (hq : Quiet w) (hp : Passes Settled t ulp k w v) :
    Inv v ∧ Quiet v ∧ k + rank v t ulp ≤ rank w t ulp := by
  induction hp with
  | refl w => exact ⟨h, hq, by omega⟩
  | own _ hl hs ih =>
    obtain ⟨hi, hq', hle⟩ := ih h hq
    have hlt := rank_own hi hl hs
    exact ⟨step_inv hi (settled_loop hl _) hs, step_quiet hq' rfl hs, by omega⟩
  | other _ ht hr hc hs ih =>
    obtain ⟨hi, hq', hle⟩ := ih h hq
    obtain ⟨x, hx⟩ := quiet_task hq' hr hs
    have heq : rank _ t ulp = rank _ t ulp := rank_other hi (step_local hs hx)
      (by rintro rfl; exact ht hx)
    exact ⟨step_inv hi hc hs, step_quiet hq' hr hs, by omega⟩

theorem run_isSome (hq : Quiet w) (hl : InLoop w t ulp) (b : Bool) :
    (step w (.run t b)).isSome = true := by
  obtain ⟨n, stage, next, hpc⟩ := hl
  show (w.run t b).isSome = true
  unfold World.run
  rw [hpc]
  dsimp only
  unfold World.loopStep
  cases stage with
  | head => dsimp only; split <;> rfl
  | seen un => dsimp only; split <;> rfl
  | read semid => dsimp only; split <;> rfl
  | obtained semid sma =>
    dsimp only
    rw [hq n, if_neg (fun hn => by cases hn)]
    split
    · rfl
    · split <;> rfl
  | unlinked un => rfl

/-- An entry of an empty list is freed, unless its task is about to free it. -/
theorem Inv.clean (h : Inv w) (hpc : w.pc t = .loop n ulp .head next) (hl : w.list ulp = []) :
    Clean w ulp := by
  obtain ⟨-, -, hmine, -⟩ : PcOk w t (.loop n ulp .head next) := hpc ▸ h.pc t
  refine ⟨hl, fun un hlt hulp => ?_⟩
  have hplace := (h.made un hlt).place
  rw [hulp, hl] at hplace
  obtain ⟨hlinked, hfreed⟩ := hplace.resolve_left List.not_mem_nil
  refine ⟨hlinked, hfreed.resolve_right ?_⟩
  rintro ⟨-, x, m, nx, hx⟩
  rw [hulp] at hx
  obtain ⟨-, -, hmine', -⟩ : PcOk w x (.loop m ulp (.unlinked un) nx) := hx ▸ h.pc x
  have hxt : x = t := hmine'.owner.symm.trans hmine.owner
  rw [hxt, hpc] at hx
  cases hx

theorem Inv.freed_le (h : Inv w) (hlt : un < w.nextUndo) : (w.undo un).freed ≤ 1 := by
  rcases (h.made un hlt).place with hmem | ⟨-, hf | ⟨hf, -⟩⟩
  · rw [(h.listed _ un hmem).freed]
    exact Nat.zero_le 1
  · omega
  · omega

/-- **The loop ends**, in runs in which no task leaves its ipc namespace with entries on its
    list: from where no `IPC_RMID` is going on it makes no more steps than `rank`, none of
    which has to wait, and where it ends the list is empty and each entry that it had is off
    its array and was freed once. -/
theorem exit_sem_ends (h : RunIf step Settled (init cfg) w) (hl : InLoop w t ulp) :
    Ends Settled w t ulp := by
  have hi := run_inv h
  refine ⟨fun hq => ⟨rank w t ulp, fun k v hp => ?_⟩, fun hq k v hp hv => ?_,
    fun b v hs hout => ?_, fun un => hi.freed_le⟩
  · have hle := (passes_rank hi hq hp).2.2
    omega
  · exact run_isSome (passes_rank hi hq hp).2.1 hv
  · obtain ⟨n, stage, next, hpc⟩ := hl
    have hrun : w.loopStep t n ulp stage next = some v := by
      have hr : w.run t b = some v := hs
      unfold World.run at hr
      rwa [hpc] at hr
    rcases loopStep_cases hi hpc hrun with ⟨rfl, hnil, rfl⟩ | ⟨stage', hpc', -⟩
    · exact hi.clean hpc hnil
    · exact absurd ⟨n, stage', next, hpc'⟩ hout

/-! ## A list that is taken along -/

/-- Task 0 takes an entry to a namespace without arrays, and exits. -/
def lastExit : List Act :=
  [.unshare 1 Slot.CLONE_NEWIPC plainEnv, .run 1 false, .run 1 false, .run 1 false,
    .semget 0 newArray 1, .semop 0 0 [⟨0, 1, true, false⟩] false false, .run 0 false,
    .run 0 false, .run 0 false, .run 0 false, .setns 0 1, .exit 0, .run 0 false]

/-- The same without `setns`. -/
def ownExit : List Act :=
  [.semget 0 newArray 1, .semop 0 0 [⟨0, 1, true, false⟩] false false, .run 0 false,
    .run 0 false, .run 0 false, .run 0 false, .exit 0, .run 0 false]

/-- A loop over one entry ends. -/
theorem exit_sem_ends_own : ∃ w, RunIf step Settled (init hooked) w ∧ InLoop w 0 0 ∧
    w.list 0 = [0] ∧ Ends Settled w 0 0 := by
  obtain ⟨w, hrun, hw⟩ := execIf_check (C := Settled) step settled settled_spec (init hooked)
    ownExit (fun w => w.pc 0 == .loop 0 0 .head .dead && w.list 0 == [0]) (by decide)
  simp only [Bool.and_eq_true, beq_iff_eq] at hw
  have hl : InLoop w 0 0 := ⟨0, .head, .dead, hw.1⟩
  exact ⟨w, hrun, hl, hw.2, exit_sem_ends hrun hl⟩

/-- The head of the list is not found in the namespace: after three steps the loop is where it
    was. -/
theorem passes_round (hp : Passes C t ulp k v w) (hpc : w.pc t = .loop n ulp .head next)
    {rest : List ℕ} (hl : w.list ulp = un :: rest) (hsemid : (w.undo un).semid ≠ -1) {err : ℤ}
    (ho : w.semObtainObjectCheck n (w.undo un).semid = .error err) :
    Passes C t ulp (k + 3) v w := by
  have hself : ∀ (x : Pc) (u : World), (u.setPc t x).pc t = x := fun x u => Function.update_self ..
  have hstep : ∀ (u : World) (stage : Stage), u.pc t = .loop n ulp stage next →
      step u (.run t false) = u.loopStep t n ulp stage next := by
    intro u stage hu
    show u.run t false = _
    unfold World.run
    rw [hu]
  have h1 : step w (.run t false) = some (w.setPc t (.loop n ulp (.seen un) next)) := by
    rw [hstep w .head hpc]
    unfold World.loopStep
    dsimp only
    rw [hl]
  set w₁ := w.setPc t (.loop n ulp (.seen un) next) with hw₁
  have h2 : step w₁ (.run t false) =
      some (w₁.setPc t (.loop n ulp (.read (w.undo un).semid) next)) := by
    rw [hstep w₁ (.seen un) (hself _ w)]
    exact if_neg hsemid
  set w₂ := w₁.setPc t (.loop n ulp (.read (w.undo un).semid) next) with hw₂
  have h3 : step w₂ (.run t false) = some w := by
    rw [hstep w₂ (.read _) (hself _ w₁)]
    unfold World.loopStep
    dsimp only
    rw [show w₂.semObtainObjectCheck n (w.undo un).semid = .error err from ho]
    dsimp only
    rw [hw₂, hw₁]
    unfold World.setPc
    simp only [Function.update_idem, ← hpc, Function.update_eq_self]
  exact ((hp.own ⟨n, .head, next, hpc⟩ h1).own ⟨n, .seen un, next, hself _ w⟩ h2).own
    ⟨n, .read _, next, hself _ w₁⟩ h3

/-- **A list that is taken along**: its entries are not found in the new namespace, and the
    loop does not end. -/
theorem exit_sem_stuck : ¬∀ cfg w t ulp, Run step (init cfg) w → InLoop w t ulp →
    Ends (fun _ _ => True) w t ulp := by
  intro hall
  obtain ⟨w, hrun, hw⟩ := execIf_check (C := fun _ act => act.removes = false) step
    (fun _ act => !act.removes) (fun _ act h => by simpa using h) (init hooked) lastExit
    (fun w => w.pc 0 == .loop 1 0 .head .dead && w.list 0 == [0] && (w.undo 0).semid == 0 &&
      decide (w.semObtainObjectCheck 1 0 = .error (-EINVAL))) (by decide)
  simp only [Bool.and_eq_true, beq_iff_eq, decide_eq_true_eq] at hw
  obtain ⟨⟨⟨hpc, hlist⟩, hsemid⟩, ho⟩ := hw
  have hq : Quiet w :=
    hrun.inv (fun _ => rfl) fun _ _ _ hq hr hs => step_quiet hq hr hs
  obtain ⟨most, hmost⟩ := (hall hooked w 0 0 hrun.run ⟨1, .head, .dead, hpc⟩).bounded hq
  have hrounds : ∀ m, Passes (fun _ _ => True) 0 0 (3 * m) w w := by
    intro m
    induction m with
    | zero => exact .refl w
    | succ m ih =>
      refine passes_round ih hpc hlist ?_ (hsemid.symm ▸ ho)
      rw [hsemid]
      decide
  have hle := hmost _ w (hrounds (most + 1))
  omega

end DroidLkm.Sem.Undo
