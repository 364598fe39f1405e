/-
  Undo lists — entries and the arrays they are used with.

  * `Uses`, `Fits`: an entry is used together with an array, by index; it was made for that
    array, and the index is in range;
  * `script_cases`: which `unshare` makes a namespace and does not flush;
  * `step_inv`: a step that is `Settled` keeps the invariant;
  * `undo_fits`: in runs of such steps what is used fits.
-/
import DroidLkm.Sem.UndoInv
import DroidLkm.Slot.Effects

namespace DroidLkm.Sem.Undo

open Ids IpcIds Machine

variable {w w' : World} {t n sma ulp un i : ℕ} {semid : ℤ} {sops : List Sembuf} {o : Option ℕ}
  {arr : ℕ × ℕ} {stage : Stage} {next : Next} {cfg : Config} {act : Act} {b : Bool}

/-- An entry, if there is one, and an array of which somebody reads or writes `semadj[i]` and
    `sems[i]`: a caller of `perform_atomic_semop`, another one for a sleeper, or
    `droid_lkm_exit_sem_impl`. -/
inductive Uses (w : World) : Option ℕ → ℕ × ℕ → ℕ → Prop
  | performs {t sma : ℕ} {sops : List Sembuf} {un : Option ℕ} {sop : Sembuf} :
    w.pc t = .looked sops un sma → w.removing (w.ns t) ≠ some sma →
    (w.perm (w.ns t) sma).deleted = false → w.stale un = false → sop ∈ sops →
    Uses w un (w.ns t, sma) sop.semNum
  | sleeps {t : ℕ} {arr : ℕ × ℕ} {sops : List Sembuf} {un : Option ℕ} {sop : Sembuf} :
    w.pc t = .asleep arr sops un → sop ∈ sops → Uses w un arr sop.semNum
  | adjusts {t n ulp sma un i : ℕ} {semid : ℤ} {next : Next} :
    w.pc t = .loop n ulp (.obtained semid sma) next → w.removing n ≠ some sma →
    (w.perm n sma).deleted = false → w.lookup ulp semid = some un → i < w.nsems n sma →
    Uses w (some un) (n, sma) i

/-- `find_alloc_undo` made the entry for the array, `semadj` is as long as `sems`, and the
    index is in range. -/
def Fits (w : World) (un : Option ℕ) (arr : ℕ × ℕ) (i : ℕ) : Prop :=
  (∀ u, un = some u → (w.undo u).arr = arr ∧ (w.undo u).size = w.nsems arr.1 arr.2) ∧
    i < w.nsems arr.1 arr.2

/-! ## `unshare` -/

section
open Slot

variable {e : Env} {flags : Flags} {s : List Event}

/-- The original `unshare`. -/
theorem origUnshare_events : (origUnshare e s flags).1 = s ∨
    has flags CLONE_NEWIPC = true ∧ (origUnshare e s flags).1 = s ++ [.newIpcns] := by
  unfold origUnshare
  split
  · exact Or.inl rfl
  · cases has flags CLONE_NEWIPC with
    | true => exact Or.inr ⟨rfl, rfl⟩
    | false => exact Or.inl rfl

theorem origUnshare_without (h : has flags CLONE_NEWIPC = false) :
    (origUnshare e s flags).1 = s := by
  have hcases : (origUnshare e s flags).1 = s ∨ _ := origUnshare_events
  rcases hcases with he | ⟨hn, -⟩
  · exact he
  · rw [h] at hn
    cases hn

theorem flush_events : flushIpc (unshareOps cfg e) s flags =
    if has flags (CLONE_NEWIPC ||| CLONE_SYSVSEM) then s ++ [.exitSem] else s := by
  simp [flushIpc, unshareOps]

theorem install_events : (installIpcns (unshareOps cfg e) s flags).1 = s ∨
    has flags CLONE_NEWIPC = true ∧
      (installIpcns (unshareOps cfg e) s flags).1 = s ++ [.newIpcns] := by
  unfold installIpcns unshareOps
  dsimp only
  split
  next hn =>
    split
    · exact Or.inl rfl
    · exact Or.inr ⟨hn, rfl⟩
  · exact Or.inl rfl

/-- What comes after the flush may make a namespace where one is asked for. -/
theorem flush_then (cfg : Config) (e : Env) (f : List Event → List Event × ℤ)
    (hf : ∀ s, (f s).1 = s ∨ has flags CLONE_NEWIPC = true ∧ (f s).1 = s ++ [.newIpcns]) :
    (f (flushIpc (unshareOps cfg e) [] flags)).1 = [] ∨
      (f (flushIpc (unshareOps cfg e) [] flags)).1 = [.exitSem] ∨
      (f (flushIpc (unshareOps cfg e) [] flags)).1 = [.exitSem, .newIpcns] := by
  rw [flush_events]
  split
  · rcases hf ([] ++ [.exitSem]) with h | ⟨-, h⟩
    · exact Or.inr (Or.inl h)
    · exact Or.inr (Or.inr h)
  next hno =>
    rcases hf [] with h | ⟨hn, -⟩
    · exact Or.inl h
    · rw [has_or, hn] at hno
      exact absurd rfl hno

theorem unshareLegacy_events : (unshareLegacy (unshareOps cfg e) [] flags).1 = [] ∨
    (unshareLegacy (unshareOps cfg e) [] flags).1 = [.exitSem] ∨
    (unshareLegacy (unshareOps cfg e) [] flags).1 = [.exitSem, .newIpcns] := by
  have hno : has (legacyFlags flags) CLONE_NEWIPC = false := by
    have h := (has_legacyFlags flags).2
    rw [has_ours, Bool.or_eq_false_iff] at h
    exact h.2
  have horig : ((unshareOps cfg e).origUnshare [] (legacyFlags flags)).1 = [] :=
    origUnshare_without hno
  have hpid : ∀ s, (installPidns (unshareOps cfg e) s flags).1 = s := by
    intro s
    unfold installPidns
    split <;> rfl
  have hf := flush_then cfg e (fun s => installIpcns (unshareOps cfg e) s flags)
    fun s => install_events
  unfold unshareLegacy
  dsimp only
  rw [horig]
  split
  · exact Or.inl rfl
  split
  · exact hf
  · rw [show (unshareOps cfg e).keepalivePin = id from rfl, id_eq, hpid]
    exact hf

/-- **An `unshare` gives up the undo list before it makes a namespace**, unless the module
    leaves it to the kernel: because of the gate, or because its own check fails where the
    kernel's, which is made with the capabilities of a new user namespace, does not. -/
theorem script_cases (cfg : Config) (e : Env) (flags : Flags) :
    (script cfg e flags = [] ∨ script cfg e flags = [.exitSem] ∨
      script cfg e flags = [.exitSem, .newIpcns]) ∨ script cfg e flags = [.newIpcns] ∧
        (e.gate = false ∨ cfg.cnnHooked = true ∧ unsharePrecheck e flags = false) := by
  have horig : (origUnshare e [] flags).1 = [] ∨ (origUnshare e [] flags).1 = [.newIpcns] :=
    origUnshare_events.imp_right And.right
  unfold script sysUnshare
  split
  next hnot =>
    left; left
    refine origUnshare_without ?_
    simp only [has_or, has_ours, Bool.not_eq_true', Bool.or_eq_false_iff] at hnot
    exact hnot.1.2
  split
  next hgate =>
    rcases horig with h | h
    · exact Or.inl (Or.inl h)
    · exact Or.inr ⟨h, Or.inl (by simpa [unshareOps] using hgate)⟩
  split
  · exact Or.inl (Or.inl rfl)
  split
  · exact Or.inl unshareLegacy_events
  next hhook =>
    split
    next hpre =>
      rcases horig with h | h
      · exact Or.inl (Or.inl h)
      · refine Or.inr ⟨h, Or.inr ⟨?_, ?_⟩⟩
        · simpa [unshareOps] using hhook
        · simpa [unshareOps] using hpre
    · have hf := flush_then cfg e (fun s => origUnshare e s flags) fun s => origUnshare_events
      left
      dsimp only
      rw [show (unshareOps cfg e).keepalivePin = id from rfl]
      simp only [id_eq, ite_self]
      exact hf

end

/-! ## The array of an entry -/

/-- A list has the entries of one namespace, and there an identifier has one array. -/
theorem Mine.arr_eq (hm : Mine w t ulp) (h : Inv w) (hun : un ∈ w.list ulp)
    (hid : (w.undo un).semid = semid) (hh : w.Held (w.ns t, sma) semid)
    (hd : (w.perm (w.ns t) sma).deleted = false) : (w.undo un).arr = (w.ns t, sma) := by
  have hst := (h.listed ulp un hun).stands
  have hns := hm.home un hun
  unfold World.Stands at hst
  rw [hns, hid] at hst
  exact Prod.ext hns (hst.unique ⟨hh, hd⟩)

theorem Fit.arr_eq (hf : Fit w t semid un) (h : Inv w) (hh : w.Held (w.ns t, sma) semid)
    (hd : (w.perm (w.ns t) sma).deleted = false) (hs : w.stale (some un) = false) :
    (w.undo un).arr = (w.ns t, sma) := by
  have hne : (w.undo un).semid ≠ -1 := by
    intro he
    simp [World.stale, he] at hs
  obtain ⟨hmem, hid, hmine⟩ := hf.2 hne
  exact hmine.arr_eq h hmem hid hh hd

theorem next_max (a : SopScan) (sop : Sembuf) : a.max ≤ (a.next sop).max ∧
    sop.semNum ≤ (a.next sop).max := by
  unfold SopScan.next
  dsimp only
  split
  next h => exact ⟨h, le_rfl⟩
  next h => exact ⟨le_rfl, by omega⟩

theorem foldl_max (l : List Sembuf) (a : SopScan) : a.max ≤ (l.foldl SopScan.next a).max ∧
    ∀ sop ∈ l, sop.semNum ≤ (l.foldl SopScan.next a).max := by
  induction l generalizing a with
  | nil => exact ⟨le_rfl, fun _ h => by cases h⟩
  | cons x l ih =>
    obtain ⟨hle, hall⟩ := ih (a.next x)
    obtain ⟨ha, hx⟩ := next_max a x
    refine ⟨le_trans ha hle, fun sop hsop => ?_⟩
    rcases List.mem_cons.1 hsop with rfl | hsop
    · exact le_trans hx hle
    · exact hall sop hsop

/-- `max` is at least the number of every semaphore in the vector. -/
theorem scanSops_max {sop : Sembuf} (h : sop ∈ sops) : sop.semNum ≤ (scanSops sops).max :=
  (foldl_max sops {}).2 sop h

/-- **What is used fits**, where the invariant holds. -/
theorem Inv.fits (h : Inv w) (hu : Uses w o arr i) : Fits w o arr i := by
  have hsize : ∀ un < w.nextUndo, (w.undo un).arr = arr →
      (w.undo un).size = w.nsems arr.1 arr.2 := by
    rintro un hlt rfl
    exact (h.made un hlt).size
  cases hu with
  | @performs t sma sops un sop hpc hr hd hs hmem =>
    obtain ⟨⟨semid, hheld, hfit⟩, hmax⟩ : PcOk w t (.looked sops o sma) := hpc ▸ h.pc t
    refine ⟨fun u hu => ?_, lt_of_le_of_lt (scanSops_max hmem) hmax⟩
    subst hu
    have harr := (hfit u rfl).arr_eq h hheld hd hs
    exact ⟨harr, hsize u (hfit u rfl).1 harr⟩
  | @sleeps t _ sops un sop hpc hmem =>
    obtain ⟨-, hmax, hun⟩ : PcOk w t (.asleep arr sops o) := hpc ▸ h.pc t
    refine ⟨fun u hu => ?_, lt_of_le_of_lt (scanSops_max hmem) hmax⟩
    obtain ⟨hlt, harr⟩ := hun u hu
    exact ⟨harr, hsize u hlt harr⟩
  | @adjusts t n ulp sma un i semid next hpc hr hd hl hi =>
    obtain ⟨rfl, -, hmine, hheld⟩ : PcOk w t (.loop n ulp (.obtained semid sma) next) :=
      hpc ▸ h.pc t
    have hmem := List.mem_of_find?_eq_some hl
    have hid : (w.undo un).semid = semid := by
      simpa using List.find?_some hl
    have harr := hmine.arr_eq h hmem hid hheld hd
    refine ⟨fun u hu => ?_, hi⟩
    cases hu
    exact ⟨harr, hsize un (h.listed ulp un hmem).lt harr⟩

/-! ## A step -/

theorem Inv.semop (h : Inv w) (hpc : w.pc t = .user) (noMem noEntry : Bool) :
    Inv (w.semop t semid sops noMem noEntry) := by
  have hno : ∀ {v : World}, v.pc = w.pc → ∀ n ulp un next,
      v.pc t ≠ .loop n ulp (.unlinked un) next := by
    intro v hv n ulp un next hp
    rw [hv, hpc] at hp
    cases hp
  unfold World.semop
  split
  · exact h
  split
  · refine h.setPc ?_ (hno rfl)
    intro u hu
    cases hu
  split
  · exact h
  next v ulp hv =>
    obtain ⟨hi, hvpc, hmine⟩ := h.getUndoList hpc hv
    split
    next un hun => exact hi.toFront hun hmine (hno hvpc)
    next => exact hi.setPc hmine (hno hvpc)

theorem Inv.allocUndo (h : Inv w) (hpc : w.pc t = .sized semid sops ulp sma)
    (hs : w.allocUndo t semid sops ulp sma b = some w') : Inv w' := by
  have hno : ∀ n ulp un next, w.pc t ≠ .loop n ulp (.unlinked un) next := by
    intro n ulp un next hp
    rw [hpc] at hp
    cases hp
  obtain ⟨hmine, -⟩ : PcOk w t (.sized semid sops ulp sma) := hpc ▸ h.pc t
  unfold World.allocUndo at hs
  dsimp only at hs
  split at hs
  · cases hs
    exact h.setPc trivial hno
  split at hs
  · cases hs
  split at hs
  · cases hs
    exact h.setPc trivial hno
  next hd =>
    split at hs
    next un hun =>
      cases hs
      exact h.toFront hun hmine hno
    next =>
      cases hs
      exact h.link hpc (Bool.eq_false_of_not_eq_true hd)

theorem Inv.perform (h : Inv w) (hpc : w.pc t = .looked sops o sma)
    (hs : w.perform t sops o sma b = some w') : Inv w' := by
  have hno : ∀ n ulp un next, w.pc t ≠ .loop n ulp (.unlinked un) next := by
    intro n ulp un next hp
    rw [hpc] at hp
    cases hp
  obtain ⟨⟨semid, hheld, hfit⟩, hmax⟩ : PcOk w t (.looked sops o sma) := hpc ▸ h.pc t
  unfold World.perform at hs
  dsimp only at hs
  split at hs
  · cases hs
  split at hs
  · cases hs
    exact h.setPc trivial hno
  next hgo =>
    cases hs
    obtain ⟨⟨hd, hst⟩, -⟩ : ((w.perm (w.ns t) sma).deleted = false ∧ w.stale o = false) ∧
        b = true := by
      simpa using hgo
    refine h.setPc ⟨hheld.lt, hmax, fun u hu => ?_⟩ hno
    subst hu
    exact ⟨(hfit u rfl).1, (hfit u rfl).arr_eq h hheld hd hst⟩

theorem Inv.loopStep (h : Inv w) (hpc : w.pc t = .loop n ulp stage next)
    (hs : w.loopStep t n ulp stage next = some w') : Inv w' := by
  obtain ⟨hn, hlist, hmine, hstage⟩ : PcOk w t (.loop n ulp stage next) := hpc ▸ h.pc t
  have hgo : ∀ st, StageOk w n ulp st → (∀ un, stage ≠ .unlinked un) →
      Inv (w.setPc t (.loop n ulp st next)) := by
    intro st hst hne
    refine h.setPc ⟨hn, hlist, hmine, hst⟩ fun m l un nx hp => ?_
    rw [hpc] at hp
    cases hp
    exact hne un rfl
  unfold World.loopStep at hs
  cases stage with
  | head =>
    dsimp only at hs
    split at hs
    · cases hs
      refine h.setPc ?_ fun m l un nx hp => ?_
      · cases next with
        | unshare rest => exact fun _ => hlist
        | dead => trivial
      · rw [hpc] at hp
        cases hp
    · cases hs
      exact hgo _ trivial (fun _ hne => by cases hne)
  | seen un =>
    dsimp only at hs
    split at hs <;> cases hs
    · exact hgo _ trivial (fun _ hne => by cases hne)
    · exact hgo _ trivial (fun _ hne => by cases hne)
  | read semid =>
    dsimp only at hs
    split at hs
    · cases hs
      exact hgo _ trivial (fun _ hne => by cases hne)
    next sma ho =>
      cases hs
      exact hgo _ ((h.table n).obtain ho).toHeld (fun _ hne => by cases hne)
  | obtained semid sma =>
    dsimp only at hs
    split at hs
    · cases hs
    split at hs
    · cases hs
      exact hgo _ trivial (fun _ hne => by cases hne)
    split at hs
    · cases hs
      exact hgo _ trivial (fun _ hne => by cases hne)
    next un hun =>
      cases hs
      exact h.unlink hpc hun
  | unlinked un =>
    cases hs
    exact h.free hpc

/-- **The next step of a call.** -/
theorem Inv.run (h : Inv w) (hc : Settled w (.run t b)) (hs : w.run t b = some w') : Inv w' := by
  have hpc := h.pc t
  unfold World.run at hs
  cases hp : w.pc t with
  | user =>
    rw [hp] at hs
    cases hs
  | dead =>
    rw [hp] at hs
    cases hs
  | missed semid sops ulp =>
    have hno : ∀ n ulp un next, w.pc t ≠ .loop n ulp (.unlinked un) next := by simp [hp]
    rw [hp] at hs hpc
    dsimp only at hs
    split at hs
    · cases hs
      exact h.setPc trivial hno
    next sma ho =>
      cases hs
      exact h.setPc ⟨hpc, ((h.table _).obtain ho).toHeld⟩ hno
  | sized semid sops ulp sma =>
    rw [hp] at hs
    exact h.allocUndo hp hs
  | found semid sops un =>
    have hno : ∀ n ulp un next, w.pc t ≠ .loop n ulp (.unlinked un) next := by simp [hp]
    rw [hp] at hs hpc
    dsimp only at hs
    split at hs
    · cases hs
      exact h.setPc trivial hno
    next sma ho =>
      split at hs
      · cases hs
        exact h.setPc trivial hno
      next hmax =>
        cases hs
        refine h.setPc ⟨⟨semid, ((h.table _).obtain ho).toHeld, hpc⟩, ?_⟩ hno
        have hm : ¬w.nsems (w.ns t) sma ≤ (scanSops sops).max ∧ b = false := by
          simpa using hmax
        exact Nat.lt_of_not_le hm.1
  | looked sops un sma =>
    rw [hp] at hs
    exact h.perform hp hs
  | asleep arr sops un =>
    have hno : ∀ n ulp un next, w.pc t ≠ .loop n ulp (.unlinked un) next := by simp [hp]
    rw [hp] at hs
    cases hs
    exact h.setPc trivial hno
  | unshare flushed events =>
    have hno : ∀ n ulp un next, w.pc t ≠ .loop n ulp (.unlinked un) next := by simp [hp]
    rw [hp] at hs hpc
    rcases events with - | ⟨- | -, rest⟩
    · cases hs
      exact h.setPc trivial hno
    · cases hs
      exact h.exitSem rfl hno
    · cases hs
      have hbare : Bare w t := by
        cases flushed with
        | false => exact hc rest hp
        | true =>
          intro ulp hl
          rw [hpc rfl] at hl
          cases hl
      refine (h.setNs (Or.inl hbare) (Or.inr ⟨_, _, hp⟩) _).setPc ?_ hno
      exact hpc
  | exited n =>
    have hno : ∀ n ulp un next, w.pc t ≠ .loop n ulp (.unlinked un) next := by simp [hp]
    rw [hp] at hs hpc
    cases hs
    exact h.exitSem hpc hno
  | loop n ulp stage next =>
    rw [hp] at hs
    exact h.loopStep hp hs

/-- **A step.** -/
theorem step_inv (h : Inv w) (hc : Settled w act) (hs : step w act = some w') : Inv w' := by
  have hno : ∀ {t}, w.pc t = .user → ∀ n ulp un next,
      w.pc t ≠ .loop n ulp (.unlinked un) next := by
    intro t hp n ulp un next hl
    rw [hp] at hl
    cases hl
  cases act with
  | semget t a nsems =>
    obtain ⟨-, rfl⟩ := by simpa [step] using hs
    exact h.semget _ a nsems
  | rmid n sma =>
    obtain ⟨⟨-, hl⟩, rfl⟩ := by simpa [step] using hs
    obtain ⟨i, hi⟩ := live_iff.1 hl
    exact h.lock hi
  | rmidUndo n un =>
    unfold step at hs
    dsimp only at hs
    split at hs
    · cases hs
    split at hs
    next hg =>
      cases hs
      exact h.rmidUndo hg.1 hg.2
    · cases hs
  | rmidEnd n =>
    unfold step at hs
    dsimp only at hs
    split at hs
    · cases hs
    next sma hr =>
      split at hs
      next hg =>
        cases hs
        exact h.rmidEnd hr hg
      · cases hs
  | semop t semid sops noMem noEntry =>
    obtain ⟨hp, rfl⟩ := by simpa [step] using hs
    exact h.semop hp noMem noEntry
  | setns t n =>
    obtain ⟨⟨hp, -⟩, rfl⟩ := by simpa [step] using hs
    refine h.setNs ?_ (Or.inl hp) w.nextNs
    by_cases hn : n = w.ns t
    · exact Or.inr hn
    · exact Or.inl (hc hn)
  | unshare t flags e =>
    obtain ⟨hp, rfl⟩ := by simpa [step] using hs
    exact h.setPc (fun hf => by cases hf) (hno hp)
  | unshare32 t flags e =>
    obtain ⟨hp, rfl⟩ := by simpa [step] using hs
    exact h.setPc (fun hf => by cases hf) (hno hp)
  | exit t =>
    obtain ⟨hp, rfl⟩ := by simpa [step] using hs
    exact h.setPc rfl (hno hp)
  | run t o => exact h.run hc hs

theorem init_inv (cfg : Config) : Inv (init cfg) := by
  refine ⟨fun n => init_sound _, fun ulp un hun => ?_, fun ulp => List.nodup_nil, fun un hlt => ?_,
    fun n sma hr => ?_, fun t ulp hl => ?_, fun t => trivial⟩
  · cases hun
  · exact absurd hlt (Nat.not_lt_zero un)
  · cases hr
  · cases hl

theorem run_inv (h : RunIf step Settled (init cfg) w) : Inv w :=
  h.inv (init_inv cfg) fun _ _ _ hi hc ha => step_inv hi hc ha

/-! ## Entries and arrays -/

/-- **Entries are used with the arrays they were made for**, in runs in which no task leaves
    its ipc namespace with entries on its list. -/
theorem undo_fits (h : RunIf step Settled (init cfg) w) (hu : Uses w o arr i) : Fits w o arr i :=
  (run_inv h).fits hu

/-! ## A task that takes its list along -/

def plainEnv : Env := ⟨true, true, false, 0, 0, 0, 0⟩

def hooked : Config := ⟨.std, true, false⟩

def newArray : GetArgs := ⟨IPC_PRIVATE, true, false, 0, 0, 10, ⟨false, 0⟩⟩

/-- Task 1 makes a namespace.  Each of the tasks 0 and 1 makes an array in its own, of one
    semaphore and of two, with the same identifier; and task 0 begins a `semop`. -/
def twoSizes : List Act :=
  [.unshare 1 Slot.CLONE_NEWIPC plainEnv, .run 1 false, .run 1 false, .run 1 false,
    .semget 0 newArray 1, .semget 1 newArray 2,
    .semop 0 0 [⟨0, 1, true, false⟩] false false, .run 0 false, .run 0 false, .run 0 false]

/-- It ends it, enters the namespace of task 1 and begins another one. -/
def takenAlong : List Act :=
  twoSizes ++ [.run 0 false, .setns 0 1, .semop 0 0 [⟨1, 1, true, false⟩] false false,
    .run 0 false]

/-- A test for `Settled`. -/
def settled (w : World) : Act → Bool
  | .setns t _ => (w.undoList t).isNone
  | .run t _ =>
    match w.pc t with
    | .unshare false (.newIpcns :: _) => (w.undoList t).isNone
    | _ => true
  | _ => true

theorem Bare.of_isNone (h : (w.undoList t).isNone = true) : Bare w t := by
  intro ulp hl
  rw [hl] at h
  cases h

theorem settled_spec (w : World) (act : Act) (h : settled w act = true) : Settled w act := by
  cases act with
  | setns t n => exact fun _ => Bare.of_isNone h
  | run t o =>
    intro rest hp
    unfold settled at h
    dsimp only at h
    rw [hp] at h
    exact Bare.of_isNone h
  | _ => trivial

theorem uses_looked {sop : Sembuf} (hpc : w.pc t = .looked [sop] o sma) (hns : w.ns t = n)
    (hr : w.removing n = none) (hd : (w.perm n sma).deleted = false)
    (hs : w.stale o = false) : Uses w o (n, sma) sop.semNum := by
  subst hns
  refine Uses.performs hpc ?_ hd hs (List.mem_singleton.2 rfl)
  rw [hr]
  exact fun hn => by cases hn

/-- An entry that is used with the array it was made for. -/
theorem undo_fits_own : ∃ w, RunIf step Settled (init hooked) w ∧ Uses w (some 0) (0, 0) 0 ∧
    Fits w (some 0) (0, 0) 0 := by
  obtain ⟨w, hrun, hw⟩ := execIf_check (C := Settled) step settled settled_spec (init hooked)
    twoSizes (fun w => w.pc 0 == .looked [⟨0, 1, true, false⟩] (some 0) 0 && w.ns 0 == 0 &&
      w.removing 0 == none && !(w.perm 0 0).deleted && !w.stale (some 0)) (by decide)
  simp only [Bool.and_eq_true, beq_iff_eq, Bool.not_eq_true'] at hw
  obtain ⟨⟨⟨⟨hpc, hns⟩, hr⟩, hd⟩, hs⟩ := hw
  have hu := uses_looked hpc hns hr hd hs
  exact ⟨w, hrun, hu, undo_fits hrun hu⟩

/-- **A list that is taken along**: the entry of an array with one semaphore is used with an
    array of another namespace, at its second one. -/
theorem undo_misused : ¬∀ cfg w, Run step (init cfg) w → ∀ un arr i, Uses w un arr i →
    Fits w un arr i := by
  intro hall
  obtain ⟨w, hrun, hw⟩ := exec_check step (init hooked) takenAlong
    (fun w => w.pc 0 == .looked [⟨1, 1, true, false⟩] (some 0) 0 && w.ns 0 == 1 &&
      w.removing 1 == none && !(w.perm 1 0).deleted && !w.stale (some 0) &&
      (w.undo 0).arr == (0, 0)) (by decide)
  simp only [Bool.and_eq_true, beq_iff_eq, Bool.not_eq_true'] at hw
  obtain ⟨⟨⟨⟨⟨hpc, hns⟩, hr⟩, hd⟩, hs⟩, harr⟩ := hw
  have hfit := (hall hooked w hrun _ _ _ (uses_looked hpc hns hr hd hs)).1 0 rfl
  rw [harr] at hfit
  cases hfit.1

end DroidLkm.Sem.Undo
