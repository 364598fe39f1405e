/-
  The load and the unload of the second module.

  * `procInit`, `xtInit`, `devtmpfsInit`, `usernsInit` and what takes each back: as in their
    files, as far as they put something in force;
  * `init`, `release`, `exit`: `misc_main.c`;
  * `Whole`: of each feature there is all in force, or nothing;
  * `unload_clean`: a load, releases, and the unload leave nothing;
  * `failed_init`: what a load that fails leaves.

  What the kernel, the libraries and the memory answer is given by an `Env`.  A pointer that
  the module keeps to what it has in force is `NULL` exactly when there is none, and it is not
  modelled apart from that.  What takes a hook back, and what unregisters, does not fail.
-/
import DroidLkm.Errno
import Mathlib.Logic.Function.Iterate
import Mathlib.Tactic.Common

namespace DroidLkm.Misc.Load

/-! ## The functions -/

/-- What is hooked with `hk_inline_hook`. -/
inductive Hook
  | unshare
  | nsproxy
  | creds
  | inodecap
  | copymntns
  | fsctx
  | procTgid
  | procTid
  | cap
  | deviceAdd
  | deviceDel
  deriving DecidableEq

/-- What a load meets.  An error code is what the function of that name returns. -/
structure Env where
  /-- `klnum_val && kallrecon_klp` -/
  kallsyms : Bool
  ksymInit : ℤ
  hkInit : ℤ
  /-- the parameters -/
  xtEnable : Bool
  devtmpfsEnable : Bool
  usernsEnable : Bool
  captraceOn : Bool
  /-- `droid_lkm_misc_proc_resolve` -/
  procResolve : ℤ
  procMkdir : Bool
  /-- `proc_create`, of both files -/
  procCreate : Bool
  /-- `xt_register_matches` -/
  xtRegister : ℤ
  devtmpfsResolve : ℤ
  /-- `vfs_kern_mount`, where it returns an error -/
  kernMount : ℤ
  registerFilesystem : ℤ
  /-- `kthread_run`, where it returns an error -/
  kthreadRun : ℤ
  hook : Hook → ℤ
  /-- `kzalloc`, of both objects of `droid_lkm_userns_nsops_init` -/
  nsopsAlloc : Bool
  /-- `droid_lkm_ns_kind_register`; `none`: the main module is not there, which has
      `droid_lkm_ns_kind_unregister` too -/
  kindRegister : Option ℤ
  initUserNs : Bool
  mntOpsResolve : ℤ
  capCapable : Bool
  usernsProcResolve : ℤ

/-- What is there of devtmpfs. -/
structure Devtmpfs where
  mnt : Bool
  registered : Bool
  thread : Bool
  addHook : Bool
  delHook : Bool
  deriving DecidableEq

/-- What is there of the user namespaces; `up` is `droid_lkm_misc_userns_up`. -/
structure Userns where
  up : Bool
  kind : Bool
  copymntns : Bool
  fsctx : Bool
  unshare : Bool
  nsproxy : Bool
  creds : Bool
  inodecap : Bool
  cap : Bool
  tgid : Bool
  tid : Bool
  deriving DecidableEq

structure State where
  hk : Bool
  procDir : Bool
  addrtype : Bool
  devtmpfs : Devtmpfs
  userns : Userns
  deriving DecidableEq

def Devtmpfs.none : Devtmpfs := ⟨false, false, false, false, false⟩

def Userns.none : Userns :=
  ⟨false, false, false, false, false, false, false, false, false, false, false⟩

def fresh : State := ⟨false, false, false, .none, .none⟩

namespace Env

variable (e : Env)

/-- `droid_lkm_misc_proc_init`; the flag tells whether the directory is there. -/
def procInit : ℤ × Bool :=
  if e.procResolve ≠ 0 then (e.procResolve, false)
  else if !e.procMkdir then (-ENOMEM, false)
  else if !e.procCreate then (-ENOMEM, false)
  else (0, true)

/-- `droid_lkm_misc_xt_init`, with the one match that there is. -/
def xtInit : ℤ × Bool :=
  if e.xtRegister ≠ 0 then (e.xtRegister, false) else (0, true)

end Env

/-! ### devtmpfs -/

namespace Devtmpfs

def outUnmount (d : Devtmpfs) : Devtmpfs := { d with mnt := false }

def outUnregister (d : Devtmpfs) : Devtmpfs := outUnmount { d with registered := false }

def outStop (d : Devtmpfs) : Devtmpfs := outUnregister { d with thread := false }

def outUnhookAdd (d : Devtmpfs) : Devtmpfs := outStop { d with addHook := false }

/-- `droid_lkm_misc_devtmpfs_init` -/
def devtmpfsInit (e : Env) (d : Devtmpfs) : ℤ × Devtmpfs :=
  if e.devtmpfsResolve ≠ 0 then (e.devtmpfsResolve, d)
  else if e.kernMount ≠ 0 then (e.kernMount, d)
  else
    let d := { d with mnt := true }
    if e.registerFilesystem ≠ 0 then (e.registerFilesystem, d.outUnmount)
    else
      let d := { d with registered := true }
      if e.kthreadRun ≠ 0 then (e.kthreadRun, d.outUnregister)
      else
        let d := { d with thread := true }
        if e.hook .deviceAdd ≠ 0 then (e.hook .deviceAdd, d.outStop)
        else
          let d := { d with addHook := true }
          if e.hook .deviceDel ≠ 0 then (e.hook .deviceDel, d.outUnhookAdd)
          else (0, { d with delHook := true })

/-- What `droid_lkm_misc_devtmpfs_release` and `droid_lkm_misc_devtmpfs_exit` share: each part
    is taken back if it is there. -/
def takeBack (d : Devtmpfs) : Devtmpfs :=
  let d := if d.delHook then { d with delHook := false } else d
  let d := if d.addHook then { d with addHook := false } else d
  let d := if d.thread then { d with thread := false } else d
  let d := if d.registered then { d with registered := false } else d
  if d.mnt then { d with mnt := false } else d

/-- `droid_lkm_misc_devtmpfs_release` -/
def devtmpfsRelease (d : Devtmpfs) : Devtmpfs :=
  if !d.mnt && !d.registered then d else d.takeBack

/-- `droid_lkm_misc_devtmpfs_exit` -/
def devtmpfsExit (d : Devtmpfs) : Devtmpfs := d.takeBack

end Devtmpfs

/-! ### User namespaces -/

namespace Userns

/-- `droid_lkm_userns_nsops_init` -/
def nsopsInit (e : Env) (u : Userns) : ℤ × Userns :=
  if !e.nsopsAlloc then (-ENOMEM, u)
  else match e.kindRegister with
    | .none => (-ENODEV, u)
    | some r => if r ≠ 0 then (r, u) else (0, { u with kind := true })

/-- `droid_lkm_userns_nsops_exit` -/
def nsopsExit (u : Userns) : Userns := { u with kind := false }

/-- `droid_lkm_userns_owner_init` -/
def ownerInit (e : Env) (u : Userns) : ℤ × Userns :=
  if !e.initUserNs then (-ENOENT, u)
  else if e.mntOpsResolve ≠ 0 then (e.mntOpsResolve, u)
  else if e.hook .copymntns ≠ 0 then (e.hook .copymntns, u)
  else
    let u := { u with copymntns := true }
    if e.hook .fsctx ≠ 0 then (e.hook .fsctx, { u with copymntns := false })
    else (0, { u with fsctx := true })

/-- `droid_lkm_userns_owner_exit` -/
def ownerExit (u : Userns) : Userns :=
  let u := if u.fsctx then { u with fsctx := false } else u
  if u.copymntns then { u with copymntns := false } else u

def outUnshare (u : Userns) : Userns := { u with unshare := false }

def outNsproxy (u : Userns) : Userns := outUnshare { u with nsproxy := false }

def outCreds (u : Userns) : Userns := outNsproxy { u with creds := false }

/-- `droid_lkm_userns_hooks_init` -/
def hooksInit (e : Env) (u : Userns) : ℤ × Userns :=
  if e.hook .unshare ≠ 0 then (e.hook .unshare, u)
  else
    let u := { u with unshare := true }
    if e.hook .nsproxy ≠ 0 then (e.hook .nsproxy, u.outUnshare)
    else
      let u := { u with nsproxy := true }
      if e.hook .creds ≠ 0 then (e.hook .creds, u.outNsproxy)
      else
        let u := { u with creds := true }
        if e.hook .inodecap ≠ 0 then (e.hook .inodecap, u.outCreds)
        else (0, { u with inodecap := true })

/-- `droid_lkm_userns_hooks_exit` -/
def hooksExit (u : Userns) : Userns :=
  { u with inodecap := false, creds := false, nsproxy := false, unshare := false }

/-- `droid_lkm_userns_captrace_init`; what it returns is only warned about. -/
def captraceInit (e : Env) (u : Userns) : Userns :=
  if !e.captraceOn then u
  else if !e.capCapable then u
  else if e.hook .cap ≠ 0 then u
  else { u with cap := true }

/-- `droid_lkm_userns_captrace_exit` -/
def captraceExit (u : Userns) : Userns := if u.cap then { u with cap := false } else u

/-- `droid_lkm_userns_proc_init`; what it returns is only warned about. -/
def procInit (e : Env) (u : Userns) : Userns :=
  if e.usernsProcResolve ≠ 0 then u
  else if e.hook .procTgid ≠ 0 then u
  else
    let u := { u with tgid := true }
    if e.hook .procTid ≠ 0 then { u with tgid := false } else { u with tid := true }

/-- `droid_lkm_userns_proc_exit` -/
def procExit (u : Userns) : Userns :=
  let u := if u.tid then { u with tid := false } else u
  if u.tgid then { u with tgid := false } else u

/-- `droid_lkm_userns_init` -/
def usernsInit (e : Env) (u : Userns) : ℤ × Userns :=
  let (ret, u) := u.nsopsInit e
  if ret ≠ 0 then (ret, u)
  else
    let (ret, u) := u.ownerInit e
    if ret ≠ 0 then (ret, u.nsopsExit)
    else
      let (ret, u) := u.hooksInit e
      if ret ≠ 0 then (ret, u.ownerExit.nsopsExit)
      else (0, (u.captraceInit e).procInit e)

/-- `droid_lkm_userns_exit` -/
def usernsExit (u : Userns) : Userns :=
  u.procExit.captraceExit.hooksExit.ownerExit.nsopsExit

end Userns

/-! ### The module -/

/-- What `droid_lkm_misc_init` does about devtmpfs. -/
def Env.devtmpfsLoad (e : Env) : Devtmpfs :=
  if e.devtmpfsEnable then (Devtmpfs.none.devtmpfsInit e).2 else .none

/-- What it does about the user namespaces. -/
def Env.usernsLoad (e : Env) : Userns :=
  if e.usernsEnable then
    let (ret, u) := Userns.none.usernsInit e
    if ret ≠ 0 then u else { u with up := true }
  else .none

/-- `droid_lkm_misc_init` -/
def init (e : Env) : ℤ × State :=
  if !e.kallsyms then (-ENODATA, fresh)
  else if e.ksymInit ≠ 0 then (e.ksymInit, fresh)
  else if e.hkInit ≠ 0 then (e.hkInit, fresh)
  else
    let s := { fresh with hk := true, procDir := e.procInit.2 }
    let (ret, addrtype) := if e.xtEnable then e.xtInit else (0, false)
    let s := { s with addrtype := addrtype }
    if ret ≠ 0 then (ret, s)
    else (0, { s with devtmpfs := e.devtmpfsLoad, userns := e.usernsLoad })

/-- `droid_lkm_misc_release_set`, where a 1 is written. -/
def release (s : State) : State := { s with devtmpfs := s.devtmpfs.devtmpfsRelease }

/-- `droid_lkm_misc_exit` -/
def exit (s : State) : State :=
  let s := if s.userns.up then { s with userns := { s.userns.usernsExit with up := false } } else s
  let s := { s with devtmpfs := s.devtmpfs.devtmpfsExit }
  let s := { s with addrtype := false }
  let s := { s with procDir := false }
  if s.hk then { s with hk := false } else s

/-! ## What a load leaves -/

def Devtmpfs.all : Devtmpfs := ⟨true, true, true, true, true⟩

/-- All that cannot be missing, with or without the trace and the files of the id maps. -/
def Userns.all (cap files : Bool) : Userns :=
  ⟨true, true, true, true, true, true, true, true, cap, files, files⟩

/-- Of each feature there is all, or nothing. -/
structure Whole (s : State) : Prop where
  devtmpfs : s.devtmpfs = .none ∨ s.devtmpfs = .all
  userns : s.userns = .none ∨ ∃ cap files, s.userns = .all cap files

variable {e : Env} {s : State}

theorem devtmpfsInit_spec (e : Env) :
    (∃ r, r ≠ 0 ∧ Devtmpfs.none.devtmpfsInit e = (r, .none)) ∨
      Devtmpfs.none.devtmpfsInit e = (0, .all) := by
  unfold Devtmpfs.devtmpfsInit
  split
  · next h => exact .inl ⟨_, h, rfl⟩
  split
  · next h => exact .inl ⟨_, h, rfl⟩
  dsimp only
  split
  · next h => exact .inl ⟨_, h, rfl⟩
  split
  · next h => exact .inl ⟨_, h, rfl⟩
  split
  · next h => exact .inl ⟨_, h, rfl⟩
  split
  · next h => exact .inl ⟨_, h, rfl⟩
  · exact .inr rfl

/-- The files of the id maps can be hooked. -/
def Env.idMapFiles (e : Env) : Bool :=
  e.usernsProcResolve == 0 && e.hook .procTgid == 0 && e.hook .procTid == 0

namespace Userns

/-- What there is after `droid_lkm_userns_nsops_init`. -/
def entered : Userns := { none with kind := true }

/-- After `droid_lkm_userns_owner_init`. -/
def owned : Userns := { entered with copymntns := true, fsctx := true }

/-- After `droid_lkm_userns_hooks_init`. -/
def hooked : Userns :=
  { owned with unshare := true, nsproxy := true, creds := true, inodecap := true }

theorem nsopsInit_spec (e : Env) :
    (∃ r, r ≠ 0 ∧ none.nsopsInit e = (r, none)) ∨ none.nsopsInit e = (0, entered) := by
  unfold nsopsInit
  split
  · exact .inl ⟨_, by decide, rfl⟩
  split
  · exact .inl ⟨_, by decide, rfl⟩
  split
  · next h => exact .inl ⟨_, h, rfl⟩
  · exact .inr rfl

theorem ownerInit_spec (e : Env) :
    (∃ r, r ≠ 0 ∧ entered.ownerInit e = (r, entered)) ∨ entered.ownerInit e = (0, owned) := by
  unfold ownerInit
  split
  · exact .inl ⟨_, by decide, rfl⟩
  split
  · next h => exact .inl ⟨_, h, rfl⟩
  split
  · next h => exact .inl ⟨_, h, rfl⟩
  dsimp only
  split
  · next h => exact .inl ⟨_, h, rfl⟩
  · exact .inr rfl

theorem hooksInit_spec (e : Env) :
    (∃ r, r ≠ 0 ∧ owned.hooksInit e = (r, owned)) ∨ owned.hooksInit e = (0, hooked) := by
  unfold hooksInit
  split
  · next h => exact .inl ⟨_, h, rfl⟩
  dsimp only
  split
  · next h => exact .inl ⟨_, h, rfl⟩
  split
  · next h => exact .inl ⟨_, h, rfl⟩
  split
  · next h => exact .inl ⟨_, h, rfl⟩
  · exact .inr rfl

theorem captraceInit_spec (e : Env) :
    ∃ cap, hooked.captraceInit e = { hooked with cap := cap } := by
  unfold captraceInit
  split
  · exact ⟨false, rfl⟩
  split
  · exact ⟨false, rfl⟩
  split
  · exact ⟨false, rfl⟩
  · exact ⟨true, rfl⟩

/-- The files of the id maps are hooked in both directories or in none. -/
theorem procInit_spec (e : Env) (cap : Bool) :
    { hooked with cap := cap }.procInit e =
      { hooked with cap := cap, tgid := e.idMapFiles, tid := e.idMapFiles } := by
  unfold procInit Env.idMapFiles
  split
  · next h => simp [h, hooked, owned, entered, none]
  split
  · next h => simp [h, hooked, owned, entered, none]
  dsimp only
  split
  · next h => simp [h, hooked, owned, entered, none]
  · next h₁ h₂ h₃ =>
    rw [not_not] at h₁ h₂ h₃
    simp [h₁, h₂, h₃]

/-- A failing `droid_lkm_userns_init` leaves nothing, and one that succeeds all. -/
theorem usernsInit_spec (e : Env) :
    (∃ r, r ≠ 0 ∧ none.usernsInit e = (r, none)) ∨ ∃ cap, none.usernsInit e =
      (0, { hooked with cap := cap, tgid := e.idMapFiles, tid := e.idMapFiles }) := by
  unfold usernsInit
  rcases nsopsInit_spec e with ⟨r, hr, h⟩ | h <;> rw [h] <;> dsimp only
  · rw [if_pos hr]
    exact .inl ⟨r, hr, rfl⟩
  rw [if_neg (by simp)]
  rcases ownerInit_spec e with ⟨r, hr, h⟩ | h <;> rw [h] <;> dsimp only
  · rw [if_pos hr]
    exact .inl ⟨r, hr, rfl⟩
  rw [if_neg (by simp)]
  rcases hooksInit_spec e with ⟨r, hr, h⟩ | h <;> rw [h] <;> dsimp only
  · rw [if_pos hr]
    exact .inl ⟨r, hr, rfl⟩
  rw [if_neg (by simp)]
  obtain ⟨cap, hcap⟩ := captraceInit_spec e
  rw [hcap, procInit_spec]
  exact .inr ⟨cap, rfl⟩

end Userns

/-! ## Loads, releases and the unload -/

theorem devtmpfsLoad_whole (e : Env) : e.devtmpfsLoad = .none ∨ e.devtmpfsLoad = .all := by
  unfold Env.devtmpfsLoad
  split
  · rcases devtmpfsInit_spec e with ⟨r, -, h⟩ | h <;> rw [h]
    · exact .inl rfl
    · exact .inr rfl
  · exact .inl rfl

theorem usernsLoad_whole (e : Env) :
    e.usernsLoad = .none ∨ ∃ cap files, e.usernsLoad = .all cap files := by
  unfold Env.usernsLoad
  split
  · rcases Userns.usernsInit_spec e with ⟨r, hr, h⟩ | ⟨cap, h⟩ <;> rw [h] <;> dsimp only
    · exact .inl (if_pos hr)
    · rw [if_neg (by simp)]
      exact .inr ⟨cap, e.idMapFiles, rfl⟩
  · exact .inl rfl

/-- None of the three that nothing can do without has failed. -/
def Env.Started (e : Env) : Prop := e.kallsyms = true ∧ e.ksymInit = 0 ∧ e.hkInit = 0

/-- The match of the packet filter cannot be registered. -/
def Env.XtFails (e : Env) : Prop := e.xtEnable = true ∧ e.xtRegister ≠ 0

theorem init_not_started (h : ¬e.Started) : (init e).1 ≠ 0 ∧ (init e).2 = fresh := by
  unfold init
  split
  · exact ⟨by decide, rfl⟩
  split
  · next h => exact ⟨h, rfl⟩
  split
  · next h => exact ⟨h, rfl⟩
  · next hk hs hh =>
    exact absurd ⟨by simpa using hk, by simpa using hs, by simpa using hh⟩ h

theorem init_xt_fails (h : e.Started) (hx : e.XtFails) : init e =
    (e.xtRegister, { fresh with hk := true, procDir := e.procInit.2 }) := by
  obtain ⟨hk, hs, hh⟩ := h
  simp [init, hk, hs, hh, hx.1, Env.xtInit, hx.2, fresh]

theorem init_done (h : e.Started) (hx : ¬e.XtFails) : init e =
    (0, ⟨true, e.procInit.2, e.xtEnable, e.devtmpfsLoad, e.usernsLoad⟩) := by
  obtain ⟨hk, hs, hh⟩ := h
  cases hen : e.xtEnable with
  | false => simp [init, hk, hs, hh, hen]
  | true =>
    have h0 : e.xtRegister = 0 := by
      by_contra hne
      exact hx ⟨hen, hne⟩
    simp [init, hk, hs, hh, hen, Env.xtInit, h0]

/-- What a load that has succeeded leaves. -/
theorem init_whole (h : (init e).1 = 0) : (init e).2.hk = true ∧ Whole (init e).2 := by
  by_cases hs : e.Started
  · by_cases hx : e.XtFails
    · rw [init_xt_fails hs hx] at h
      exact absurd h hx.2
    · rw [init_done hs hx]
      exact ⟨rfl, devtmpfsLoad_whole e, usernsLoad_whole e⟩
  · exact absurd h (init_not_started hs).1

/-- A release takes devtmpfs back whole. -/
theorem release_whole (h : Whole s) : Whole (release s) ∧ (release s).devtmpfs = .none ∧
    (release s).hk = s.hk := by
  have hnone : (release s).devtmpfs = .none := by
    rcases h.devtmpfs with hd | hd <;> simp only [release, hd] <;> rfl
  exact ⟨⟨.inl hnone, h.userns⟩, hnone, rfl⟩

/-- The unload of what is whole leaves nothing. -/
theorem exit_whole (hk : s.hk = true) (h : Whole s) : exit s = fresh := by
  obtain ⟨hk', dir, addrtype, d, u⟩ := s
  obtain rfl : hk' = true := hk
  rcases h with ⟨rfl | rfl, rfl | ⟨cap, files, rfl⟩⟩
  · rfl
  · cases cap <;> cases files <;> rfl
  · rfl
  · cases cap <;> cases files <;> rfl

/-- **Loaded and unloaded.**  After a load that has succeeded, and any number of releases, of
    each feature there is all or nothing, and the unload leaves nothing in force. -/
theorem unload_clean (h : (init e).1 = 0) (n : ℕ) :
    Whole (release^[n] (init e).2) ∧ exit (release^[n] (init e).2) = fresh := by
  have hrun : (release^[n] (init e).2).hk = true ∧ Whole (release^[n] (init e).2) := by
    induction n with
    | zero => exact init_whole h
    | succ n ih =>
      rw [Function.iterate_succ_apply']
      obtain ⟨hw, -, hk⟩ := release_whole ih.2
      exact ⟨hk.trans ih.1, hw⟩
  exact ⟨hrun.2, exit_whole hrun.1 hrun.2⟩

/-- **A load that fails.**  It leaves nothing if and only if it ends before `hk_init` is done;
    the one that ends later is refused for the match of the packet filter, and leaves the
    hook engine and the directory under `/proc`, though the module goes. -/
theorem failed_init (h : (init e).1 ≠ 0) : ((init e).2 = fresh ↔ ¬e.Started) ∧
    (e.Started → e.XtFails ∧ (init e).2 = { fresh with hk := true, procDir := e.procInit.2 }) := by
  by_cases hs : e.Started
  · have hx : e.XtFails := by
      by_contra hx
      rw [init_done hs hx] at h
      exact h rfl
    rw [init_xt_fails hs hx]
    refine ⟨iff_of_false ?_ (not_not_intro hs), fun _ => ⟨hx, rfl⟩⟩
    intro he
    cases congrArg State.hk he
  · exact ⟨iff_of_true (init_not_started hs).2 hs, fun hs' => absurd hs' hs⟩

/-- A kernel where all goes well, but for what `xtRegister` says. -/
def plain (xtRegister : ℤ) : Env where
  kallsyms := true
  ksymInit := 0
  hkInit := 0
  xtEnable := true
  devtmpfsEnable := true
  usernsEnable := true
  captraceOn := false
  procResolve := 0
  procMkdir := true
  procCreate := true
  xtRegister := xtRegister
  devtmpfsResolve := 0
  kernMount := 0
  registerFilesystem := 0
  kthreadRun := 0
  hook _ := 0
  nsopsAlloc := true
  kindRegister := some 0
  initUserNs := true
  mntOpsResolve := 0
  capCapable := true
  usernsProcResolve := 0

/-- A load with all features, a release and the unload. -/
theorem unload_clean_plain : exit (release (init (plain 0)).2) = fresh :=
  (unload_clean (e := plain 0) (by decide) 1).2

/-- The match is there already. -/
theorem failed_init_plain : (init (plain (-17))).2 =
    { fresh with hk := true, procDir := true } :=
  ((failed_init (e := plain (-17)) (by decide)).2 ⟨rfl, rfl, rfl⟩).2

end DroidLkm.Misc.Load
