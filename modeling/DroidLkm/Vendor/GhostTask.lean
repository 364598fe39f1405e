/-
  The task that is handed out where none is found — how it is made.

  The object has the size of the build, its members are where the type info of the
  running kernel places them.

  * `TaskBtf`: what the type info says about `struct task_struct`;
  * `ghostBuild`: `dlc_ghost_build`, as the list of its stores to the object;
  * `Content`: what the ghost must show at the places of its members;
  * `ghostBuild_iff`: all stores lie in the object and the content is right if and
    only if the members lie in it.
-/
import DroidLkm.Errno
import DroidLkm.Lib.Cells

namespace DroidLkm.Vendor.GhostTask

open Cells

def TASK_COMM_LEN : ℕ := 16

/-- The members in `dlc_ghost_fields`. -/
inductive Member where
  | pid
  | tgid
  | comm
  | usage
  | tasks
  | children
  | sibling
  | threadNode
  | ptraced
  | ptraceEntry
  deriving DecidableEq

namespace Member

/-- `dlc_ghost_fields` -/
def all : List Member :=
  [pid, tgid, comm, usage, tasks, children, sibling, threadNode, ptraced, ptraceEntry]

/-- From `DLC_GHOST_F_TASKS` to `DLC_GHOST_F_PTRACE_ENTRY`. -/
def lists : List Member := [tasks, children, sibling, threadNode, ptraced, ptraceEntry]

/-- The size of a member: a `pid_t`, a `refcount_t`, a name, or a list head. -/
def width : Member → ℕ
  | pid | tgid | usage => 4
  | comm => TASK_COMM_LEN
  | _ => 8 + 8

theorem mem_all (f : Member) : f ∈ all := by cases f <;> decide

end Member

/-- What the type info says: `ti_init`, whether the struct is there, the offsets of
    its members in bits, and its size. -/
structure TaskBtf where
  started : Bool
  hasType : Bool
  bitOff : Member → Option ℕ
  size : ℕ
  /-- members of a struct do not overlap -/
  apart : ∀ f g i j, f ≠ g → bitOff f = some i → bitOff g = some j →
    i / 8 + f.width ≤ j / 8 ∨ j / 8 + g.width ≤ i / 8

/-- `dlc_ghost_task`, in an address space of 64 bits. -/
structure Object where
  base : ℕ
  size : ℕ
  fits : base + size ≤ 2 ^ 64

/-- A store. -/
structure Store where
  addr : ℤ
  bytes : List UInt8
  deriving DecidableEq

/-- The `n` bytes of a number, low byte first. -/
def le (v : ℕ) : ℕ → List UInt8
  | 0 => []
  | n + 1 => UInt8.ofNat v :: le (v / 256) n

/-- The number in these bytes. -/
def num : List UInt8 → ℕ
  | [] => 0
  | b :: bs => b.toNat + 256 * num bs

/-- `DLC_GHOST_TASK_COMM` -/
def COMM : List UInt8 := "ghost-task-sentinel".toList.map fun c => UInt8.ofNat c.toNat

/-! ## The functions of the source -/

/-- The offsets of `dlc_ghost_layout`, or none where it returns `-ENODATA`. -/
def TaskBtf.layout (t : TaskBtf) : Option (Member → ℕ) :=
  if t.started && t.hasType && Member.all.all (fun f => (t.bitOff f).isSome) && t.size != 0 then
    some fun f => (t.bitOff f).getD 0 / 8
  else none

/-- `INIT_LIST_HEAD` -/
def initListHead (a : ℕ) : Store := ⟨a, le a 8 ++ le a 8⟩

/-- `strscpy` -/
def strscpy (a : ℕ) (src : List UInt8) (n : ℕ) : Store := ⟨a, src.take (n - 1) ++ [0]⟩

/-- What `dlc_ghost_build` stores to the members, in its order. -/
def memberStores (at_ : Member → ℕ) : List Store :=
  Member.lists.map (fun f => initListHead (at_ f)) ++
    [strscpy (at_ .comm) COMM TASK_COMM_LEN, ⟨at_ .pid, le 0 4⟩, ⟨at_ .tgid, le 0 4⟩,
      ⟨at_ .usage, le 1000 4⟩]

variable (o : Object) (t : TaskBtf) (initTask : ℕ) (m : Cells UInt8)

/-- `dlc_ghost_at` -/
def ghostAt (off : Member → ℕ) (f : Member) : ℕ := o.base + off f

/-- `dlc_ghost_build`: what it stores to the object, in the memory `m`. -/
def ghostBuild : Except ℤ (List Store) :=
  if initTask = 0 then .error (-ENOENT)
  else match t.layout with
    | none => .error (-ENODATA)
    | some off =>
      let copy := if t.size < o.size then t.size else o.size
      .ok (⟨o.base, vec m initTask 1 copy⟩ :: memberStores (ghostAt o off))

/-- The memory after the stores. -/
def stored (m : Cells UInt8) (ws : List Store) : Cells UInt8 :=
  ws.foldl (fun m w => setVec m w.addr 1 w.bytes) m

/-! ## The ghost -/

/-- The store lies in the object. -/
def Inside (w : Store) : Prop := o.base ≤ w.addr ∧ w.addr + w.bytes.length ≤ o.base + o.size

instance (w : Store) : Decidable (Inside o w) := inferInstanceAs (Decidable (_ ∧ _))

/-- What the ghost shows at the places of its members; the name is cut to the size
    of `comm`. -/
structure Content (at_ : Member → ℕ) (m : Cells UInt8) : Prop where
  pid : num (vec m (at_ .pid) 1 4) = 0
  tgid : num (vec m (at_ .tgid) 1 4) = 0
  comm : (vec m (at_ .comm) 1 TASK_COMM_LEN).takeWhile (· ≠ 0) = COMM.take (TASK_COMM_LEN - 1)
  usage : 0 < num (vec m (at_ .usage) 1 4) ∧ num (vec m (at_ .usage) 1 4) < 2 ^ 31
  lists : ∀ f ∈ Member.lists, num (vec m (at_ f) 1 8) = at_ f ∧ num (vec m (at_ f + 8) 1 8) = at_ f

/-- Where the build succeeds it has stored to the object only, and the ghost has
    its content. -/
def Sound : Prop :=
  ∀ ws, ghostBuild o t initTask m = .ok ws →
    (∀ w ∈ ws, Inside o w) ∧
      ∀ off, t.layout = some off → Content (ghostAt o off) (stored m ws)

variable {o t initTask m} {off : Member → ℕ} {v n : ℕ} {w : Store} {ws : List Store}

/-! ## Numbers in bytes -/

@[simp] theorem length_le (v n : ℕ) : (le v n).length = n := by
  induction n generalizing v with
  | zero => rfl
  | succ n ih => rw [le, List.length_cons, ih]

theorem num_le (h : v < 256 ^ n) : num (le v n) = v := by
  induction n generalizing v with
  | zero =>
    rw [pow_zero] at h
    simp only [le, num]
    omega
  | succ n ih =>
    have hdiv : v / 256 < 256 ^ n := by
      rw [pow_succ] at h
      omega
    rw [le, num, ih hdiv, UInt8.toNat_ofNat']
    have h8 : 2 ^ 8 = 256 := rfl
    omega

/-! ## Stores that lie apart -/

theorem stored_cons (m : Cells UInt8) (w : Store) (ws : List Store) :
    stored m (w :: ws) = stored (setVec m w.addr 1 w.bytes) ws := rfl

/-- Two stores do not overlap. -/
def Apart (w w' : Store) : Prop :=
  w.addr + w.bytes.length ≤ w'.addr ∨ w'.addr + w'.bytes.length ≤ w.addr

theorem stored_apart (h : ∀ w' ∈ ws, Apart w w') :
    vec (stored m ws) w.addr 1 w.bytes.length = vec m w.addr 1 w.bytes.length := by
  induction ws generalizing m with
  | nil => rfl
  | cons w' ws ih =>
    have hw : Apart w w' := h w' List.mem_cons_self
    rw [stored_cons]
    refine (ih fun w'' hw' => h w'' (List.mem_cons_of_mem _ hw')).trans ?_
    refine vec_setVec_apart Nat.one_pos Nat.one_pos ?_
    unfold Apart at hw
    push_cast
    omega

/-- What was stored is there, where no later store touches it. -/
theorem stored_mem (h : ws.Pairwise Apart) (hw : w ∈ ws) :
    vec (stored m ws) w.addr 1 w.bytes.length = w.bytes := by
  induction ws generalizing m with
  | nil => cases hw
  | cons w' ws ih =>
    obtain ⟨hfirst, hrest⟩ := List.pairwise_cons.1 h
    rcases List.mem_cons.1 hw with rfl | hw
    · rw [stored_cons]
      exact (stored_apart hfirst).trans (vec_setVec Nat.one_pos rfl)
    · rw [stored_cons]
      exact ih hrest hw

/-! ## The stores to the members -/

/-- The store to one member. -/
def memberStore (at_ : Member → ℕ) : Member → Store
  | .pid => ⟨at_ .pid, le 0 4⟩
  | .tgid => ⟨at_ .tgid, le 0 4⟩
  | .usage => ⟨at_ .usage, le 1000 4⟩
  | .comm => strscpy (at_ .comm) COMM TASK_COMM_LEN
  | f => initListHead (at_ f)

/-- The order of the stores. -/
def order : List Member := Member.lists ++ [.comm, .pid, .tgid, .usage]

theorem memberStores_eq (at_ : Member → ℕ) :
    memberStores at_ = order.map (memberStore at_) := rfl

theorem mem_order (f : Member) : f ∈ order := by cases f <;> decide

@[simp] theorem memberStore_addr (at_ : Member → ℕ) (f : Member) :
    (memberStore at_ f).addr = at_ f := by cases f <;> rfl

@[simp] theorem length_memberStore (at_ : Member → ℕ) (f : Member) :
    (memberStore at_ f).bytes.length = f.width := by
  cases f with
  | comm => exact (by decide : (COMM.take (TASK_COMM_LEN - 1) ++ [0]).length = TASK_COMM_LEN)
  | _ => simp [memberStore, initListHead, Member.width]

theorem layout_some (h : t.layout = some off) (f : Member) :
    ∃ i, t.bitOff f = some i ∧ off f = i / 8 := by
  unfold TaskBtf.layout at h
  split at h
  · next hall =>
    simp only [Bool.and_eq_true, List.all_eq_true] at hall
    obtain ⟨i, hi⟩ := Option.isSome_iff_exists.1 (hall.1.2 f (Member.mem_all f))
    refine ⟨i, hi, ?_⟩
    rw [← Option.some.inj h]
    simp [hi]
  · cases h

/-- The members of a struct do not overlap, so neither do the stores. -/
theorem memberStores_apart (h : t.layout = some off) :
    (memberStores (ghostAt o off)).Pairwise Apart := by
  rw [memberStores_eq, List.pairwise_map]
  have hnodup : order.Nodup := by decide
  refine hnodup.imp fun {f g} hne => ?_
  obtain ⟨i, hi, hfi⟩ := layout_some h f
  obtain ⟨j, hj, hgj⟩ := layout_some h g
  have hapart := t.apart f g i j hne hi hj
  unfold Apart ghostAt
  simp only [memberStore_addr, length_memberStore]
  push_cast
  omega

/-- Each member shows what was stored to it. -/
theorem member_stored (h : t.layout = some off) (f : Member) :
    vec (stored m (memberStores (ghostAt o off))) (ghostAt o off f) 1 f.width =
      (memberStore (ghostAt o off) f).bytes := by
  have hmem : memberStore (ghostAt o off) f ∈ memberStores (ghostAt o off) := by
    rw [memberStores_eq]
    exact List.mem_map_of_mem (mem_order f)
  have hvec := stored_mem (m := m) (memberStores_apart h) hmem
  rwa [memberStore_addr, length_memberStore] at hvec

/-- A list head is two pointers. -/
theorem listHead_stored {a : ℕ} (ha : a < 2 ^ 64) (h : vec m a 1 16 = le a 8 ++ le a 8) :
    num (vec m a 1 8) = a ∧ num (vec m (a + 8) 1 8) = a := by
  have hsplit : vec m a 1 8 ++ vec m (a + 8) 1 8 = le a 8 ++ le a 8 := h
  have hlen : (vec m a 1 8).length = (le a 8).length := by simp
  obtain ⟨hnext, hprev⟩ := List.append_inj hsplit hlen
  have h256 : 256 ^ 8 = 2 ^ 64 := by decide
  rw [hnext, hprev]
  exact ⟨num_le (by omega), num_le (by omega)⟩

theorem content (h : t.layout = some off) (hin : ∀ f, off f + f.width ≤ o.size) :
    Content (ghostAt o off) (stored m (memberStores (ghostAt o off))) where
  pid := by
    have hvec := member_stored (o := o) (m := m) h .pid
    exact (congrArg num hvec).trans (num_le (by decide))
  tgid := by
    have hvec := member_stored (o := o) (m := m) h .tgid
    exact (congrArg num hvec).trans (num_le (by decide))
  comm := by
    have hvec := member_stored (o := o) (m := m) h .comm
    have hcut : (COMM.take (TASK_COMM_LEN - 1) ++ [0]).takeWhile (· ≠ 0) =
        COMM.take (TASK_COMM_LEN - 1) := by decide
    exact (congrArg (List.takeWhile (· ≠ 0)) hvec).trans hcut
  usage := by
    have hvec := member_stored (o := o) (m := m) h .usage
    have hnum := (congrArg num hvec).trans (num_le (v := 1000) (n := 4) (by decide))
    have hpos : 0 < 1000 ∧ 1000 < 2 ^ 31 := by decide
    rw [← hnum] at hpos
    exact hpos
  lists f hf := by
    have hvec := member_stored (o := o) (m := m) h f
    have hfits := o.fits
    have hinside := hin f
    have hbytes : f.width = 16 ∧ (memberStore (ghostAt o off) f).bytes =
        le (ghostAt o off f) 8 ++ le (ghostAt o off f) 8 := by
      simp only [Member.lists, List.mem_cons, List.not_mem_nil, or_false] at hf
      rcases hf with rfl | rfl | rfl | rfl | rfl | rfl <;> exact ⟨rfl, rfl⟩
    rw [hbytes.1, hbytes.2] at hvec
    refine listHead_stored ?_ hvec
    unfold ghostAt
    omega

theorem inside_memberStore (f : Member) :
    Inside o (memberStore (ghostAt o off) f) ↔ off f + f.width ≤ o.size := by
  unfold Inside
  rw [memberStore_addr, length_memberStore, ghostAt]
  push_cast
  omega

/-- A build that succeeds copies into the object, and then stores to the members. -/
theorem ghostBuild_ok (hinit : initTask ≠ 0) (hoff : t.layout = some off) :
    ∃ copy, Inside o copy ∧
      ghostBuild o t initTask m = .ok (copy :: memberStores (ghostAt o off)) := by
  refine ⟨⟨o.base, vec m initTask 1 (if t.size < o.size then t.size else o.size)⟩, ?_, ?_⟩
  · unfold Inside
    rw [length_vec]
    split <;> (dsimp only; omega)
  · rw [ghostBuild, if_neg hinit, hoff]

/-- **The ghost.**  For every object, every answer of the type info and every memory
    the stores lie in the object and the ghost has its content if and only if there
    is no `init_task`, or no layout, or every member lies in the object. -/
theorem ghostBuild_iff (o : Object) (t : TaskBtf) (initTask : ℕ) (m : Cells UInt8) :
    Sound o t initTask m ↔
      initTask = 0 ∨ ∀ off, t.layout = some off → ∀ f, off f + Member.width f ≤ o.size := by
  constructor
  · intro h
    by_cases hinit : initTask = 0
    · exact .inl hinit
    refine .inr fun off hoff f => ?_
    obtain ⟨copy, -, hbuild⟩ := ghostBuild_ok (o := o) (m := m) hinit hoff
    have hmem : memberStore (ghostAt o off) f ∈ memberStores (ghostAt o off) := by
      rw [memberStores_eq]
      exact List.mem_map_of_mem (mem_order f)
    exact (inside_memberStore f).1 ((h _ hbuild).1 _ (List.mem_cons_of_mem _ hmem))
  · rintro h ws hws
    by_cases hinit : initTask = 0
    · rw [ghostBuild, if_pos hinit] at hws
      cases hws
    rcases hoff : t.layout with _ | off
    · rw [ghostBuild, if_neg hinit, hoff] at hws
      cases hws
    have hfit := h.resolve_left hinit off hoff
    obtain ⟨copy, hcopy, hbuild⟩ := ghostBuild_ok (o := o) (m := m) hinit hoff
    obtain rfl := Except.ok.inj (hbuild.symm.trans hws)
    refine ⟨fun w hw => ?_, fun off' hoff' => ?_⟩
    · rcases List.mem_cons.1 hw with rfl | hw
      · exact hcopy
      · rw [memberStores_eq] at hw
        obtain ⟨f, -, rfl⟩ := List.mem_map.1 hw
        exact (inside_memberStore f).2 (hfit f)
    · obtain rfl : off = off' := Option.some.inj hoff'
      rw [stored_cons]
      exact content hoff hfit

/-! ## A larger task -/

/-- The members one behind the other, from an offset on. -/
def packed (start : ℕ) : Member → ℕ
  | .pid => start
  | .tgid => start + 4
  | .usage => start + 8
  | .comm => start + 16
  | .tasks => start + 32
  | .children => start + 48
  | .sibling => start + 64
  | .threadNode => start + 80
  | .ptraced => start + 96
  | .ptraceEntry => start + 112

/-- A running kernel whose `task_struct` is larger than that of the build. -/
def larger : TaskBtf where
  started := true
  hasType := true
  bitOff f := some (8 * packed 4000 f)
  size := 4608
  apart f g i j hne hi hj := by
    obtain rfl := Option.some.inj hi
    obtain rfl := Option.some.inj hj
    cases f <;> cases g <;> first | exact absurd rfl hne | decide

/-- The object of the build. -/
def page : Object := ⟨4096, 4096, by decide⟩

/-- The heads from `ptraced` on are behind the object. -/
theorem larger_not_sound : ¬Sound page larger 8 (fun _ => 0) := by
  intro h
  have hlayout : larger.layout = some (packed 4000) := by
    have hoffs : (fun f => (larger.bitOff f).getD 0 / 8) = packed 4000 := by
      funext f
      simp [larger]
    rw [← hoffs]
    exact if_pos (by decide)
  obtain ⟨copy, -, hbuild⟩ :=
    ghostBuild_ok (o := page) (m := fun _ => 0) (show 8 ≠ 0 by decide) hlayout
  have hmem : initListHead (ghostAt page (packed 4000) .ptraced) ∈
      memberStores (ghostAt page (packed 4000)) := by
    rw [memberStores_eq]
    exact List.mem_map_of_mem (mem_order .ptraced)
  have hin := (h _ hbuild).1 _ (List.mem_cons_of_mem _ hmem)
  have hno : ¬Inside page (initListHead (ghostAt page (packed 4000) .ptraced)) := by decide
  exact hno hin

end DroidLkm.Vendor.GhostTask
