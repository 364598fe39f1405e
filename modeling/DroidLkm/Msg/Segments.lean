/-
  SysV message queues — the text of a message in memory.

  * `allocMsg`, `loadMsg`, `copyMsg`, `storeMsg`: as in `ipc_msgutil.c`, where
    `none` is an access outside of an allocation or through a null pointer;
  * `send`, `prepareCopy`, `doMsgFill`: how `ipc_msg.c` uses them;
  * `Holds`: the blocks of a message are those `alloc_msg` makes for `n` bytes;
    each loop does to them what one copy does to the text as a whole
    (`loadMsg_spec`, `storeMsg_spec`, `copyMsg_spec`);
  * `segments_round_trip`: what is loaded is what is stored and copied.
-/
import Mathlib.Logic.Function.Basic
import DroidLkm.Errno
import DroidLkm.Lib.Cuts

namespace DroidLkm.Msg.Segments

open Cuts

/-! ## Memory -/

/-- Sizes of a kernel build: a page is larger than the headers. -/
structure Page where
  PAGE_SIZE : ℕ
  sizeofMsg : ℕ
  sizeofSeg : ℕ
  msg_lt : sizeofMsg < PAGE_SIZE
  seg_lt : sizeofSeg < PAGE_SIZE

def Page.DATALEN_MSG (P : Page) : ℕ := P.PAGE_SIZE - P.sizeofMsg

def Page.DATALEN_SEG (P : Page) : ℕ := P.PAGE_SIZE - P.sizeofSeg

theorem Page.DATALEN_SEG_pos (P : Page) : 0 < P.DATALEN_SEG := Nat.sub_pos_of_lt P.seg_lt

/-- The memory of a process; `none` is an address that faults. -/
abbrev User := ℕ → Option UInt8

/-- The bytes from `src` on; `none` if one of them faults. -/
def copyFromUser (u : User) (src : ℕ) : ℕ → Option (List UInt8)
  | 0 => some []
  | n + 1 => (u src).bind fun b => (copyFromUser u (src + 1) n).map (b :: ·)

/-- Writes up to the first address that faults; whether all was written. -/
def copyToUser : User → ℕ → List UInt8 → User × Bool
  | u, _, [] => (u, true)
  | u, dest, b :: bs =>
    if (u dest).isSome then copyToUser (Function.update u dest (some b)) (dest + 1) bs
    else (u, false)

/-- The allocations in their order: what each finds in its memory, or `none`
    where there is none left. -/
abbrev Kmalloc := ℕ → (n : ℕ) → Option (Vector UInt8 n)

/-- `struct msg_msg`; `head` and `next` are the bytes after the headers. -/
structure MsgMsg where
  mType : ℤ
  mTs : ℕ
  head : List UInt8
  next : List (List UInt8)
  deriving DecidableEq

/-- `copy_from_user` into a block. -/
def copyIn (u : User) (src alen : ℕ) (area : List UInt8) : Option (Option (List UInt8)) :=
  if alen ≤ area.length then
    some ((copyFromUser u src alen).map fun bs => bs ++ area.drop alen)
  else none

/-- `copy_to_user` from a block. -/
def copyOut (u : User) (dest alen : ℕ) (area : List UInt8) : Option (User × Bool) :=
  if alen ≤ area.length then some (copyToUser u dest (area.take alen)) else none

/-- `memcpy` from the block `src` to the block `dst`. -/
def memcpy (dst src : List UInt8) (alen : ℕ) : Option (List UInt8) :=
  if alen ≤ src.length ∧ alen ≤ dst.length then some (src.take alen ++ dst.drop alen) else none

/-! ## The functions of the source -/

/-- The loop of `alloc_msg`. -/
def allocSegs (P : Page) (kmalloc : Kmalloc) (call len : ℕ) : Option (List (List UInt8)) :=
  if 0 < len then
    let alen := min len P.DATALEN_SEG
    match kmalloc call alen with
    | none => none
    | some seg => (allocSegs P kmalloc (call + 1) (len - alen)).map (seg.toList :: ·)
  else some []
termination_by len
decreasing_by
  have := P.DATALEN_SEG_pos
  omega

/-- `alloc_msg`; the type and the size are the caller's to fill in. -/
def allocMsg (P : Page) (kmalloc : Kmalloc) (len : ℕ) : Option MsgMsg :=
  let alen := min len P.DATALEN_MSG
  match kmalloc 0 alen with
  | none => none
  | some head =>
    (allocSegs P kmalloc 1 (len - alen)).map fun next => ⟨0, 0, head.toList, next⟩

/-- The loop of `load_msg`; `alen` bytes have been copied from `src`. -/
def loadSegs (P : Page) (u : User) :
    ℕ → ℕ → ℕ → List (List UInt8) → Option (Option (List (List UInt8)))
  | _, _, _, [] => some (some [])
  | src, len, alen, seg :: segs =>
    let len := len - alen
    let src := src + alen
    let alen := min len P.DATALEN_SEG
    match copyIn u src alen seg with
    | none => none
    | some none => some none
    | some (some seg) => (loadSegs P u src len alen segs).map (Option.map (seg :: ·))

/-- `load_msg`; `lsm` is the result of `security_msg_msg_alloc`. -/
def loadMsg (P : Page) (kmalloc : Kmalloc) (u : User) (lsm : ℤ) (src len : ℕ) :
    Option (Except ℤ MsgMsg) :=
  match allocMsg P kmalloc len with
  | none => some (.error (-ENOMEM))
  | some msg =>
    let alen := min len P.DATALEN_MSG
    match copyIn u src alen msg.head with
    | none => none
    | some none => some (.error (-EFAULT))
    | some (some head) =>
      match loadSegs P u src len alen msg.next with
      | none => none
      | some none => some (.error (-EFAULT))
      | some (some next) =>
        if lsm = 0 then some (.ok { msg with head := head, next := next })
        else some (.error lsm)

/-- The loop of `copy_msg`: blocks of the copy that the message does not reach
    stay, and it may not run out of them. -/
def copySegs (P : Page) :
    ℕ → ℕ → List (List UInt8) → List (List UInt8) → Option (List (List UInt8))
  | _, _, dst, [] => some dst
  | _, _, [], _ :: _ => none
  | len, alen, d :: dst, s :: src =>
    let len := len - alen
    let alen := min len P.DATALEN_SEG
    match memcpy d s alen with
    | none => none
    | some d => (copySegs P len alen dst src).map (d :: ·)

/-- `copy_msg` of a kernel with `CONFIG_CHECKPOINT_RESTORE`: the destination
    afterwards, and `0` where the code returns it. -/
def copyMsg (P : Page) (src dst : MsgMsg) : Option (MsgMsg × ℤ) :=
  let len := src.mTs
  if src.mTs > dst.mTs then some (dst, -EINVAL)
  else
    let alen := min len P.DATALEN_MSG
    match memcpy dst.head src.head alen with
    | none => none
    | some head =>
      (copySegs P len alen dst.next src.next).map fun next => (⟨src.mType, src.mTs, head, next⟩, 0)

/-- The loop of `store_msg`. -/
def storeSegs (P : Page) : User → ℕ → ℕ → ℕ → List (List UInt8) → Option (User × ℤ)
  | u, _, _, _, [] => some (u, 0)
  | u, dest, len, alen, seg :: segs =>
    let len := len - alen
    let dest := dest + alen
    let alen := min len P.DATALEN_SEG
    match copyOut u dest alen seg with
    | none => none
    | some (u, false) => some (u, -1)
    | some (u, true) => storeSegs P u dest len alen segs

/-- `store_msg`: the user's memory afterwards and the value returned. -/
def storeMsg (P : Page) (u : User) (dest : ℕ) (msg : MsgMsg) (len : ℕ) : Option (User × ℤ) :=
  let alen := min len P.DATALEN_MSG
  match copyOut u dest alen msg.head with
  | none => none
  | some (u, false) => some (u, -1)
  | some (u, true) => storeSegs P u dest len alen msg.next

/-- How `do_msgsnd` makes its message. -/
def send (P : Page) (kmalloc : Kmalloc) (u : User) (lsm mtype : ℤ) (mtext msgsz : ℕ) :
    Option (Except ℤ MsgMsg) :=
  (loadMsg P kmalloc u lsm mtext msgsz).map
    (Except.map fun msg => { msg with mType := mtype, mTs := msgsz })

/-- `prepare_copy`. -/
def prepareCopy (P : Page) (kmalloc : Kmalloc) (u : User) (lsm : ℤ) (buf bufsz : ℕ) :
    Option (Except ℤ MsgMsg) :=
  (loadMsg P kmalloc u lsm buf bufsz).map (Except.map fun copy => { copy with mTs := bufsz })

/-- What `do_msg_fill` does at `msgp->mtext`, its type written. -/
def doMsgFill (P : Page) (u : User) (mtext : ℕ) (msg : MsgMsg) (bufsz : ℕ) : Option (User × ℤ) :=
  let msgsz := if bufsz > msg.mTs then msg.mTs else bufsz
  match storeMsg P u mtext msg msgsz with
  | none => none
  | some (u, r) => if r ≠ 0 then some (u, -EFAULT) else some (u, msgsz)

variable {P : Page} {kmalloc : Kmalloc} {u v : User} {lsm mtype : ℤ} {msg dst : MsgMsg}
  {src dest call len alen m n : ℕ} {bs bs' : List UInt8} {segs ds : List (List UInt8)}

/-! ## Copies between the user and the kernel -/

/-- A copy in two parts. -/
theorem copyFromUser_add (u : User) (src m n : ℕ) :
    copyFromUser u src (m + n) =
      (copyFromUser u src m).bind fun bs => (copyFromUser u (src + m) n).map (bs ++ ·) := by
  induction m generalizing src with
  | zero => simp [copyFromUser]
  | succ m ih =>
    rw [Nat.succ_add, copyFromUser, copyFromUser, ih, Nat.add_right_comm]
    cases u src with
    | none => rfl
    | some b =>
      cases copyFromUser u (src + 1) m with
      | none => rfl
      | some bs => simp [Nat.add_assoc, Function.comp_def]

theorem length_copyFromUser (h : copyFromUser u src n = some bs) : bs.length = n := by
  induction n generalizing src bs with
  | zero =>
    obtain rfl : [] = bs := Option.some_inj.1 h
    rfl
  | succ n ih =>
    obtain ⟨b, -, hb⟩ := Option.bind_eq_some_iff.1 h
    obtain ⟨rest, hrest, rfl⟩ := Option.map_eq_some_iff.1 hb
    rw [List.length_cons, ih hrest]

theorem copyToUser_append (u : User) (dest : ℕ) (bs bs' : List UInt8) :
    copyToUser u dest (bs ++ bs') =
      if (copyToUser u dest bs).2 then copyToUser (copyToUser u dest bs).1 (dest + bs.length) bs'
      else copyToUser u dest bs := by
  induction bs generalizing u dest with
  | nil => simp [copyToUser]
  | cons b bs ih =>
    rw [List.cons_append, copyToUser, copyToUser]
    by_cases hb : (u dest).isSome
    · rw [if_pos hb, if_pos hb, ih, List.length_cons, Nat.add_right_comm, Nat.add_assoc]
    · rw [if_neg hb, if_neg hb, if_neg Bool.false_ne_true]

/-- Where the memory is there the bytes are written, and nothing else. -/
theorem copyToUser_mapped (bs : List UInt8) (h : ∀ i < bs.length, (u (dest + i)).isSome) :
    ∃ v, copyToUser u dest bs = (v, true) ∧ copyFromUser v dest bs.length = some bs ∧
      ∀ a, a < dest ∨ dest + bs.length ≤ a → v a = u a := by
  induction bs generalizing u dest with
  | nil => exact ⟨u, rfl, rfl, fun _ _ => rfl⟩
  | cons b bs ih =>
    have hrest : ∀ i < bs.length, (Function.update u dest (some b) (dest + 1 + i)).isSome := by
      intro i hi
      rw [Function.update_of_ne (by omega), Nat.add_assoc, Nat.add_comm 1]
      exact h (i + 1) (Nat.succ_lt_succ hi)
    obtain ⟨v, hv, hread, hout⟩ := ih hrest
    refine ⟨v, ?_, ?_, fun a ha => ?_⟩
    · have hdest : (u dest).isSome := h 0 (Nat.zero_lt_succ _)
      rw [copyToUser, if_pos hdest, hv]
    · have hb : v dest = some b := by rw [hout dest (.inl (Nat.lt_succ_self dest)),
        Function.update_self]
      rw [List.length_cons, copyFromUser, hb, Option.bind_some, hread, Option.map_some]
    · rw [List.length_cons] at ha
      rw [hout a (by omega), Function.update_of_ne (by omega)]

/-! ## The loops over the blocks -/

theorem allocSegs_cut (h : allocSegs P kmalloc call len = some segs) :
    Cut P.DATALEN_SEG len segs := by
  induction len using Nat.strongRecOn generalizing call segs with
  | _ len ih =>
    rw [allocSegs] at h
    by_cases hlen : 0 < len
    · rw [if_pos hlen] at h
      dsimp only at h
      cases hseg : kmalloc call (min len P.DATALEN_SEG) with
      | none => rw [hseg] at h; cases h
      | some seg =>
        rw [hseg] at h
        obtain ⟨rest, hrest, rfl⟩ := Option.map_eq_some_iff.1 h
        have := P.DATALEN_SEG_pos
        exact ⟨hlen, seg.length_toList, ih _ (by omega) hrest⟩
    · rw [if_neg hlen] at h
      obtain rfl : [] = segs := Option.some_inj.1 h
      exact Nat.eq_zero_of_not_pos hlen

/-- A copy that fills its block. -/
theorem copyIn_full {area : List UInt8} (h : area.length = alen) :
    copyIn u src alen area = some (copyFromUser u src alen) := by
  rw [copyIn, if_pos (Nat.le_of_eq h.symm), List.drop_of_length_le (Nat.le_of_eq h)]
  simp

theorem loadSegs_spec (u : User) (src : ℕ) (h : Cut P.DATALEN_SEG (len - alen) segs) :
    ∃ r, loadSegs P u src len alen segs = some r ∧
      copyFromUser u (src + alen) (len - alen) = r.map List.flatten ∧
      ∀ next ∈ r, Cut P.DATALEN_SEG (len - alen) next := by
  induction segs generalizing src len alen with
  | nil =>
    rw [cut_nil.1 h]
    exact ⟨some [], rfl, rfl, by simp⟩
  | cons seg segs ih =>
    obtain ⟨hpos, hseg, hrest⟩ := h
    obtain ⟨r, hr, hread, hcut⟩ := ih (src + alen) hrest
    rw [loadSegs, copyIn_full hseg]
    have hadd := copyFromUser_add u (src + alen) (min (len - alen) P.DATALEN_SEG)
      (len - alen - min (len - alen) P.DATALEN_SEG)
    rw [Nat.add_sub_cancel' (Nat.min_le_left _ _), hread] at hadd
    cases hbs : copyFromUser u (src + alen) (min (len - alen) P.DATALEN_SEG) with
    | none => exact ⟨none, rfl, by rw [hadd, hbs]; rfl, by simp⟩
    | some bs =>
      refine ⟨r.map (bs :: ·), by rw [hr]; rfl, ?_, fun next hnext => ?_⟩
      · rw [hadd, hbs, Option.bind_some, Option.map_map, Option.map_map]
        rfl
      · obtain ⟨next', hnext', rfl⟩ := Option.map_eq_some_iff.1 hnext
        exact ⟨hpos, length_copyFromUser hbs, hcut next' hnext'⟩

/-- The value `store_msg` returns. -/
def stored (w : User × Bool) : User × ℤ := (w.1, if w.2 then 0 else -1)

theorem storeSegs_spec (h : Cut P.DATALEN_SEG n segs) (hn : len - alen ≤ n) :
    storeSegs P u dest len alen segs =
      some (stored (copyToUser u (dest + alen) (segs.flatten.take (len - alen)))) := by
  induction segs generalizing u dest len alen n with
  | nil => simp [storeSegs, copyToUser, stored]
  | cons seg segs ih =>
    obtain ⟨hfit, hless, htake⟩ := h.step hn
    obtain ⟨-, -, hrest⟩ := h
    have hlen : (seg.take (min (len - alen) P.DATALEN_SEG)).length =
        min (len - alen) P.DATALEN_SEG := List.length_take_of_le hfit
    rw [storeSegs, copyOut, if_pos hfit, htake, copyToUser_append, hlen]
    rcases copyToUser u (dest + alen) (seg.take (min (len - alen) P.DATALEN_SEG)) with ⟨w, ok⟩
    cases ok with
    | false => rfl
    | true => exact ih hrest hless

theorem copySegs_spec (hs : Cut P.DATALEN_SEG (len - alen) segs) (hd : Cut P.DATALEN_SEG n ds)
    (hn : len - alen ≤ n) :
    ∃ next, copySegs P len alen ds segs = some next ∧ Cut P.DATALEN_SEG n next ∧
      next.flatten.take (len - alen) = segs.flatten := by
  induction segs generalizing len alen n ds with
  | nil =>
    rw [cut_nil.1 hs]
    exact ⟨ds, by rw [copySegs], hd, rfl⟩
  | cons s segs ih =>
    cases ds with
    | nil =>
      obtain ⟨hpos, -, -⟩ := hs
      have hz : n = 0 := hd
      omega
    | cons d ds =>
      obtain ⟨hfit, hless, -⟩ := hd.step hn
      obtain ⟨-, hslen, hs⟩ := hs
      obtain ⟨hnpos, hdlen, hd⟩ := hd
      obtain ⟨next, hnext, hcut, htake⟩ := ih hs hd hless
      have hfull : s.take (min (len - alen) P.DATALEN_SEG) = s :=
        List.take_of_length_le (Nat.le_of_eq hslen)
      have hcut' : Cut P.DATALEN_SEG n
          ((s ++ d.drop (min (len - alen) P.DATALEN_SEG)) :: next) := by
        refine ⟨hnpos, ?_, hcut⟩
        rw [List.length_append, List.length_drop, hslen]
        omega
      refine ⟨_, ?_, hcut', ?_⟩
      · rw [copySegs, memcpy, if_pos ⟨Nat.le_of_eq hslen.symm, hfit⟩, hfull]
        simp only [hnext, Option.map_some]
      · rw [(hcut'.step hn).2.2, htake, ← hslen, List.take_left, List.flatten_cons]

/-! ## A message -/

/-- The blocks of `msg` are those that `alloc_msg` makes for `n` bytes. -/
structure Holds (P : Page) (n : ℕ) (msg : MsgMsg) : Prop where
  head : msg.head.length = min n P.DATALEN_MSG
  next : Cut P.DATALEN_SEG (n - min n P.DATALEN_MSG) msg.next

/-- All the bytes of the blocks, in their order. -/
def MsgMsg.text (msg : MsgMsg) : List UInt8 := msg.head ++ msg.next.flatten

theorem Holds.take_text (h : Holds P n msg) (hm : m ≤ n) :
    msg.text.take m = msg.head.take (min m P.DATALEN_MSG) ++
      msg.next.flatten.take (m - min m P.DATALEN_MSG) := by
  have hhead := h.head
  rw [MsgMsg.text, List.take_append, hhead]
  by_cases hmd : m ≤ P.DATALEN_MSG
  · have hz : m - min n P.DATALEN_MSG = 0 := by omega
    have hz' : m - min m P.DATALEN_MSG = 0 := by omega
    rw [hz, hz', Nat.min_eq_left hmd]
  · have hnd : min n P.DATALEN_MSG = P.DATALEN_MSG := by omega
    have hmd' : min m P.DATALEN_MSG = P.DATALEN_MSG := by omega
    have hxm : msg.head.take m = msg.head := List.take_of_length_le (by omega)
    have hxd : msg.head.take P.DATALEN_MSG = msg.head := List.take_of_length_le (by omega)
    rw [hnd, hmd', hxm, hxd]

theorem allocMsg_holds (h : allocMsg P kmalloc len = some msg) : Holds P len msg := by
  unfold allocMsg at h
  dsimp only at h
  cases hhead : kmalloc 0 (min len P.DATALEN_MSG) with
  | none => rw [hhead] at h; cases h
  | some head =>
    rw [hhead] at h
    obtain ⟨next, hnext, rfl⟩ := Option.map_eq_some_iff.1 h
    exact ⟨head.length_toList, allocSegs_cut hnext⟩

/-- **What `load_msg` comes to**: the blocks hold what one copy would read. -/
theorem loadMsg_spec (P : Page) (kmalloc : Kmalloc) (u : User) (lsm : ℤ) (src len : ℕ) :
    ∃ r, loadMsg P kmalloc u lsm src len = some r ∧
      ((∃ msg, r = .ok msg) ↔
        allocMsg P kmalloc len ≠ none ∧ copyFromUser u src len ≠ none ∧ lsm = 0) ∧
      ∀ msg, r = .ok msg → Holds P len msg ∧ copyFromUser u src len = some msg.text := by
  unfold loadMsg
  cases halloc : allocMsg P kmalloc len with
  | none => exact ⟨_, rfl, by simp, fun _ h => by cases h⟩
  | some msg =>
    have hholds := allocMsg_holds halloc
    have hadd := copyFromUser_add u src (min len P.DATALEN_MSG) (len - min len P.DATALEN_MSG)
    rw [Nat.add_sub_cancel' (Nat.min_le_left _ _)] at hadd
    obtain ⟨r, hr, hread, hcut⟩ := loadSegs_spec u src hholds.next
    dsimp only
    rw [copyIn_full hholds.head]
    cases hbs : copyFromUser u src (min len P.DATALEN_MSG) with
    | none =>
      rw [hbs] at hadd
      exact ⟨_, rfl, by simp [hadd], fun _ h => by cases h⟩
    | some head =>
      rw [hbs, hread, Option.bind_some, Option.map_map] at hadd
      dsimp only
      rw [hr]
      cases r with
      | none => exact ⟨_, rfl, by simp [hadd], fun _ h => by cases h⟩
      | some next =>
        dsimp only
        by_cases hl : lsm = 0
        · refine ⟨_, if_pos hl, by simp [hadd, hl], fun msg' h => ?_⟩
          obtain rfl := Except.ok.inj h
          exact ⟨⟨length_copyFromUser hbs, hcut next rfl⟩, hadd⟩
        · exact ⟨_, if_neg hl, by simp [hl], fun _ h => by cases h⟩

/-- **What `store_msg` comes to**: one copy of a prefix of the text. -/
theorem storeMsg_spec (h : Holds P n msg) (hm : m ≤ n) :
    storeMsg P u dest msg m = some (stored (copyToUser u dest (msg.text.take m))) := by
  have hhead := h.head
  have hfit : min m P.DATALEN_MSG ≤ msg.head.length := by omega
  have hlen : (msg.head.take (min m P.DATALEN_MSG)).length = min m P.DATALEN_MSG :=
    List.length_take_of_le hfit
  rw [storeMsg, copyOut, if_pos hfit, h.take_text hm, copyToUser_append, hlen]
  rcases copyToUser u dest (msg.head.take (min m P.DATALEN_MSG)) with ⟨w, ok⟩
  cases ok with
  | false => rfl
  | true => exact storeSegs_spec h.next (by omega)

/-- **What `copy_msg` comes to** for a source that fills its blocks. -/
theorem copyMsg_spec (hs : Holds P m msg) (hms : msg.mTs = m) (hd : Holds P n dst)
    (hdn : dst.mTs = n) :
    (m ≤ n → ∃ copy, copyMsg P msg dst = some (copy, 0) ∧ Holds P n copy ∧
      copy.mType = msg.mType ∧ copy.mTs = m ∧ copy.text.take m = msg.text) ∧
    (n < m → copyMsg P msg dst = some (dst, -EINVAL)) := by
  subst hms hdn
  refine ⟨fun hle => ?_, fun hlt => if_pos hlt⟩
  have hshead := hs.head
  have hdhead := hd.head
  obtain ⟨next, hnext, hcut, htake⟩ := copySegs_spec hs.next hd.next (by omega)
  have hfull : msg.head.take (min msg.mTs P.DATALEN_MSG) = msg.head :=
    List.take_of_length_le (Nat.le_of_eq hshead)
  have hholds : Holds P dst.mTs
      ⟨msg.mType, msg.mTs, msg.head ++ dst.head.drop (min msg.mTs P.DATALEN_MSG), next⟩ := by
    refine ⟨?_, hcut⟩
    rw [List.length_append, List.length_drop, hshead]
    omega
  refine ⟨_, ?_, hholds, rfl, rfl, ?_⟩
  · rw [copyMsg, if_neg (Nat.not_lt.2 hle)]
    dsimp only
    rw [memcpy, if_pos ⟨Nat.le_of_eq hshead.symm, by omega⟩, hfull]
    simp only [hnext, Option.map_some]
  · rw [hholds.take_text hle, htake, ← hshead, List.take_left]
    rfl

/-! ## The round trip -/

theorem allocSegs_isSome (hk : ∀ i k, (kmalloc i k).isSome) (call len : ℕ) :
    (allocSegs P kmalloc call len).isSome := by
  induction len using Nat.strongRecOn generalizing call with
  | _ len ih =>
    rw [allocSegs]
    by_cases hlen : 0 < len
    · rw [if_pos hlen]
      dsimp only
      obtain ⟨seg, hseg⟩ := Option.isSome_iff_exists.1 (hk call (min len P.DATALEN_SEG))
      have := P.DATALEN_SEG_pos
      rw [hseg]
      dsimp only
      rw [Option.isSome_map]
      exact ih _ (by omega) (call + 1)
    · rw [if_neg hlen]
      rfl

theorem allocMsg_ne_none (hk : ∀ i k, (kmalloc i k).isSome) (len : ℕ) :
    allocMsg P kmalloc len ≠ none := by
  unfold allocMsg
  obtain ⟨head, hhead⟩ := Option.isSome_iff_exists.1 (hk 0 (min len P.DATALEN_MSG))
  dsimp only
  rw [hhead]
  dsimp only
  rw [← Option.isSome_iff_ne_none, Option.isSome_map]
  exact allocSegs_isSome hk 1 _

/-- `store_msg` of a length up to that of `payload` stays in the blocks of `msg`;
    where the user's memory is there, it writes that prefix and nothing else. -/
def Reads (P : Page) (msg : MsgMsg) (payload : List UInt8) : Prop :=
  ∀ (v : User) (dest m : ℕ), m ≤ payload.length →
    storeMsg P v dest msg m ≠ none ∧
    ((∀ i < m, (v (dest + i)).isSome) →
      ∃ w, storeMsg P v dest msg m = some (w, 0) ∧
        copyFromUser w dest m = some (payload.take m) ∧
        ∀ a, a < dest ∨ dest + m ≤ a → w a = v a)

theorem Holds.reads (h : Holds P n msg) (bs : List UInt8) (hbs : bs.length ≤ n)
    (htext : msg.text.take bs.length = bs) : Reads P msg bs := by
  intro v dest m hm
  have htake : msg.text.take m = bs.take m := by
    rw [← htext, List.take_take, Nat.min_eq_left hm]
  have hlen : (bs.take m).length = m := List.length_take_of_le hm
  rw [storeMsg_spec h (Nat.le_trans hm hbs), htake]
  refine ⟨Option.some_ne_none _, fun hv => ?_⟩
  obtain ⟨w, hw, hread, hout⟩ := copyToUser_mapped (bs.take m) (by rwa [hlen])
  rw [hlen] at hread hout
  exact ⟨w, by rw [hw]; rfl, hread, hout⟩

/-- `do_msg_fill` never asks for more than there is. -/
theorem Reads.doMsgFill (h : Reads P msg bs) (hts : msg.mTs = bs.length) (v : User)
    (dest bufsz : ℕ) : doMsgFill P v dest msg bufsz ≠ none := by
  unfold Segments.doMsgFill
  dsimp only
  obtain ⟨hne, -⟩ := h v dest (if bufsz > msg.mTs then msg.mTs else bufsz) (by split <;> omega)
  obtain ⟨⟨w, r⟩, hw⟩ := Option.ne_none_iff_exists'.1 hne
  rw [hw]
  dsimp only
  split <;> exact Option.some_ne_none _

/-- **Message segmentation round trip.** Sending never leaves an allocation, and
    makes a message where nothing fails; the message then holds the payload for
    `store_msg`, and `copy_msg` hands it on to every message prepared for as many
    bytes or more, and leaves a smaller one as it is. -/
theorem segments_round_trip (P : Page) (kmalloc : Kmalloc) (u : User) (lsm mtype : ℤ)
    (mtext msgsz : ℕ) :
    ∃ r, send P kmalloc u lsm mtype mtext msgsz = some r ∧
      ((∀ i k, (kmalloc i k).isSome) → copyFromUser u mtext msgsz ≠ none → lsm = 0 →
        ∃ msg, r = .ok msg) ∧
      ∀ msg, r = .ok msg → ∃ payload, copyFromUser u mtext msgsz = some payload ∧
        payload.length = msgsz ∧ msg.mType = mtype ∧ msg.mTs = msgsz ∧ Reads P msg payload ∧
        (∀ v dest bufsz, doMsgFill P v dest msg bufsz ≠ none) ∧
        ∀ (kmalloc' : Kmalloc) (u' : User) (lsm' : ℤ) (buf bufsz : ℕ),
          ∃ r', prepareCopy P kmalloc' u' lsm' buf bufsz = some r' ∧
            ∀ dst, r' = .ok dst →
              (msgsz ≤ bufsz → ∃ copy, copyMsg P msg dst = some (copy, 0) ∧
                copy.mType = mtype ∧ copy.mTs = msgsz ∧ Reads P copy payload ∧
                ∀ v dest bufsz, doMsgFill P v dest copy bufsz ≠ none) ∧
              (bufsz < msgsz → copyMsg P msg dst = some (dst, -EINVAL)) := by
  obtain ⟨r, hr, hok, hmsg⟩ := loadMsg_spec P kmalloc u lsm mtext msgsz
  refine ⟨_, by rw [send, hr, Option.map_some], fun hk hu hl => ?_, fun msg h => ?_⟩
  · obtain ⟨msg, rfl⟩ := hok.2 ⟨allocMsg_ne_none hk msgsz, hu, hl⟩
    exact ⟨_, rfl⟩
  cases r with
  | error e => cases h
  | ok loaded =>
    obtain rfl := Except.ok.inj h
    obtain ⟨hholds, hread⟩ := hmsg loaded rfl
    have hlen := length_copyFromUser hread
    have hsent : Holds P msgsz { loaded with mType := mtype, mTs := msgsz } :=
      ⟨hholds.head, hholds.next⟩
    have hreads := hsent.reads _ (Nat.le_of_eq hlen) (List.take_of_length_le (Nat.le_refl _))
    refine ⟨loaded.text, hread, hlen, rfl, rfl, hreads, hreads.doMsgFill hlen.symm,
      fun kmalloc' u' lsm' buf bufsz => ?_⟩
    obtain ⟨r', hr', -, hdst⟩ := loadMsg_spec P kmalloc' u' lsm' buf bufsz
    refine ⟨_, by rw [prepareCopy, hr', Option.map_some], fun dst h' => ?_⟩
    cases r' with
    | error e => cases h'
    | ok prepared =>
      obtain rfl := Except.ok.inj h'
      obtain ⟨hroom, -⟩ := hdst prepared rfl
      have hprepared : Holds P bufsz { prepared with mTs := bufsz } := ⟨hroom.head, hroom.next⟩
      obtain ⟨hcopy, hsmall⟩ := copyMsg_spec hsent rfl hprepared rfl
      refine ⟨fun hle => ?_, hsmall⟩
      obtain ⟨copy, hc, hcholds, htype, hts, htext⟩ := hcopy hle
      have hcreads := hcholds.reads loaded.text (by omega) (by rw [hlen]; exact htext)
      exact ⟨copy, hc, htype, hts, hcreads, hcreads.doMsgFill (hts.trans hlen.symm)⟩

end DroidLkm.Msg.Segments
