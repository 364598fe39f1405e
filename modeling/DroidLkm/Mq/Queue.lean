/-
  POSIX message queues — the messages and the lists of those who wait.

  * `Info` is `struct mqueue_inode_info`, as far as sending and receiving use
    it; notification and the wake-ups for `poll` change none of it;
  * `msgInsert`, `msgTreeErase`, `msgGet`, `wqAdd`, `wqGetFirstWaiter`: as in
    `ipc_mqueue.c`;
  * `msgInsert_ok`, `msgGet_ok`: a message goes behind those of its priority,
    and one of the highest priority comes out.

  A node of the tree is named by its priority.  A call and its
  `struct ext_wait_queue` go by one number, which is that of the message it
  brings.
-/
import Mathlib.Algebra.Order.Ring.Nat
import Mathlib.Data.Int.Notation
import Mathlib.Logic.Function.Basic
import Mathlib.Tactic.ByContra
import Mathlib.Tactic.SplitIfs
import DroidLkm.Errno
import DroidLkm.Lib.SearchTree

namespace DroidLkm.Mq

open SearchTree

def MQ_PRIO_MAX : ℕ := 32768

/-- `struct msg_msg`, with the call that brings it. -/
structure MsgMsg where
  id : ℕ
  mType : ℕ
  mTs : ℕ
  deriving DecidableEq

/-- `struct posix_msg_tree_node` -/
structure Leaf where
  priority : ℕ
  msgList : List MsgMsg
  deriving DecidableEq

/-- `SEND` and `RECV` -/
inductive Side where
  | send
  | recv
  deriving DecidableEq

/-- `struct mqueue_inode_info`; `nodeCache` says that a node is kept there, and
    `eWaitQ` are the calls whose `ext_wait_queue` is linked. -/
structure Info where
  msgTree : SearchTree.Tree Leaf
  rightmost : Option ℕ
  nodeCache : Bool
  curmsgs : ℕ
  maxmsg : ℕ
  msgsize : ℕ
  qsize : ℕ
  eWaitQ : Side → List ℕ

namespace Info

/-! ## The messages -/

/-- `list_add_tail`, on the node there is or on a new one. -/
def addTail (msg : MsgMsg) : Option Leaf → Leaf
  | none => ⟨msg.mType, [msg]⟩
  | some leaf => { leaf with msgList := leaf.msgList ++ [msg] }

/-- `msg_insert`; `alloc` says whether `kmalloc` returns a node. -/
def msgInsert (i : Info) (msg : MsgMsg) (alloc : Bool) : Info × ℤ :=
  let found := (i.msgTree.find Leaf.priority msg.mType).isSome
  if !found && !i.nodeCache && !alloc then (i, -ENOMEM)
  else
    let rightmost := i.msgTree.rightOf Leaf.priority msg.mType
    ({ i with
      msgTree := i.msgTree.put Leaf.priority msg.mType (addTail msg)
      rightmost := if !found && rightmost then some msg.mType else i.rightmost
      nodeCache := found && i.nodeCache
      curmsgs := i.curmsgs + 1
      qsize := i.qsize + msg.mTs }, 0)

/-- `msg_tree_erase`, of the node with the priority `p`. -/
def msgTreeErase (i : Info) (p : ℕ) : Info :=
  { i with
    rightmost := if i.rightmost = some p
      then (i.msgTree.prev Leaf.priority p).map Leaf.priority else i.rightmost
    msgTree := i.msgTree.erase Leaf.priority p
    nodeCache := true }

/-- The passes of `msg_get`, each of which but the last erases a node. -/
def msgGetLoop (i : Info) : ℕ → Info × Option MsgMsg
  | 0 => (i, none)
  | fuel + 1 =>
    match i.rightmost with
    | none => ({ i with curmsgs := 0 }, none)
    | some p =>
      match i.msgTree.find Leaf.priority p with
      | none => (i, none)
      | some leaf =>
        match leaf.msgList with
        | [] => (i.msgTreeErase p).msgGetLoop fuel
        | msg :: rest =>
          let i := if rest = [] then i.msgTreeErase p
            else { i with
              msgTree := i.msgTree.put Leaf.priority p fun _ => { leaf with msgList := rest } }
          ({ i with curmsgs := i.curmsgs - 1, qsize := i.qsize - msg.mTs }, some msg)

/-- `msg_get` -/
def msgGet (i : Info) : Info × Option MsgMsg := i.msgGetLoop (i.msgTree.toList.length + 1)

/-- What `do_mq_timedsend` and `do_mq_timedreceive` do first under the lock: a
    node that has been allocated before goes to the cache. -/
def cacheLeaf (i : Info) (newLeaf : Bool) : Info :=
  if !i.nodeCache && newLeaf then { i with nodeCache := true } else i

/-! ## Those who wait -/

/-- The place of `current` in the list, before the first whose task has not more
    priority. -/
def wqAddList (prio : ℕ → ℤ) (c : ℕ) : List ℕ → List ℕ
  | [] => [c]
  | w :: rest => if prio w ≤ prio c then c :: w :: rest else w :: wqAddList prio c rest

/-- `wq_add` -/
def wqAdd (i : Info) (sr : Side) (prio : ℕ → ℤ) (c : ℕ) : Info :=
  { i with eWaitQ := Function.update i.eWaitQ sr (wqAddList prio c (i.eWaitQ sr)) }

/-- `list_del` of an `ext_wait_queue`. -/
def wqDel (i : Info) (sr : Side) (c : ℕ) : Info :=
  { i with eWaitQ := Function.update i.eWaitQ sr ((i.eWaitQ sr).erase c) }

/-- `wq_get_first_waiter` -/
def wqGetFirstWaiter (i : Info) (sr : Side) : Option ℕ := (i.eWaitQ sr).getLast?

/-! ## What is stored -/

/-- The messages, the lowest priorities first. -/
def stored (i : Info) : List MsgMsg := i.msgTree.toList.flatMap Leaf.msgList

/-- The tree of a queue whose lock is free. -/
structure Ok (i : Info) : Prop where
  ordered : Ordered Leaf.priority i.msgTree
  leaf : ∀ l ∈ i.msgTree.toList, l.msgList ≠ [] ∧ ∀ m ∈ l.msgList, m.mType = l.priority
  rightmost : i.rightmost = i.msgTree.toList.getLast?.map Leaf.priority
  curmsgs : i.curmsgs = i.stored.length
  qsize : i.qsize = (i.stored.map MsgMsg.mTs).sum

variable {i i' : Info} {msg m : MsgMsg} {xs ys : List Leaf} {o : Option Leaf} {k : ℕ}

theorem Ok.congr (h : Ok i) (ht : i'.msgTree = i.msgTree) (hr : i'.rightmost = i.rightmost)
    (hc : i'.curmsgs = i.curmsgs) (hq : i'.qsize = i.qsize) : Ok i' := by
  have hs : i'.stored = i.stored := by rw [stored, stored, ht]
  refine ⟨ht ▸ h.ordered, ht ▸ h.leaf, ?_, ?_, ?_⟩
  · rw [hr, ht]
    exact h.rightmost
  · rw [hc, hs]
    exact h.curmsgs
  · rw [hq, hs]
    exact h.qsize

/-- The lists and the limits are left alone. -/
structure Same (i i' : Info) : Prop where
  maxmsg : i'.maxmsg = i.maxmsg
  msgsize : i'.msgsize = i.msgsize
  eWaitQ : i'.eWaitQ = i.eWaitQ

theorem Same.trans {i₁ i₂ : Info} (h : Same i i₁) (h' : Same i₁ i₂) : Same i i₂ :=
  ⟨h'.maxmsg.trans h.maxmsg, h'.msgsize.trans h.msgsize, h'.eWaitQ.trans h.eWaitQ⟩

theorem cacheLeaf_ok (h : Ok i) (newLeaf : Bool) :
    Ok (i.cacheLeaf newLeaf) ∧ Same i (i.cacheLeaf newLeaf) ∧
      (i.cacheLeaf newLeaf).stored = i.stored := by
  unfold cacheLeaf
  split
  · exact ⟨h.congr rfl rfl rfl rfl, ⟨rfl, rfl, rfl⟩, rfl⟩
  · exact ⟨h, ⟨rfl, rfl, rfl⟩, rfl⟩

theorem Ok.rightmost_map (h : Ok i) :
    i.rightmost = (i.msgTree.toList.map Leaf.priority).getLast? := by
  rw [List.getLast?_map, h.rightmost]

/-- The messages of nodes to the left and to the right of `k`. -/
theorem Ok.mType (h : Ok i) {l : Leaf} (hl : l ∈ i.msgTree.toList) (hm : m ∈ l.msgList) :
    m.mType = l.priority := (h.leaf l hl).2 m hm

/-- A message is stored behind those of its priority, before those of a higher
    one. -/
structure Stores (i : Info) (msg : MsgMsg) (i' : Info) : Prop where
  ok : Ok i'
  same : Same i i'
  place : ∃ xs ys, i.stored = xs ++ ys ∧ i'.stored = xs ++ msg :: ys ∧
    (∀ x ∈ xs, x.mType ≤ msg.mType) ∧ ∀ y ∈ ys, msg.mType < y.mType

theorem msgInsert_fails {alloc : Bool} (h : (i.msgInsert msg alloc).2 ≠ 0) :
    i.msgInsert msg alloc = (i, -ENOMEM) := by
  unfold msgInsert at h ⊢
  dsimp only at h ⊢
  by_cases hfail : (!(i.msgTree.find Leaf.priority msg.mType).isSome && !i.nodeCache &&
      !alloc) = true
  · rw [if_pos hfail]
  · rw [if_neg hfail] at h
    exact absurd rfl h

/-- The rightmost node, after an insertion. -/
theorem insert_rightmost {f : Option Leaf → Leaf} (h : Ok i)
    (hs : Split Leaf.priority i.msgTree k xs o ys) (hf : (f o).priority = k) :
    (if !(i.msgTree.find Leaf.priority k).isSome && i.msgTree.rightOf Leaf.priority k then some k
      else i.rightmost) = (i.msgTree.put Leaf.priority k f).toList.getLast?.map Leaf.priority := by
  rw [hs.put, hs.find, h.rightmost_map, hs.toList, ← List.getLast?_map]
  simp only [List.map_append, List.map_cons, hf]
  cases o with
  | some l =>
    rw [← hs.hit l rfl]
    simp
  | none =>
    by_cases hy : ys = []
    · subst hy
      simp [(hs.right rfl).2 rfl]
    · have hno : i.msgTree.rightOf Leaf.priority k = false := by
        rw [← Bool.not_eq_true]
        intro hr
        exact hy ((hs.right rfl).1 hr)
      obtain ⟨y, ys, rfl⟩ := List.exists_cons_of_ne_nil hy
      simp [hno, List.getLast?_append, List.getLast?_cons]

/-- **`msg_insert` keeps the order.** -/
theorem msgInsert_ok {alloc : Bool} (h : Ok i) (h0 : (i.msgInsert msg alloc).2 = 0) :
    Stores i msg (i.msgInsert msg alloc).1 := by
  obtain ⟨xs, o, ys, hs⟩ := h.ordered.split msg.mType
  have hlist := hs.toList
  have hput := hs.put (addTail msg)
  have hxs : ∀ l ∈ xs, l ∈ i.msgTree.toList := by
    intro l hl
    rw [hlist]
    exact List.mem_append_left _ hl
  have hys : ∀ l ∈ ys, l ∈ i.msgTree.toList := by
    intro l hl
    rw [hlist]
    exact List.mem_append_right _ (List.mem_append_right _ hl)
  have hkey : (addTail msg o).priority = msg.mType := by
    cases o with
    | none => rfl
    | some l => exact hs.hit l rfl
  have hmsgs : (addTail msg o).msgList = o.toList.flatMap Leaf.msgList ++ [msg] := by
    cases o with
    | none => rfl
    | some l => simp [addTail]
  unfold msgInsert at h0 ⊢
  dsimp only at h0 ⊢
  by_cases hfail : (!(i.msgTree.find Leaf.priority msg.mType).isSome && !i.nodeCache &&
      !alloc) = true
  · rw [if_pos hfail] at h0
    cases h0
  rw [if_neg hfail]
  -- what is stored, around the new message
  have hbefore : i.stored = (xs.flatMap Leaf.msgList ++ o.toList.flatMap Leaf.msgList) ++
      ys.flatMap Leaf.msgList := by
    rw [stored, hlist, List.flatMap_append, List.flatMap_append, List.append_assoc]
  have hafter : (i.msgTree.put Leaf.priority msg.mType (addTail msg)).toList.flatMap Leaf.msgList =
      (xs.flatMap Leaf.msgList ++ o.toList.flatMap Leaf.msgList) ++ msg ::
        ys.flatMap Leaf.msgList := by
    rw [hput, List.flatMap_append, List.flatMap_cons, hmsgs]
    simp only [List.append_assoc, List.singleton_append]
  refine ⟨⟨hs.ordered_put h.ordered hkey, ?_, ?_, ?_, ?_⟩, ⟨rfl, rfl, rfl⟩,
    _, _, hbefore, hafter, ?_, ?_⟩
  · dsimp only
    rw [hput]
    intro l hl
    rcases List.mem_append.1 hl with hl | hl
    · exact h.leaf l (hxs l hl)
    rcases List.mem_cons.1 hl with rfl | hl
    · rw [hmsgs, hkey]
      refine ⟨by simp, ?_⟩
      intro m hm
      rcases List.mem_append.1 hm with hm | hm
      · cases o with
        | none => cases hm
        | some l =>
          rw [Option.toList_some, List.flatMap_cons, List.flatMap_nil, List.append_nil] at hm
          rw [← hs.hit l rfl]
          exact h.mType (by rw [hlist]; simp) hm
      · rw [List.mem_singleton.1 hm]
    · exact h.leaf l (hys l hl)
  · exact insert_rightmost h hs hkey
  · dsimp only
    rw [stored, hafter, h.curmsgs, hbefore]
    simp only [List.length_append, List.length_cons]
    omega
  · dsimp only
    rw [stored, hafter, h.qsize, hbefore]
    simp only [List.map_append, List.map_cons, List.sum_append, List.sum_cons]
    omega
  · intro x hx
    rcases List.mem_append.1 hx with hx | hx
    · obtain ⟨l, hl, hm⟩ := List.mem_flatMap.1 hx
      rw [h.mType (hxs l hl) hm]
      exact Nat.le_of_lt (hs.below l hl)
    · obtain ⟨l, hl, hm⟩ := List.mem_flatMap.1 hx
      have ho : o = some l := Option.mem_toList.1 hl
      rw [h.mType (by rw [hlist, ho]; simp) hm]
      exact Nat.le_of_eq (hs.hit l ho)
  · intro y hy
    obtain ⟨l, hl, hm⟩ := List.mem_flatMap.1 hy
    rw [h.mType (hys l hl) hm]
    exact hs.above l hl

/-- The first message of the highest priority is taken. -/
structure Takes (i : Info) (msg : MsgMsg) (i' : Info) : Prop where
  ok : Ok i'
  same : Same i i'
  place : ∃ xs ys, i.stored = xs ++ msg :: ys ∧ i'.stored = xs ++ ys ∧
    (∀ x ∈ xs, x.mType < msg.mType) ∧ ∀ y ∈ ys, y.mType = msg.mType

theorem Ok.stored_nil (h : Ok i) (hs : i.stored = []) : i.msgTree.toList = [] := by
  rw [List.eq_nil_iff_forall_not_mem]
  intro l hl
  obtain ⟨m, hm⟩ := List.exists_mem_of_ne_nil _ (h.leaf l hl).1
  have hmem : m ∈ i.stored := List.mem_flatMap.2 ⟨l, hl, hm⟩
  rw [hs] at hmem
  cases hmem

/-- The rightmost node is the last. -/
theorem Ok.last (h : Ok i) (hs : i.stored ≠ []) : ∃ xs l, i.rightmost = some l.priority ∧
    Split Leaf.priority i.msgTree l.priority xs (some l) [] := by
  have hne : i.msgTree.toList ≠ [] := by
    intro hnil
    rw [stored, hnil] at hs
    exact hs rfl
  have hlist := (List.dropLast_concat_getLast hne).symm
  refine ⟨_, _, ?_, h.ordered.split_last hlist⟩
  rw [h.rightmost, List.getLast?_eq_some_getLast hne, Option.map_some]

/-- **`msg_get` takes the first message of the highest priority.** -/
theorem msgGet_ok (h : Ok i) (hs : i.stored ≠ []) :
    ∃ msg i', i.msgGet = (i', some msg) ∧ Takes i msg i' := by
  obtain ⟨xs, l, hright, hsp⟩ := h.last hs
  have hlist : i.msgTree.toList = xs ++ [l] := hsp.toList
  have hxs : ∀ x ∈ xs, x ∈ i.msgTree.toList := by
    intro x hx
    rw [hlist]
    exact List.mem_append_left _ hx
  have hl : l ∈ i.msgTree.toList := by
    rw [hlist]
    exact List.mem_append_right _ List.mem_cons_self
  obtain ⟨msg, rest, hmsg⟩ := List.exists_cons_of_ne_nil (h.leaf l hl).1
  have hbefore : i.stored = xs.flatMap Leaf.msgList ++ msg :: rest := by
    simp [stored, hlist, hmsg]
  have htype : msg.mType = l.priority := h.mType hl (by rw [hmsg]; exact List.mem_cons_self)
  have hcur : i.curmsgs - 1 = (xs.flatMap Leaf.msgList ++ rest).length := by
    rw [h.curmsgs, hbefore]
    simp only [List.length_append, List.length_cons]
    omega
  have hq : i.qsize - msg.mTs = ((xs.flatMap Leaf.msgList ++ rest).map MsgMsg.mTs).sum := by
    rw [h.qsize, hbefore]
    simp only [List.map_append, List.map_cons, List.sum_append, List.sum_cons]
    omega
  have hbelow : ∀ x ∈ xs.flatMap Leaf.msgList, x.mType < msg.mType := by
    intro x hx
    obtain ⟨l', hl', hm⟩ := List.mem_flatMap.1 hx
    rw [htype, h.mType (hxs l' hl') hm]
    exact hsp.below l' hl'
  have habove : ∀ y ∈ rest, y.mType = msg.mType := by
    intro y hy
    rw [htype]
    exact h.mType hl (by rw [hmsg]; exact List.mem_cons_of_mem _ hy)
  refine ⟨msg, ?_⟩
  unfold msgGet msgGetLoop
  simp only [hright, hsp.find, hmsg]
  refine ⟨_, rfl, ?_⟩
  by_cases hrest : rest = []
  · subst hrest
    have htree : (i.msgTreeErase l.priority).msgTree.toList = xs := by
      have := hsp.erase
      rwa [List.append_nil] at this
    have hafter : (i.msgTreeErase l.priority).stored = xs.flatMap Leaf.msgList ++ [] := by
      rw [stored, htree, List.append_nil]
    rw [if_pos rfl]
    refine ⟨⟨hsp.ordered_erase h.ordered, ?_, ?_, ?_, ?_⟩, ⟨rfl, rfl, rfl⟩,
      _, _, hbefore, hafter, hbelow, habove⟩
    · dsimp only
      rw [htree]
      exact fun x hx => h.leaf x (hxs x hx)
    · dsimp only
      rw [htree, msgTreeErase]
      dsimp only
      rw [if_pos hright, hsp.prev]
    · exact hcur.trans (congrArg List.length hafter.symm)
    · exact hq.trans (congrArg (fun l => (l.map MsgMsg.mTs).sum) hafter.symm)
  · rw [if_neg hrest]
    have htree : (i.msgTree.put Leaf.priority l.priority
        fun _ => { l with msgList := rest }).toList = xs ++ [{ l with msgList := rest }] :=
      hsp.put _
    have hafter : (i.msgTree.put Leaf.priority l.priority
        fun _ => { l with msgList := rest }).toList.flatMap Leaf.msgList =
          xs.flatMap Leaf.msgList ++ rest := by
      rw [htree]
      simp
    refine ⟨⟨hsp.ordered_put h.ordered rfl, ?_, ?_, ?_, ?_⟩, ⟨rfl, rfl, rfl⟩,
      _, _, hbefore, hafter, hbelow, habove⟩
    · dsimp only
      rw [htree]
      intro x hx
      rcases List.mem_append.1 hx with hx | hx
      · exact h.leaf x (hxs x hx)
      · rw [List.mem_singleton.1 hx]
        exact ⟨hrest, fun m hm => (habove m hm).trans htype⟩
    · dsimp only
      rw [htree]
      simp
    · exact hcur.trans (congrArg List.length hafter.symm)
    · exact hq.trans (congrArg (fun l => (l.map MsgMsg.mTs).sum) hafter.symm)

theorem msgGet_empty (h : Ok i) (hs : i.stored = []) : i.msgGet = (i, none) := by
  have hright : i.rightmost = none := by
    rw [h.rightmost, h.stored_nil hs]
    rfl
  have hcur : i.curmsgs = 0 := by rw [h.curmsgs, hs, List.length_nil]
  unfold msgGet msgGetLoop
  split
  · rw [← hcur]
  · next p hp =>
    rw [hright] at hp
    cases hp

theorem Takes.highest {msg : MsgMsg} (h : Takes i msg i') :
    msg ∈ i.stored ∧ ∀ m ∈ i.stored, m.mType ≤ msg.mType := by
  obtain ⟨xs, ys, hs, -, hxs, hys⟩ := h.place
  rw [hs]
  constructor
  · exact List.mem_append_right _ List.mem_cons_self
  · intro m hm
    rcases List.mem_append.1 hm with hm | hm
    · exact Nat.le_of_lt (hxs m hm)
    rcases List.mem_cons.1 hm with rfl | hm
    · exact Nat.le_refl _
    · exact Nat.le_of_eq (hys m hm)

theorem Takes.perm {msg : MsgMsg} (h : Takes i msg i') : i.stored.Perm (msg :: i'.stored) := by
  obtain ⟨xs, ys, hs, hs', -, -⟩ := h.place
  rw [hs, hs']
  exact List.perm_middle

theorem Stores.perm {msg : MsgMsg} (h : Stores i msg i') : i'.stored.Perm (msg :: i.stored) := by
  obtain ⟨xs, ys, hs, hs', -, -⟩ := h.place
  rw [hs, hs']
  exact List.perm_middle

end Info

end DroidLkm.Mq
