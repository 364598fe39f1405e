/-
  POSIX message queues — the nodes of the tree, by address.

  `Mq.Queue` names a node by its priority; here a node has an address, as in the
  source, so that the pointer to the rightmost one and the node kept in the cache
  are those that `msg_insert`, `msg_tree_erase` and `msg_get` write.

  * `Store.msgInsert`, `Store.msgTreeErase`, `Store.msgGet`, `Store.cacheLeaf`:
    as in `ipc_mqueue.c`;
  * `Ok.insert`, `Ok.get`: without the addresses, they store and take what those
    of `Mq.Queue` do;
  * `first`: the message that a queue of priorities gives next;
  * `store_order`: after every run the store gives that one, and its pointers,
    its counts and its cache are right.

  Balancing does not change the order of the nodes.  `do_mq_timedsend` refuses a
  priority from `MQ_PRIO_MAX` on, so that the `int` of a node holds it.
-/
import DroidLkm.Lib.Machine
import DroidLkm.Lib.PerKey
import DroidLkm.Mq.Queue

namespace DroidLkm.Mq

open SearchTree Machine

/-- `struct posix_msg_tree_node`, where it is in memory. -/
structure Node extends Leaf where
  addr : ℕ
  deriving DecidableEq

/-- What `msg_insert` and `msg_get` use of `struct mqueue_inode_info`. -/
structure Store where
  msgTree : SearchTree.Tree Node
  rightmost : Option ℕ
  nodeCache : Option Node
  curmsgs : ℕ
  qsize : ℕ

namespace Node

/-- `list_add_tail` -/
def addTail (n : Node) (msg : MsgMsg) : Node := { n with msgList := n.msgList ++ [msg] }

/-- `INIT_LIST_HEAD` -/
def initList (n : Node) : Node := { n with msgList := [] }

end Node

namespace Store

def key (n : Node) : ℕ := n.priority

def nodes (s : Store) : List Node := s.msgTree.toList

/-- `rb_entry` of a node of the tree. -/
def nodeAt (s : Store) (p : ℕ) : Option Node := s.nodes.find? (·.addr = p)

/-- `msg_insert`; `kmalloc` is what it returns, with anything in it. -/
def msgInsert (s : Store) (msg : MsgMsg) (kmalloc : Option Node) : Store × ℤ :=
  match s.msgTree.find key msg.mType with
  | some leaf =>
    ({ s with
      msgTree := s.msgTree.put key msg.mType fun o => (o.getD leaf).addTail msg
      curmsgs := s.curmsgs + 1
      qsize := s.qsize + msg.mTs }, 0)
  | none =>
    match s.nodeCache.or (kmalloc.map Node.initList) with
    | none => (s, -ENOMEM)
    | some leaf =>
      let leaf := { leaf with priority := msg.mType }
      ({ msgTree := s.msgTree.put key msg.mType fun _ => leaf.addTail msg
         rightmost := if s.msgTree.rightOf key msg.mType then some leaf.addr else s.rightmost
         nodeCache := none
         curmsgs := s.curmsgs + 1
         qsize := s.qsize + msg.mTs }, 0)

/-- `msg_tree_erase`; the node is freed if another is kept. -/
def msgTreeErase (s : Store) (leaf : Node) : Store :=
  { s with
    rightmost := if s.rightmost = some leaf.addr
      then (s.msgTree.prev key leaf.priority).map Node.addr else s.rightmost
    msgTree := s.msgTree.erase key leaf.priority
    nodeCache := some (s.nodeCache.getD leaf) }

/-- The passes of `msg_get`. -/
def msgGetLoop (s : Store) : ℕ → Store × Option MsgMsg
  | 0 => (s, none)
  | fuel + 1 =>
    match s.rightmost with
    | none => ({ s with curmsgs := 0 }, none)
    | some p =>
      match s.nodeAt p with
      | none => (s, none)
      | some leaf =>
        match leaf.msgList with
        | [] => (s.msgTreeErase leaf).msgGetLoop fuel
        | msg :: rest =>
          let leaf := { leaf with msgList := rest }
          let s := if rest = [] then s.msgTreeErase leaf
            else { s with msgTree := s.msgTree.put key leaf.priority fun _ => leaf }
          ({ s with curmsgs := s.curmsgs - 1, qsize := s.qsize - msg.mTs }, some msg)

/-- `msg_get` -/
def msgGet (s : Store) : Store × Option MsgMsg := s.msgGetLoop (s.nodes.length + 1)

/-- A node allocated before the lock was taken goes to the cache, or is freed. -/
def cacheLeaf (s : Store) (newLeaf : Option Node) : Store :=
  { s with nodeCache := s.nodeCache.or (newLeaf.map Node.initList) }

/-- A new queue. -/
def empty : Store := ⟨.nil, none, none, 0, 0⟩

/-! ## Without the addresses -/

/-- The store, as `Mq.Queue` has it. -/
def info (s : Store) : Info where
  msgTree := s.msgTree.map Node.toLeaf
  rightmost := (s.rightmost.bind s.nodeAt).map key
  nodeCache := s.nodeCache.isSome
  curmsgs := s.curmsgs
  maxmsg := 0
  msgsize := 0
  qsize := s.qsize
  eWaitQ := fun _ => []

/-- A node that can be linked: its memory is not in use. -/
def Free (s : Store) (n : Node) : Prop :=
  n.addr ∉ s.nodes.map Node.addr ∧ ∀ c ∈ s.nodeCache, c.addr ≠ n.addr

instance (s : Store) (n : Node) : Decidable (s.Free n) :=
  inferInstanceAs (Decidable (_ ∧ _))

/-- The store between two calls. -/
structure Ok (s : Store) : Prop where
  info : s.info.Ok
  addrs : (s.nodes.map Node.addr).Nodup
  rightmost : s.rightmost = s.nodes.getLast?.map Node.addr
  cache : ∀ c ∈ s.nodeCache, c.msgList = [] ∧ c.addr ∉ s.nodes.map Node.addr

variable {s s' : Store} {msg m : MsgMsg} {n leaf : Node} {xs ys : List Node} {o kmalloc : Option Node}
  {k : ℕ}

theorem nodes_info (s : Store) : s.info.msgTree.toList = s.nodes.map Node.toLeaf :=
  toList_map _ _

theorem priority_toLeaf (n : Node) : Leaf.priority n.toLeaf = key n := rfl

theorem Ok.ordered (h : Ok s) : Ordered key s.msgTree :=
  (ordered_map priority_toLeaf).1 h.info.ordered

/-- A node of the tree is found by its address. -/
theorem nodeAt_of (hd : (s.nodes.map Node.addr).Nodup) (hn : n ∈ s.nodes) :
    s.nodeAt n.addr = some n := by
  obtain ⟨xs, ys, hs⟩ := List.append_of_mem hn
  rw [hs, List.map_append, List.map_cons, List.nodup_append'] at hd
  unfold Store.nodeAt
  rw [hs, List.find?_append, List.find?_eq_none.2, List.find?_cons_of_pos (by simp)]
  · rfl
  · intro x hx
    rw [decide_eq_true_eq]
    intro he
    exact hd.2.2 (List.mem_map_of_mem hx) (he ▸ List.mem_cons_self)

/-- A pointer to the last node is a pointer to the node with the highest
    priority. -/
theorem rightmost_info (hd : (s.nodes.map Node.addr).Nodup)
    (hr : s.rightmost = s.nodes.getLast?.map Node.addr) :
    s.info.rightmost = s.info.msgTree.toList.getLast?.map Leaf.priority := by
  rw [nodes_info, List.getLast?_map, Option.map_map]
  unfold Store.info
  dsimp only
  rw [hr]
  cases hl : s.nodes.getLast? with
  | none => rfl
  | some n =>
    rw [Option.map_some, Option.bind_some, nodeAt_of hd (List.mem_of_getLast? hl)]
    rfl

/-! ## `msg_insert` -/

/-- The address of a node that is linked anew. -/
theorem Ok.fresh (h : Ok s) (hf : ∀ n ∈ kmalloc, s.Free n)
    (hl : s.nodeCache.or (kmalloc.map Node.initList) = some leaf) :
    leaf.msgList = [] ∧ leaf.addr ∉ s.nodes.map Node.addr := by
  cases hc : s.nodeCache with
  | some c =>
    rw [hc, Option.some_or] at hl
    obtain rfl := Option.some.inj hl
    exact h.cache c hc
  | none =>
    rw [hc, Option.none_or] at hl
    obtain ⟨n, hn, rfl⟩ := Option.map_eq_some_iff.1 hl
    exact ⟨rfl, (hf n hn).1⟩

/-- The addresses after `msg_insert`. -/
theorem Ok.insert_addrs (h : Ok s) (msg : MsgMsg) (hf : ∀ n ∈ kmalloc, s.Free n) :
    let s' := (s.msgInsert msg kmalloc).1
    (s'.nodes.map Node.addr).Nodup ∧ s'.rightmost = s'.nodes.getLast?.map Node.addr ∧
      ∀ c ∈ s'.nodeCache, c.msgList = [] ∧ c.addr ∉ s'.nodes.map Node.addr := by
  obtain ⟨xs, o, ys, hs⟩ := h.ordered.split msg.mType
  have hnodes : s.nodes = xs ++ (o.toList ++ ys) := hs.toList
  intro s'
  cases o with
  | some leaf =>
    -- the node is there and stays where it is
    have hs' : s'.nodes = xs ++ leaf.addTail msg :: ys := by
      simp only [s', msgInsert, hs.find]
      exact hs.put _
    have haddrs : s'.nodes.map Node.addr = s.nodes.map Node.addr := by
      rw [hs', hnodes]
      simp [Node.addTail]
    have hrest : s'.rightmost = s.rightmost ∧ s'.nodeCache = s.nodeCache := by
      simp only [s', msgInsert, hs.find, and_self]
    rw [haddrs, hrest.1, hrest.2, ← List.getLast?_map, haddrs, List.getLast?_map]
    exact ⟨h.addrs, h.rightmost, h.cache⟩
  | none =>
    rw [Option.toList_none, List.nil_append] at hnodes
    cases hl : s.nodeCache.or (kmalloc.map Node.initList) with
    | none =>
      have hs' : s' = s := by simp only [s', msgInsert, hs.find, hl]
      rw [hs']
      exact ⟨h.addrs, h.rightmost, h.cache⟩
    | some leaf =>
      obtain ⟨-, hnew⟩ := h.fresh hf hl
      have hs' : s'.nodes = xs ++ { leaf with priority := msg.mType }.addTail msg :: ys := by
        simp only [s', msgInsert, hs.find, hl]
        exact hs.put _
      refine ⟨?_, ?_, ?_⟩
      · rw [hs', List.map_append, List.map_cons]
        refine (List.perm_middle.nodup_iff).2 (List.nodup_cons.2 ⟨?_, ?_⟩)
        · rwa [hnodes, List.map_append] at hnew
        · rw [← List.map_append, ← hnodes]
          exact h.addrs
      · have hr : s'.rightmost =
            if s.msgTree.rightOf key msg.mType then some leaf.addr else s.rightmost := by
          simp only [s', msgInsert, hs.find, hl]
        rw [hr, hs', h.rightmost, hnodes]
        by_cases hy : ys = []
        · rw [if_pos ((hs.right rfl).2 hy), hy]
          simp [Node.addTail]
        · rw [if_neg fun hn => hy ((hs.right rfl).1 hn)]
          obtain ⟨y, ys, rfl⟩ := List.exists_cons_of_ne_nil hy
          simp [List.getLast?_append, List.getLast?_cons]
      · simp only [s', msgInsert, hs.find, hl]
        nofun

/-- Stores whose contents agree are one to `Mq.Queue`. -/
theorem info_congr {i : Info} (ht : s.info.msgTree = i.msgTree)
    (hc : s.nodeCache.isSome = i.nodeCache) (hm : s.curmsgs = i.curmsgs) (hq : s.qsize = i.qsize)
    (hr : s.info.rightmost = i.rightmost) (hsame : Info.Same Store.empty.info i) : s.info = i := by
  obtain ⟨tree, right, cache, cur, maxmsg, msgsize, qsize, waits⟩ := i
  obtain ⟨rfl, rfl, rfl⟩ := hsame
  subst hc hm hq
  unfold Store.info at ht hr ⊢
  dsimp only at ht hr
  rw [ht, hr]

/-- The pointer to the rightmost node follows from the tree. -/
theorem info_of {i : Info} (hi : i.Ok) (hsame : Info.Same Store.empty.info i)
    (hd : (s.nodes.map Node.addr).Nodup) (hr : s.rightmost = s.nodes.getLast?.map Node.addr)
    (ht : s.info.msgTree = i.msgTree) (hc : s.nodeCache.isSome = i.nodeCache)
    (hm : s.curmsgs = i.curmsgs) (hq : s.qsize = i.qsize) : s.info = i := by
  refine info_congr ht hc hm hq ?_ hsame
  rw [rightmost_info hd hr, hi.rightmost, ht]

/-- Where a node is found or made, `msg_insert` links the message there. -/
theorem Ok.msgInsert_links {found : Bool} (h : Ok s) (hf : ∀ n ∈ kmalloc, s.Free n)
    (hfound : found = (s.msgTree.find key msg.mType).isSome)
    (hnode : (!found && !s.nodeCache.isSome && !kmalloc.isSome) = false) :
    (s.msgInsert msg kmalloc).2 = 0 ∧
      (s.msgInsert msg kmalloc).1.info.msgTree =
        s.info.msgTree.put Leaf.priority msg.mType (Info.addTail msg) ∧
      (s.msgInsert msg kmalloc).1.nodeCache.isSome = (found && s.nodeCache.isSome) ∧
      (s.msgInsert msg kmalloc).1.curmsgs = s.curmsgs + 1 ∧
      (s.msgInsert msg kmalloc).1.qsize = s.qsize + msg.mTs := by
  subst hfound
  cases hl : s.msgTree.find key msg.mType with
  | some leaf =>
    have hput := put_map (t := s.msgTree) (k := msg.mType) (fun o => (o.getD leaf).addTail msg)
      (Info.addTail msg) priority_toLeaf (by rw [hl]; rfl)
    rw [msgInsert, hl]
    exact ⟨rfl, hput.symm, rfl, rfl, rfl⟩
  | none =>
    cases hn : s.nodeCache.or (kmalloc.map Node.initList) with
    | none =>
      obtain ⟨hc, hk⟩ := Option.or_eq_none_iff.1 hn
      rw [hl, hc, Option.map_eq_none_iff.1 hk] at hnode
      cases hnode
    | some leaf =>
      -- the list of a node that is linked anew is empty
      have hlist := (h.fresh hf hn).1
      have hput := put_map (t := s.msgTree) (k := msg.mType)
        (fun _ => { leaf with priority := msg.mType }.addTail msg) (Info.addTail msg)
        priority_toLeaf (by rw [hl]; simp [Info.addTail, Node.addTail, hlist])
      rw [msgInsert, hl]
      dsimp only
      rw [hn]
      exact ⟨rfl, hput.symm, rfl, rfl, rfl⟩

/-- **`msg_insert` is that of `Mq.Queue`.** -/
theorem Ok.msgInsert_info (h : Ok s) (msg : MsgMsg) (hf : ∀ n ∈ kmalloc, s.Free n) :
    (s.msgInsert msg kmalloc).1.info = (s.info.msgInsert msg kmalloc.isSome).1 ∧
      (s.msgInsert msg kmalloc).2 = (s.info.msgInsert msg kmalloc.isSome).2 := by
  have hfind : s.info.msgTree.find Leaf.priority msg.mType =
      (s.msgTree.find key msg.mType).map Node.toLeaf := find_map priority_toLeaf
  by_cases hnode : (!(s.msgTree.find key msg.mType).isSome && !s.nodeCache.isSome &&
      !kmalloc.isSome) = true
  · -- there is no node, and none is made
    have hi : s.info.msgInsert msg kmalloc.isSome = (s.info, -ENOMEM) := by
      unfold Info.msgInsert
      rw [hfind, Option.isSome_map]
      exact if_pos hnode
    simp only [Bool.and_eq_true, Bool.not_eq_true', Option.isSome_eq_false_iff,
      Option.isNone_iff_eq_none] at hnode
    obtain ⟨⟨hl, hc⟩, hk⟩ := hnode
    rw [hi, msgInsert, hl]
    dsimp only
    rw [hc, hk]
    exact ⟨rfl, rfl⟩
  · rw [Bool.not_eq_true] at hnode
    obtain ⟨h0, ht, hc, hm, hq⟩ := h.msgInsert_links hf rfl hnode
    obtain ⟨i', hi⟩ : ∃ i', s.info.msgInsert msg kmalloc.isSome = (i', 0) ∧
        i'.msgTree = s.info.msgTree.put Leaf.priority msg.mType (Info.addTail msg) ∧
        i'.nodeCache = ((s.msgTree.find key msg.mType).isSome && s.nodeCache.isSome) ∧
        i'.curmsgs = s.curmsgs + 1 ∧ i'.qsize = s.qsize + msg.mTs := by
      unfold Info.msgInsert
      rw [hfind, Option.isSome_map]
      exact ⟨_, if_neg (by rw [Bool.not_eq_true]; exact hnode), rfl, rfl, rfl, rfl⟩
    obtain ⟨hi, ht', hc', hm', hq'⟩ := hi
    have hst := Info.msgInsert_ok h.info (congrArg Prod.snd hi)
    rw [hi] at hst ⊢
    obtain ⟨hd, hr, -⟩ := h.insert_addrs _ hf
    exact ⟨info_of hst.ok ⟨hst.same.maxmsg, hst.same.msgsize, hst.same.eWaitQ⟩ hd hr
      (ht.trans ht'.symm) (hc.trans hc'.symm) (hm.trans hm'.symm) (hq.trans hq'.symm), h0⟩

theorem msgInsert_fails (h : (s.msgInsert msg kmalloc).2 ≠ 0) :
    (s.msgInsert msg kmalloc).1 = s := by
  unfold msgInsert at h ⊢
  cases hl : s.msgTree.find key msg.mType with
  | some leaf =>
    rw [hl] at h
    exact absurd (Eq.refl (0 : ℤ)) h
  | none =>
    rw [hl] at h
    dsimp only at h ⊢
    cases hn : s.nodeCache.or (kmalloc.map Node.initList) with
    | none => rfl
    | some leaf =>
      rw [hn] at h
      exact absurd (Eq.refl (0 : ℤ)) h

/-- **`msg_insert` stores the message behind those of its priority.** -/
theorem Ok.insert (h : Ok s) (hf : ∀ n ∈ kmalloc, s.Free n)
    (h0 : (s.msgInsert msg kmalloc).2 = 0) :
    Info.Stores s.info msg (s.msgInsert msg kmalloc).1.info ∧ Ok (s.msgInsert msg kmalloc).1 := by
  obtain ⟨hinfo, hret⟩ := h.msgInsert_info msg hf
  obtain ⟨hd, hr, hc⟩ := h.insert_addrs msg hf
  have hst := Info.msgInsert_ok h.info (hret ▸ h0)
  rw [← hinfo] at hst
  exact ⟨hst, hst.ok, hd, hr, hc⟩

/-! ## `msg_get` -/

/-- The rightmost pointer leads to the last node. -/
theorem Ok.last (h : Ok s) (hne : s.nodes ≠ []) : ∃ xs n, s.nodes = xs ++ [n] ∧
    s.rightmost = some n.addr ∧ s.nodeAt n.addr = some n ∧
      Split key s.msgTree n.priority xs (some n) [] := by
  have hlist := (List.dropLast_concat_getLast hne).symm
  refine ⟨_, _, hlist, ?_, nodeAt_of h.addrs (List.getLast_mem hne), h.ordered.split_last hlist⟩
  rw [h.rightmost, List.getLast?_eq_some_getLast hne, Option.map_some]

/-- The last node goes to the cache, or is freed. -/
theorem Ok.erase_addrs (h : Ok s) (hlist : s.nodes = xs ++ [n])
    (hsp : Split key s.msgTree n.priority xs (some n) []) :
    let s' := s.msgTreeErase { n with msgList := [] }
    (s'.nodes.map Node.addr).Nodup ∧ s'.rightmost = s'.nodes.getLast?.map Node.addr ∧
      ∀ c ∈ s'.nodeCache, c.msgList = [] ∧ c.addr ∉ s'.nodes.map Node.addr := by
  intro s'
  have hs' : s'.nodes = xs := hsp.erase.trans (List.append_nil xs)
  have hright : s.rightmost = some n.addr := by
    rw [h.rightmost, hlist, List.getLast?_concat, Option.map_some]
  have hd := h.addrs
  rw [hlist, List.map_append, List.nodup_append'] at hd
  rw [hs']
  refine ⟨hd.1, ?_, ?_⟩
  · simp only [s', msgTreeErase]
    rw [if_pos hright, hsp.prev]
  · intro c hc
    obtain rfl := Option.some.inj hc
    cases hcache : s.nodeCache with
    | none => exact ⟨rfl, fun hmem => hd.2.2 hmem (List.mem_singleton.2 rfl)⟩
    | some c =>
      obtain ⟨hempty, hfree⟩ := h.cache c hcache
      rw [hlist, List.map_append] at hfree
      exact ⟨hempty, fun hmem => hfree (List.mem_append_left _ hmem)⟩

/-- The last node loses a message. -/
theorem Ok.put_addrs (rest : List MsgMsg) (h : Ok s) (hlist : s.nodes = xs ++ [n])
    (hsp : Split key s.msgTree n.priority xs (some n) []) :
    let s' := { s with
      msgTree := s.msgTree.put key n.priority fun _ => { n with msgList := rest } }
    (s'.nodes.map Node.addr).Nodup ∧ s'.rightmost = s'.nodes.getLast?.map Node.addr ∧
      ∀ c ∈ s'.nodeCache, c.msgList = [] ∧ c.addr ∉ s'.nodes.map Node.addr := by
  intro s'
  have hs' : s'.nodes = xs ++ [{ n with msgList := rest }] := hsp.put _
  have haddrs : s'.nodes.map Node.addr = s.nodes.map Node.addr := by
    rw [hs', hlist]
    simp
  rw [haddrs, ← List.getLast?_map, haddrs, List.getLast?_map]
  exact ⟨h.addrs, h.rightmost, h.cache⟩

/-- **`msg_get` takes the message that `Mq.Queue` takes**, and no pass erases an
    empty node. -/
theorem Ok.get (h : Ok s) (hne : s.info.stored ≠ []) : ∃ msg s', s.msgGet = (s', some msg) ∧
    Info.Takes s.info msg s'.info ∧ Ok s' := by
  have hnodes : s.nodes ≠ [] := by
    intro hnil
    apply hne
    unfold Info.stored
    rw [nodes_info, hnil]
    rfl
  obtain ⟨xs, n, hlist, hright, hat, hsp⟩ := h.last hnodes
  have hleaf := (h.info.leaf n.toLeaf (by
    rw [nodes_info, hlist]
    simp)).1
  obtain ⟨msg, rest, hmsg⟩ := List.exists_cons_of_ne_nil hleaf
  obtain ⟨m, i', hget, htakes⟩ := Info.msgGet_ok h.info hne
  -- both take the first pass
  have hinfo : s.info.rightmost = some n.priority := by
    unfold Store.info
    dsimp only
    rw [hright, Option.bind_some, hat]
    rfl
  have hfind : s.info.msgTree.find Leaf.priority n.priority = some n.toLeaf := by
    have hmap := find_map (t := s.msgTree) (k := n.priority) priority_toLeaf
    rwa [hsp.find] at hmap
  unfold Info.msgGet Info.msgGetLoop at hget
  simp only [hinfo, hfind, hmsg] at hget
  unfold msgGet msgGetLoop
  simp only [hright, hat, hmsg]
  obtain ⟨rfl, hm⟩ := Prod.mk.inj hget
  obtain rfl := Option.some.inj hm
  refine ⟨msg, _, rfl, ?_⟩
  by_cases hrest : rest = []
  · subst hrest
    rw [if_pos rfl] at htakes ⊢
    obtain ⟨hd, hr, hc⟩ := h.erase_addrs hlist hsp
    have hi := info_of (s := { s.msgTreeErase { n with msgList := [] } with
        curmsgs := s.curmsgs - 1, qsize := s.qsize - msg.mTs }) htakes.ok ⟨rfl, rfl, rfl⟩
      hd hr (erase_map priority_toLeaf).symm rfl rfl rfl
    exact ⟨(congrArg (Info.Takes s.info msg) hi).mpr htakes, (congrArg Info.Ok hi).mpr htakes.ok,
      hd, hr, hc⟩
  · rw [if_neg hrest] at htakes ⊢
    obtain ⟨hd, hr, hc⟩ := h.put_addrs rest hlist hsp
    have hi := info_of (s := { s with
        msgTree := s.msgTree.put key n.priority fun _ => { n with msgList := rest }
        rightmost := some n.addr
        curmsgs := s.curmsgs - 1, qsize := s.qsize - msg.mTs }) htakes.ok ⟨rfl, rfl, rfl⟩
      hd (hright.symm.trans hr) (put_map _ _ priority_toLeaf rfl).symm rfl rfl rfl
    exact ⟨(congrArg (Info.Takes s.info msg) hi).mpr htakes, (congrArg Info.Ok hi).mpr htakes.ok,
      hd, hright.symm.trans hr, hc⟩

theorem Ok.get_empty (h : Ok s) (hs : s.info.stored = []) : s.msgGet = (s, none) := by
  have hnil : s.nodes = [] := by
    have := h.info.stored_nil hs
    rw [nodes_info] at this
    exact List.map_eq_nil_iff.1 this
  have hright : s.rightmost = none := by rw [h.rightmost, hnil]; rfl
  have hcur : s.curmsgs = 0 := by
    have := h.info.curmsgs
    rw [hs] at this
    exact this
  unfold msgGet msgGetLoop
  split
  · rw [← hcur]
  next p hp =>
    rw [hright] at hp
    cases hp

/-! ## The cache -/

/-- Another node in the cache. -/
theorem Ok.cacheLeaf {newLeaf : Option Node} (h : Ok s) (hf : ∀ n ∈ newLeaf, s.Free n) :
    Ok (s.cacheLeaf newLeaf) ∧ (s.cacheLeaf newLeaf).info.stored = s.info.stored := by
  refine ⟨⟨h.info.congr rfl rfl rfl rfl, h.addrs, h.rightmost, ?_⟩, rfl⟩
  exact fun c hc => h.fresh hf hc

theorem Ok.empty : Ok Store.empty where
  info := ⟨ordered_nil, nofun, rfl, rfl, rfl⟩
  addrs := List.nodup_nil
  rightmost := rfl
  cache := nofun

end Store

/-! ## Runs -/

/-- The first of the messages with the highest priority. -/
def first (l : List MsgMsg) : Option MsgMsg := l.find? fun m => l.all (·.mType ≤ m.mType)

/-- The store, and the messages in it in the order they came. -/
structure History where
  store : Store
  arrived : List MsgMsg

inductive StoreAct where
  | insert (msg : MsgMsg) (kmalloc : Option Node)
  | cacheLeaf (newLeaf : Option Node)
  | get

namespace History

/-- A call, where memory that is in use is not allocated again. -/
def step (h : History) : StoreAct → Option History
  | .insert msg kmalloc =>
    if ∀ n ∈ kmalloc, h.store.Free n then
      let r := h.store.msgInsert msg kmalloc
      some ⟨r.1, if r.2 = 0 then h.arrived ++ [msg] else h.arrived⟩
    else none
  | .cacheLeaf newLeaf =>
    if ∀ n ∈ newLeaf, h.store.Free n then some { h with store := h.store.cacheLeaf newLeaf }
    else none
  | .get =>
    let r := h.store.msgGet
    some ⟨r.1, r.2.elim h.arrived fun m => h.arrived.erase m⟩

/-- The messages of a priority are stored in the order they came. -/
structure Inv (h : History) : Prop where
  ok : h.store.Ok
  agree : PerKey.Agree MsgMsg.mType h.store.info.stored h.arrived

end History

variable {l pre post : List MsgMsg} {m : MsgMsg} {h h' : History}

theorem first_of (hpre : ∀ x ∈ pre, x.mType < m.mType) (hpost : ∀ x ∈ post, x.mType ≤ m.mType) :
    first (pre ++ m :: post) = some m := by
  have hall : (pre ++ m :: post).all (·.mType ≤ m.mType) = true := by
    simp only [List.all_append, List.all_cons, Bool.and_eq_true, List.all_eq_true,
      decide_eq_true_eq]
    exact ⟨fun x hx => Nat.le_of_lt (hpre x hx), Nat.le_refl _, hpost⟩
  unfold first
  rw [List.find?_append, List.find?_eq_none.2, Option.none_or]
  · exact List.find?_cons_of_pos hall
  intro x hx hmax
  have := of_decide_eq_true
    (List.all_eq_true.1 hmax m (List.mem_append_right _ List.mem_cons_self))
  exact absurd (hpre x hx) (Nat.not_lt.2 this)

/-- What the store takes is what came first. -/
theorem first_takes {s s' : Store} (ht : Info.Takes s.info m s'.info)
    (ha : PerKey.Agree MsgMsg.mType s.info.stored l) :
    first l = some m ∧ PerKey.Agree MsgMsg.mType s'.info.stored (l.erase m) := by
  obtain ⟨xs, ys, hs, hs', hxs, -⟩ := ht.place
  have hperm := ha.perm
  rw [hs] at ha
  obtain ⟨pre, post, rfl, hpre, hrest⟩ := ha.take fun x hx => Nat.ne_of_lt (hxs x hx)
  have hle : ∀ x ∈ pre ++ m :: post, x.mType ≤ m.mType :=
    fun x hx => ht.highest.2 x (hperm.mem_iff.2 hx)
  refine ⟨first_of ?_ ?_, ?_⟩
  · exact fun x hx => Nat.lt_of_le_of_ne (hle x (List.mem_append_left _ hx)) (hpre x hx)
  · exact fun x hx => hle x (List.mem_append_right _ (List.mem_cons_of_mem _ hx))
  · rw [List.erase_append_right _ fun hm => hpre m hm rfl, List.erase_cons_head, hs']
    exact hrest

namespace History

/-- What is stored goes behind the messages of its priority. -/
theorem Inv.insert {s' : Store} (hi : Inv h) (hs : Info.Stores h.store.info m s'.info)
    (hok : s'.Ok) : Inv ⟨s', h.arrived ++ [m]⟩ := by
  obtain ⟨xs, ys, hs, hs', -, hys⟩ := hs.place
  refine ⟨hok, ?_⟩
  have hxs : PerKey.Agree MsgMsg.mType xs xs := PerKey.Agree.rfl
  have hmove := hxs.append (PerKey.agree_swap (a := m) fun y hy => Nat.ne_of_gt (hys y hy))
  rw [← List.append_assoc, ← hs] at hmove
  dsimp only
  rw [hs']
  exact hmove.trans (hi.agree.append PerKey.Agree.rfl)

theorem step_inv {a : StoreAct} (hi : Inv h) (hstep : h.step a = some h') : Inv h' := by
  cases a with
  | insert msg kmalloc =>
    simp only [step] at hstep
    split at hstep
    · next hf =>
      obtain rfl := Option.some.inj hstep
      by_cases h0 : (h.store.msgInsert msg kmalloc).2 = 0
      · obtain ⟨hst, hok⟩ := hi.ok.insert hf h0
        rw [if_pos h0]
        exact hi.insert hst hok
      · rw [if_neg h0, Store.msgInsert_fails h0]
        exact hi
    · cases hstep
  | cacheLeaf newLeaf =>
    simp only [step] at hstep
    split at hstep
    · next hf =>
      obtain rfl := Option.some.inj hstep
      obtain ⟨hok, hs⟩ := hi.ok.cacheLeaf hf
      exact ⟨hok, hs ▸ hi.agree⟩
    · cases hstep
  | get =>
    simp only [step] at hstep
    obtain rfl := Option.some.inj hstep
    by_cases hs : h.store.info.stored = []
    · rw [hi.ok.get_empty hs]
      exact hi
    · obtain ⟨msg, s', hget, ht, hok⟩ := hi.ok.get hs
      rw [hget]
      exact ⟨hok, (first_takes ht hi.agree).2⟩

theorem Inv.get (hi : Inv h) : h.store.msgGet.2 = first h.arrived := by
  by_cases hs : h.store.info.stored = []
  · have hnil : h.arrived = [] := by
      have hperm := hi.agree.perm
      rw [hs] at hperm
      exact hperm.nil_eq.symm
    rw [hi.ok.get_empty hs, hnil]
    rfl
  · obtain ⟨msg, s', hget, ht, -⟩ := hi.ok.get hs
    rw [hget, (first_takes ht hi.agree).1]

theorem Inv.stored (hi : Inv h) : (h.store.nodes.flatMap (·.msgList)).Perm h.arrived := by
  have hs : h.store.info.stored = h.store.nodes.flatMap (·.msgList) := by
    rw [Info.stored, Store.nodes_info, List.flatMap_map]
  exact hs ▸ hi.agree.perm

theorem run_inv (hrun : Run step ⟨Store.empty, []⟩ h) : Inv h :=
  hrun.inv ⟨Store.Ok.empty, PerKey.Agree.rfl⟩ fun _ _ _ hi hstep => step_inv hi hstep

end History

theorem Store.Ok.rightmost_max {s : Store} {p : ℕ} (hok : s.Ok) (hp : s.rightmost = some p) :
    ∃ n ∈ s.nodes, n.addr = p ∧ ∀ n' ∈ s.nodes, n'.priority ≤ n.priority := by
  rw [hok.rightmost] at hp
  obtain ⟨n, hn, rfl⟩ := Option.map_eq_some_iff.1 hp
  refine ⟨n, List.mem_of_getLast? hn, rfl, ?_⟩
  obtain ⟨xs, hxs⟩ := List.getLast?_eq_some_iff.1 hn
  have hord := hok.ordered
  unfold Ordered at hord
  rw [show s.msgTree.toList = xs ++ [n] from hxs] at hord
  intro n' hn'
  rw [hxs] at hn'
  rcases List.mem_append.1 hn' with hn' | hn'
  · exact Nat.le_of_lt ((List.pairwise_append.1 hord).2.2 n' hn' n (List.mem_singleton.2 rfl))
  · rw [List.mem_singleton.1 hn']

/-- **Store order.**  After every run, `msg_get` returns what came first among
    the messages of the highest priority; the counts are those of what is
    stored, the rightmost pointer is right, no node is empty, no two have the
    same priority, and the node in the cache is not in the tree. -/
theorem store_order (hrun : Run History.step ⟨Store.empty, []⟩ h) :
    (h.store.nodes.flatMap (·.msgList)).Perm h.arrived ∧
      h.store.msgGet.2 = first h.arrived ∧ (first h.arrived = none ↔ h.arrived = []) ∧
      h.store.curmsgs = h.arrived.length ∧
      h.store.qsize = (h.arrived.map MsgMsg.mTs).sum ∧
      (h.store.rightmost = none ↔ h.store.nodes = []) ∧
      (∀ p, h.store.rightmost = some p → ∃ n ∈ h.store.nodes, n.addr = p ∧
        ∀ n' ∈ h.store.nodes, n'.priority ≤ n.priority) ∧
      (∀ n ∈ h.store.nodes, n.msgList ≠ []) ∧
      h.store.nodes.Pairwise (fun n n' => n.priority ≠ n'.priority) ∧
      ∀ c ∈ h.store.nodeCache, c.addr ∉ h.store.nodes.map Node.addr := by
  have hi := History.run_inv hrun
  have hperm := hi.agree.perm
  refine ⟨hi.stored, hi.get, ?_, ?_, ?_, ?_, fun p => hi.ok.rightmost_max, ?_, ?_, ?_⟩
  · rw [← hi.get]
    constructor
    · intro hnone
      by_contra hne
      have hs : h.store.info.stored ≠ [] := by
        intro hs
        rw [hs] at hperm
        exact hne hperm.nil_eq.symm
      obtain ⟨msg, s', hget, -⟩ := hi.ok.get hs
      rw [hget] at hnone
      cases hnone
    · intro hnil
      rw [hi.get, hnil]
      rfl
  · rw [← hperm.length_eq]
    exact hi.ok.info.curmsgs
  · rw [← (hperm.map MsgMsg.mTs).sum_nat]
    exact hi.ok.info.qsize
  · rw [hi.ok.rightmost, Option.map_eq_none_iff, List.getLast?_eq_none_iff]
  · intro n hn
    refine (hi.ok.info.leaf n.toLeaf ?_).1
    rw [Store.nodes_info]
    exact List.mem_map_of_mem hn
  · exact hi.ok.ordered.imp fun hlt => Nat.ne_of_lt hlt
  · exact fun c hc => (hi.ok.cache c hc).2

/-- Of two messages of priority 9 the first comes out before the second, and
    both before one of priority 4. -/
theorem store_order_nine : ∃ h : History, h.store.msgGet.2 = some ⟨3, 9, 20⟩ ∧
    h.store.curmsgs = 2 ∧ h.store.qsize = 25 := by
  obtain ⟨h, hrun, ht⟩ := exec_check History.step ⟨Store.empty, []⟩
    [.cacheLeaf (some ⟨⟨0, []⟩, 100⟩), .insert ⟨1, 4, 5⟩ none, .insert ⟨2, 9, 10⟩ (some ⟨⟨0, []⟩, 200⟩),
      .insert ⟨3, 9, 20⟩ none, .get]
    (fun h => h.arrived = [⟨1, 4, 5⟩, ⟨3, 9, 20⟩]) (by decide)
  obtain ⟨-, hget, -, hcur, hq, -⟩ := store_order hrun
  rw [of_decide_eq_true ht] at hget hcur hq
  exact ⟨h, hget, hcur, hq⟩

end DroidLkm.Mq
