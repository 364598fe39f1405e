/-
  Texts under /proc — what a reader gets of them.

  * `readText`: `droid_lkm_misc_proc_read_text`, on the memory of the process;
  * `session`: calls one after another, each at the position that the one before
    left;
  * `Correct`: a call stores into its buffer only, the buffers together are the
    text from the first position on, and at the end there is nothing;
  * `Served`: each call that has something to return starts at position 0;
  * `correct_iff`: a session is correct if and only if it is served.
-/
import DroidLkm.Msg.Segments

namespace DroidLkm.Misc

open Msg.Segments

/-- What a call leaves: the position it started at, the memory, the result and the
    position. -/
structure Outcome where
  start : ℤ
  mem : User
  ret : ℤ
  pos : ℤ

/-- `droid_lkm_misc_proc_read_text` -/
def readText (u : User) (ubuf count : ℕ) (pos : ℤ) (text : List UInt8) : Outcome :=
  if pos < 0 then ⟨pos, u, -EINVAL, pos⟩
  else if text.length ≤ pos then ⟨pos, u, 0, pos⟩
  else
    let count := if text.length - pos < count then (text.length - pos).toNat else count
    let (u, copied) := copyToUser u (ubuf + pos.toNat) ((text.drop pos.toNat).take count)
    if !copied then ⟨pos, u, -EFAULT, pos⟩
    else ⟨pos, u, count, pos + count⟩

/-- A call: its buffer, which can be written, in the memory at that time. -/
structure Call where
  ubuf : ℕ
  count : ℕ
  mem : User
  mapped : ∀ i < count, (mem (ubuf + i)).isSome

/-- The calls one after another, and what they leave. -/
def session (text : List UInt8) : ℤ → List Call → List (Call × Outcome)
  | _, [] => []
  | pos, c :: cs =>
    let r := readText c.mem c.ubuf c.count pos text
    (c, r) :: session text r.pos cs

/-! ## Sessions -/

/-- What the reader takes from its buffer. -/
def taken (p : Call × Outcome) : Option (List UInt8) :=
  copyFromUser p.2.mem p.1.ubuf p.2.ret.toNat

/-- The counts of the calls together. -/
def total : List (ℕ × ℕ) → ℕ
  | [] => 0
  | b :: bs => b.2 + total bs

/-- The buffers of the calls. -/
def buffers (cs : List Call) : List (ℕ × ℕ) := cs.map fun c => (c.ubuf, c.count)

/-- The calls give the reader the text from `pos` on, as far as they ask for it. -/
structure Correct (text : List UInt8) (pos : ℕ) (cs : List Call) : Prop where
  inside : ∀ p ∈ session text pos cs, 0 ≤ p.2.ret ∧ p.2.ret ≤ p.1.count ∧
    ∀ a, a < p.1.ubuf ∨ p.1.ubuf + p.1.count ≤ a → p.2.mem a = p.1.mem a
  whole : ∃ pieces : List (List UInt8), (session text pos cs).map taken = pieces.map some ∧
    pieces.flatten = (text.drop pos).take (total (buffers cs))
  ended : ∀ p ∈ session text pos cs, text.length ≤ p.2.start → p.2.ret = 0

/-- Each call starts at 0, or has nothing to return. -/
def Served (len : ℕ) : ℕ → List (ℕ × ℕ) → Prop
  | _, [] => True
  | pos, b :: bs =>
    (pos = 0 ∨ len ≤ pos ∨ b.2 = 0) ∧ Served len (pos + min b.2 (len - pos)) bs

variable {u : User} {text : List UInt8} {ubuf count pos : ℕ} {c : Call} {cs : List Call}

/-! ## One call -/

/-- Before the end, the bytes that are left go to the buffer, from the position on. -/
theorem readText_eq (h : pos < text.length) :
    readText u ubuf count pos text =
      let n := min count (text.length - pos)
      let r := copyToUser u (ubuf + pos) ((text.drop pos).take n)
      if r.2 then ⟨pos, r.1, n, pos + n⟩ else ⟨pos, r.1, -EFAULT, pos⟩ := by
  have hcount : (if (text.length : ℤ) - pos < count then ((text.length : ℤ) - pos).toNat else count)
      = min count (text.length - pos) := by
    split <;> omega
  unfold readText
  rw [if_neg (by omega), if_neg (by omega), hcount]
  dsimp only
  rw [Int.toNat_natCast]
  cases (copyToUser u (ubuf + pos) ((text.drop pos).take (min count (text.length - pos)))).2 <;> rfl

/-- A call that starts at 0, or has nothing to return, is right. -/
theorem readText_served (h : pos = 0 ∨ text.length ≤ pos ∨ count = 0)
    (hmap : ∀ i < count, (u (ubuf + i)).isSome) :
    ∃ v, readText u ubuf count pos text = ⟨pos, v, (min count (text.length - pos) : ℕ),
        (pos + min count (text.length - pos) : ℕ)⟩ ∧
      (∀ a, a < ubuf ∨ ubuf + count ≤ a → v a = u a) ∧
      copyFromUser v ubuf (min count (text.length - pos)) =
        some ((text.drop pos).take (min count (text.length - pos))) := by
  by_cases hend : text.length ≤ pos
  · have hzero : min count (text.length - pos) = 0 := by omega
    refine ⟨u, ?_, fun _ _ => rfl, ?_⟩
    · unfold readText
      rw [if_neg (by omega), if_pos (by omega), hzero]
      rfl
    · rw [hzero]
      rfl
  rw [readText_eq (by omega)]
  have hlen : ((text.drop pos).take (min count (text.length - pos))).length =
      min count (text.length - pos) := by
    simp only [List.length_take, List.length_drop]
    omega
  rcases h with rfl | hle | rfl
  · have hall : ∀ i < ((text.drop 0).take (min count (text.length - 0))).length,
        (u (ubuf + i)).isSome := fun i hi => hmap i (by rw [hlen] at hi; omega)
    obtain ⟨v, hv, hread, hout⟩ := copyToUser_mapped _ hall
    rw [hlen] at hread hout
    refine ⟨v, ?_, fun a ha => hout a (by omega), hread⟩
    dsimp only
    rw [Nat.add_zero, hv, if_pos rfl]
    push_cast
    rfl
  · exact absurd hle hend
  · exact ⟨u, rfl, fun _ _ => rfl, rfl⟩

/-- Any other call leaves the first byte of its buffer as it was. -/
theorem readText_unserved (hpos : 0 < pos) (hend : pos < text.length) (hcount : 0 < count)
    (b : UInt8) : ∃ v n, readText (fun _ => some b) ubuf count pos text =
        ⟨pos, v, ((n + 1 : ℕ) : ℤ), pos + (n + 1 : ℕ)⟩ ∧ v ubuf = some b := by
  obtain ⟨u, hu⟩ : ∃ u : User, u = fun _ => some b := ⟨_, rfl⟩
  have hall : ∀ i < ((text.drop pos).take (min count (text.length - pos))).length,
      (u (ubuf + pos + i)).isSome := fun _ _ => by simp [hu]
  obtain ⟨v, hv, -, hout⟩ := copyToUser_mapped _ hall
  rw [← hu]
  refine ⟨v, min count (text.length - pos) - 1, ?_, ?_⟩
  swap
  · rw [hout ubuf (.inl (by omega)), hu]
  have hn : min count (text.length - pos) - 1 + 1 = min count (text.length - pos) := by omega
  rw [readText_eq hend, hn]
  dsimp only
  rw [hv, if_pos rfl]

/-! ## Calls one after another -/

theorem take_total (text : List UInt8) (pos c n : ℕ) :
    (text.drop pos).take (c + n) = (text.drop pos).take (min c (text.length - pos)) ++
      (text.drop (pos + min c (text.length - pos))).take n := by
  rw [List.take_add, List.drop_drop]
  by_cases hc : c ≤ text.length - pos
  · rw [Nat.min_eq_left hc]
  · have hlen : (text.drop pos).length = text.length - pos := List.length_drop
    have hleft : (text.drop pos).take c = text.drop pos := List.take_of_length_le (by omega)
    have hright : (text.drop pos).take (text.length - pos) = text.drop pos :=
      List.take_of_length_le (by omega)
    have hdrop : ∀ k, text.length ≤ k → text.drop k = [] := fun k hk => List.drop_eq_nil_of_le hk
    rw [Nat.min_eq_right (by omega), hleft, hright, hdrop (pos + c) (by omega),
      hdrop (pos + (text.length - pos)) (by omega)]

theorem correct_nil (text : List UInt8) (pos : ℕ) : Correct text pos [] where
  inside _ hp := by cases hp
  whole := ⟨[], rfl, rfl⟩
  ended _ hp := by cases hp

/-- After a call that is right the rest must be right. -/
theorem correct_cons (h : pos = 0 ∨ text.length ≤ pos ∨ c.count = 0) :
    Correct text pos (c :: cs) ↔ Correct text (pos + min c.count (text.length - pos)) cs := by
  obtain ⟨v, hr, hout, hread⟩ := readText_served h c.mapped
  have hsession : session text pos (c :: cs) =
      (c, ⟨pos, v, (min c.count (text.length - pos) : ℕ),
        (pos + min c.count (text.length - pos) : ℕ)⟩) ::
        session text (pos + min c.count (text.length - pos) : ℕ) cs := by
    rw [session, hr]
  have htaken : taken (c, ⟨pos, v, (min c.count (text.length - pos) : ℕ),
      (pos + min c.count (text.length - pos) : ℕ)⟩) =
      some ((text.drop pos).take (min c.count (text.length - pos))) := by
    rw [taken, Int.toNat_natCast, hread]
  have htotal : total (buffers (c :: cs)) = c.count + total (buffers cs) := rfl
  constructor
  · rintro ⟨hinside, ⟨pieces, hmap, hflat⟩, hended⟩
    rw [hsession] at hinside hmap hended
    rw [List.map_cons, htaken] at hmap
    rcases pieces with _ | ⟨piece, pieces⟩
    · cases hmap
    rw [List.map_cons, List.cons.injEq, Option.some.injEq] at hmap
    obtain ⟨rfl, hmap⟩ := hmap
    rw [List.flatten_cons, htotal, take_total] at hflat
    exact ⟨fun p hp => hinside p (List.mem_cons_of_mem _ hp),
      ⟨pieces, hmap, List.append_cancel_left hflat⟩,
      fun p hp => hended p (List.mem_cons_of_mem _ hp)⟩
  · rintro ⟨hinside, ⟨pieces, hmap, hflat⟩, hended⟩
    refine ⟨?_, ⟨(text.drop pos).take (min c.count (text.length - pos)) :: pieces, ?_, ?_⟩, ?_⟩
    · rw [hsession]
      intro p hp
      rcases List.mem_cons.1 hp with rfl | hp
      · exact ⟨by dsimp only; omega, by dsimp only; omega, hout⟩
      · exact hinside p hp
    · rw [hsession, List.map_cons, htaken, hmap, List.map_cons]
    · rw [List.flatten_cons, hflat, htotal, take_total]
    · rw [hsession]
      intro p hp hle
      rcases List.mem_cons.1 hp with rfl | hp
      · dsimp only at hle ⊢
        omega
      · exact hended p hp hle

/-- Calls with these buffers, in memory full of one byte. -/
def filled (b : UInt8) (bufs : List (ℕ × ℕ)) : List Call :=
  bufs.map fun x => ⟨x.1, x.2, fun _ => some b, fun _ _ => rfl⟩

theorem buffers_filled (b : UInt8) (bufs : List (ℕ × ℕ)) : buffers (filled b bufs) = bufs := by
  rw [buffers, filled, List.map_map]
  exact List.map_id bufs

/-- A first call that is not served gives the reader what was in its buffer. -/
theorem not_correct (hpos : 0 < pos) (hend : pos < text.length) (hcount : 0 < count)
    (bufs : List (ℕ × ℕ)) (b : UInt8) (hb : b ≠ text[pos]) :
    ¬Correct text pos (filled b ((ubuf, count) :: bufs)) := by
  rintro ⟨-, ⟨pieces, hmap, hflat⟩, -⟩
  obtain ⟨v, n, hr, hv⟩ :
      ∃ v n, readText (fun _ => some b) ubuf count pos text =
        ⟨pos, v, ((n + 1 : ℕ) : ℤ), pos + (n + 1 : ℕ)⟩ ∧ v ubuf = some b :=
    readText_unserved hpos hend hcount b
  rw [filled, List.map_cons, session] at hmap
  dsimp only at hmap
  rw [hr] at hmap
  rcases pieces with _ | ⟨piece, pieces⟩
  · cases hmap
  rw [List.map_cons, List.map_cons, List.cons.injEq] at hmap
  have hpiece := hmap.1
  dsimp only [taken] at hpiece
  rw [Int.toNat_natCast, copyFromUser, hv, Option.bind_some] at hpiece
  obtain ⟨rest, -, rfl⟩ := Option.map_eq_some_iff.1 hpiece
  have htotal : total (buffers (filled b ((ubuf, count) :: bufs))) = count + total bufs := by
    rw [buffers_filled]
    rfl
  have hdrop : text.drop pos = text[pos] :: text.drop (pos + 1) := List.drop_eq_getElem_cons hend
  obtain ⟨k, hk⟩ : ∃ k, count + total bufs = k + 1 := ⟨count + total bufs - 1, by omega⟩
  rw [htotal, hk, hdrop, List.take_succ_cons, List.flatten_cons, List.cons_append,
    List.cons.injEq] at hflat
  exact hb hflat.1

/-- **Reassembly.**  For every text, every position and every sequence of buffers: the
    reader gets the text, whatever is in its memory, if and only if each call that
    has something to return starts at position 0. -/
theorem correct_iff (text : List UInt8) (pos : ℕ) (bufs : List (ℕ × ℕ)) :
    (∀ cs, buffers cs = bufs → Correct text pos cs) ↔ Served text.length pos bufs := by
  induction bufs generalizing pos with
  | nil =>
    refine iff_of_true (fun cs hcs => ?_) trivial
    obtain rfl := List.map_eq_nil_iff.1 hcs
    exact correct_nil text pos
  | cons b bufs ih =>
    constructor
    · intro h
      have hserved : pos = 0 ∨ text.length ≤ pos ∨ b.2 = 0 := by
        by_contra hno
        have hend : pos < text.length := by omega
        refine not_correct (by omega) hend (by omega) bufs (text[pos] + 1) ?_
          (h _ (buffers_filled _ (b :: bufs)))
        simp
      refine ⟨hserved, (ih _).1 fun cs hcs => ?_⟩
      have hcons := h (⟨b.1, b.2, fun _ => some 0, fun _ _ => rfl⟩ :: cs)
        (by rw [buffers, List.map_cons, ← hcs]; rfl)
      exact (correct_cons hserved).1 hcons
    · rintro ⟨hserved, hrest⟩ cs hcs
      rcases cs with _ | ⟨c, cs⟩
      · cases hcs
      rw [buffers, List.map_cons, List.cons.injEq] at hcs
      obtain ⟨rfl, hcs⟩ := hcs
      exact (correct_cons hserved).2 ((ih _).2 hrest cs hcs)

/-- A text of two bytes is read one byte at a time: the second read gets what was in
    the buffer. -/
theorem second_byte_lost : ¬∀ cs, buffers cs = [(64, 1), (64, 1)] → Correct [104, 105] 0 cs := by
  intro h
  have hfirst := h (filled 0 [(64, 1), (64, 1)]) rfl
  have hsecond : Correct [104, 105] 1 (filled 0 [(64, 1)]) := (correct_cons (.inl rfl)).1 hfirst
  exact not_correct Nat.one_pos (by decide) Nat.one_pos [] 0 (by decide) hsecond

end DroidLkm.Misc
