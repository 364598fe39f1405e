/-
  The vendor module's wrapper of `find_task_by_vpid`.

  * `matchModule`, `isVendor`, `ftbvWrap`, `prewarm`: as in `ghost.c`; the pages
    are those of the two caches, 0 for none;
  * `step`: the init of the feature up to the hook and to the pointer to the
    original, its exit, modules that come and go, and calls from anywhere;
  * `Sound`: every address on a cached page is in a vendor module;
  * `ghost_gated`: while the pages stay so, a caller that is not in one gets what
    the original returns, and one that is never gets `NULL`;
  * `ghost_stale`: a page outlives its module.

  `__module_address` finds the module that an address is in; no two loaded
  modules share an address, and none is in page 0.  A module's name is a list of
  characters.
-/
import Mathlib.Algebra.Order.Ring.Nat
import Mathlib.Data.List.Basic
import Mathlib.Tactic.ByContra
import DroidLkm.Lib.Machine

namespace DroidLkm.Vendor

open Machine

/-- A loaded module: its name, and where it is. -/
structure Module where
  name : List Char
  ranges : List (ℕ × ℕ)
  deriving DecidableEq

namespace Module

/-- The address is in the module. -/
def Has (m : Module) (a : ℕ) : Prop := ∃ r ∈ m.ranges, r.1 ≤ a ∧ a < r.1 + r.2

instance (m : Module) (a : ℕ) : Decidable (m.Has a) := inferInstanceAs (Decidable (∃ r ∈ _, _))

end Module

/-- The parameters, `PAGE_SHIFT`, and whether `dlc_vendor_syms` has
    `module_address`, and `find_task_by_pid_ns` with `init_pid_ns`. -/
structure Params where
  pageShift : ℕ
  ghostMatch : List Char
  moduleAddress : Bool
  hostSyms : Bool

/-- What `find_task_by_vpid` returns. -/
inductive Task where
  | task (p : ℕ)
  | ghost
  deriving DecidableEq

/-- A call: where it returns to, what the original function answers then, whether
    `current` is in another pid namespace than the first, and what the lookup in
    the first one answers. -/
structure Call where
  retIp : ℕ
  found : Option ℕ
  child : Bool
  host : Option ℕ

/-- The modules that are loaded, and the state of the feature; `orig` says that
    `dlc_ftbv_orig` is set. -/
structure Ghost where
  loaded : List Module
  midasPage : ℕ
  otherMruPage : ℕ
  orig : Bool
  hooked : Bool
  ready : Bool
  hits : ℕ
  deriving DecidableEq

namespace Params

/-- `dlc_ghost_match_module` -/
def matchModule (k : Params) (name : List Char) : Bool :=
  if k.ghostMatch = [] then false
  else if k.ghostMatch = ['*'] then true
  else k.ghostMatch.isPrefixOf name

def pageSize (k : Params) : ℕ := 2 ^ k.pageShift

/-- An address and `PAGE_MASK` -/
def page (k : Params) (a : ℕ) : ℕ := a - a % k.pageSize

/-- `__module_address` -/
def moduleAt (loaded : List Module) (a : ℕ) : Option Module := loaded.find? fun m => m.Has a

def midas : List Char :=
  ['o', 'p', 'l', 'u', 's', '_', 'b', 's', 'p', '_', 'm', 'i', 'd', 'a', 's']

/-- `dlc_ghost_is_vendor` -/
def isVendor (k : Params) (g : Ghost) (retIp : ℕ) : Bool × Ghost :=
  let page := k.page retIp
  if page = 0 then (false, g)
  else if page = g.midasPage then (true, g)
  else if page = g.otherMruPage then (true, g)
  else if k.moduleAddress then
    match moduleAt g.loaded retIp with
    | none => (false, g)
    | some m =>
      if k.matchModule m.name then
        if g.midasPage = 0 ∨ m.name = midas then (true, { g with midasPage := page })
        else (true, { g with otherMruPage := page })
      else (false, g)
  else (false, g)

/-- `dlc_ftbv_wrap` -/
def ftbvWrap (k : Params) (g : Ghost) (c : Call) : Option Task × Ghost :=
  let task := if g.orig then c.found.map Task.task else none
  if task.isSome then (task, g)
  else if !g.ready then (task, g)
  else
    let v := k.isVendor g c.retIp
    if !v.1 then (task, v.2)
    else if k.hostSyms ∧ c.child ∧ c.host.isSome then (c.host.map Task.task, v.2)
    else (some .ghost, { v.2 with hits := (v.2.hits + 1) % 2 ^ 32 })

/-- `dlc_ghost_prewarm`; `sym` is the address of the first of the symbols that is
    there, 0 for none. -/
def prewarm (k : Params) (g : Ghost) (sym : ℕ) : Ghost :=
  if sym = 0 then g else { g with midasPage := k.page sym }

end Params

inductive Act where
  /-- `dlc_ghost_init`, up to the hook -/
  | build (sym : ℕ)
  /-- `ds_hook_install`, which succeeds or not -/
  | install (ok : Bool)
  /-- `dlc_ftbv_orig` is set -/
  | publish
  | exit
  | load (m : Module)
  | unload (m : Module)
  | call (c : Call)

/-- The address is in a module that is loaded and matches. -/
def InVendor (k : Params) (loaded : List Module) (a : ℕ) : Prop :=
  ∃ m ∈ loaded, m.Has a ∧ k.matchModule m.name = true

/-- The module can be loaded: no other has its addresses, nor has page 0. -/
def Fits (k : Params) (loaded : List Module) (m : Module) : Prop :=
  (∀ m' ∈ loaded, ∀ r ∈ m.ranges, ∀ r' ∈ m'.ranges, r.1 + r.2 ≤ r'.1 ∨ r'.1 + r'.2 ≤ r.1) ∧
    ∀ r ∈ m.ranges, k.pageSize ≤ r.1

instance (k : Params) (loaded : List Module) (m : Module) : Decidable (Fits k loaded m) :=
  inferInstanceAs (Decidable (_ ∧ _))

/-- The feature is not there: its data are those of a module just loaded. -/
def off (loaded : List Module) : Ghost := ⟨loaded, 0, 0, false, false, false, 0⟩

/-- No module is loaded. -/
def init : Ghost := off []

def step (k : Params) (g : Ghost) : Act → Option Ghost
  | .build sym =>
    if g.ready ∨ g.hooked then none else some (k.prewarm { g with ready := true } sym)
  | .install ok =>
    if !g.ready ∨ g.hooked then none
    else some (if ok ∧ k.moduleAddress then { g with hooked := true } else off g.loaded)
  | .publish => if g.hooked then some { g with orig := true } else none
  | .exit => some (off g.loaded)
  | .load m => if Fits k g.loaded m then some { g with loaded := m :: g.loaded } else none
  | .unload m => some { g with loaded := g.loaded.erase m }
  | .call c => if g.hooked then some (k.ftbvWrap g c).2 else none

/-! ## The pages -/

/-- Every address on the page is in a vendor module. -/
def Covered (k : Params) (loaded : List Module) (p : ℕ) : Prop :=
  ∀ a, k.page a = p → InVendor k loaded a

/-- **What the caches say is right.** -/
def Sound (k : Params) (g : Ghost) : Prop :=
  ∀ p, p ≠ 0 → p = g.midasPage ∨ p = g.otherMruPage → Covered k g.loaded p

/-- The answer to a caller is the original's where the caller is not in a vendor
    module, and not `NULL` where it is. -/
def Gated (k : Params) (g : Ghost) (c : Call) : Prop :=
  (¬InVendor k g.loaded c.retIp → (k.ftbvWrap g c).1 = c.found.map Task.task) ∧
    (InVendor k g.loaded c.retIp → (k.ftbvWrap g c).1 ≠ none)

/-- No address is in two modules, nor on page 0. -/
structure Apart (k : Params) (loaded : List Module) : Prop where
  unique : ∀ m ∈ loaded, ∀ m' ∈ loaded, ∀ a, m.Has a → m'.Has a → m = m'
  page : ∀ m ∈ loaded, ∀ a, m.Has a → k.page a ≠ 0

variable {k : Params} {g g' : Ghost} {c : Call} {loaded loaded' : List Module} {m : Module} {a p : ℕ}

theorem Covered.mono (h : Covered k loaded p) (hsub : ∀ m ∈ loaded, m ∈ loaded') :
    Covered k loaded' p := by
  intro a ha
  obtain ⟨m, hm, hmatch⟩ := h a ha
  exact ⟨m, hsub m hm, hmatch⟩

theorem page_ne_zero (h : k.pageSize ≤ a) : k.page a ≠ 0 := by
  have hpos : 0 < k.pageSize := Nat.two_pow_pos _
  have hlt := Nat.mod_lt a hpos
  unfold Params.page
  omega

theorem Apart.load (h : Apart k loaded) (hfits : Fits k loaded m) : Apart k (m :: loaded) := by
  have hnew : ∀ m' ∈ loaded, ∀ a, m.Has a → ¬m'.Has a := by
    rintro m' hm' a ⟨r, hr, hlo, hhi⟩ ⟨r', hr', hlo', hhi'⟩
    rcases hfits.1 m' hm' r hr r' hr' with hle | hle
    · omega
    · omega
  refine ⟨?_, ?_⟩
  · intro x hx y hy a hxa hya
    rcases List.mem_cons.1 hx with hxm | hx <;> rcases List.mem_cons.1 hy with hym | hy
    · rw [hxm, hym]
    · exact absurd hya (hnew y hy a (hxm ▸ hxa))
    · exact absurd hxa (hnew x hx a (hym ▸ hya))
    · exact h.unique x hx y hy a hxa hya
  · intro x hx a hxa
    rcases List.mem_cons.1 hx with rfl | hx
    · obtain ⟨r, hr, hlo, -⟩ := hxa
      exact page_ne_zero (Nat.le_trans (hfits.2 r hr) hlo)
    · exact h.page x hx a hxa

theorem Apart.unload (h : Apart k loaded) (m : Module) : Apart k (loaded.erase m) :=
  ⟨fun x hx y hy => h.unique x (List.mem_of_mem_erase hx) y (List.mem_of_mem_erase hy),
    fun x hx => h.page x (List.mem_of_mem_erase hx)⟩

/-! ## `dlc_ghost_is_vendor` -/

theorem moduleAt_some (h : Params.moduleAt loaded a = some m) : m ∈ loaded ∧ m.Has a := by
  unfold Params.moduleAt at h
  have hp := List.find?_some h
  exact ⟨List.mem_of_find?_eq_some h, of_decide_eq_true hp⟩

/-- The module that is found for an address in a vendor module matches. -/
theorem moduleAt_vendor (h : Apart k loaded) (hv : InVendor k loaded a) :
    ∃ m, Params.moduleAt loaded a = some m ∧ k.matchModule m.name = true := by
  obtain ⟨m, hm, ha, hmatch⟩ := hv
  cases hf : Params.moduleAt loaded a with
  | none =>
    unfold Params.moduleAt at hf
    exact absurd ha (by simpa using List.find?_eq_none.1 hf m hm)
  | some m' =>
    obtain ⟨hm', ha'⟩ := moduleAt_some hf
    rw [h.unique m hm m' hm' a ha ha'] at hmatch
    exact ⟨m', rfl, hmatch⟩

/-- A caller in a vendor module is taken for one. -/
theorem isVendor_of (h : Apart k g.loaded) (hk : k.moduleAddress = true)
    (hv : InVendor k g.loaded a) : (k.isVendor g a).1 = true := by
  obtain ⟨m, hm, hmatch⟩ := moduleAt_vendor h hv
  obtain ⟨m', hm', ha, -⟩ := hv
  have hpage := h.page m' hm' a ha
  unfold Params.isVendor
  dsimp only
  rw [if_neg hpage]
  split
  · rfl
  split
  · rfl
  simp only [if_true, hm, hmatch]
  split <;> rfl

/-- A caller that is taken for one is in a vendor module, or on a cached page. -/
theorem isVendor_cases (h : (k.isVendor g a).1 = true) : InVendor k g.loaded a ∨
    k.page a ≠ 0 ∧ (k.page a = g.midasPage ∨ k.page a = g.otherMruPage) := by
  unfold Params.isVendor at h
  dsimp only at h
  split at h
  · cases h
  next hpage =>
  split at h
  · next hmidas => exact Or.inr ⟨hpage, Or.inl hmidas⟩
  split at h
  · next hother => exact Or.inr ⟨hpage, Or.inr hother⟩
  split at h
  · split at h
    · cases h
    · next m hm =>
      obtain ⟨hmem, ha⟩ := moduleAt_some hm
      split at h
      · next hmatch => exact Or.inl ⟨m, hmem, ha, hmatch⟩
      · cases h
  · cases h

/-- What the lookup caches: at most the page of a caller in a vendor module. -/
theorem isVendor_caches (k : Params) (g : Ghost) (a : ℕ) :
    let g' := (k.isVendor g a).2
    g' = g ∨ k.page a ≠ g.midasPage ∧ k.page a ≠ g.otherMruPage ∧ InVendor k g.loaded a ∧
      (g' = { g with midasPage := k.page a } ∨ g' = { g with otherMruPage := k.page a }) := by
  unfold Params.isVendor
  dsimp only
  split
  · exact Or.inl rfl
  split
  · exact Or.inl rfl
  next hmidas =>
  split
  · exact Or.inl rfl
  next hother =>
  split
  · split
    · exact Or.inl rfl
    · next m hm =>
      obtain ⟨hmem, ha⟩ := moduleAt_some hm
      split
      · next hmatch =>
        refine Or.inr ⟨hmidas, hother, ⟨m, hmem, ha, hmatch⟩, ?_⟩
        split
        · exact Or.inl rfl
        · exact Or.inr rfl
      · exact Or.inl rfl
  · exact Or.inl rfl

/-! ## `dlc_ftbv_wrap` -/

/-- The caches after a call: it looks for the module where the original finds
    nothing. -/
theorem ftbvWrap_state (k : Params) (g : Ghost) (c : Call) :
    (k.ftbvWrap g c).2 = g ∨ (g.orig = true → c.found = none) ∧
      ∃ hits, (k.ftbvWrap g c).2 = { (k.isVendor g c.retIp).2 with hits } := by
  have hnone : (if g.orig then c.found.map Task.task else none).isSome = false →
      g.orig = true → c.found = none := by
    intro ht ho
    rwa [if_pos ho, Option.isSome_map, Option.isSome_eq_false_iff, Option.isNone_iff_eq_none] at ht
  unfold Params.ftbvWrap
  dsimp only
  generalize (if g.orig then c.found.map Task.task else none) = task at hnone ⊢
  split
  · exact Or.inl rfl
  next ht =>
  have hfound := hnone (Bool.eq_false_iff.2 ht)
  split
  · exact Or.inl rfl
  refine Or.inr ⟨hfound, ?_⟩
  split
  · exact ⟨_, rfl⟩
  split
  · exact ⟨_, rfl⟩
  · exact ⟨_, rfl⟩

/-- A caller that is not taken for a vendor module gets the original's answer. -/
theorem ftbvWrap_other (h : (k.isVendor g c.retIp).1 = false)
    (horig : g.orig = true ∨ c.found = none) :
    (k.ftbvWrap g c).1 = c.found.map Task.task := by
  have htask : (if g.orig then c.found.map Task.task else none) = c.found.map Task.task := by
    rcases horig with ho | ho
    · rw [if_pos ho]
    · simp [ho]
  unfold Params.ftbvWrap
  dsimp only
  rw [htask, h]
  split
  · rfl
  split
  · rfl
  · rfl

/-- One that is gets an answer. -/
theorem ftbvWrap_vendor (h : (k.isVendor g c.retIp).1 = true) (hready : g.ready = true) :
    (k.ftbvWrap g c).1 ≠ none := by
  unfold Params.ftbvWrap
  dsimp only
  rw [h, hready]
  generalize (if g.orig then c.found.map Task.task else none) = task
  cases task with
  | some t => exact fun hno => by cases hno
  | none =>
    simp only [Option.isSome_none, Bool.not_true, Bool.false_eq_true, if_false]
    split
    · next hhost =>
      obtain ⟨t, ht⟩ := Option.isSome_iff_exists.1 hhost.2.2
      rw [ht]
      exact fun hno => by cases hno
    · exact fun hno => by cases hno

/-- **A caller gets what it should where the pages are right.** -/
theorem Sound.gated (hs : Sound k g) (ha : Apart k g.loaded) (hk : k.moduleAddress = true)
    (hready : g.ready = true)
    (horig : ¬InVendor k g.loaded c.retIp → g.orig = true ∨ c.found = none) : Gated k g c := by
  refine ⟨?_, ?_⟩
  · intro hv
    refine ftbvWrap_other ?_ (horig hv)
    rw [← Bool.not_eq_true]
    intro h
    rcases isVendor_cases h with h | ⟨hpage, h⟩
    · exact hv h
    · exact hv (hs _ hpage h c.retIp rfl)
  · exact fun hv => ftbvWrap_vendor (isVendor_of ha hk hv) hready

/-! ## Runs -/

/-- The page that a call caches. -/
def Caches (k : Params) (g : Ghost) (c : Call) : Prop :=
  (g.orig = true → c.found = none) ∧ k.page c.retIp ≠ g.midasPage ∧
    k.page c.retIp ≠ g.otherMruPage ∧ InVendor k g.loaded c.retIp

/-- What keeps the pages right: the symbol that is found is on a page that vendor
    modules cover, or there is none; no module goes that covers a cached page; a
    page that is cached is covered; and until `dlc_ftbv_orig` is set, the
    original finds nothing for other callers. -/
def Guarded (k : Params) (g : Ghost) : Act → Prop
  | .build sym => k.page sym ≠ 0 → Covered k g.loaded (k.page sym)
  | .unload m => ∀ p, p ≠ 0 → p = g.midasPage ∨ p = g.otherMruPage →
      Covered k (g.loaded.erase m) p
  | .call c => (Caches k g c → Covered k g.loaded (k.page c.retIp)) ∧
      (¬InVendor k g.loaded c.retIp → g.orig = true ∨ c.found = none)
  | _ => True

structure Inv (k : Params) (g : Ghost) : Prop where
  apart : Apart k g.loaded
  sound : Sound k g
  ready : g.hooked = true → g.ready = true ∧ k.moduleAddress = true

theorem Inv.off (h : Apart k loaded) : Inv k (off loaded) :=
  ⟨h, fun _ hp hcached => absurd (or_self_iff.1 hcached) hp, nofun⟩

/-- A call caches a page that vendor modules cover. -/
theorem Inv.call (h : Inv k g) (hc : Caches k g c → Covered k g.loaded (k.page c.retIp)) :
    Inv k (k.ftbvWrap g c).2 := by
  rcases ftbvWrap_state k g c with heq | ⟨hfound, hits, heq⟩
  · rw [heq]
    exact h
  rw [heq]
  rcases isVendor_caches k g c.retIp with hsame | ⟨hmidas, hother, hv, hnew⟩
  · rw [hsame]
    exact ⟨h.apart, h.sound, h.ready⟩
  have hcov := hc ⟨hfound, hmidas, hother, hv⟩
  rcases hnew with hnew | hnew
  · rw [hnew]
    refine ⟨h.apart, ?_, h.ready⟩
    rintro p hp (rfl | hp')
    · exact hcov
    · exact h.sound p hp (Or.inr hp')
  · rw [hnew]
    refine ⟨h.apart, ?_, h.ready⟩
    rintro p hp (hp' | rfl)
    · exact h.sound p hp (Or.inl hp')
    · exact hcov

theorem step_inv {act : Act} (h : Inv k g) (hg : Guarded k g act) (hs : step k g act = some g') :
    Inv k g' := by
  cases act with
  | build sym =>
    simp only [step] at hs
    split at hs
    · cases hs
    · next hoff =>
      obtain rfl := Option.some.inj hs
      rw [not_or] at hoff
      unfold Params.prewarm
      split
      · exact ⟨h.apart, h.sound, fun hh => absurd hh hoff.2⟩
      · refine ⟨h.apart, ?_, fun hh => absurd hh hoff.2⟩
        intro p hp hcached
        rcases hcached with rfl | hother
        · exact hg hp
        · exact h.sound p hp (Or.inr hother)
  | install ok =>
    simp only [step] at hs
    split at hs
    · cases hs
    · next hoff =>
      obtain rfl := Option.some.inj hs
      split
      · next hok => exact ⟨h.apart, h.sound, fun _ => ⟨by simpa using (not_or.1 hoff).1, hok.2⟩⟩
      · exact Inv.off h.apart
  | publish =>
    simp only [step] at hs
    split at hs
    · obtain rfl := Option.some.inj hs
      exact ⟨h.apart, h.sound, h.ready⟩
    · cases hs
  | exit =>
    obtain rfl := Option.some.inj hs
    exact Inv.off h.apart
  | load m =>
    simp only [step] at hs
    split at hs
    · next hfits =>
      obtain rfl := Option.some.inj hs
      refine ⟨h.apart.load hfits, fun p hp hcached => ?_, h.ready⟩
      exact (h.sound p hp hcached).mono fun m hm => List.mem_cons_of_mem _ hm
    · cases hs
  | unload m =>
    obtain rfl := Option.some.inj hs
    exact ⟨h.apart.unload m, hg, h.ready⟩
  | call c =>
    simp only [step] at hs
    split at hs
    · obtain rfl := Option.some.inj hs
      exact h.call hg.1
    · cases hs

/-- **The gate.**  In every run in which the pages stay right, a caller that is in
    no loaded module that matches gets what the original returns, and one that is
    in one never gets `NULL`. -/
theorem ghost_gated (hrun : RunIf (step k) (Guarded k) init g) (hhook : g.hooked = true)
    (hc : Guarded k g (.call c)) : Gated k g c := by
  have hinv : Inv k g := by
    refine RunIf.inv hrun (Inv.off ⟨?_, ?_⟩) ?_
    · intro m hm
      cases hm
    · intro m hm
      cases hm
    exact fun _ _ _ h hg hs => step_inv h hg hs
  obtain ⟨hready, hk⟩ := hinv.ready hhook
  exact hinv.sound.gated hinv.apart hk hready hc.2

/-- A module of one page that matches, and one that does not. -/
def oplus : Module := ⟨['o', 'p', 'l', 'u', 's', '_', 'x'], [(4096, 4096)]⟩

def other : Module := ⟨['w', 'i', 'f', 'i'], [(4096, 4096)]⟩

/-- `ghost_match=oplus_`, and all symbols are there. -/
def params : Params := ⟨12, ['o', 'p', 'l', 'u', 's', '_'], true, true⟩

theorem oplus_covered : Covered params [oplus] 4096 := by
  intro a ha
  refine ⟨oplus, List.mem_singleton.2 rfl, ⟨(4096, 4096), List.mem_singleton.2 rfl, ?_⟩, by decide⟩
  unfold Params.page Params.pageSize params at ha
  dsimp only at ha ⊢
  omega

/-- A vendor module calls, and is answered with the sentinel. -/
theorem ghost_gated_oplus : ∃ g, g.midasPage = 4096 ∧
    (params.ftbvWrap g ⟨4100, none, false, none⟩).1 ≠ none := by
  let c : Call := ⟨4100, none, false, none⟩
  have hcov : ∀ g : Ghost, g.loaded = [oplus] → g.orig = true → Guarded params g (.call c) := by
    intro g hl ho
    refine ⟨fun _ => ?_, fun _ => Or.inl ho⟩
    have hpage : params.page c.retIp = 4096 := by decide
    rw [hl, hpage]
    exact oplus_covered
  have h0 : RunIf (step params) (Guarded params) init init := Relation.ReflTransGen.refl
  have h1 : RunIf (step params) (Guarded params) init ⟨[], 0, 0, false, false, true, 0⟩ :=
    h0.snoc (a := .build 0) (fun hp => absurd rfl hp) (by decide)
  have h2 : RunIf (step params) (Guarded params) init ⟨[], 0, 0, false, true, true, 0⟩ :=
    h1.snoc (a := .install true) trivial (by decide)
  have h3 : RunIf (step params) (Guarded params) init ⟨[], 0, 0, true, true, true, 0⟩ :=
    h2.snoc (a := .publish) trivial (by decide)
  have h4 : RunIf (step params) (Guarded params) init ⟨[oplus], 0, 0, true, true, true, 0⟩ :=
    h3.snoc (a := .load oplus) trivial (by decide)
  have h5 : RunIf (step params) (Guarded params) init ⟨[oplus], 4096, 0, true, true, true, 1⟩ :=
    h4.snoc (a := .call c) (hcov _ rfl rfl) (by decide)
  exact ⟨_, rfl, (ghost_gated h5 rfl (hcov _ rfl rfl)).2 (oplus_covered 4100 (by decide))⟩

/-- **A page outlives its module**: another one is loaded there, and its call is
    answered with the sentinel. -/
theorem ghost_stale : ¬∀ (k : Params) (g : Ghost) (c : Call),
    Run (step k) init g → g.hooked = true → Gated k g c := by
  intro hall
  let c : Call := ⟨4100, none, false, none⟩
  obtain ⟨g, hrun, ht⟩ := exec_check (step params) init
    [.build 0, .install true, .publish, .load oplus, .call c, .unload oplus, .load other]
    (fun g => g.hooked ∧ g = ⟨[other], 4096, 0, true, true, true, 1⟩) (by decide)
  obtain ⟨hhook, rfl⟩ := of_decide_eq_true ht
  have hnot : ¬InVendor params [other] 4100 := by
    rintro ⟨m, hm, -, hmatch⟩
    rw [List.mem_singleton.1 hm] at hmatch
    revert hmatch
    decide
  have := (hall params _ c hrun hhook).1 hnot
  revert this
  decide

end DroidLkm.Vendor
