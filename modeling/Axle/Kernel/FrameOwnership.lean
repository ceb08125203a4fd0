import Axle.Kernel.Vmm

/-!
# Who owns a physical frame

The frame queue does not know who uses a frame: freeing a page returns its frame whatever way it
came to be mapped, and two address spaces may map one frame.  What keeps the queue sound is how
the calls are used.

* `Owned` — the invariant of the memory: the queue and the tables hold frames of the allocator
  only, and a mapped frame is neither free nor a table;
* `OwnOk` — what a call has to respect: a frame is returned only while a single page maps it;
* `frames_owned_once` — **PROVED**: in every state of a run whose calls respect that, no frame is
  free twice, no free frame is mapped in the user half of a live address space, and every free
  frame came from `pmm_init`;
* `shared_frame_freed` — a run that does not: shared memory freed on one side.
-/

namespace Axle.Kernel

open Axle.Lib

/-! ### The invariant of the memory -/

/-- Below the user halves of the PML4s `R`. -/
structure Owned (R : Frame → Prop) (pool : List Frame) (m : PhysMem) : Prop where
  wf : m.Wf R 256
  free : ∀ f ∈ m.free, f ∈ pool
  tables : ∀ f, IsTable R 256 m f → f ∈ pool
  mapped : ∀ r P f, R r → P < 2 ^ 35 → frameAt m r P = some f → f ∉ m.free ∧ ¬IsTable R 256 m f

section Owned

variable {R : Frame → Prop} {pool : List Frame} {m m' : PhysMem} {r f : Frame} {P : Nat}

theorem Owned.mapPage (h : Owned R pool m) (hf : f ∉ m.free ∧ ¬IsTable R 256 m f)
    (hm : MapsPage R 256 m m' r P f) : Owned R pool m' := by
  have hkeep : ∀ g, g ∉ m.free ∧ ¬IsTable R 256 m g → g ∉ m'.free ∧ ¬IsTable R 256 m' g := by
    intro g hg
    refine ⟨fun hfree => hg.1 (hm.free.subset hfree), fun ht => ?_⟩
    exact (hm.tables g ht).elim hg.2 hg.1
  refine ⟨hm.wf, fun g hg => h.free g (hm.free.subset hg), ?_, ?_⟩
  · intro g hg
    exact (hm.tables g hg).elim (h.tables g) (h.free g)
  · intro r' P' g hr' hP' hg
    rw [hm.frames r' P' hr' hP'] at hg
    split at hg
    · exact hkeep g (Option.some.inj hg ▸ hf)
    · exact hkeep g (h.mapped r' P' g hr' hP' hg)

theorem Owned.alloc (h : Owned R pool m) (ha : pmmAlloc m = .ok (f, m')) :
    Owned R pool m' ∧ f ∉ m'.free ∧ ¬IsTable R 256 m' f := by
  obtain ⟨hwf, hfree, htables, hframes⟩ := pmmAlloc_ok (by decide) h.wf ha
  have hnodup := h.wf.nodup
  rw [hfree, List.nodup_cons] at hnodup
  have hsub : ∀ g ∈ m'.free, g ∈ m.free := fun g hg => by
    rw [hfree]
    exact List.mem_cons_of_mem f hg
  refine ⟨⟨hwf, fun g hg => h.free g (hsub g hg), fun g hg => h.tables g ((htables g).mp hg), ?_⟩,
    hnodup.1, ?_⟩
  · intro r P g hr hP hg
    rw [hframes r P hr hP] at hg
    obtain ⟨hnot, hntable⟩ := h.mapped r P g hr hP hg
    exact ⟨fun hc => hnot (hsub g hc), fun hc => hntable ((htables g).mp hc)⟩
  · rintro hc
    obtain ⟨r, p, hp, hnode⟩ := (htables f).mp hc
    exact h.wf.fresh f (by rw [hfree]; exact List.mem_cons_self) r p hp hnode

/-! ### The loop bodies of the mapping calls -/

variable {a offset : Nat} {access : VasRangeAccess} {privilege : VasRangePrivilege}

section

variable (h : Owned R pool m)

include h

theorem allocBody_owned (hr : R r) (hP : pageOf ((a + offset) % 2 ^ 64) < 2 ^ 35)
    (hok : allocBody r a access privilege m offset = .ok m') : Owned R pool m' := by
  obtain ⟨f, m₁, hf, hpage⟩ := allocBody_page h.wf hr hP hok
  obtain ⟨h₁, hnew⟩ := h.alloc hf
  exact h₁.mapPage hnew hpage

theorem mapBody_owned {physStart : Nat} (hr : R r) (hP : pageOf ((a + offset) % 2 ^ 64) < 2 ^ 35)
    (hphys : frameOf (physStart + offset) ∉ pool)
    (hok : mapBody r a physStart access privilege m offset = .ok m') : Owned R pool m' :=
  h.mapPage ⟨fun hc => hphys (h.free _ hc), fun hc => hphys (h.tables _ hc)⟩
    (mapBody_page h.wf hr hP hok)

theorem copyBody_owned {r' : Frame} {b : Nat} (hr : R r) (hr' : R r')
    (hP : pageOf ((a + offset) % 2 ^ 64) < 2 ^ 35) (hP' : pageOf ((b + offset) % 2 ^ 64) < 2 ^ 35)
    (hok : copyBody r r' a b access privilege m offset = .ok m') : Owned R pool m' := by
  obtain ⟨f, hf, hpage⟩ := copyBody_page h.wf hr hP hok
  exact h.mapPage (h.mapped r' _ f hr' hP' hf) hpage

theorem pageLoop_owned {size : Nat} {body : PhysMem → Nat → Except Fault PhysMem}
    (hbody : ∀ k < size / 0x1000, ∀ m m', Owned R pool m → body m (k * 0x1000 % 2 ^ 32) = .ok m' →
      Owned R pool m') (hok : pageLoop size body m = .ok m') : Owned R pool m' :=
  pageLoop_invariant (fun _ => Owned R pool) h (fun k hk a b ha hb => hbody k hk a b ha hb) hok

end

/-! ### Returning frames -/

/-- The frame belongs to the allocator and page `P` of PML4 `r` is the only one that maps it. -/
def SoleFrame (R : Frame → Prop) (pool : List Frame) (m : PhysMem) (r : Frame) (P : Nat)
    (f : Frame) : Prop :=
  f ∈ pool ∧ ∀ r' P', R r' → P' < 2 ^ 35 → frameAt m r' P' = some f → r' = r ∧ P' = P

variable {S k : Nat} {i : Fin 512} {q : List (Fin 512)}

theorem mem_regionFrames : f ∈ regionFrames m r S k ↔ ∃ j < k, frameAt m r (S + j) = some f := by
  simp [regionFrames]

theorem regionFrames_nodup
    (h : ∀ j < k, ∀ j' < k, ∀ f, frameAt m r (S + j) = some f → frameAt m r (S + j') = some f →
      j = j') : (regionFrames m r S k).Nodup := by
  refine List.pairwise_filterMap.mpr (List.nodup_range.imp_of_mem ?_)
  intro j j' hj hj' hne f hf f' hf' heq
  subst heq
  exact hne (h j (List.mem_range.mp hj) j' (List.mem_range.mp hj') f hf hf')

/-- A newly allocated page is the only one that maps its frame. -/
theorem allocBody_sole (h : Owned R pool m) (hr : R r)
    (hP : pageOf ((a + offset) % 2 ^ 64) < 2 ^ 35)
    (hok : allocBody r a access privilege m offset = .ok m') :
    ∃ f, frameAt m' r (pageOf ((a + offset) % 2 ^ 64)) = some f ∧
      SoleFrame R pool m' r (pageOf ((a + offset) % 2 ^ 64)) f := by
  obtain ⟨f, m₁, hf, hpage⟩ := allocBody_page h.wf hr hP hok
  obtain ⟨-, hfree, -, hframes⟩ := pmmAlloc_ok (by decide) h.wf hf
  have hmem : f ∈ m.free := by
    rw [hfree]
    exact List.mem_cons_self
  refine ⟨f, ?_, h.free f hmem, ?_⟩
  · rw [hpage.frames r _ hr hP, if_pos ⟨rfl, rfl⟩]
  · intro r' P' hr' hP' hf'
    rw [hpage.frames r' P' hr' hP'] at hf'
    split at hf'
    · assumption
    · rw [hframes r' P' hr' hP'] at hf'
      exact absurd hmem (h.mapped r' P' f hr' hP' hf').1

theorem Owned.returnable (h : Owned R pool m) (hr : R r) (hS : S + k ≤ 2 ^ 35)
    (hsole : ∀ j < k, ∃ f, frameAt m r (S + j) = some f ∧ SoleFrame R pool m r (S + j) f) :
    (m.free ++ regionFrames m r S k).Nodup ∧ ∀ f ∈ regionFrames m r S k, ¬IsTable R 256 m f := by
  have hmapped : ∀ f ∈ regionFrames m r S k, f ∉ m.free ∧ ¬IsTable R 256 m f := by
    intro f hf
    obtain ⟨j, hj, hframe⟩ := mem_regionFrames.mp hf
    exact h.mapped r (S + j) f hr (by omega) hframe
  refine ⟨List.nodup_append'.mpr ⟨h.wf.nodup, ?_, fun f hfree hf => (hmapped f hf).1 hfree⟩,
    fun f hf => (hmapped f hf).2⟩
  apply regionFrames_nodup
  intro j hj j' hj' f hf hf'
  obtain ⟨g, hg, hs⟩ := hsole j hj
  rw [hf] at hg
  cases hg
  have := (hs.2 r (S + j') hr (by omega) hf').2
  omega

theorem Owned.free_region (h : Owned R pool m) (hr : R r) (hS : S + k ≤ 2 ^ 35)
    (hsole : ∀ j < k, ∃ f, frameAt m r (S + j) = some f ∧ SoleFrame R pool m r (S + j) f)
    (hm : FreeState R 256 m r S m' k) : Owned R pool m' := by
  have hsole' : ∀ f ∈ regionFrames m r S k, ∃ j < k, frameAt m r (S + j) = some f ∧
      SoleFrame R pool m r (S + j) f := by
    intro f hf
    obtain ⟨j, hj, hframe⟩ := mem_regionFrames.mp hf
    obtain ⟨g, hg, hs⟩ := hsole j hj
    rw [hframe] at hg
    cases hg
    exact ⟨j, hj, hframe, hs⟩
  obtain ⟨hnodup, htables⟩ := h.returnable hr hS hsole
  refine ⟨hm.wf h.wf hnodup htables, ?_, fun g hg => h.tables g ((hm.isTable g).mp hg), ?_⟩
  · intro f hf
    rw [hm.free, List.mem_append] at hf
    rcases hf with hf | hf
    · exact h.free f hf
    · obtain ⟨j, -, -, hs⟩ := hsole' f hf
      exact hs.1
  · intro r' P f hr' hP hf
    rw [hm.frames hr hr' hP] at hf
    split at hf
    · cases hf
    · rename_i hnot
      obtain ⟨hfree, htable⟩ := h.mapped r' P f hr' hP hf
      refine ⟨?_, fun hc => htable ((hm.isTable f).mp hc)⟩
      rw [hm.free, List.mem_append]
      rintro (hc | hc)
      · exact hfree hc
      · obtain ⟨j, hj, -, hs⟩ := hsole' f hc
        obtain ⟨rfl, rfl⟩ := hs.2 r' P hr' hP hf
        exact hnot ⟨rfl, by omega, by omega⟩

/-! ### Tearing an address space down -/

/-- The positions below the user half of one PML4, pages included: what a path leads to is one of
its tables, or the frame that a page maps. -/
theorem user_path_cases (hr : R r) (hi : i.val < 256) (hq : q.length ≤ 3)
    (hnode : RadixTable.node PageEntry.child m.tables r (i :: q) = some f) :
    (Tracked R 256 r (i :: q) ∧ IsTable R 256 m f) ∨
      ∃ P < 2 ^ 35, path 4 P = i :: q ∧ frameAt m r P = some f := by
  have hhead : ∀ j ∈ (i :: q).head?, j.val < 256 := by
    intro j hj
    cases hj
    exact hi
  by_cases hlen : q.length ≤ 2
  · have htr : Tracked R 256 r (i :: q) := ⟨hr, by rw [List.length_cons]; omega, hhead⟩
    exact .inl ⟨htr, r, i :: q, htr, hnode⟩
  · obtain ⟨P, hP, hpath⟩ := exists_path (i :: q)
    have hlen4 : (i :: q).length = 4 := by
      rw [List.length_cons]
      omega
    rw [hlen4] at hP hpath
    have htop : (path 4 P).head? = some i := by
      rw [hpath]
      rfl
    rw [path_head?] at htop
    have hval : P / 512 ^ 3 % 512 = i.val := congrArg Fin.val (Option.some.inj htop)
    refine .inr ⟨P, by omega, hpath, ?_⟩
    rw [frameAt_eq_tableAt, tableAt, hpath, hnode]

theorem lt_of_mem_take {n : Nat} (hi : i ∈ (List.finRange 512).take n) : i.val < n := by
  obtain ⟨k, hk, rfl⟩ := List.mem_take_iff_getElem.mp hi
  rw [List.getElem_finRange]
  exact Nat.lt_of_lt_of_le hk (Nat.min_le_left _ _)

/-- Different paths below the user half lead to different frames, when no mapped frame is
shared. -/
theorem user_path_inj (h : Owned R pool m) (hr : R r)
    (hsole : ∀ P < 2 ^ 35, ∀ f, frameAt m r P = some f → SoleFrame R pool m r P f)
    {i i' : Fin 512} {q q' : List (Fin 512)} (hi : i.val < 256) (hi' : i'.val < 256)
    (hq : q.length ≤ 3) (hq' : q'.length ≤ 3)
    (hnode : RadixTable.node PageEntry.child m.tables r (i :: q) = some f)
    (hnode' : RadixTable.node PageEntry.child m.tables r (i' :: q') = some f) :
    i = i' ∧ q = q' := by
  apply List.cons_eq_cons.mp
  rcases user_path_cases hr hi hq hnode with ⟨htr, htable⟩ | ⟨P, hP, hpath, hframe⟩
  · rcases user_path_cases hr hi' hq' hnode' with ⟨htr', -⟩ | ⟨P', hP', -, hframe'⟩
    · exact (h.wf.separated r _ r _ f htr htr' hnode hnode').2
    · exact absurd htable (h.mapped r P' f hr hP' hframe').2
  · rcases user_path_cases hr hi' hq' hnode' with ⟨-, htable⟩ | ⟨P', hP', hpath', hframe'⟩
    · exact absurd htable (h.mapped r P f hr hP hframe).2
    · have := ((hsole P hP f hframe).2 r P' hr hP' hframe').2
      rw [← hpath, ← hpath', this]

theorem tracked_nil (hr : R r) : Tracked R 256 r [] := ⟨hr, by simp, by simp⟩

/-- **What `vas_teardown` returns**: each table and each mapped frame once, the PML4 last. -/
theorem teardownFrames_spec (h : Owned R pool m) (hr : R r)
    (hsole : ∀ P < 2 ^ 35, ∀ f, frameAt m r P = some f → SoleFrame R pool m r P f) :
    (teardownFrames m r).Nodup ∧
      ∀ f ∈ teardownFrames m r,
        (∃ p, Tracked R 256 r p ∧ RadixTable.node PageEntry.child m.tables r p = some f) ∨
          ∃ P < 2 ^ 35, frameAt m r P = some f := by
  have hmem : ∀ f ∈ RadixTable.childrenThen PageEntry.child m.tables ((List.finRange 512).take 256)
      (RadixTable.descendants PageEntry.child m.tables (List.finRange 512) 3) r,
      ∃ i q, i.val < 256 ∧ q.length ≤ 3 ∧
        RadixTable.node PageEntry.child m.tables r (i :: q) = some f := by
    intro f hf
    obtain ⟨i, hi, q, hq, hnode⟩ := RadixTable.mem_childrenThen_descendants hf
    exact ⟨i, q, lt_of_mem_take hi, hq, hnode⟩
  constructor
  · refine List.nodup_append'.mpr ⟨?_, List.nodup_singleton r, ?_⟩
    · apply RadixTable.nodup_childrenThen_descendants (List.nodup_finRange 512)
      · exact (List.nodup_finRange 512).sublist (List.take_sublist _ _)
      · intro i hi i' hi' q q' f hq hq' hnode hnode'
        exact user_path_inj h hr hsole (lt_of_mem_take hi) (lt_of_mem_take hi') hq hq' hnode hnode'
    · rw [List.disjoint_singleton]
      intro hf
      obtain ⟨i, q, hi, hq, hnode⟩ := hmem r hf
      rcases user_path_cases hr hi hq hnode with ⟨htr, -⟩ | ⟨P, hP, -, hframe⟩
      · exact List.cons_ne_nil i q
          (h.wf.separated r _ r _ r htr (tracked_nil hr) hnode RadixTable.node_nil).2
      · exact (h.mapped r P r hr hP hframe).2 ⟨r, [], tracked_nil hr, RadixTable.node_nil⟩
  · intro f hf
    rcases List.mem_append.mp hf with hf | hf
    · obtain ⟨i, q, hi, hq, hnode⟩ := hmem f hf
      rcases user_path_cases hr hi hq hnode with ⟨htr, -⟩ | ⟨P, hP, -, hframe⟩
      · exact .inl ⟨i :: q, htr, hnode⟩
      · exact .inr ⟨P, hP, hframe⟩
    · rw [List.mem_singleton.mp hf]
      exact .inl ⟨[], tracked_nil hr, RadixTable.node_nil⟩

theorem Owned.teardown {R' : Frame → Prop} (h : Owned R pool m) (hr : R r)
    (hsole : ∀ P < 2 ^ 35, ∀ f, frameAt m r P = some f → SoleFrame R pool m r P f)
    (hR : ∀ r', R' r' → R r' ∧ r' ≠ r) (htab : m'.tables = m.tables)
    (hfree : m'.free = m.free ++ teardownFrames m r) : Owned R' pool m' := by
  obtain ⟨hnodup, hspec⟩ := teardownFrames_spec h hr hsole
  have htracked : ∀ r' p, Tracked R' 256 r' p → Tracked R 256 r' p ∧ r' ≠ r :=
    fun r' p hp => ⟨⟨(hR r' hp.1).1, hp.2⟩, (hR r' hp.1).2⟩
  have htables : ∀ f, IsTable R' 256 m' f → IsTable R 256 m f := by
    rintro f ⟨r', p, hp, hnode⟩
    rw [htab] at hnode
    exact ⟨r', p, (htracked r' p hp).1, hnode⟩
  have hframes : ∀ r' P, frameAt m' r' P = frameAt m r' P := by
    intro r' P
    rw [frameAt, slot, htab]
    rfl
  -- a returned frame is used by no other address space
  have hunused : ∀ f ∈ teardownFrames m r, f ∈ pool ∧ f ∉ m.free ∧ ¬IsTable R' 256 m' f ∧
      ∀ r' P, R' r' → P < 2 ^ 35 → frameAt m' r' P ≠ some f := by
    intro f hf
    rcases hspec f hf with ⟨p, hp, hnode⟩ | ⟨P, hP, hframe⟩
    · have htable : IsTable R 256 m f := ⟨r, p, hp, hnode⟩
      refine ⟨h.tables f htable, fun hc => h.wf.fresh f hc r p hp hnode, ?_, ?_⟩
      · rintro ⟨r', p', hp', hnode'⟩
        rw [htab] at hnode'
        obtain ⟨htr, hne⟩ := htracked r' p' hp'
        exact hne (h.wf.separated r' p' r p f htr hp hnode' hnode).1
      · intro r' P hr' hP hc
        rw [hframes] at hc
        exact (h.mapped r' P f (hR r' hr').1 hP hc).2 htable
    · obtain ⟨hnfree, hntable⟩ := h.mapped r P f hr hP hframe
      refine ⟨(hsole P hP f hframe).1, hnfree, fun hc => hntable (htables f hc), ?_⟩
      intro r' P' hr' hP' hc
      rw [hframes] at hc
      exact (hR r' hr').2 ((hsole P hP f hframe).2 r' P' (hR r' hr').1 hP' hc).1
  refine ⟨⟨?_, ?_, ?_⟩, ?_, fun f hf => h.tables f (htables f hf), ?_⟩
  · intro r₁ p₁ r₂ p₂ f hp₁ hp₂ hn₁ hn₂
    rw [htab] at hn₁ hn₂
    exact h.wf.separated r₁ p₁ r₂ p₂ f (htracked r₁ p₁ hp₁).1 (htracked r₂ p₂ hp₂).1 hn₁ hn₂
  · intro f hf r' p hp hnode
    rw [hfree, List.mem_append] at hf
    rcases hf with hf | hf
    · rw [htab] at hnode
      exact h.wf.fresh f hf r' p (htracked r' p hp).1 hnode
    · exact (hunused f hf).2.2.1 ⟨r', p, hp, hnode⟩
  · rw [hfree]
    exact List.nodup_append'.mpr ⟨h.wf.nodup, hnodup, fun f hf hf' => (hunused f hf').2.1 hf⟩
  · intro f hf
    rw [hfree, List.mem_append] at hf
    exact hf.elim (h.free f) fun hf => (hunused f hf).1
  · intro r' P f hr' hP hf
    have hold := hf
    rw [hframes] at hold
    obtain ⟨hnfree, hntable⟩ := h.mapped r' P f (hR r' hr').1 hP hold
    refine ⟨?_, fun hc => hntable (htables f hc)⟩
    rw [hfree, List.mem_append]
    rintro (hc | hc)
    · exact hnfree hc
    · exact (hunused f hc).2.2.2 r' P hr' hP hf

end Owned

/-! ### Runs -/

/-- The region that a mapping call selects lies in the user half. -/
def ChosenInUserHalf (ranges : List VasRange) (minAddress size : Nat) : Prop :=
  ∀ a ∈ (selectVirtualAddress ranges minAddress size).toOption, a + size ≤ 2 ^ 47

/-- What a call has to respect in the state before it.  Mapping calls work in the user half, and
`vas_map_range` maps no frame of the allocator.  `vas_free_range` and `vas_teardown` reach pages
only whose frame came from the allocator and is mapped by no other page of a live address
space. -/
def OwnOk (pool : List Frame) (s : Vmm) : VmmEvent → Prop
  | .allocRange i minAddress size _ _ => ∀ vas ∈ s.vases i,
      ChosenInUserHalf vas.ranges minAddress.toNat (pageAlign size.toNat)
  | .mapRange i minAddress size physStart _ _ => ∀ vas ∈ s.vases i,
      ChosenInUserHalf vas.ranges minAddress.toNat size.toNat ∧
      ∀ k < size.toNat / 0x1000, frameOf (physStart.toNat + 0x1000 * k) ∉ pool
  | .copyPhysMapping i _ minAddress size vasToCopyStart _ _ => ∀ vas ∈ s.vases i,
      ChosenInUserHalf vas.ranges minAddress.toNat (pageAlign size.toNat) ∧
      vasToCopyStart.toNat + pageAlign size.toNat ≤ 2 ^ 47
  | .freeRange i regionBase size => ∀ vas ∈ s.vases i,
      regionBase.toNat + size.toNat ≤ 2 ^ 47 ∧
      ∀ j < regionReach (regionBase.toNat / 0x1000) (pagesIn size.toNat),
        ∃ f, frameAt s.mem vas.pml4 (regionBase.toNat / 0x1000 + j) = some f ∧
          SoleFrame s.Root pool s.mem vas.pml4 (regionBase.toNat / 0x1000 + j) f
  | .teardown i => ∀ vas ∈ s.vases i, ∀ P < 2 ^ 35, ∀ f, frameAt s.mem vas.pml4 P = some f →
      SoleFrame s.Root pool s.mem vas.pml4 P f

/-- The invariant of the runs. -/
structure OwnInv (pool : List Frame) (s : Vmm) : Prop where
  owned : Owned s.Root pool s.mem
  distinct : s.Distinct

theorem Vmm.Fresh.ownInv {pool : List Frame} {s : Vmm} (h : s.Fresh pool) : OwnInv pool s := by
  refine ⟨⟨h.wf, h.free.1, ?_, ?_⟩, h.distinct⟩
  · rintro f ⟨r, p, hp, hnode⟩
    have hempty : ∀ r (x : Fin 512), s.Root r → x.val < 256 →
        (s.mem.tables r x).present = false := by
      rintro r x ⟨i, vas, hi, rfl⟩ hx
      exact h.empty i vas hi x hx
    obtain ⟨-, rfl⟩ := node_of_empty hempty hp hnode
    obtain ⟨i, vas, hi, hf⟩ := hp.1
    rw [← hf]
    exact (h.taken i vas hi).1
  · intro r P f hr hP hf
    rw [h.frameAt_none hr hP] at hf
    cases hf

section Runs

variable {pool : List Frame} {s s' : Vmm}

variable {i : Nat} {m : PhysMem} {vas vas' : Vas}

/-- A call that keeps the PML4 and the invariant of the memory keeps the invariant. -/
theorem OwnInv.update (h : OwnInv pool s) (hi : s.vases i = some vas) (hpml4 : vas'.pml4 = vas.pml4)
    (hm : Owned s.Root pool m) :
    OwnInv pool { mem := m, vases := Function.update s.vases i (some vas') } := by
  refine ⟨?_, h.distinct.update hi hpml4⟩
  rw [Vmm.root_update hi hpml4]
  exact hm

theorem OwnInv.mapPages (h : OwnInv pool s) {i chosenStart size : Nat}
    {body : PhysMem → Nat → Except Fault PhysMem} (hi : s.vases i = some vas)
    (hbody : ∀ k < size / 0x1000, ∀ m m', Owned s.Root pool m →
      body m (k * 0x1000 % 2 ^ 32) = .ok m' → Owned s.Root pool m')
    (hok : vasMapPages s.mem vas chosenStart size body = .ok (m, vas')) :
    OwnInv pool { mem := m, vases := Function.update s.vases i (some vas') } := by
  obtain ⟨ranges, -, hloop, rfl⟩ := vasMapPages_eq_ok hok
  exact h.update hi rfl (pageLoop_owned h.owned hbody hloop)

/-- **One call that respects ownership keeps the invariant.** -/
theorem OwnInv.next (h : OwnInv pool s) {e : VmmEvent} (hok : OwnOk pool s e)
    (hnext : s.next e = some s') : OwnInv pool s' := by
  cases e with
  | allocRange i minAddress size access privilege =>
    obtain ⟨vas, a, m, vas', hi, ha, hmap, rfl⟩ := Vmm.next_allocRange hnext
    have huser := hok vas hi a (toOption_eq_some.mpr ha)
    exact h.mapPages hi (fun k hk m m' hm hb =>
      allocBody_owned hm ⟨i, vas, hi, rfl⟩ (page_in_user_half hk huser) hb) hmap
  | mapRange i minAddress size physStart access privilege =>
    obtain ⟨vas, a, m, vas', hi, ha, hmap, rfl⟩ := Vmm.next_mapRange hnext
    have huser := (hok vas hi).1 a (toOption_eq_some.mpr ha)
    have hphys := (hok vas hi).2
    refine h.mapPages hi (fun k hk m m' hm hb =>
      mapBody_owned hm ⟨i, vas, hi, rfl⟩ (page_in_user_half hk huser) ?_ hb) hmap
    -- the frame is one of the range's, if `i * PAGE_SIZE` has wrapped around an earlier one
    have := hphys (k % 2 ^ 20) (Nat.lt_of_le_of_lt (Nat.mod_le _ _) hk)
    rwa [show k * 0x1000 % 2 ^ 32 = 0x1000 * (k % 2 ^ 20) by omega]
  | copyPhysMapping i j minAddress size vasToCopyStart access privilege =>
    obtain ⟨vas, vasToCopy, a, m, vas', hi, hj, ha, hmap, rfl⟩ := Vmm.next_copyPhysMapping hnext
    have huser := (hok vas hi).1 a (toOption_eq_some.mpr ha)
    have hsource := (hok vas hi).2
    exact h.mapPages hi (fun k hk m m' hm hb =>
      copyBody_owned hm ⟨i, vas, hi, rfl⟩ ⟨j, vasToCopy, hj, rfl⟩ (page_in_user_half hk huser)
        (page_in_user_half hk hsource) hb) hmap
  | freeRange i regionBase size =>
    obtain ⟨vas, m, ranges, hi, hfree, -, rfl⟩ := Vmm.next_freeRange hnext
    have hr : s.Root vas.pml4 := ⟨i, vas, hi, rfl⟩
    obtain ⟨huser, hsole⟩ := hok vas hi
    have hpage : pageOf regionBase.toNat = regionBase.toNat / 0x1000 := by
      unfold pageOf
      omega
    have hn : regionBase.toNat / 0x1000 + pagesIn size.toNat ≤ 2 ^ 35 := by
      unfold pagesIn
      omega
    rw [← hpage] at hsole hn
    have hreach := regionReach_le (pageOf regionBase.toNat) (pagesIn size.toNat)
    have hstate := freeRegion4kPages_ok (by decide) h.owned.wf.separated hr rfl hn
      (fun j hj => ?_) hfree
    · exact h.update hi rfl (h.owned.free_region hr (by omega) hsole hstate)
    · obtain ⟨f, hf, -⟩ := hsole j hj
      obtain ⟨e, he, -⟩ := Option.map_eq_some_iff.mp hf
      exact ⟨e, he⟩
  | teardown i =>
    obtain ⟨vas, m, hi, hm, rfl⟩ := Vmm.next_teardown hnext
    obtain ⟨htab, hfree⟩ := vasTeardown_ok hm
    constructor
    · refine h.owned.teardown ⟨i, vas, hi, rfl⟩ (hok vas hi) ?_ htab hfree
      rintro r ⟨j, w, hj, rfl⟩
      obtain ⟨hji, hj⟩ := Vmm.vases_of_teardown hj
      exact ⟨⟨j, w, hj, rfl⟩, fun heq => hji (h.distinct j i w vas hj hi heq)⟩
    · intro j k w w' hj hk heq
      exact h.distinct j k w w' (Vmm.vases_of_teardown hj).2 (Vmm.vases_of_teardown hk).2 heq

theorem translate_frame (m : PhysMem) (r : Frame) (P : Nat) :
    (translate m r P).map Translation.frame = frameAt m r P := by
  cases hs : slot m r 3 P with
  | none =>
    rw [translate_eq_none_iff.mpr hs, frameAt, hs]
    rfl
  | some pte =>
    obtain ⟨e, he3, he⟩ := entries_of_leaf hs
    rw [translate_of_entries he, frameAt, hs, Option.map_some, Option.map_some, he3]

/-- **Frame ownership.**  From newly made address spaces, through any run of the five calls that
all respect `OwnOk`: in every state passed through no frame is twice in the queue, no free frame
is mapped in the user half of a live address space, and every free frame is one that `pmm_init`
put there. -/
theorem frames_owned_once (pool : List Frame) (s₀ : Vmm) (hfresh : s₀.Fresh pool)
    (events : List VmmEvent) (hok : StepRun.Meets Vmm.next (OwnOk pool) s₀ events) (s : Vmm)
    (hs : StepRun.Passes Vmm.next s₀ events s) :
    s.mem.free.Nodup ∧
      (∀ f ∈ s.mem.free, ∀ i vas, s.vases i = some vas → ∀ P < 2 ^ 35,
        (translate s.mem vas.pml4 P).map Translation.frame ≠ some f) ∧
      ∀ f ∈ s.mem.free, f ∈ pool := by
  have hstep : ∀ s e t, OwnInv pool s → OwnOk pool s e → s.next e = some t → OwnInv pool t :=
    fun _ _ _ hinv hok hnext => hinv.next hok hnext
  have hinv := StepRun.passes_invariant hstep hfresh.ownInv hok hs
  refine ⟨hinv.owned.wf.nodup, ?_, hinv.owned.free⟩
  intro f hf i vas hi P hP hframe
  rw [translate_frame] at hframe
  exact (hinv.owned.mapped vas.pml4 P f ⟨i, vas, hi, rfl⟩ hP hframe).1 hf

end Runs

/-! ### Two address spaces -/

/-- The frames `0` to `11`. -/
def smallPool : List Frame := (List.range 12).map fun k => frameOf (k * 0x1000)

/-- Two new address spaces, whose PML4s are the first two frames of `smallPool`. -/
def twoVases : Vmm where
  mem := { tables := fun _ _ => .zero, free := smallPool.drop 2 }
  vases := fun i =>
    if i < 2 then some { pml4 := frameOf (i * 0x1000), maxRangeCount := 255, ranges := [] } else none

theorem twoVases_eq_some {i : Nat} {vas : Vas} (h : twoVases.vases i = some vas) :
    (i = 0 ∨ i = 1) ∧ vas = { pml4 := frameOf (i * 0x1000), maxRangeCount := 255, ranges := [] } := by
  simp only [twoVases] at h
  split at h
  · cases h
    exact ⟨by omega, rfl⟩
  · cases h

theorem twoVases_fresh : twoVases.Fresh smallPool where
  ranges := fun i vas h => by rw [(twoVases_eq_some h).2]
  empty := fun _ _ _ _ _ => rfl
  distinct := by
    intro i j vas vas' hi hj heq
    obtain ⟨hi', rfl⟩ := twoVases_eq_some hi
    obtain ⟨hj', rfl⟩ := twoVases_eq_some hj
    have := congrArg Fin.val heq
    simp only [frameOf] at this
    omega
  free := ⟨fun f hf => List.mem_of_mem_drop hf, by decide⟩
  taken := by
    intro i vas h
    obtain ⟨rfl | rfl, rfl⟩ := twoVases_eq_some h <;> decide

/-- `_amc_shared_memory_create`: the source allocates a page and the remote side maps it too. -/
def sharedMemoryCreate : List VmmEvent :=
  [.allocRange 0 0x7f0000000000 0x1000 .readWrite .user,
   .copyPhysMapping 1 0 0x7f0000000000 0x1000 0x7f0000000000 .readWrite .user]

def sharedMemoryOwnerGone : Vmm :=
  (StepRun.run Vmm.next twoVases (sharedMemoryCreate ++ [.teardown 0])).getD twoVases

/-- Two services share a page and the one that made it exits: its frame is in the queue while the
other service still maps it. -/
theorem shared_frame_freed :
    twoVases.Fresh smallPool ∧
      StepRun.run Vmm.next twoVases (sharedMemoryCreate ++ [.teardown 0]) =
        some sharedMemoryOwnerGone ∧
      ∃ vas, sharedMemoryOwnerGone.vases 1 = some vas ∧
        ∃ f ∈ sharedMemoryOwnerGone.mem.free,
          (translate sharedMemoryOwnerGone.mem vas.pml4 0x7f0000000).map Translation.frame =
            some f := by
  refine ⟨twoVases_fresh, ?_, ?_⟩
  · have hsome : (StepRun.run Vmm.next twoVases (sharedMemoryCreate ++ [.teardown 0])).isSome := by
      decide +kernel
    obtain ⟨s, hs⟩ := Option.isSome_iff_exists.mp hsome
    rw [sharedMemoryOwnerGone, hs, Option.getD_some]
  · have hpml4 : (sharedMemoryOwnerGone.vases 1).map Vas.pml4 = some (frameOf 0x1000) := by
      decide +kernel
    obtain ⟨vas, hvas, hpml4⟩ := Option.map_eq_some_iff.mp hpml4
    refine ⟨vas, hvas, frameOf 0x2000, by decide +kernel, ?_⟩
    rw [hpml4]
    decide +kernel

/-- The first address space takes a page. -/
def takePage : VmmEvent := .allocRange 0 0x7f0000000000 0x1000 .readWrite .user

theorem takePage_ownOk : OwnOk smallPool twoVases takePage := by
  intro vas hvas a ha
  cases hvas
  cases ha
  decide

theorem takePage_sole {t : Vmm} (ht : twoVases.next takePage = some t) :
    ∀ vas ∈ t.vases 0, ∃ f, frameAt t.mem vas.pml4 0x7f0000000 = some f ∧
      SoleFrame t.Root smallPool t.mem vas.pml4 0x7f0000000 f := by
  obtain ⟨vas, a, m, vas', hi, ha, hmap, rfl⟩ := Vmm.next_allocRange ht
  obtain ⟨ranges, -, hloop, rfl⟩ := vasMapPages_eq_ok hmap
  rw [show pageAlign (0x1000 : UInt64).toNat = 0x1000 by decide, pageLoop_one] at hloop
  rw [Vmm.root_update hi (by rfl)]
  intro vas' hvas'
  cases hvas'
  have hstart : a = 0x7f0000000000 := by
    rw [(twoVases_eq_some hi).2] at ha
    exact (Except.ok.inj ha).symm
  subst hstart
  have hpage : pageOf ((0x7f0000000000 + 0) % 2 ^ 64) = 0x7f0000000 := by decide
  have hsole := allocBody_sole twoVases_fresh.ownInv.owned ⟨0, vas, hi, rfl⟩ (by decide) hloop
  exact hsole

/-- A page that is allocated and freed again. -/
theorem frames_owned_once_allocFree :
    ∃ s, StepRun.run Vmm.next twoVases [takePage, .freeRange 0 0x7f0000000000 0x1000] = some s ∧
      s.mem.free.Nodup ∧
      (∀ f ∈ s.mem.free, ∀ i vas, s.vases i = some vas → ∀ P < 2 ^ 35,
        (translate s.mem vas.pml4 P).map Translation.frame ≠ some f) ∧
      ∀ f ∈ s.mem.free, f ∈ smallPool := by
  have hsome : (StepRun.run Vmm.next twoVases
      [takePage, .freeRange 0 0x7f0000000000 0x1000]).isSome := by decide +kernel
  obtain ⟨s, hs⟩ := Option.isSome_iff_exists.mp hsome
  refine ⟨s, hs, frames_owned_once smallPool twoVases twoVases_fresh
    [takePage, .freeRange 0 0x7f0000000000 0x1000] ⟨takePage_ownOk, fun t ht => ⟨?_, ?_⟩⟩ s
    ⟨_, List.prefix_rfl, hs⟩⟩
  · intro vas hvas
    refine ⟨by decide, fun j hj => ?_⟩
    have hj' : regionReach (0x7f0000000000 / 0x1000) (pagesIn 0x1000) = 1 := by decide
    obtain rfl : j = 0 := by
      have : j < 1 := hj' ▸ hj
      omega
    exact takePage_sole ht vas hvas
  · exact fun _ _ => trivial

end Axle.Kernel
