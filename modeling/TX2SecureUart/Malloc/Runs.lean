/-
# `Malloc.Runs` — runs of the heaps and their clients

Each call keeps `WorldOk`, and returns if it looks for its area in the heap that it is from.  A call for an
aligned area may take bytes out of the free list that are in no area.  In a run without such a call
the free blocks and the areas of the clients cover each heap, and a heap of which nothing is held is one
free block again.
-/
import TX2SecureUart.Malloc.World
import TX2SecureUart.Lib.Tiling

namespace TX2SecureUart.Malloc

open Prog ByteStore WordStore Tiling

variable {t u : HeapType} {s s' : Heaps} {l l' r : List Block} {owned owned' : List Owned} {o o' : Owned} {x : Area}
  {w : World} {fl : HeapType → List Block} {lost : HeapType → Nat} {q : HeapType} {b : Block}
  {a k n p y al len size start off : Nat} {v : UInt8} {d : Nat → UInt8} {E : Stop → Heaps → Prop}

/-! ## What a call does to the system -/

theorem Frame.start_any (h : Frame t r s s') (u : HeapType) :
    (s'.heapInfo u).start = (s.heapInfo u).start ∧ (s'.heapInfo u).stop = (s.heapInfo u).stop := by
  by_cases heq : u = t
  · rw [heq]
    exact ⟨h.start, h.stop⟩
  · rw [h.others u heq]
    exact ⟨rfl, rfl⟩

theorem RegionsApart.frame {q : HeapType} (h : RegionsApart (s.heapInfo t) (s.heapInfo u)) (hf : Frame q r s s') :
    RegionsApart (s'.heapInfo t) (s'.heapInfo u) := by
  unfold RegionsApart
  rw [(hf.start_any t).1, (hf.start_any t).2, (hf.start_any u).1, (hf.start_any u).2]
  exact h

theorem areaOf_eq (h : AreaAt d x) : areaOf d x.ptr x.len = x := by
  rw [areaOf, h.start, h.size]

theorem held_none (h : ∀ o ∈ owned, o.heap ≠ t) : held t owned = 0 := by
  induction owned with
  | nil => rfl
  | cons o owned ih =>
      rw [held, if_neg (h o List.mem_cons_self), ih fun o' ho' => h o' (List.mem_cons_of_mem o ho')]

/-- A heap of one free block -/
theorem freeOk_single (hinfo : s.heapInfo t = ⟨size, size, start, start + size, start⟩) (hlow : minSize ≤ start)
    (hhigh : start + size < 2 ^ 64) (hsize : minSize ≤ size) (hd : FreeAt s.mem (start, size) 0 0) :
    FreeOk t s [(start, size)] := by
  refine ⟨⟨hd, trivial⟩, ⟨List.pairwise_singleton .., ?_, ?_⟩, ?_, ?_, ?_, ?_, ?_, ?_⟩
  · intro b hb
    rw [List.mem_singleton.mp hb]
    exact ⟨Nat.lt_of_lt_of_le (by decide) hlow, hsize⟩
  · intro b hb
    rw [List.mem_singleton.mp hb]
    exact hhigh
  · intro b hb
    rw [List.mem_singleton.mp hb, hinfo]
    exact ⟨Nat.le_refl _, Nat.le_refl _⟩
  all_goals
    rw [hinfo]
  · rfl
  · rfl
  · exact hlow
  · exact hhigh

theorem patch_single : patch d a [v] a = v := by
  have h : patch d a [v] (a + 0) = [v][0] := patch_add Nat.zero_lt_one
  exact h

theorem patch_single_ne (h : y ≠ a) : patch d a [v] y = d y := by
  rcases Nat.lt_or_gt_of_ne h with hlt | hgt
  · exact patch_of_lt hlt
  · exact patch_of_ge hgt

namespace WorldOk

/-- The block of a new area is apart from the blocks of the others. -/
theorem new_apart (h : WorldOk w fl lost) (hg : Gives t w.heaps s' (fl t) l' x k) (ho : o ∈ w.owned)
    (q : HeapType) (al : Nat) : Owned.Apart ⟨t, q, x, al⟩ o := by
  have hx := hg.area.large
  have hlarge := ((h.heapOk ho).area o ho rfl).large
  have hmid : ∀ y, o.area.block ≤ y → y < o.area.block + o.area.size → y < x.block ∨ x.block + x.size ≤ y :=
    fun y hle hlt => (hg.from_list y (h.block_out ho t hle hlt)).1 x.mid List.mem_cons_self
  unfold minSize at hx hlarge
  have hfirst := hmid o.area.block (Nat.le_refl _) (by omega)
  have hother := hmid x.block
  show x.block + x.size ≤ o.area.block ∨ o.area.block + o.area.size ≤ x.block
  omega

theorem gain (h : WorldOk w fl lost) (hg : Gives t w.heaps s' (fl t) l' x k) (hal : x.ptr % al = 0)
    (hd : ∀ y, x.ptr ≤ y → y < x.ptr + x.len → s'.mem y = d y) :
    WorldOk (({ w with heaps := s' } : World).gain t q x.ptr x.len al d) (Function.update fl t l')
      (Function.update lost t (lost t + k)) := by
  have hpos : x.ptr ≠ 0 := by
    have hlow := hg.area.low
    unfold allocHeader at hlow
    omega
  have hok : HeapOk t w.heaps (fl t) w.owned (lost t) :=
    (h.heap t).resolve_left fun hnone => unmade_no hnone hg.list hg.frame
  have hkeep : ∀ o ∈ w.owned, ∀ y, o.area.block ≤ y → y < o.area.block + o.area.size →
      s'.mem y = w.heaps.mem y := fun o ho y hle hlt => hg.frame.keeps y (h.block_out ho t hle hlt)
  rw [World.gain, if_neg hpos, areaOf_eq hg.area]
  refine ⟨fun u => ?_, fun t' u hne => (h.regions t' u hne).frame hg.frame, ?_, ?_, ?_⟩
  · by_cases heq : u = t
    · rw [heq, Function.update_self, Function.update_self]
      exact Or.inr (hok.gain hg q al)
    · rw [Function.update_of_ne heq, Function.update_of_ne heq]
      have hinfo := hg.frame.others u heq
      refine (h.heap u).imp (fun hnone => ⟨hinfo.trans hnone.info, hnone.list, ?_, hnone.lost⟩) fun hother => ?_
      · intro o ho
        rcases List.mem_cons.mp ho with rfl | ho
        · exact Ne.symm heq
        · exact hnone.none o ho
      · refine hother.congr hinfo ?_ ?_ ?_ ?_
        · intro y hy
          have hin := hother.free.inside.mem hy
          exact hg.frame.keeps y (h.region_out (Ne.symm heq) hin.1 hin.2)
        · intro o ho hou y hle hlt
          have hfit := (hother.area o ho hou).fit
          exact hkeep o ho y hle (by omega)
        · intro o ho hou
          rcases List.mem_cons.mp ho with rfl | ho
          · exact absurd hou (Ne.symm heq)
          · exact ho
        · rw [held, if_neg (Ne.symm heq), Nat.zero_add]
  · exact List.pairwise_cons.mpr ⟨fun o ho => h.new_apart hg ho q al, h.apart⟩
  · intro o ho y hle hlt
    rcases List.mem_cons.mp ho with rfl | ho
    · have hlt : y < x.ptr + x.len := hlt
      have hle : x.ptr ≤ y := hle
      show s'.mem y = if x.ptr ≤ y ∧ y < x.ptr + x.len then d y else w.stored y
      rw [if_pos ⟨hle, hlt⟩]
      exact hd y hle hlt
    · have hx := (h.heapOk ho).area o ho rfl
      have hlow := hx.low
      have hfit := hx.fit
      have hxlow := hg.area.low
      have hxfit := hg.area.fit
      have hapart : x.block + x.size ≤ o.area.block ∨ o.area.block + o.area.size ≤ x.block :=
        h.new_apart hg ho q al
      show s'.mem y = if x.ptr ≤ y ∧ y < x.ptr + x.len then d y else w.stored y
      rw [if_neg (by omega), ← h.stored o ho y hle hlt]
      exact hkeep o ho y (by omega) (by omega)
  · intro o ho
    rcases List.mem_cons.mp ho with rfl | ho
    · exact hal
    · exact h.aligned o ho

theorem lose (h : WorldOk w fl lost) (ho : o ∈ w.owned) (hk : Takes o.heap w.heaps s' (fl o.heap) l' o.area) :
    WorldOk (({ w with heaps := s' } : World).drop o) (Function.update fl o.heap l') lost := by
  have hap := h.erase_apart ho
  have hok := h.heapOk ho
  have hin := hok.inside o ho rfl
  have hkeep : ∀ y, Outside (fl o.heap) y → (y < o.area.block ∨ o.area.block + o.area.size ≤ y) →
      s'.mem y = w.heaps.mem y := fun y hout hy => hk.frame.keeps y (outside_cons.mpr ⟨hy, hout⟩)
  have hblock : ∀ o' ∈ w.owned.erase o, ∀ y, o'.area.block ≤ y → y < o'.area.block + o'.area.size →
      s'.mem y = w.heaps.mem y := fun o' ho' y hle hlt =>
    hkeep y (h.block_out (List.mem_of_mem_erase ho') o.heap hle hlt) ((hap o' ho').outside hle hlt)
  refine ⟨fun u => ?_, fun t' u hne => (h.regions t' u hne).frame hk.frame, h.apart.sublist List.erase_sublist,
    ?_, fun o' ho' => h.aligned o' (List.mem_of_mem_erase ho')⟩
  · by_cases heq : u = o.heap
    · rw [heq, Function.update_self]
      exact Or.inr (hok.lose ho rfl hap hk)
    · rw [Function.update_of_ne heq]
      have hinfo := hk.frame.others u heq
      refine (h.heap u).imp (fun hnone => ⟨hinfo.trans hnone.info, hnone.list, ?_, hnone.lost⟩) fun hother => ?_
      · exact fun o' ho' => hnone.none o' (List.mem_of_mem_erase ho')
      · refine hother.congr hinfo ?_ ?_ (fun o' ho' _ => List.mem_of_mem_erase ho') ?_
        · intro y hy
          have hiny := hother.free.inside.mem hy
          refine hkeep y (h.region_out (Ne.symm heq) hiny.1 hiny.2) ?_
          rcases h.regions u o.heap heq with hr | hr <;> omega
        · intro o' ho' hou y hle hlt
          have hfit := (hother.area o' ho' hou).fit
          have hinu := hother.inside o' ho' hou
          refine hkeep y (h.block_out ho' o.heap hle (by omega)) ?_
          rcases h.regions u o.heap heq with hr | hr <;> omega
        · show held u (w.owned.erase o) = held u w.owned
          rw [held_erase u ho, if_neg (Ne.symm heq), Nat.zero_add]
  · intro o' ho' y hle hlt
    have hmem := List.mem_of_mem_erase ho'
    have hx := (h.heapOk hmem).area o' hmem rfl
    have hlow := hx.low
    have hfit := hx.fit
    refine (hblock o' ho' y (by omega) (by omega)).trans ?_
    exact h.stored o' hmem y hle hlt

theorem put (h : WorldOk w fl lost) (ho : o ∈ w.owned) (hoff : off < o.area.len) :
    WorldOk (w.put (o.area.ptr + off) v) fl lost := by
  have hx := (h.heapOk ho).area o ho rfl
  have hlow := hx.low
  have hfit := hx.fit
  have hap := h.erase_apart ho
  have hmem : ∀ y, y ≠ o.area.ptr + off → patch w.heaps.mem (o.area.ptr + off) [v] y = w.heaps.mem y :=
    fun y hne => patch_single_ne hne
  refine ⟨fun u => ?_, h.regions, h.apart, ?_, h.aligned⟩
  · refine (h.heap u).imp (fun hnone => ⟨hnone.info, hnone.list, hnone.none, hnone.lost⟩) fun hok => ?_
    refine hok.congr rfl ?_ ?_ (fun o' ho' _ => ho') rfl
    · intro y hy
      refine hmem y ?_
      rintro rfl
      exact hy (h.block_out ho u (by omega) (by omega))
    · intro o' ho' hou y hle hlt
      have hfit' := (hok.area o' ho' hou).fit
      refine hmem y fun heq => ?_
      by_cases hsame : o' = o
      · rw [hsame] at hlt
        omega
      · have hapart := hap o' ((List.mem_erase_of_ne hsame).mpr ho')
        rcases hapart with hr | hr <;> omega
  · intro o' ho' y hle hlt
    show patch w.heaps.mem (o.area.ptr + off) [v] y = patch w.stored (o.area.ptr + off) [v] y
    by_cases heq : y = o.area.ptr + off
    · rw [heq, patch_single, patch_single]
    · rw [patch_single_ne heq, patch_single_ne heq]
      exact h.stored o' ho' y hle hlt

/-- A heap that was made of memory that is in no other one -/
theorem make (h : WorldOk w fl lost) (hnone : w.heaps.heapInfo t = noHeap) (hlow : minSize ≤ start)
    (hhigh : start + size < 2 ^ 64) (hsize : minSize ≤ size)
    (hout : ∀ u, u ≠ t → (w.heaps.heapInfo u).stop ≤ start ∨ start + size ≤ (w.heaps.heapInfo u).start)
    (hd : FreeAt d (start, size) 0 0)
    (hkeep : ∀ y, y < start ∨ start + size ≤ y → d y = w.heaps.mem y) :
    WorldOk { w with heaps := (w.heaps.withInfo t ⟨size, size, start, start + size, start⟩).withMem d }
      (Function.update fl t [(start, size)]) lost := by
  have hfresh : Unmade t w.heaps (fl t) w.owned (lost t) := by
    refine (h.heap t).resolve_right fun hok => ?_
    have hlow := hok.free.low
    rw [hnone] at hlow
    exact absurd hlow (by decide)
  have hself : ((w.heaps.withInfo t ⟨size, size, start, start + size, start⟩).withMem d).heapInfo t
      = ⟨size, size, start, start + size, start⟩ := by
    rw [withMem_heapInfo, withInfo_self]
  have hother : ∀ u, u ≠ t → ((w.heaps.withInfo t ⟨size, size, start, start + size, start⟩).withMem d).heapInfo u
      = w.heaps.heapInfo u := by
    intro u hu
    rw [withMem_heapInfo, withInfo_other _ _ hu]
  have hregion : ∀ o ∈ w.owned, ∀ y, o.area.block ≤ y → y < o.area.block + o.area.size → d y = w.heaps.mem y := by
    intro o ho y hle hlt
    have hin := (h.heapOk ho).inside o ho rfl
    refine hkeep y ?_
    rcases hout o.heap (hfresh.none o ho) with hr | hr <;> omega
  refine ⟨fun u => ?_, fun t' u hne => ?_, h.apart, ?_, h.aligned⟩
  · by_cases heq : u = t
    · rw [heq, Function.update_self]
      refine Or.inr ⟨freeOk_single hself hlow hhigh hsize hd, List.pairwise_singleton ..,
        fun o ho ht => absurd ht (hfresh.none o ho), fun o ho ht => absurd ht (hfresh.none o ho),
        fun o ho ht => absurd ht (hfresh.none o ho), ?_⟩
      rw [hself, held_none hfresh.none, hfresh.lost]
      rfl
    · rw [Function.update_of_ne heq]
      refine (h.heap u).imp (fun hn => ⟨(hother u heq).trans hn.info, hn.list, hn.none, hn.lost⟩) fun hok => ?_
      refine hok.congr (hother u heq) ?_ ?_ (fun o ho _ => ho) rfl
      · intro y hy
        have hin := hok.free.inside.mem hy
        refine hkeep y ?_
        rcases hout u heq with hr | hr <;> omega
      · intro o ho hou y hle hlt
        have hfit := (hok.area o ho hou).fit
        exact hregion o ho y hle (by omega)
  · by_cases ht : t' = t
    · rw [ht] at hne ⊢
      have hu := hout u (Ne.symm hne)
      rw [RegionsApart, hself, hother u (Ne.symm hne)]
      exact Or.symm hu
    · by_cases hu : u = t
      · have ht' := hout t' ht
        rw [RegionsApart, hu, hself, hother t' ht]
        exact ht'
      · rw [RegionsApart, hother t' ht, hother u hu]
        exact h.regions t' u hne
  · intro o ho y hle hlt
    have hx := (h.heapOk ho).area o ho rfl
    have hxlow := hx.low
    have hfit := hx.fit
    exact (hregion o ho y (by omega) (by omega)).trans (h.stored o ho y hle hlt)

end WorldOk

/-! ## The calls -/

def never {σ : Type} : Stop → σ → Prop := fun _ _ => False

@[simp] theorem wp_route {Q : HeapType → Heaps → Prop} : wp (route t) Q E s ↔ Q (routeOf s t) s := Iff.rfl

theorem WorldOk.maxSize_lt (h : WorldOk w fl lost) (t : HeapType) :
    (w.heaps.heapInfo t).maxSize < 2 ^ 64 ∧ ∀ b ∈ fl t, b.2 ≤ (w.heaps.heapInfo t).maxSize := by
  rcases h.heap t with hnone | hok
  · rw [hnone.info, hnone.list]
    exact ⟨by decide, fun b hb => absurd hb List.not_mem_nil⟩
  · have hmax := hok.free.maxSize_lt
    exact ⟨by omega, fun b hb => Nat.le_trans (le_total hb) hok.free.total_le⟩

theorem WorldOk.wp_malloc (h : WorldOk w fl lost) (t : HeapType) (size : Nat) :
    wp (tegrablGenericMalloc t size) (fun p s' => Given t w.heaps (fl t) 1 size p s' ∧ p % 1 = 0) E w.heaps := by
  rcases h.heap t with hnone | hok
  · have hno : size = 0 ∨ noHeap.freeSize < size := Nat.eq_zero_or_pos size
    rw [tegrablGenericMalloc, wp_bind, wp_info, hnone.info, if_pos hno, hnone.list]
    exact ⟨Or.inl ⟨rfl, rfl, Or.inr fun b hb => absurd hb List.not_mem_nil⟩, rfl⟩
  · exact wp_conseq (wp_genericMalloc hok.free hok.apart) fun p s' hp => ⟨hp, Nat.mod_one p⟩

theorem WorldOk.wp_memalign (h : WorldOk w fl lost) (t : HeapType) (hal : 0 < al) (hlt : al < 2 ^ 64)
    (hsize : size < 2 ^ 64) :
    wp (memalignIn t al size) (fun p s' => Given t w.heaps (fl t) al size p s' ∧ p % al = 0) E w.heaps := by
  rcases h.heap t with hnone | hok
  · have hno : ¬noHeap.isSizeAlignmentValid al size = true :=
      fun hvalid => Nat.not_le.mpr hal (of_decide_eq_true hvalid).2.1
    rw [memalignIn, wp_bind, wp_info, hnone.info, if_neg hno, hnone.list]
    exact ⟨Or.inl ⟨rfl, rfl, Or.inr fun b hb => absurd hb List.not_mem_nil⟩, Nat.zero_mod al⟩
  · exact wp_memalignIn hok.free hok.apart hal hlt hsize

/-- The caller's bytes of a new area are changed. -/
theorem Gives.fill (hg : Gives t s s' l l' x k) (hd : ∀ y, y < x.ptr ∨ x.ptr + x.len ≤ y → d y = s'.mem y) :
    Gives t s (s'.withMem d) l l' x k := by
  have hlow := hg.area.low
  have hfit := hg.area.fit
  have hin : ∀ y, Outside [x.mid] y ∨ ¬Outside l' y → d y = s'.mem y := by
    intro y hy
    refine hd y (Decidable.byContradiction fun hno => ?_)
    have hnot : ¬Outside [x.mid] y := fun hout => by
      have hmid : y < x.block ∨ x.block + x.size ≤ y := hout x.mid List.mem_cons_self
      omega
    exact hy.elim hnot fun hl => hl (hg.out y hnot)
  refine { hg with list := hg.list.congr rfl ?_, frame := hg.frame.trans ⟨?_, fun _ _ => rfl, rfl, rfl, rfl⟩, area := ?_ }
  · intro b hb y hle hlt
    refine hin y (Or.inr fun hout => ?_)
    have hlarge := (hg.list.spaced.large b hb).2
    have hb := hout b hb
    omega
  · exact fun y hy => hin y (Or.inl (hg.from_list y hy).1)
  · exact hg.area.congr fun y _ hlt => hd y (Or.inl hlt)

/-- The area of `tegrabl_calloc` is zero. -/
theorem WorldOk.wp_calloc (h : WorldOk w fl lost) (nmemb size : Nat) :
    wp (tegrablCalloc nmemb size) (fun p s' => Given .default w.heaps (fl .default) 1 (size * nmemb) p s' ∧
      (p ≠ 0 → ∀ y, p ≤ y → y < p + size * nmemb → s'.mem y = 0)) E w.heaps := by
  have hmax := h.maxSize_lt .default
  rw [tegrablCalloc, wp_bind, wp_info]
  split
  next hzero =>
    refine ⟨Or.inl ⟨rfl, rfl, Or.inl ?_⟩, fun hp => absurd rfl hp⟩
    rw [hzero, Nat.zero_mul]
  next hsize =>
    have hpos := Nat.pos_of_ne_zero hsize
    split
    next hmany =>
      refine ⟨Or.inl ⟨rfl, rfl, Or.inr fun b hb => ?_⟩, fun hp => absurd rfl hp⟩
      have hb := hmax.2 b hb
      have hlt := (Nat.div_lt_iff_lt_mul hpos).mp hmany
      rw [Nat.mul_comm] at hlt
      omega
    next hfew =>
      have hle : size * nmemb ≤ (w.heaps.heapInfo .default).maxSize := by
        rw [Nat.mul_comm]
        exact (Nat.le_div_iff_mul_le hpos).mp (Nat.not_lt.mp hfew)
      have hw : w64 (size * nmemb) = size * nmemb := w64_of_lt (by omega)
      rw [hw]
      refine wp_assert_then (Nat.mul_div_cancel_left nmemb hpos) ?_
      refine wp_seq (h.wp_malloc .default (size * nmemb)) ?_
      rintro p s' ⟨⟨rfl, rfl, hno⟩ | ⟨l', x, k, rfl, hlen, hk, hg⟩, -⟩
      · rw [clear, if_pos rfl]
        exact ⟨Or.inl ⟨rfl, rfl, hno⟩, fun hp => absurd rfl hp⟩
      · have hne : x.ptr ≠ 0 := by
          have hlow := hg.area.low
          unfold allocHeader at hlow
          omega
        have hlen' : (List.replicate (size * nmemb) (0 : UInt8)).length = x.len := by
          rw [List.length_replicate, hlen]
        rw [clear, if_neg hne]
        refine ⟨Or.inr ⟨l', x, k, rfl, hlen, hk, hg.fill fun y hy => ?_⟩, fun _ y hle hlt => ?_⟩
        · rcases hy with hy | hy
          · exact patch_of_lt hy
          · exact patch_of_ge (by rwa [hlen'])
        · obtain ⟨i, rfl⟩ := Nat.exists_eq_add_of_le hle
          have hi : i < (List.replicate (size * nmemb) (0 : UInt8)).length := by
            rw [List.length_replicate]
            omega
          exact (patch_add hi).trans (List.getElem_replicate hi)

/-- Bytes are lost only if `P` holds. -/
def Kept (P : Prop) (lost : HeapType → Nat) (w : World) : Prop :=
  ∃ fl' lost', WorldOk w fl' lost' ∧ (lost' = lost ∨ P)

theorem WorldOk.kept {P : Prop} (h : WorldOk w fl lost) : Kept P lost w := ⟨fl, lost, h, Or.inl rfl⟩

theorem WorldOk.kept_gain (h : WorldOk w fl lost) (hg : Gives t w.heaps s' (fl t) l' x k)
    (hk : k = 0 ∨ (w.heaps.heapInfo t).Loses (fl t) al x.len) (hal : x.ptr % al = 0)
    (hd : ∀ y, x.ptr ≤ y → y < x.ptr + x.len → s'.mem y = d y) :
    Kept ((w.heaps.heapInfo t).Loses (w.heaps.free t) al x.len) lost
      (({ w with heaps := s' } : World).gain t q x.ptr x.len al d) := by
  refine ⟨_, _, h.gain hg hal hd, ?_⟩
  rw [h.free_eq t]
  refine hk.imp_left fun hz => ?_
  rw [hz, Nat.add_zero, Function.update_eq_self]

theorem wp_gainBy {m : HeapM Nat} (h : WorldOk w fl lost)
    (hm : wp m (fun p s' => Given t w.heaps (fl t) al len p s' ∧ p % al = 0) never w.heaps) :
    wp (gainBy m t q len al) (fun _ => Kept ((w.heaps.heapInfo t).Loses (w.heaps.free t) al len) lost) never w := by
  rw [gainBy, wp_bind, onHeaps, wp_zoom]
  refine wp_conseq hm ?_
  rintro p s' ⟨⟨rfl, rfl, -⟩ | ⟨l', x, k, rfl, rfl, hk, hg⟩, hal⟩
  · rw [wp_modify, World.gain, if_pos rfl]
    exact h.kept
  · exact h.kept_gain hg hk hal fun _ _ _ => rfl

theorem wp_loseBy {P : Prop} (h : WorldOk w fl lost) (ho : o ∈ w.owned) (hr : routeOf w.heaps t = o.heap) :
    wp (loseBy (tegrablDealloc t o.area.ptr) o) (fun _ => Kept P lost) never w := by
  have hok := h.heapOk ho
  have hx := hok.held_area ho rfl
  have hne : o.area.ptr ≠ 0 := by
    have hlow := hx.area.low
    unfold allocHeader at hlow
    omega
  rw [loseBy, wp_bind, onHeaps, wp_zoom, tegrablDealloc, wp_bind, wp_route, hr, tegrablGenericFree, if_neg hne]
  refine wp_conseq (wp_freeBlock hok.free hok.apart hx) ?_
  rintro - s' ⟨l', hk⟩
  exact (h.lose ho hk).kept

def initMem (d : Nat → UInt8) (start size : Nat) : Nat → UInt8 :=
  setWord (setWord (setWord (setWord d 8 (start + 16) 0) 8 (start + 24) 0) 8 (start + 8) size) 4 start freeMagic

theorem freeAt_initMem (hhigh : start + size < 2 ^ 64) : FreeAt (initMem d start size) (start, size) 0 0 where
  magic := word_setWord (by decide)
  size := (word_setWord_apart (by omega)).trans (word_setWord (by omega))
  prev := by
    refine (word_setWord_apart (by omega)).trans ((word_setWord_apart (by omega)).trans ?_)
    exact (word_setWord_apart (by omega)).trans (word_setWord (by decide))
  next := by
    refine (word_setWord_apart (by omega)).trans ((word_setWord_apart (by omega)).trans ?_)
    exact word_setWord (by decide)

theorem initMem_outside (hsize : minSize ≤ size) (hy : y < start ∨ start + size ≤ y) : initMem d start size y = d y := by
  unfold minSize at hsize
  rw [initMem, setWord_outside (by omega), setWord_outside (by omega), setWord_outside (by omega),
    setWord_outside (by omega)]

theorem wp_initHeap {R : Unit → Heaps → Prop} (hhigh : start + size < 2 ^ 64)
    (hR : R () ((s.withInfo t ⟨size, size, start, start + size, start⟩).withMem (initMem s.mem start size))) :
    wp (initHeap t start size) R E s := by
  have hend : w64 (start + size) = start + size := w64_of_lt hhigh
  simp only [initHeap, wp_bind, wp_setPrev, wp_setNext, wp_setSize, wp_setMagic, withMem_mem, withMem_withMem,
    wp_modifyInfo, hend, withInfo_withMem]
  exact hR

theorem wp_init (h : WorldOk w fl lost) (hen : (Call.init t start size).Enabled w) :
    wp (Call.init t start size).run (fun _ => Kept False lost) never w := by
  obtain ⟨hnone, hlow, hhigh, hout⟩ := hen
  rw [Call.run, wp_bind, onHeaps, wp_zoom, tegrablHeapInit, wp_bind, wp_info, hnone]
  by_cases hsize : size < minSize
  · rw [if_pos hsize]
    exact h.kept
  · have hsize' := Nat.not_lt.mp hsize
    have hlist : ¬noHeap.freeList ≠ 0 := fun hne => hne rfl
    rw [if_neg hsize, if_neg hlist, wp_bind]
    refine wp_initHeap hhigh ?_
    exact (h.make hnone hlow hhigh hsize' hout (freeAt_initMem hhigh) fun y => initMem_outside hsize').kept

/-- With a small alignment the gap is no block. -/
theorem loses_one (t : HeapType) : ¬(w.heaps.heapInfo t).Loses (w.heaps.free t) 1 len := by
  rintro ⟨-, -, h⟩
  rw [loses, Option.any_eq_true] at h
  obtain ⟨b, -, hb⟩ := h
  have hgap := alignGap_le Nat.one_pos (by decide) b.1
  have hlarge := (of_decide_eq_true hb).1
  unfold minSize at hlarge
  omega

/-- An area of zeros was given, or none. -/
theorem wp_callocBy (h : WorldOk w fl lost) (nmemb size : Nat) :
    wp (Call.calloc nmemb size).run (fun _ => Kept False lost) never w := by
  rw [Call.run, wp_bind, onHeaps, wp_zoom]
  refine wp_conseq (h.wp_calloc nmemb size) ?_
  rintro p s' ⟨⟨rfl, rfl, -⟩ | ⟨l', x, k, rfl, hlen, hk, hg⟩, hzero⟩
  · rw [wp_modify, World.gain, if_pos rfl]
    exact h.kept
  · have hne : x.ptr ≠ 0 := by
      have hlow := hg.area.low
      unfold allocHeader at hlow
      omega
    rw [← hlen] at hk hzero ⊢
    obtain ⟨fl', lost', hok, hl⟩ := h.kept_gain (q := .default) hg hk (Nat.mod_one x.ptr) (hzero hne)
    exact ⟨fl', lost', hok, hl.imp_right (loses_one .default)⟩

/-- A call for the heap that `route` finds -/
theorem wp_routed {m : HeapType → HeapM Nat} (h : WorldOk w fl lost)
    (hm : ∀ u, wp (m u) (fun p s' => Given u w.heaps (fl u) al len p s' ∧ p % al = 0) never w.heaps) :
    wp (do let u ← onHeaps (route t); gainBy (do let u ← route t; m u) u t len al)
      (fun _ => Kept ((w.heaps.heapInfo (routeOf w.heaps t)).Loses (w.heaps.free (routeOf w.heaps t)) al len) lost)
      never w := by
  rw [wp_bind, onHeaps, wp_zoom, wp_route]
  refine wp_gainBy h ?_
  rw [wp_bind, wp_route]
  exact hm (routeOf w.heaps t)

theorem Kept.never {P : Prop} (h : Kept P lost w) (hno : ¬P) : Kept False lost w := by
  obtain ⟨fl', lost', hok, hl⟩ := h
  exact ⟨fl', lost', hok, Or.inl (hl.resolve_right hno)⟩

/-- Every call keeps the invariant, and returns if it looks in the heap that the area is from. -/
theorem WorldOk.step {c : Call} (h : WorldOk w fl lost) (hen : c.Enabled w) (hr : Routed w c) :
    wp c.run (fun _ => Kept (c.Loses w) lost) never w := by
  cases c with
  | init t start size => exact wp_init h hen
  | malloc size =>
      refine wp_conseq (wp_gainBy h (h.wp_malloc .default size)) fun _ w' hk => ?_
      exact hk.never (loses_one .default)
  | alloc t size =>
      refine wp_conseq (wp_routed h fun u => h.wp_malloc u size) fun _ w' hk => ?_
      exact hk.never (loses_one _)
  | calloc nmemb size => exact wp_callocBy h nmemb size
  | memalign alignment size => exact wp_gainBy h (h.wp_memalign .default hen.1 hen.2.1 hen.2.2)
  | allocAlign t alignment size => exact wp_routed h fun u => h.wp_memalign u hen.1 hen.2.1 hen.2.2
  | free o => exact wp_loseBy h hen hr
  | dealloc t o => exact wp_loseBy h hen hr
  | store o off v => exact (h.put hen.1 hen.2).kept

/-! ## Runs -/

/-! ## Runs -/

theorem ok_init (d : Nat → UInt8) : WorldOk (clients d).init (fun _ => []) fun _ => 0 where
  heap _ := Or.inl ⟨rfl, rfl, fun _ ho => absurd ho List.not_mem_nil, rfl⟩
  regions _ _ _ := Or.inl (Nat.le_refl 0)
  apart := List.Pairwise.nil
  stored _ ho := absurd ho List.not_mem_nil
  aligned _ ho := absurd ho List.not_mem_nil

theorem returns_step {c : Call} (h : WorldOk w fl lost) (hen : c.Enabled w) (hr : Routed w c) :
    returns (c.run w) = true := by
  obtain ⟨_, _, hrun, -⟩ := wp_total (h.step hen hr)
  rw [hrun]
  rfl

theorem ok_of_reachable (h : (clients d).Reachable Routed w) : ∃ fl lost, WorldOk w fl lost := by
  refine Machine.invariant (I := fun w => ∃ fl lost, WorldOk w fl lost) (E := fun _ _ => never) ⟨_, _, ok_init d⟩ ?_ h
  rintro w c ⟨fl, lost, hw⟩ hen hr
  refine wp_conseq (hw.step hen hr) ?_
  rintro - w' ⟨fl', lost', hw', -⟩
  exact ⟨fl', lost', hw'⟩

/-- Nothing is lost in a run whose calls lose nothing. -/
theorem tight_of_reachable (h : (clients d).Reachable (fun w c => Routed w c ∧ ¬c.Loses w) w) :
    ∃ fl, WorldOk w fl fun _ => 0 := by
  refine Machine.invariant (I := fun w => ∃ fl, WorldOk w fl fun _ => 0) (E := fun _ _ => never) ⟨_, ok_init d⟩ ?_ h
  rintro w c ⟨fl, hw⟩ hen ⟨hr, hno⟩
  refine wp_conseq (hw.step hen hr) ?_
  rintro - w' ⟨fl', lost', hw', hl⟩
  rw [hl.resolve_right hno] at hw'
  exact ⟨fl', hw'⟩

/-! ## A heap that has lost nothing -/

theorem total_eq_sum (l : List Block) : total l = (l.map Prod.snd).sum := by
  induction l with
  | nil => rfl
  | cons b l ih => rw [total, ih, List.map_cons, List.sum_cons]

/-- The blocks that the clients hold -/
def heldBlocks (t : HeapType) (owned : List Owned) : List Block :=
  (owned.filter fun o => decide (o.heap = t)).map fun o => o.area.mid

theorem mem_heldBlocks : b ∈ heldBlocks t owned ↔ ∃ o ∈ owned, o.heap = t ∧ o.area.mid = b := by
  simp only [heldBlocks, List.mem_map, List.mem_filter, decide_eq_true_eq, and_assoc]

theorem held_eq_sum (t : HeapType) (owned : List Owned) : held t owned = ((heldBlocks t owned).map Prod.snd).sum := by
  unfold heldBlocks
  induction owned with
  | nil => rfl
  | cons o owned ih =>
      by_cases heq : o.heap = t
      · rw [held, if_pos heq, List.filter_cons, if_pos (decide_eq_true heq), List.map_cons, List.map_cons,
          List.sum_cons, ih]
        rfl
      · rw [held, if_neg heq, Nat.zero_add, List.filter_cons, if_neg (by simpa using heq), ih]

namespace HeapOk

theorem blocks_apart (h : HeapOk t s l owned k) (hap : owned.Pairwise Owned.Apart) :
    (l ++ heldBlocks t owned).Pairwise Range.Apart := by
  refine List.pairwise_append.mpr ⟨h.apart.imp fun hlt => Or.inl (Nat.le_of_lt hlt), ?_, ?_⟩
  · exact List.pairwise_map.mpr (hap.filter _)
  · intro b hb c hc
    obtain ⟨o, ho, ht, rfl⟩ := mem_heldBlocks.mp hc
    have hout : ∀ y, o.area.block ≤ y → y < o.area.block + o.area.size → y < b.1 ∨ b.1 + b.2 ≤ y :=
      fun y hle hlt => h.out o ho ht y hle hlt b hb
    have hlarge := (h.area o ho ht).large
    have hblarge := (h.free.spaced.large b hb).2
    unfold minSize at hlarge hblarge
    have hfirst := hout o.area.block (Nat.le_refl _) (by omega)
    have hother := hout b.1
    show b.1 + b.2 ≤ o.area.block ∨ o.area.block + o.area.size ≤ b.1
    omega

theorem blocks_inside (h : HeapOk t s l owned k) :
    ∀ b ∈ l ++ heldBlocks t owned, (s.heapInfo t).start ≤ b.1 ∧ b.1 + b.2 ≤ (s.heapInfo t).stop := by
  intro b hb
  rcases List.mem_append.mp hb with hb | hb
  · exact h.free.inside b hb
  · obtain ⟨o, ho, ht, rfl⟩ := mem_heldBlocks.mp hb
    exact h.inside o ho ht

/-- The free blocks and those of the clients cover the heap. -/
theorem covered (h : HeapOk t s l owned 0) (hap : owned.Pairwise Owned.Apart) (y : Nat) :
    (∃ b ∈ l ++ heldBlocks t owned, Range.Contains b y) ↔ (s.heapInfo t).start ≤ y ∧ y < (s.heapInfo t).stop := by
  refine covered_of_sum (h.blocks_apart hap) h.blocks_inside ?_
  have haccount := h.account
  rw [List.map_append, List.sum_append, ← total_eq_sum, ← held_eq_sum, h.free.room]
  omega

/-- A heap of which nothing is held is one block. -/
theorem whole (h : HeapOk t s l owned 0) (hnone : ∀ o ∈ owned, o.heap ≠ t) (hpos : 0 < (s.heapInfo t).maxSize) :
    l = [((s.heapInfo t).start, (s.heapInfo t).maxSize)] := by
  have haccount := h.account
  have hin := h.free.inside
  have hroom := h.free.room
  have hspaced := h.free.spaced
  have hap := h.apart
  rw [held_none hnone] at haccount
  cases l with
  | nil =>
      rw [total] at haccount
      omega
  | cons b l =>
      have hb := hin b List.mem_cons_self
      rw [total] at haccount
      cases l with
      | nil =>
          rw [total] at haccount
          have hstart : b.1 = (s.heapInfo t).start := by omega
          have hsize : b.2 = (s.heapInfo t).maxSize := by omega
          rw [← hstart, ← hsize]
      | cons c l =>
          have hbc := (List.pairwise_cons.mp hap).1 c List.mem_cons_self
          have hrest : Spaced (c :: l) := (show Spaced ([b] ++ c :: l) from hspaced).of_append.2
          have hc := hin c (List.mem_cons_of_mem b List.mem_cons_self)
          have hbehind : Inside (c :: l) c.1 (s.heapInfo t).stop := by
            intro b' hb'
            have hstop := (hin b' (List.mem_cons_of_mem b hb')).2
            rcases List.mem_cons.mp hb' with rfl | hmem
            · exact ⟨Nat.le_refl _, hstop⟩
            · have hlt := (List.pairwise_cons.mp hrest.sorted).1 b' hmem
              exact ⟨by omega, hstop⟩
          have hle := hrest.total_le hbehind (by omega)
          omega

end HeapOk

/-- What is to hold of a heap -/
structure World.Sound (w : World) (t : HeapType) : Prop where
  linked : Chain w.heaps.mem 0 (w.heaps.free t) 0
  head : (w.heaps.heapInfo t).freeList = first (w.heaps.free t) 0
  /-- In the order of their addresses, and no two blocks touch. -/
  apart : Apart (w.heaps.free t)
  size : (w.heaps.heapInfo t).freeSize = total (w.heaps.free t)
  disjoint : (w.heaps.free t ++ heldBlocks t w.owned).Pairwise Range.Apart
  tiled : ∀ y, (∃ b ∈ w.heaps.free t ++ heldBlocks t w.owned, Range.Contains b y) ↔
    (w.heaps.heapInfo t).start ≤ y ∧ y < (w.heaps.heapInfo t).stop
  areas : ∀ o ∈ w.owned, o.heap = t → o.area.block + allocHeader ≤ o.area.ptr ∧
    o.area.ptr + o.area.len ≤ o.area.block + o.area.size ∧ o.area.ptr % o.align = 0
  kept : ∀ o ∈ w.owned, o.heap = t → ∀ y, o.area.ptr ≤ y → y < o.area.ptr + o.area.len → w.heaps.mem y = w.stored y
  whole : (∀ o ∈ w.owned, o.heap ≠ t) →
    w.heaps.free t = [((w.heaps.heapInfo t).start, (w.heaps.heapInfo t).maxSize)]

theorem WorldOk.sound (h : WorldOk w fl fun _ => 0) (hmade : (w.heaps.heapInfo t).maxSize ≠ 0) : w.Sound t := by
  have hok : HeapOk t w.heaps (w.heaps.free t) w.owned 0 := by
    rw [h.free_eq t]
    refine (h.heap t).resolve_left fun hnone => hmade ?_
    rw [hnone.info]
    rfl
  exact
    { linked := hok.free.chain
      head := hok.free.head
      apart := hok.apart
      size := hok.free.size
      disjoint := hok.blocks_apart h.apart
      tiled := hok.covered h.apart
      areas := fun o ho ht => ⟨(hok.area o ho ht).low, (hok.area o ho ht).fit, h.aligned o ho⟩
      kept := fun o ho _ => h.stored o ho
      whole := fun hnone => hok.whole hnone (Nat.pos_of_ne_zero hmade) }

/-- In a run in which each area goes back to its heap and no call for an aligned area loses bytes, every
heap is sound, and no call stops. -/
theorem heaps_sound (h : (clients d).Reachable (fun w c => Routed w c ∧ ¬c.Loses w) w) :
    (∀ t, (w.heaps.heapInfo t).maxSize ≠ 0 → w.Sound t) ∧
      ∀ c : Call, c.Enabled w → Routed w c → returns (c.run w) = true := by
  obtain ⟨fl, hw⟩ := tight_of_reachable h
  exact ⟨fun t hmade => hw.sound hmade, fun c hen hr => returns_step hw hen hr⟩

/-- The state after some calls, from memory that is zero -/
def World.after (calls : List Call) : World :=
  calls.foldl (fun w c => stateOf (c.run w)) (clients fun _ => 0).init

theorem enabled_init (hlow : minSize ≤ start) (hhigh : start + size < 2 ^ 64) :
    (Call.init t start size).Enabled (clients d).init :=
  ⟨rfl, hlow, hhigh, fun _ _ => Or.inl (Nat.zero_le _)⟩

theorem reachable_init (ok : World → Call → Prop) (d : Nat → UInt8) : (clients d).Reachable ok (clients d).init :=
  Machine.Reachable.init

theorem reachable_call {ok : World → Call → Prop} (h : (clients d).Reachable ok w) (c : Call) (hen : c.Enabled w)
    (hok : ok w c) (hret : returns (c.run w) = true) : (clients d).Reachable ok (stateOf (c.run w)) :=
  Machine.Reachable.step h hen hok hret

/-- An area of 100 bytes, then one at a multiple of 64; then the first one is given back. -/
def alignsAndFrees : List Call :=
  [.init .default 4096 1024, .malloc 100, .memalign 64 40, .free ⟨.default, .default, ⟨4096, 128, 4120, 100⟩, 1⟩]

theorem heaps_sound_frees : (World.after alignsAndFrees).Sound .default := by
  have h1 := reachable_call (reachable_init (fun w c => Routed w c ∧ ¬c.Loses w) fun _ => 0)
    (.init .default 4096 1024) (enabled_init (by decide) (by decide)) ⟨trivial, not_false⟩ (by decide +kernel)
  have h2 := reachable_call h1 (.malloc 100) (by decide : 100 < 2 ^ 64) ⟨trivial, not_false⟩ (by decide +kernel)
  have h3 := reachable_call h2 (.memalign 64 40) (by decide : 0 < 64 ∧ 64 < 2 ^ 64 ∧ 40 < 2 ^ 64)
    ⟨trivial, by unfold Call.Loses; decide +kernel⟩ (by decide +kernel)
  have h4 := reachable_call h3 (.free ⟨.default, .default, ⟨4096, 128, 4120, 100⟩, 1⟩)
    (by unfold Call.Enabled; decide +kernel) ⟨by unfold Routed; decide +kernel, not_false⟩ (by decide +kernel)
  exact (heaps_sound h4).1 .default (by decide +kernel)

/-- The area of 40 bytes at a multiple of 64 leaves 8 bytes behind it, and these are lost. -/
def alignsInAll : List Call :=
  [.init .default 4096 112, .memalign 64 40, .free ⟨.default, .default, ⟨4136, 64, 4160, 40⟩, 64⟩]

theorem reachable_alignsInAll : (clients fun _ => 0).Reachable Routed (World.after alignsInAll) := by
  have h1 := reachable_call (reachable_init Routed fun _ => 0)
    (.init .default 4096 112) (enabled_init (by decide) (by decide)) trivial (by decide +kernel)
  have h2 := reachable_call h1 (.memalign 64 40) (by decide : 0 < 64 ∧ 64 < 2 ^ 64 ∧ 40 < 2 ^ 64) trivial
    (by decide +kernel)
  exact reachable_call h2 (.free ⟨.default, .default, ⟨4136, 64, 4160, 40⟩, 64⟩)
    (by unfold Call.Enabled; decide +kernel) (by unfold Routed; decide +kernel) (by decide +kernel)

theorem memalign_loses :
    ¬∀ d w, (clients d).Reachable Routed w → ∀ t, (w.heaps.heapInfo t).maxSize ≠ 0 → w.Sound t := by
  intro hall
  have hnone : (World.after alignsInAll).owned = [] := by decide +kernel
  have hfree : (World.after alignsInAll).heaps.free .default = [(4096, 104)] := by decide +kernel
  have hmax : ((World.after alignsInAll).heaps.heapInfo .default).maxSize = 112 := by decide +kernel
  have hsound : (World.after alignsInAll).Sound .default :=
    hall _ _ reachable_alignsInAll .default (by rw [hmax]; decide)
  have hwhole := hsound.whole fun o ho => absurd (hnone ▸ ho) List.not_mem_nil
  rw [hfree, hmax] at hwhole
  have hsize : 104 + 0 = 112 + 0 := congrArg total hwhole
  exact absurd hsize (by decide)

/-! ## A heap that may have lost bytes -/

/-- What a client may rely on -/
structure World.Holds (w : World) (o : Owned) : Prop where
  low : (w.heaps.heapInfo o.heap).start + allocHeader ≤ o.area.ptr
  high : o.area.ptr + o.area.len ≤ (w.heaps.heapInfo o.heap).stop
  aligned : o.area.ptr % o.align = 0
  kept : ∀ y, o.area.ptr ≤ y → y < o.area.ptr + o.area.len → w.heaps.mem y = w.stored y

theorem WorldOk.holds (h : WorldOk w fl lost) (ho : o ∈ w.owned) : w.Holds o := by
  have hok := h.heapOk ho
  have hx := hok.area o ho rfl
  have hin := hok.inside o ho rfl
  have hlow := hx.low
  have hfit := hx.fit
  exact ⟨by omega, by omega, h.aligned o ho, h.stored o ho⟩

theorem WorldOk.account_le (h : WorldOk w fl lost) (t : HeapType) :
    (w.heaps.heapInfo t).freeSize = total (w.heaps.free t) ∧
      total (w.heaps.free t) + held t w.owned ≤ (w.heaps.heapInfo t).maxSize := by
  rw [h.free_eq t]
  rcases h.heap t with hnone | hok
  · rw [hnone.info, hnone.list, held_none hnone.none]
    exact ⟨rfl, Nat.le_refl 0⟩
  · have haccount := hok.account
    exact ⟨hok.free.size, by omega⟩

/-- Lost bytes do no harm to those who hold areas: no call stops, and no area is touched by another one or
by the heap. -/
theorem areas_safe (h : (clients d).Reachable Routed w) :
    (∀ c : Call, c.Enabled w → Routed w c → returns (c.run w) = true) ∧ (∀ o ∈ w.owned, w.Holds o) ∧
      w.owned.Pairwise Owned.Apart ∧ ∀ t, (w.heaps.heapInfo t).freeSize = total (w.heaps.free t) ∧
        total (w.heaps.free t) + held t w.owned ≤ (w.heaps.heapInfo t).maxSize := by
  obtain ⟨fl, lost, hw⟩ := ok_of_reachable h
  exact ⟨fun c hen hr => returns_step hw hen hr, fun o ho => hw.holds ho, hw.apart, hw.account_le⟩

/-- After 8 bytes were lost -/
theorem areas_safe_alignsInAll : returns ((Call.memalign 64 40).run (World.after alignsInAll)) = true :=
  (areas_safe reachable_alignsInAll).1 (.memalign 64 40) (by decide : 0 < 64 ∧ 64 < 2 ^ 64 ∧ 40 < 2 ^ 64) trivial

end TX2SecureUart.Malloc
