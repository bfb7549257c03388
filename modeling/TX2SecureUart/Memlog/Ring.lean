/-
# `Memlog.Ring` — the shared log

`memlog.c` writes the console output into a ring that it shares with the non-secure side.
`alloc` is advanced before the bytes of a chunk are stored, and `put` after that, so a
reader that looks at any time knows which cells it can trust.

What another processor can see are the single stores, so a write is the list of them.
-/
import TX2SecureUart.Lib.RingWindow

namespace TX2SecureUart.Memlog

open RingWindow

/-- `struct log_rb`, without `sz`, which is not looked at again -/
structure LogRb where
  alloc : UInt32
  put : UInt32
  data : Nat → UInt8

inductive Store where
  /-- `rb->alloc += len` -/
  | alloc (len : Nat)
  /-- `*ptr = ch` with `ptr` at `data[offset]` -/
  | byte (offset : UInt32) (ch : UInt8)
  /-- `rb->put += len` -/
  | put (len : Nat)

def LogRb.store (rb : LogRb) : Store → LogRb
  | .alloc len => { rb with alloc := rb.alloc + UInt32.ofNat len }
  | .byte offset ch => { rb with data := Function.update rb.data offset.toNat ch }
  | .put len => { rb with put := rb.put + UInt32.ofNat len }

/-- What is seen after some stores. -/
def LogRb.after (rb : LogRb) (stores : List Store) : LogRb := stores.foldl LogRb.store rb

/-- `lower_pow2`; the argument is not 0. -/
def lowerPow2 (v : UInt32) : UInt32 := UInt32.ofNat (2 ^ Nat.log2 v.toNat)

/-- `offsetof(struct log_rb, data)` -/
def offsetofData : UInt64 := 12

/-- `rb_sz`, for a buffer of the given size -/
def rbSize (bufSz : UInt64) : UInt64 := (lowerPow2 (bufSz - offsetofData).toUInt32).toUInt64

variable (rbSz : UInt64)

/-- The offset of the `i`-th byte of a chunk. -/
def offsetOf (logOffset : UInt32) (i : Nat) : UInt32 :=
  ((logOffset.toUInt64 + UInt64.ofNat i) &&& (rbSz - 1)).toUInt32

/-- The stores of the loop of `__memlog_write`, from the `i`-th byte on. -/
def byteStores (logOffset : UInt32) : Nat → List UInt8 → List Store
  | _, [] => []
  | i, ch :: str => .byte (offsetOf rbSz logOffset i) ch :: byteStores logOffset (i + 1) str

/-- `__memlog_write` -/
def memlogWriteChunk (rb : LogRb) (str : List UInt8) : List Store :=
  .alloc str.length :: (byteStores rbSz rb.alloc 0 str ++ [.put str.length])

/-- `chunk_size` -/
def chunkSize : Nat := 128

/-- What `memlog_write` gives to `__memlog_write`. -/
def chunks (str : List UInt8) : List (List UInt8) :=
  (List.range (str.length / chunkSize)).map (fun i => (str.drop (i * chunkSize)).take chunkSize) ++
    if str.length - str.length / chunkSize * chunkSize ≠ 0 then
      [str.drop (str.length / chunkSize * chunkSize)]
    else []

def writeChunks : LogRb → List (List UInt8) → List Store
  | _, [] => []
  | rb, str :: strs =>
      memlogWriteChunk rbSz rb str ++ writeChunks (rb.after (memlogWriteChunk rbSz rb str)) strs

/-- `memlog_write` -/
def memlogWrite (rb : LogRb) (str : List UInt8) : List Store := writeChunks rbSz rb (chunks str)

/-- A run: one `memlog_write` after the other. -/
def memlogWrites : LogRb → List (List UInt8) → List Store
  | _, [] => []
  | rb, str :: strs =>
      memlogWrite rbSz rb str ++ memlogWrites (rb.after (memlogWrite rbSz rb str)) strs

/-! ## Positions in the stream -/

/-- How far the stream is announced, and how far it is published. -/
def allocated (stores : List Store) : Nat :=
  (stores.map fun
    | .alloc len => len
    | _ => 0).sum

def published (stores : List Store) : Nat :=
  (stores.map fun
    | .put len => len
    | _ => 0).sum

@[simp] theorem allocated_append (xs ys : List Store) :
    allocated (xs ++ ys) = allocated xs + allocated ys := by
  simp [allocated]

@[simp] theorem published_append (xs ys : List Store) :
    published (xs ++ ys) = published xs + published ys := by
  simp [published]

@[simp] theorem LogRb.after_append (rb : LogRb) (xs ys : List Store) :
    rb.after (xs ++ ys) = (rb.after xs).after ys :=
  List.foldl_append

@[simp] theorem LogRb.after_cons (rb : LogRb) (st : Store) (stores : List Store) :
    rb.after (st :: stores) = (rb.store st).after stores := rfl

/-! ## The ring size -/

theorem lowerPow2_toNat {v : UInt32} (hv : v ≠ 0) : (lowerPow2 v).toNat = 2 ^ Nat.log2 v.toNat := by
  have hlt : Nat.log2 v.toNat < 32 := by
    rw [Nat.log2_lt]
    · exact UInt32.toNat_lt v
    · intro h
      exact hv (UInt32.toNat_inj.mp h)
  rw [lowerPow2, UInt32.toNat_ofNat_of_lt']
  exact Nat.pow_lt_pow_right (by decide) hlt

/-- The ring size is a power of two of 32 bits, whenever `__builtin_clz` is defined. -/
theorem rbSize_eq {bufSz : UInt64} (h : (bufSz - offsetofData).toUInt32 ≠ 0) :
    ∃ k ≤ 32, (rbSize bufSz).toNat = 2 ^ k := by
  refine ⟨_, ?_, (UInt32.toNat_toUInt64 _).trans (lowerPow2_toNat h)⟩
  refine Nat.le_of_lt ((Nat.log2_lt ?_).mpr (UInt32.toNat_lt _))
  intro h0
  exact h (UInt32.toNat_inj.mp h0)

/-- Masking a counter that has wrapped gives the cell of the position that it stands for. -/
theorem offsetOf_toNat {k : Nat} (hk : k ≤ 32) (hsz : rbSz.toNat = 2 ^ k) (n i : Nat) :
    (offsetOf rbSz (UInt32.ofNat n) i).toNat = (n + i) % rbSz.toNat := by
  have hone : (rbSz - 1).toNat = 2 ^ k - 1 := by
    rw [UInt64.toNat_sub_of_le, hsz]
    · rfl
    · rw [UInt64.le_iff_toNat_le, hsz]
      exact Nat.one_le_two_pow
  have h32 : 2 ^ k ∣ 2 ^ 32 := Nat.pow_dvd_pow 2 hk
  have h64 : 2 ^ k ∣ 2 ^ 64 := Nat.pow_dvd_pow 2 (by omega)
  rw [offsetOf, UInt64.toNat_toUInt32, UInt64.toNat_and, hone, Nat.and_two_pow_sub_one_eq_mod,
    Nat.mod_mod_of_dvd' h32, UInt64.toNat_add, Nat.mod_mod_of_dvd _ h64, UInt32.toNat_toUInt64,
    UInt32.toNat_ofNat', UInt64.toNat_ofNat', Nat.add_mod, Nat.mod_mod_of_dvd _ h32,
    Nat.mod_mod_of_dvd _ h64, ← Nat.add_mod, hsz]

/-! ## What a reader sees -/

/-- The counters stand for positions of the stream, and the window between them is good. -/
structure Window (stream : List UInt8) (alloc put : Nat) (rb : LogRb) : Prop where
  alloc_eq : rb.alloc = UInt32.ofNat alloc
  put_eq : rb.put = UInt32.ofNat put
  fresh : Fresh rbSz.toNat alloc put (stream[·]?) (some ∘ rb.data)

variable {rbSz} {stream : List UInt8} {rb : LogRb} {n : Nat}

/-- Announcing more makes the window smaller. -/
theorem Window.storeAlloc {put : Nat} (h : Window rbSz stream n put rb) (len : Nat) :
    Window rbSz stream (n + len) put (rb.store (.alloc len)) := by
  constructor
  · show rb.alloc + UInt32.ofNat len = _
    rw [h.alloc_eq, UInt32.ofNat_add]
  · exact h.put_eq
  · exact h.fresh.mono (Nat.le_add_right n len) (Nat.le_refl put)

theorem Window.storePut {alloc len : Nat} (h : Window rbSz stream alloc n rb)
    (hfresh : Fresh rbSz.toNat alloc (n + len) (stream[·]?) (some ∘ rb.data)) :
    Window rbSz stream alloc (n + len) (rb.store (.put len)) := by
  constructor
  · exact h.alloc_eq
  · show rb.put + UInt32.ofNat len = _
    rw [h.put_eq, UInt32.ofNat_add]
  · exact hfresh

/-- A list that begins a concatenation ends in the first part or goes on in the second. -/
theorem prefix_append_cases {α : Type} {done xs ys : List α} (h : done <+: xs ++ ys) :
    done <+: xs ∨ ∃ more, more <+: ys ∧ done = xs ++ more := by
  rcases List.prefix_or_prefix_of_prefix h (List.prefix_append xs ys) with hxs | hxs
  · exact .inl hxs
  · obtain ⟨more, rfl⟩ := hxs
    exact .inr ⟨more, (List.prefix_append_right_inj xs).mp h, rfl⟩

/-- The loop of `__memlog_write`, as far as it has come.  The bytes stored so far lie below
what is announced. -/
theorem byteStores_fresh {k alloc : Nat} (hk : k ≤ 32) (hsz : rbSz.toNat = 2 ^ k)
    {str : List UInt8} {i : Nat} {done : List Store}
    (hdone : done <+: byteStores rbSz (UInt32.ofNat n) i str)
    (hstr : str <+: stream.drop (n + i)) (hlen : n + i + str.length ≤ alloc)
    (h : Fresh rbSz.toNat alloc (n + i) (stream[·]?) (some ∘ rb.data)) :
    (rb.after done).alloc = rb.alloc ∧ (rb.after done).put = rb.put ∧
      Fresh rbSz.toNat alloc (n + i + done.length) (stream[·]?) (some ∘ (rb.after done).data) := by
  induction str generalizing i rb done with
  | nil =>
    obtain rfl := List.prefix_nil.mp hdone
    exact ⟨rfl, rfl, h⟩
  | cons ch str ih =>
    rcases List.prefix_cons_iff.mp hdone with rfl | ⟨more, rfl, hmore⟩
    · exact ⟨rfl, rfl, h⟩
    · obtain ⟨rest, hrest⟩ := hstr
      have hhead : stream[n + i]? = some ch := by
        rw [← List.head?_drop, ← hrest]
        rfl
      have htail : str <+: stream.drop (n + (i + 1)) := by
        refine ⟨rest, ?_⟩
        rw [← Nat.add_assoc, ← List.tail_drop, ← hrest]
        rfl
      rw [List.length_cons] at hlen
      have hnext : Fresh rbSz.toNat alloc (n + i + 1) (stream[·]?)
          (some ∘ (rb.store (.byte (offsetOf rbSz (UInt32.ofNat n) i) ch)).data) := by
        show Fresh _ _ _ _ (some ∘ Function.update _ _ _)
        rw [Function.comp_update, offsetOf_toNat rbSz hk hsz, ← hhead]
        exact h.store (by omega)
      obtain ⟨ha, hp, hfresh⟩ := ih hmore htail (by omega) hnext
      rw [show n + (i + 1) + more.length = n + i + (more.length + 1) by omega] at hfresh
      exact ⟨ha, hp, hfresh⟩

theorem byteStores_length (logOffset : UInt32) (i : Nat) (str : List UInt8) :
    (byteStores rbSz logOffset i str).length = str.length := by
  induction str generalizing i with
  | nil => rfl
  | cons ch str ih => exact congrArg (· + 1) (ih (i + 1))

/-- The loop does not touch the counters. -/
theorem byteStores_counts {logOffset : UInt32} {i : Nat} {str : List UInt8} {done : List Store}
    (hdone : done <+: byteStores rbSz logOffset i str) : allocated done = 0 ∧ published done = 0 := by
  induction str generalizing i done with
  | nil =>
    obtain rfl := List.prefix_nil.mp hdone
    exact ⟨rfl, rfl⟩
  | cons ch str ih =>
    rcases List.prefix_cons_iff.mp hdone with rfl | ⟨more, rfl, hmore⟩
    · exact ⟨rfl, rfl⟩
    · obtain ⟨hall, hpub⟩ := ih hmore
      exact ⟨(Nat.zero_add _).trans hall, (Nat.zero_add _).trans hpub⟩

/-- Between the two updates of the counters. -/
theorem announced_window {k : Nat} (hk : k ≤ 32) (hsz : rbSz.toNat = 2 ^ k)
    (h : Window rbSz stream n n rb) {str : List UInt8} (hstr : str <+: stream.drop n)
    {bytes : List Store} (hbytes : bytes <+: byteStores rbSz rb.alloc 0 str) :
    Window rbSz stream (n + str.length) n (rb.after (.alloc str.length :: bytes)) ∧
      Fresh rbSz.toNat (n + str.length) (n + bytes.length) (stream[·]?)
        (some ∘ (rb.after (.alloc str.length :: bytes)).data) := by
  have halloc := h.storeAlloc str.length
  obtain ⟨ha, hp, hfresh⟩ :=
    byteStores_fresh (i := 0) hk hsz (h.alloc_eq ▸ hbytes) hstr (Nat.le_refl _) halloc.fresh
  refine ⟨⟨?_, ?_, ?_⟩, hfresh⟩
  · exact ha.trans halloc.alloc_eq
  · exact hp.trans halloc.put_eq
  · exact hfresh.mono (Nat.le_refl _) (Nat.le_add_right n _)

@[simp] theorem allocated_chunk (str : List UInt8) :
    allocated (memlogWriteChunk rbSz rb str) = str.length := by
  show str.length + allocated (byteStores rbSz rb.alloc 0 str ++ [.put str.length]) = _
  rw [allocated_append, (byteStores_counts List.prefix_rfl).1]
  rfl

@[simp] theorem published_chunk (str : List UInt8) :
    published (memlogWriteChunk rbSz rb str) = str.length := by
  show 0 + published (byteStores rbSz rb.alloc 0 str ++ [.put str.length]) = _
  rw [published_append, (byteStores_counts List.prefix_rfl).2, Nat.zero_add, Nat.zero_add]
  rfl

/-- One call of `__memlog_write`: the window is good after every store of it. -/
theorem memlogWriteChunk_window {k : Nat} (hk : k ≤ 32) (hsz : rbSz.toNat = 2 ^ k)
    (h : Window rbSz stream n n rb) {str : List UInt8} (hstr : str <+: stream.drop n)
    {done : List Store} (hdone : done <+: memlogWriteChunk rbSz rb str) :
    Window rbSz stream (n + allocated done) (n + published done) (rb.after done) := by
  have hpart : ∀ bytes, bytes <+: byteStores rbSz rb.alloc 0 str →
      Window rbSz stream (n + allocated (.alloc str.length :: bytes))
        (n + published (.alloc str.length :: bytes)) (rb.after (.alloc str.length :: bytes)) := by
    intro bytes hbytes
    obtain ⟨hall, hpub⟩ := byteStores_counts hbytes
    show Window rbSz stream (n + (str.length + allocated bytes)) (n + (0 + published bytes)) _
    rw [hall, hpub]
    exact (announced_window hk hsz h hstr hbytes).1
  rcases List.prefix_cons_iff.mp hdone with rfl | ⟨more, rfl, hmore⟩
  · exact h
  · rcases prefix_append_cases hmore with hbytes | ⟨last, hlast, rfl⟩
    · exact hpart more hbytes
    · rcases List.prefix_cons_iff.mp hlast with rfl | ⟨none, rfl, hnone⟩
      · rw [List.append_nil]
        exact hpart _ List.prefix_rfl
      · obtain rfl := List.prefix_nil.mp hnone
        obtain ⟨hwindow, hfresh⟩ := announced_window hk hsz h hstr List.prefix_rfl
        rw [byteStores_length] at hfresh
        show Window rbSz stream (n + allocated (memlogWriteChunk rbSz rb str))
          (n + published (memlogWriteChunk rbSz rb str)) _
        rw [allocated_chunk, published_chunk, ← List.cons_append, LogRb.after_append]
        exact hwindow.storePut hfresh

/-- The calls of `__memlog_write`, one after the other. -/
theorem writeChunks_window {k : Nat} (hk : k ≤ 32) (hsz : rbSz.toNat = 2 ^ k)
    (h : Window rbSz stream n n rb) {strs : List (List UInt8)} (hstrs : strs.flatten <+: stream.drop n)
    {done : List Store} (hdone : done <+: writeChunks rbSz rb strs) :
    Window rbSz stream (n + allocated done) (n + published done) (rb.after done) := by
  induction strs generalizing rb n done with
  | nil =>
    obtain rfl := List.prefix_nil.mp hdone
    exact h
  | cons str strs ih =>
    rw [List.flatten_cons] at hstrs
    have hstr := (List.prefix_append _ _).trans hstrs
    rcases prefix_append_cases hdone with hchunk | ⟨more, hmore, rfl⟩
    · exact memlogWriteChunk_window hk hsz h hstr hchunk
    · have hfull := memlogWriteChunk_window hk hsz h hstr List.prefix_rfl
      rw [allocated_chunk, published_chunk] at hfull
      have hrest : strs.flatten <+: stream.drop (n + str.length) := by
        obtain ⟨rest, hrest⟩ := hstrs
        refine ⟨rest, ?_⟩
        rw [← List.drop_drop, ← hrest, List.append_assoc, List.drop_left]
      have := ih hfull hrest hmore
      rw [allocated_append, published_append, allocated_chunk, published_chunk, LogRb.after_append,
        ← Nat.add_assoc, ← Nat.add_assoc]
      exact this

/-! ## Whole writes -/

theorem flatten_range_chunks (str : List UInt8) (m : Nat) :
    ((List.range m).map (fun i => (str.drop (i * chunkSize)).take chunkSize)).flatten =
      str.take (m * chunkSize) := by
  induction m with
  | zero => simp
  | succ m ih =>
    rw [List.range_succ, List.map_append, List.flatten_append, ih, Nat.add_mul, Nat.one_mul,
      List.take_add]
    simp

theorem chunks_flatten (str : List UInt8) : (chunks str).flatten = str := by
  rw [chunks, List.flatten_append, flatten_range_chunks]
  split
  · simp
  · next hrem =>
    rw [List.flatten_nil, List.append_nil]
    exact List.take_of_length_le (by omega)

theorem writeChunks_append (xs ys : List (List UInt8)) :
    writeChunks rbSz rb (xs ++ ys) =
      writeChunks rbSz rb xs ++ writeChunks rbSz (rb.after (writeChunks rbSz rb xs)) ys := by
  induction xs generalizing rb with
  | nil => rfl
  | cons str strs ih =>
    rw [List.cons_append, writeChunks, writeChunks, ih, List.append_assoc, LogRb.after_append]

theorem memlogWrites_eq (strs : List (List UInt8)) :
    memlogWrites rbSz rb strs = writeChunks rbSz rb (strs.flatMap chunks) := by
  induction strs generalizing rb with
  | nil => rfl
  | cons str strs ih =>
    rw [memlogWrites, ih, List.flatMap_cons, writeChunks_append]
    rfl

theorem flatten_flatMap_chunks (strs : List (List UInt8)) :
    (strs.flatMap chunks).flatten = strs.flatten := by
  induction strs with
  | nil => rfl
  | cons str strs ih =>
    rw [List.flatMap_cons, List.flatten_append, chunks_flatten, ih, List.flatten_cons]

/-- Whatever is written, and wherever a reader stops the writer: the counters are the low bits of
how far the stream is announced and published, and a position that is published, and not
announced to be overwritten, still has its byte. -/
theorem memlogWrites_window (bufSz : UInt64) (hbuf : (bufSz - offsetofData).toUInt32 ≠ 0)
    (rb : LogRb) (halloc : rb.alloc = 0) (hput : rb.put = 0) (strs : List (List UInt8))
    {done : List Store} (hdone : done <+: memlogWrites (rbSize bufSz) rb strs) :
    (rb.after done).alloc = UInt32.ofNat (allocated done) ∧
      (rb.after done).put = UInt32.ofNat (published done) ∧
      ∀ p, allocated done ≤ p + (rbSize bufSz).toNat → p < published done →
        strs.flatten[p]? = some ((rb.after done).data (p % (rbSize bufSz).toNat)) := by
  obtain ⟨k, hk, hsz⟩ := rbSize_eq hbuf
  have hstart : Window (rbSize bufSz) strs.flatten 0 0 rb := ⟨halloc, hput, Fresh.empty⟩
  rw [memlogWrites_eq] at hdone
  have hwin := writeChunks_window hk hsz hstart
    (by rw [flatten_flatMap_chunks, List.drop_zero]) hdone
  rw [Nat.zero_add, Nat.zero_add] at hwin
  refine ⟨hwin.alloc_eq, hwin.put_eq, ?_⟩
  intro p hp hlt
  exact (hwin.fresh p hp hlt).symm

/-- A ring of two cells, after three bytes: it holds the last of them. -/
theorem threeBytes_window :
    ([97, 98, 99] : List UInt8)[2]? =
      some (((⟨0, 0, fun _ => 0⟩ : LogRb).after
        (memlogWrites (rbSize 14) ⟨0, 0, fun _ => 0⟩ [[97, 98], [99]])).data (2 % 2)) := by
  have h := (memlogWrites_window 14 (by decide) ⟨0, 0, fun _ => 0⟩ rfl rfl [[97, 98], [99]]
    List.prefix_rfl).2.2
  exact h 2 (by decide) (by decide)

end TX2SecureUart.Memlog
