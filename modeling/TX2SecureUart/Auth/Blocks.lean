/-
# `Auth.Blocks` — what a block does to an accepted header

`tegrabl_auth_subprocess` hands bytes to the context that is checked at the end,
and the two kinds of header blocks leave a handle in one of two states: the
binary is streamed, or it is buffered with its header.
-/
import TX2SecureUart.Auth.Ops

namespace TX2SecureUart.Auth

open Prog Storage StrRead ByteStore

variable {P : Primitives} {blk bytes : List UInt8} {s t : State} {i n : Nat} {p : Ptr}
  {hdr : List UInt8} {binType destSize : Nat} {mode : Mode}

/-! ## Bytes in memory -/

@[simp] theorem length_bytesAt (h : InMemory blk destSize n p) (dest : Nat → UInt8) :
    (bytesAt blk dest n p).length = n := by
  cases p with
  | dest off => exact length_slice ..
  | block off =>
      have hle : off + n ≤ blk.length := h
      rw [bytesAt, List.length_take, List.length_drop]
      omega

theorem InMemory.window {m k : Nat} (h : InMemory blk destSize n p) (hle : k + m ≤ n) :
    InMemory blk destSize m (p.add k) := by
  cases p with
  | dest off =>
      have hin : off + n ≤ destSize := h
      show off + k + m ≤ destSize
      omega
  | block off =>
      have hin : off + n ≤ blk.length := h
      show off + k + m ≤ blk.length
      omega

theorem bytesAt_window {m k : Nat} (dest : Nat → UInt8) (hle : k + m ≤ n) :
    bytesAt blk dest m (p.add k) = ((bytesAt blk dest n p).drop k).take m := by
  cases p with
  | dest off => exact (slice_window dest off hle).symm
  | block off =>
      show (blk.drop (off + k)).take m = (((blk.drop off).take n).drop k).take m
      rw [List.drop_take, List.take_take, List.drop_drop, Nat.min_eq_left (by omega)]

theorem fromBlock_window {copies : Nat → Bool} {m k : Nat} (h : fromBlock copies n p = true)
    (hle : k + m ≤ n) : fromBlock copies m (p.add k) = true := by
  cases p with
  | block off => rfl
  | dest off =>
      rw [fromBlock, List.all_eq_true] at h
      show (List.range m).all _ = true
      rw [List.all_eq_true]
      intro j hj
      have := h (k + j) (List.mem_range.mpr (by have := List.mem_range.mp hj; omega))
      rwa [← Nat.add_assoc] at this

/-! ## The context of a header -/

/-- The context whose signature is checked at the end. -/
def HeaderInfo.checked (h : HeaderInfo) : Context := if h.mode = .sbk then h.aes else h.rsa

/-- The header after these bytes were handed to its context. -/
def HeaderInfo.feed (h : HeaderInfo) (bytes : List UInt8) : HeaderInfo :=
  { h with
    processedSize := h.processedSize + bytes.length
    aes := if h.mode = .sbk then { h.aes with fed := h.aes.fed ++ bytes } else h.aes
    rsa := if h.mode = .oemRsa then { h.rsa with fed := h.rsa.fed ++ bytes } else h.rsa }

/-- Bytes that may be handed on: the first ones hold the signed section. -/
structure Feedable (h : HeaderInfo) (size : Nat) : Prop where
  mode : h.mode = .sbk ∧ h.aes.isDecrypt = false ∨ h.mode = .oemRsa
  first : h.processedSize = 0 → signedSectionLen ≤ size
  word : h.processedSize + size < 2 ^ 32

theorem add32_eq {a b : Nat} (h : a + b < 2 ^ 32) : add32 a b = a + b := by
  rw [add32, Nat.mod_eq_of_lt h]

theorem sub32_eq {a b : Nat} (hle : b ≤ a) (h : a < 2 ^ 32) : sub32 a b = a - b := by
  unfold sub32
  omega

/-- The part of a buffer that belongs to the header is handed on. -/
theorem wp_authSubprocess {size dst : Nat} (hi : i < maxHeaders)
    (hsize : (s.auth.headers i).left size = n) (hn : n ≠ 0)
    (hfeed : Feedable (s.auth.headers i) n)
    (hcopy : fromBlock s.copies n p = true) (hin : InMemory blk s.auth.destSize n p) :
    wp (authSubprocess P blk i p size dst)
      (fun _ t => P.fails s.calls = none ∧ t = { s.setHeader i
        (·.feed (bytesAt blk s.dest n p)) with calls := s.calls + 1 })
      (fun stop _ => (∃ e, stop = .err e) ∧ ¬ Calm P) s := by
  have hlen := length_bytesAt hin s.dest
  have hfirst := hfeed.first
  have hword := hfeed.word
  simp only [authSubprocess, wp_bind, wp_get, hsize, if_neg hn]
  rcases hfeed.mode with ⟨hmode, hhash⟩ | hmode
  · rw [hmode, applyMode, wp_bind, applyAes, wp_bind]
    refine wp_readCopied hcopy hin ?_
    simp only [wp_bind, wp_get, aesOutput, hhash, Bool.false_eq_true, if_false, wp_pure]
    refine wp_primitive ?_ (fun e he => ⟨⟨_, rfl⟩, fun hc => by simp [hc _] at he⟩)
    intro hok
    simp only [addProcessed, wp_setHeader, if_pos hi, setHeader_setHeader]
    refine ⟨hok, setHeader_congr _ ?_⟩
    simp only [HeaderInfo.feed, hmode, hlen, if_true, if_neg (show Mode.sbk ≠ .oemRsa by decide),
      add32_eq hword]
  · rw [hmode, applyMode, wp_bind, applyRsa, wp_bind, digest, wp_bind]
    refine wp_readCopied hcopy hin ?_
    rw [wp_bind]
    refine wp_primitive ?_ (fun e he => ⟨⟨_, rfl⟩, fun hc => by simp [hc _] at he⟩)
    intro hok
    simp only [addProcessed, wp_bind, wp_get, wp_setHeader, if_pos hi, setHeader_setHeader,
      setHeader_header, wp_ite, wp_pure]
    split
    case isTrue hzero =>
      have hlong := hfirst hzero
      refine ⟨hok, setHeader_congr _ ?_⟩
      have hsum : add32 (add32 0 signedSectionLen) (sub32 n signedSectionLen) = 0 + n := by
        rw [hzero] at hword
        simp only [add32, sub32, signedSectionLen] at hlong ⊢
        omega
      simp only [HeaderInfo.feed, hmode, hlen, if_true, if_neg (show Mode.oemRsa ≠ .sbk by decide),
        hzero, hsum]
    case isFalse =>
      refine ⟨hok, setHeader_congr _ ?_⟩
      simp only [HeaderInfo.feed, hmode, hlen, if_true, if_neg (show Mode.oemRsa ≠ .sbk by decide),
        add32_eq hword]

/-! ## A binary that is streamed -/

theorem HeaderInfo.feed_append (h : HeaderInfo) (xs ys : List UInt8) :
    (h.feed xs).feed ys = h.feed (xs ++ ys) := by
  cases hmode : h.mode <;>
    simp [HeaderInfo.feed, hmode, Nat.add_assoc, List.append_assoc]

/-- The handle after `fed`, the signed section first, was handed on. -/
def streamedHandle (binType destSize : Nat) (hdr : List UInt8) (mode : Mode) (fed : List UInt8) :
    Handle :=
  { headedHandle binType destSize hdr mode with
    headers := Function.update (fun _ => .zero) 0 ((headerInfoOf hdr mode).feed fed)
    processedSize := fed.length - signedSectionLen
    safeDestLocation := fed.length - signedSectionLen
    remainingSize := binarylength hdr + signedSectionLen - fed.length
    numHeaders := 1 }

/-- What was handed on is at the destination, the signed section apart. -/
structure Streamed (binType destSize : Nat) (hdr : List UInt8) (mode : Mode) (fed : List UInt8)
    (s : State) : Prop where
  handle : s.auth = streamedHandle binType destSize hdr mode fed
  signed : signedSectionLen ≤ fed.length
  within : fed.length ≤ binarylength hdr + signedSectionLen
  placed : slice s.dest 0 (fed.length - signedSectionLen) = fed.drop signedSectionLen

/-- The sizes of a header that is streamed. -/
structure Streamable (destSize : Nat) (hdr : List UInt8) (mode : Mode) : Prop where
  oem : mode = .sbk ∨ mode = .oemRsa
  fits : binarylength hdr ≤ destSize
  word : binarylength hdr + signedSectionLen < 2 ^ 32

theorem Streamable.feedable (h : Streamable destSize hdr mode) {fed : List UInt8}
    (hn : fed.length + n ≤ binarylength hdr + signedSectionLen)
    (hfirst : fed.length = 0 → signedSectionLen ≤ n) :
    Feedable ((headerInfoOf hdr mode).feed fed) n := by
  have hword := h.word
  have hprocessed : ((headerInfoOf hdr mode).feed fed).processedSize = fed.length :=
    Nat.zero_add _
  refine ⟨?_, ?_, ?_⟩
  · rcases h.oem with rfl | rfl
    · exact .inl ⟨rfl, rfl⟩
    · exact .inr rfl
  · rwa [hprocessed]
  · rw [hprocessed]
    omega

theorem feed_left (h : Streamable destSize hdr mode) {fed : List UInt8} {size : Nat}
    (hfed : fed.length ≤ binarylength hdr + signedSectionLen) :
    ((headerInfoOf hdr mode).feed fed).left size =
      min size (binarylength hdr + signedSectionLen - fed.length) := by
  have hword := h.word
  have hprocessed : ((headerInfoOf hdr mode).feed fed).processedSize = fed.length :=
    Nat.zero_add _
  have hvalid : ((headerInfoOf hdr mode).feed fed).validationSize =
      binarylength hdr + signedSectionLen := add32_eq hword
  rw [HeaderInfo.left, hprocessed, hvalid, sub32_eq hfed hword]

theorem headerInfoOf_feed_nil (h : mode = .sbk ∨ mode = .oemRsa) :
    (headerInfoOf hdr mode).feed [] = headerInfoOf hdr mode := by
  rcases h with rfl | rfl <;> rfl

/-- A copy to where the placed bytes end. -/
theorem slice_copyTo {m : Nat} (h : InMemory blk destSize n p) :
    slice (s.copyTo blk m p n).dest 0 (m + n) =
      slice s.dest 0 m ++ bytesAt blk s.dest n p := by
  have hlen := length_bytesAt h s.dest
  show slice (patch s.dest m (bytesAt blk s.dest n p)) 0 (m + n) = _
  rw [slice_add, Nat.zero_add, slice_patch_of_disjoint (.inl (Nat.le_of_eq (Nat.zero_add m)))]
  have hpatch := slice_patch s.dest m (bytesAt blk s.dest n p)
  rw [hlen] at hpatch
  rw [hpatch]

/-- The first bytes of the destination come from blocks. -/
def CopiedTo (copies : Nat → Bool) (m : Nat) : Prop := ∀ a < m, copies a = true

theorem CopiedTo.copyTo {m : Nat} (h : CopiedTo s.copies m) (hcopy : fromBlock s.copies n p = true) :
    CopiedTo (s.copyTo blk m p n).copies (m + n) := by
  intro a ha
  show copied s.copies m n p a = true
  rw [copied]
  split
  case isTrue hin => exact fromBlock_window hcopy (by omega)
  case isFalse hout => exact h a (by omega)

/-- The place at the end of the copied bytes holds the next ones. -/
theorem CopiedTo.append {copies : Nat → Bool} {m : Nat} (h : CopiedTo copies m)
    (hcopy : fromBlock copies n (.dest m) = true) : CopiedTo copies (m + n) := by
  intro a ha
  rcases Nat.lt_or_ge a m with hlt | hge
  · exact h a hlt
  · rw [fromBlock, List.all_eq_true] at hcopy
    have := hcopy (a - m) (List.mem_range.mpr (by omega))
    rwa [Nat.add_sub_cancel' hge] at this

/-- A block is put behind what is placed, unless it is there. -/
theorem wp_placeBinary {m : Nat} (hmode : (s.auth.headers i).mode ≠ .nvidiaRsa)
    (hin : InMemory blk s.auth.destSize n p) (hsafe : s.auth.safeDestLocation = m) :
    wp (placeBinary blk i p n)
      (fun _ t => t = { s with dest := t.dest, copies := t.copies } ∧
        slice t.dest 0 (m + n) = slice s.dest 0 m ++ bytesAt blk s.dest n p ∧
        (CopiedTo s.copies m → fromBlock s.copies n p = true → CopiedTo t.copies (m + n)) ∧
        (n ≠ 0 → m + n ≤ s.auth.destSize))
      (fun stop _ => stop = .outOfBounds ∧ s.auth.destSize < m + n) s := by
  simp only [placeBinary, wp_bind, wp_get, wp_ite, hsafe]
  split
  case isTrue h =>
    refine wp_copyTo hin ?_ (fun hout => ⟨rfl, hout⟩)
    intro hfits
    exact ⟨rfl, slice_copyTo hin, fun hm hcopy => hm.copyTo hcopy, fun _ => hfits⟩
  case isFalse h =>
    rw [wp_pure]
    by_cases hn : n = 0
    · subst hn
      have hnil : bytesAt blk s.dest 0 p = [] := List.eq_nil_of_length_eq_zero (length_bytesAt hin _)
      exact ⟨rfl, by rw [hnil, List.append_nil, Nat.add_zero], fun hm _ => hm, fun h => absurd rfl h⟩
    · have hp : .dest m = p := by
        by_contra hp
        exact h ⟨hp, hn, hmode⟩
      subst hp
      refine ⟨rfl, ?_, fun hm hcopy => hm.append hcopy, fun _ => hin⟩
      rw [slice_add, Nat.zero_add]
      rfl

theorem streamedHandle_mode (h : mode = .sbk ∨ mode = .oemRsa) (fed : List UInt8) :
    ((streamedHandle binType destSize hdr mode fed).headers 0).mode ≠ .nvidiaRsa := by
  rcases h with rfl | rfl <;> exact Mode.noConfusion

theorem streamedHandle_finish {fed bytes : List UInt8} (hm : Streamable destSize hdr mode)
    (hsigned : signedSectionLen ≤ fed.length)
    (hleft : fed.length + bytes.length ≤ binarylength hdr + signedSectionLen) :
    ({ streamedHandle binType destSize hdr mode fed with
        headers := Function.update (fun _ => .zero) 0
          ((headerInfoOf hdr mode).feed (fed ++ bytes)) } : Handle).finish
      (sub32 (binarylength hdr + signedSectionLen - fed.length) bytes.length) bytes.length 0 1 =
    streamedHandle binType destSize hdr mode (fed ++ bytes) := by
  have hword := hm.word
  have hlen : (fed ++ bytes).length = fed.length + bytes.length := List.length_append
  have hdone : add32 (fed.length - signedSectionLen) bytes.length =
      (fed ++ bytes).length - signedSectionLen := by
    rw [hlen, add32_eq (by omega), Nat.sub_add_comm hsigned]
  have hrest : sub32 (binarylength hdr + signedSectionLen - fed.length) bytes.length =
      binarylength hdr + signedSectionLen - (fed ++ bytes).length := by
    rw [hlen, sub32_eq (by omega) (by omega), Nat.sub_sub]
  simp only [Handle.finish, streamedHandle, hdone, hrest]
  rfl

/-- The next bytes of a binary that is streamed. -/
theorem Streamed.wp_dataBlock {fed : List UInt8} (hs : Streamed binType destSize hdr mode fed s)
    (hm : Streamable destSize hdr mode) (hn : n ≠ 0)
    (hleft : fed.length + n ≤ binarylength hdr + signedSectionLen)
    (hcopy : fromBlock s.copies n p = true) (hin : InMemory blk s.auth.destSize n p) :
    wp (dataBlock P blk p n)
      (fun _ t => Streamed binType destSize hdr mode (fed ++ bytesAt blk s.dest n p) t)
      (fun stop _ => (∃ e, stop = .err e) ∧ ¬ Calm P) s := by
  have hsigned := hs.signed
  have hfits := hm.fits
  have hheader : s.auth.headers 0 = (headerInfoOf hdr mode).feed fed := by rw [hs.handle]; rfl
  have hsize : (s.auth.headers 0).left n = n := by
    rw [hheader, feed_left hm hs.within]
    exact Nat.min_eq_left (by omega)
  have hfeed : Feedable (s.auth.headers 0) n := by
    rw [hheader]
    refine hm.feedable hleft (fun h => ?_)
    rw [h, signedSectionLen] at hsigned
    exact absurd hsigned (by decide)
  have hcur : s.auth.curHeader = 0 := by rw [hs.handle]; rfl
  have hshort : s.auth.shortBinary = false := by rw [hs.handle]; rfl
  have hsafe : s.auth.safeDestLocation = fed.length - signedSectionLen := by rw [hs.handle]; rfl
  have hbytes := length_bytesAt hin s.dest
  simp only [dataBlock, wp_bind, wp_get, hcur, streamBlock, hshort, Bool.false_eq_true, if_false]
  refine wp_mono (wp_authSubprocess (by decide) hsize hn hfeed hcopy hin) ?_ (fun _ _ h => h)
  rintro _ t ⟨-, ht⟩
  have hauth : t.auth = { streamedHandle binType destSize hdr mode fed with
      headers := Function.update (fun _ => .zero) 0
        ((headerInfoOf hdr mode).feed (fed ++ bytesAt blk s.dest n p)) } := by
    rw [ht, State.setHeader, hheader, HeaderInfo.feed_append, hs.handle]
    simp only [streamedHandle, Function.update_idem]
  have hdest : t.dest = s.dest := by rw [ht]; rfl
  have hmode : (t.auth.headers 0).mode ≠ .nvidiaRsa := by
    rw [hauth]
    rcases hm.oem with rfl | rfl <;> exact Mode.noConfusion
  have hroom : t.auth.destSize = destSize := by rw [hauth]; rfl
  have hin' : InMemory blk t.auth.destSize n p := by
    rw [hroom]
    rw [hs.handle] at hin
    exact hin
  have hsafe' : t.auth.safeDestLocation = fed.length - signedSectionLen := by rw [hauth]; rfl
  rw [wp_bind]
  refine wp_mono (wp_placeBinary hmode hin' hsafe') ?_ ?_
  · rintro _ u ⟨hu, hplaced, -⟩
    have hauth' : u.auth = t.auth := by rw [hu]
    have hshort' : u.auth.shortBinary = false := by rw [hauth', hauth]; rfl
    have hnot : ¬ (u.auth.shortBinary = true ∧ u.auth.remainingSize ≤ n) := by
      rw [hshort']
      exact fun h => Bool.noConfusion h.1
    rw [wp_bind, lastBlockIf, wp_bind, wp_get, wp_ite, if_neg hnot, wp_pure, wp_bind, wp_get, wp_finish]
    have hlen : (fed ++ bytesAt blk s.dest n p).length = fed.length + n := by
      rw [List.length_append, hbytes]
    have hfinish : u.auth.finish (sub32 u.auth.remainingSize n) n 0 s.auth.numHeaders =
        streamedHandle binType destSize hdr mode (fed ++ bytesAt blk s.dest n p) := by
      rw [← streamedHandle_finish hm hsigned (hbytes.symm ▸ hleft), hbytes, hauth', hauth, hs.handle]
      rfl
    have hdata : slice u.dest 0 ((fed ++ bytesAt blk s.dest n p).length - signedSectionLen) =
        (fed ++ bytesAt blk s.dest n p).drop signedSectionLen := by
      rw [hlen, Nat.sub_add_comm hsigned, hplaced, hdest, hs.placed,
        List.drop_append_of_le_length hsigned]
    exact ⟨hfinish, by omega, by omega, hdata⟩
  · rintro stop u ⟨-, hout⟩
    rw [hroom] at hout
    omega

end TX2SecureUart.Auth
