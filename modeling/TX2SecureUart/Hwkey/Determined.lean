/-
# `Hwkey.Determined` — which replies depend on the request only

The encryption service sends a structure and a whole payload buffer, whatever
it received; the passphrase service is silent about its keys once it has been
told so, but not about its stack.
-/
import TX2SecureUart.Hwkey.Replies

namespace TX2SecureUart.Hwkey

open Ipc

/-! ## The encryption service -/

section

variable {aes : Aes} {key iv : Block} {enc : Bool} {env env' : CryptoEnv} {s s' : CryptoReq}
  {m m' : Nat → UInt8} {n idx k pos : Nat} {bs bs' : List Block} {request : List UInt8}

/-- The reply, where no access leaves the buffers; with an answer or without. -/
def cryptoReply (aes : Aes) (env : CryptoEnv) (request : List UInt8) :
    Option (Option (List UInt8)) :=
  match cryptoSrvHandleMsg aes env request with
  | none => some none
  | some t =>
      if t.log.all (fun a => decide (a.pos + a.len ≤ cryptoSrvPayloadSize)) then some (some t.reply)
      else none

/-- The same service with other memory. -/
def CryptoEnv.withMemory (env : CryptoEnv) (stack heap dataHeap : Nat → UInt8) : CryptoEnv :=
  { env with stack := stack, heap := heap, dataHeap := dataHeap }

/-- `payload_len` as it is received. -/
def payloadLenReceived (request : List UInt8) : Nat :=
  leNat ((request.drop offsetofPayloadLen).take 4)

/-- Nothing is answered; or the whole structure and the whole buffer are
received, and whole blocks of them are processed. -/
def CryptoCovered (env : CryptoEnv) (request : List UInt8) : Prop :=
  env.mallocBuf = false ∨ (sizeofCryptoSrvMsg + cryptoSrvPayloadSize ≤ request.length ∧
    (env.key = none ∨ env.mallocData = false ∨
      (payloadLenReceived request ≤ cryptoSrvPayloadSize ∧
        payloadLenReceived request % aesBlockSize = 0)))

/-! ### Blocks that are told apart -/

theorem aesCbcBlock_inj {b b' : Block}
    (h : (aesCbcBlock aes key enc iv b).1 = (aesCbcBlock aes key enc iv b').1) : b = b' := by
  cases enc with
  | true =>
      have hxor : xorBlock b iv = xorBlock b' iv := (aes key).injective h
      rw [← xorBlock_cancel b iv, hxor, xorBlock_cancel]
  | false =>
      have hdec : xorBlock ((aes key).symm b) iv = xorBlock ((aes key).symm b') iv := h
      have heq : (aes key).symm b = (aes key).symm b' := by
        rw [← xorBlock_cancel ((aes key).symm b) iv, hdec, xorBlock_cancel]
      exact (aes key).symm.injective heq

/-- Different blocks give different blocks, in both directions. -/
theorem aesCbcEncrypt_inj (h : (aesCbcEncrypt aes key enc iv bs).1 =
    (aesCbcEncrypt aes key enc iv bs').1) : bs = bs' := by
  have hlen : bs.length = bs'.length := by
    have hout := congrArg List.length h
    rwa [length_aesCbcEncrypt, length_aesCbcEncrypt] at hout
  induction bs generalizing bs' iv with
  | nil => exact (List.length_eq_zero_iff.mp hlen.symm).symm
  | cons b bs ih =>
      cases bs' with
      | nil => cases hlen
      | cons b' bs' =>
          rw [aesCbcEncrypt_cons, aesCbcEncrypt_cons] at h
          obtain ⟨hhead, htail⟩ := List.cons.inj h
          have hb : b = b' := aesCbcBlock_inj hhead
          subst hb
          rw [ih htail (Nat.succ.inj hlen)]

theorem blockAt_inj (h : blockAt m pos = blockAt m' pos) (hlow : pos ≤ k)
    (hhigh : k < pos + aesBlockSize) : m k = m' k := by
  obtain ⟨i, rfl⟩ := Nat.exists_eq_add_of_le hlow
  have hi : i < 16 := Nat.lt_of_add_lt_add_left hhigh
  have hget := congrArg (fun b : Block => b[i]) h
  simpa [blockAt] using hget

theorem blocksAt_inj (h : blocksAt m pos n = blocksAt m' pos n) (hlow : pos ≤ k)
    (hhigh : k < pos + aesBlockSize * n) : m k = m' k := by
  induction n generalizing pos with
  | zero => omega
  | succ n ih =>
      rw [blocksAt, blocksAt] at h
      obtain ⟨hhead, htail⟩ := List.cons.inj h
      rw [Nat.mul_succ] at hhigh
      by_cases hk : k < pos + aesBlockSize
      · exact blockAt_inj hhead hlow hk
      · exact ih htail (by omega) (by omega)

/-! ### The loop on two memories -/

/-- What the loop reads is the same in both runs: so is what it writes. -/
theorem cbcLoop_agree (hcmd : Agree sizeofCryptoSrvMsg s.cmd s'.cmd)
    (hpayload : Agree k s.payload s'.payload) (hdata : Agree (idx + aesBlockSize * n) s.data s'.data) :
    Agree sizeofCryptoSrvMsg (cbcLoop aes key enc n idx s).cmd (cbcLoop aes key enc n idx s').cmd ∧
      Agree k (cbcLoop aes key enc n idx s).payload (cbcLoop aes key enc n idx s').payload := by
  induction n generalizing idx s s' with
  | zero => exact ⟨hcmd, hpayload⟩
  | succ n ih =>
      rw [Nat.mul_succ] at hdata
      have hiv : blockAt s.cmd offsetofIv = blockAt s'.cmd offsetofIv := by
        apply blockAt_congr
        intro i _ hi
        exact hcmd i (Nat.lt_of_lt_of_le hi (by decide))
      have hblock : blockAt s.data idx = blockAt s'.data idx := by
        apply blockAt_congr
        intro i _ hi
        exact hdata i (by omega)
      have hstep : aesCbcBlock aes key enc (blockAt s.cmd offsetofIv) (blockAt s.data idx) =
          aesCbcBlock aes key enc (blockAt s'.cmd offsetofIv) (blockAt s'.data idx) := by
        rw [hiv, hblock]
      rw [cbcLoop, cbcLoop]
      apply ih
      · simp only [cbcStep]
        rw [hstep]
        exact hcmd.write
      · simp only [cbcStep]
        rw [hstep]
        exact hpayload.write
      · intro i hi
        exact hdata i (by omega)

/-- The blocks that come out of the loop tell the blocks that went in. -/
theorem cbcLoop_data_agree (hcmd : Agree sizeofCryptoSrvMsg s.cmd s'.cmd)
    (hout : Agree (aesBlockSize * n) (cbcLoop aes key enc n 0 s).payload
      (cbcLoop aes key enc n 0 s').payload) :
    Agree (aesBlockSize * n) s.data s'.data := by
  intro i hi
  obtain ⟨hblocks, _⟩ := @cbcLoop_blocks aes key enc s n 0
  obtain ⟨hblocks', _⟩ := @cbcLoop_blocks aes key enc s' n 0
  have hiv : blockAt s.cmd offsetofIv = blockAt s'.cmd offsetofIv := by
    apply blockAt_congr
    intro j _ hj
    exact hcmd j (Nat.lt_of_lt_of_le hj (by decide))
  have heq : blocksAt (cbcLoop aes key enc n 0 s).payload 0 n =
      blocksAt (cbcLoop aes key enc n 0 s').payload 0 n := by
    apply blocksAt_congr
    intro j _ hj
    rw [Nat.zero_add] at hj
    exact hout j hj
  rw [hblocks, hblocks', hiv] at heq
  exact blocksAt_inj (aesCbcEncrypt_inj heq) (Nat.zero_le i) (by rwa [Nat.zero_add])

/-! ### What a request leaves as it was -/

theorem reply_eq_iff : s.reply = s'.reply ↔
    Agree sizeofCryptoSrvMsg s.cmd s'.cmd ∧ Agree cryptoSrvPayloadSize s.payload s'.payload := by
  rw [CryptoReq.reply, CryptoReq.reply]
  constructor
  · intro h
    obtain ⟨hcmd, hpayload⟩ := List.append_inj h (by rw [length_bytesAt, length_bytesAt])
    exact ⟨eq_of_bytesAt_eq hcmd, eq_of_bytesAt_eq hpayload⟩
  · rintro ⟨hcmd, hpayload⟩
    rw [hcmd.bytesAt_eq (by decide), hpayload.bytesAt_eq (by decide)]

theorem length_received : (received request).length =
    min cryptoSrvPayloadSize (request.length - sizeofCryptoSrvMsg) := by
  rw [received, List.length_take, List.length_drop]

theorem readRequest_payloadLen_received (h : sizeofCryptoSrvMsg ≤ request.length) :
    (readRequest env request).payloadLen = payloadLenReceived request := by
  have hbytes : bytesAt (readRequest env request).cmd offsetofPayloadLen 4 =
      (request.drop offsetofPayloadLen).take 4 := by
    simp only [sizeofCryptoSrvMsg] at h
    apply List.ext_getElem
    · simp only [length_bytesAt, List.length_take, List.length_drop, offsetofPayloadLen]
      omega
    · intro i hi _
      have hi4 : i < 4 := by simpa using hi
      have hlt : offsetofPayloadLen + i < request.length := by
        simp only [offsetofPayloadLen]
        omega
      have hsize : offsetofPayloadLen + i < sizeofCryptoSrvMsg := by
        simp only [offsetofPayloadLen, sizeofCryptoSrvMsg]
        omega
      simp [bytesAt, readRequest, write, hlt, hsize]
  rw [CryptoReq.payloadLen, hbytes, payloadLenReceived]

/-- Behind what is received, the buffer is as it was. -/
theorem readRequest_payload_heap (h : (received request).length ≤ k) :
    (readRequest env request).payload k = env.heap k := by
  show write env.heap 0 (received request) k = env.heap k
  apply write_outside
  rw [Nat.zero_add]
  exact .inr h

/-- Bytes that are not received, or that are not copied, are those of the heap. -/
theorem copyPayload_data_heap {b : UInt8} (hheap : env.heap = fun _ => b)
    (hdata : env.dataHeap = fun _ => b)
    (h : (received request).length ≤ k ∨ (readRequest env request).payloadLen ≤ k) :
    (copyPayload (readRequest env request)).data k = b := by
  rw [copyPayload]
  by_cases hk : k < (readRequest env request).payloadLen
  · have hrecv : (received request).length ≤ k := by omega
    refine (write_bytesAt hk).trans ?_
    rw [readRequest_payload_heap hrecv, hheap]
  · have hout : write (readRequest env request).data 0
        (bytesAt (readRequest env request).payload 0 (readRequest env request).payloadLen) k =
          env.dataHeap k := by
      apply write_outside
      rw [length_bytesAt]
      omega
    exact hout.trans (by rw [hdata])

/-- The accesses stay inside the buffers when the length does. -/
theorem cryptoSrvProcessReq_inside (hkey : env.key = some key) (hdata : env.mallocData = true) :
    (∀ a ∈ (cryptoSrvProcessReq aes env (readRequest env request)).log,
      a.pos + a.len ≤ cryptoSrvPayloadSize) ↔
      (readRequest env request).payloadLen ≤ cryptoSrvPayloadSize := by
  rw [cryptoSrvProcessReq_some hkey hdata]
  constructor
  · intro h
    have hcopy := h ⟨.payload, false, 0, (readRequest env request).payloadLen⟩
      ((mem_cbcLoop_log _ _ _).mpr (.inl (by simp [copyPayload])))
    rwa [Nat.zero_add] at hcopy
  · intro h a ha
    rw [mem_cbcLoop_log, blockCount_eq h] at ha
    rcases ha with ha | ⟨i, hi, hacc⟩
    · have hcases : a = ⟨.payload, true, 0, (received request).length⟩ ∨
          a = ⟨.payload, false, 0, (readRequest env request).payloadLen⟩ ∨
          a = ⟨.data, true, 0, (readRequest env request).payloadLen⟩ := by
        simpa [copyPayload, readRequest] using ha
      have hrecv : (received request).length ≤ cryptoSrvPayloadSize := length_received_le
      rcases hcases with rfl | rfl | rfl
      · rwa [Nat.zero_add]
      · rwa [Nat.zero_add]
      · rwa [Nat.zero_add]
    · have hend : 0 + aesBlockSize * i + aesBlockSize ≤ cryptoSrvPayloadSize := by
        simp only [aesBlockSize, cryptoSrvPayloadSize] at h hi ⊢
        omega
      rcases hacc with rfl | rfl
      · exact hend
      · exact hend

/-- A reply that is defined, and the structure it is sent from. -/
theorem cryptoReply_some_iff (hbuf : env.mallocBuf = true) {r : Option (List UInt8)} :
    cryptoReply aes env request = some r ↔
      (∀ a ∈ (cryptoSrvProcessReq aes env (readRequest env request)).log,
        a.pos + a.len ≤ cryptoSrvPayloadSize) ∧
      r = some (cryptoSrvProcessReq aes env (readRequest env request)).reply := by
  have hrun : cryptoSrvHandleMsg aes env request =
      some (cryptoSrvProcessReq aes env (readRequest env request)).sent := by
    rw [cryptoSrvHandleMsg, if_neg (by simp [hbuf])]
  have hlog : ((cryptoSrvProcessReq aes env (readRequest env request)).sent.log.all
        (fun a => decide (a.pos + a.len ≤ cryptoSrvPayloadSize))) = true ↔
      ∀ a ∈ (cryptoSrvProcessReq aes env (readRequest env request)).log,
        a.pos + a.len ≤ cryptoSrvPayloadSize := by
    simp [CryptoReq.sent]
  rw [cryptoReply, hrun]
  dsimp only
  split
  · rename_i hall
    constructor
    · intro h
      exact ⟨hlog.mp hall, (Option.some.inj h).symm⟩
    · rintro ⟨_, rfl⟩
      rfl
  · rename_i hall
    constructor
    · intro h
      cases h
    · rintro ⟨hin, _⟩
      exact absurd (hlog.mpr hin) hall

/-! ### Covered requests -/

theorem readRequest_agree (h : sizeofCryptoSrvMsg + cryptoSrvPayloadSize ≤ request.length) :
    Agree sizeofCryptoSrvMsg (readRequest env request).cmd (readRequest env' request).cmd ∧
      Agree cryptoSrvPayloadSize (readRequest env request).payload
        (readRequest env' request).payload := by
  constructor
  · apply Agree.of_write
    rw [List.length_take]
    omega
  · apply Agree.of_write
    rw [length_received]
    omega

theorem crypto_determined_of_covered (h : CryptoCovered env request)
    (hbuf : env'.mallocBuf = env.mallocBuf) (hkey : env'.key = env.key)
    (hdata : env'.mallocData = env.mallocData) :
    ∃ r, cryptoReply aes env request = some r ∧ cryptoReply aes env' request = some r := by
  rcases h with hno | ⟨hlong, hproc⟩
  · refine ⟨none, ?_, ?_⟩
    · rw [cryptoReply, cryptoSrvHandleMsg, if_pos (by simp [hno])]
    · rw [cryptoReply, cryptoSrvHandleMsg, if_pos (by simp [hbuf, hno])]
  cases hmalloc : env.mallocBuf with
  | false =>
      refine ⟨none, ?_, ?_⟩
      · rw [cryptoReply, cryptoSrvHandleMsg, if_pos (by simp [hmalloc])]
      · rw [cryptoReply, cryptoSrvHandleMsg, if_pos (by simp [hbuf, hmalloc])]
  | true =>
      obtain ⟨hcmd, hpayload⟩ := @readRequest_agree env env' request hlong
      suffices hboth : (∀ a ∈ (cryptoSrvProcessReq aes env (readRequest env request)).log,
            a.pos + a.len ≤ cryptoSrvPayloadSize) ∧
          (∀ a ∈ (cryptoSrvProcessReq aes env' (readRequest env' request)).log,
            a.pos + a.len ≤ cryptoSrvPayloadSize) ∧
          (cryptoSrvProcessReq aes env (readRequest env request)).reply =
            (cryptoSrvProcessReq aes env' (readRequest env' request)).reply by
        obtain ⟨hin, hin', heq⟩ := hboth
        exact ⟨_, (cryptoReply_some_iff hmalloc).mpr ⟨hin, rfl⟩,
          (cryptoReply_some_iff (hbuf.trans hmalloc)).mpr ⟨hin', by rw [heq]⟩⟩
      by_cases hnone : env.key = none ∨ env.mallocData = false
      · have hnone' : env'.key = none ∨ env'.mallocData = false := by rwa [hkey, hdata]
        have hread : ∀ e : CryptoEnv, ∀ a ∈ (readRequest e request).log,
            a.pos + a.len ≤ cryptoSrvPayloadSize := by
          intro e a ha
          rw [List.mem_singleton.mp ha, Nat.zero_add]
          exact length_received_le
        rw [cryptoSrvProcessReq_none hnone, cryptoSrvProcessReq_none hnone']
        exact ⟨hread env, hread env', reply_eq_iff.mpr ⟨hcmd, hpayload⟩⟩
      · rw [not_or] at hnone
        obtain ⟨key, hsome⟩ := Option.ne_none_iff_exists'.mp hnone.1
        have hyes : env.mallocData = true := by simpa using hnone.2
        have hlen : ∀ e : CryptoEnv, (readRequest e request).payloadLen =
            payloadLenReceived request := fun _ => readRequest_payloadLen_received (by omega)
        obtain ⟨hfits, hwhole⟩ : payloadLenReceived request ≤ cryptoSrvPayloadSize ∧
            payloadLenReceived request % aesBlockSize = 0 := by
          rcases hproc with hno | hno | hfits
          · exact absurd hno hnone.1
          · exact absurd hno hnone.2
          · exact hfits
        refine ⟨(cryptoSrvProcessReq_inside hsome hyes).mpr (by rwa [hlen]),
          (cryptoSrvProcessReq_inside (hkey.trans hsome) (hdata.trans hyes)).mpr (by rwa [hlen]), ?_⟩
        have hcount : aesBlockSize * blockCount (payloadLenReceived request) =
            payloadLenReceived request := by
          rw [blockCount_eq hfits]
          simp only [aesBlockSize] at hwhole ⊢
          omega
        have hfield : (readRequest env' request).cmdField = (readRequest env request).cmdField := by
          rw [CryptoReq.cmdField, CryptoReq.cmdField, hcmd.bytesAt_eq (by decide)]
        -- whole blocks are copied, so none holds a byte of the second buffer
        have hcopy : Agree (0 + aesBlockSize * blockCount (payloadLenReceived request))
            (copyPayload (readRequest env request)).data
            (copyPayload (readRequest env' request)).data := by
          rw [Nat.zero_add, hcount, copyPayload, copyPayload, hlen, hlen,
            hpayload.bytesAt_eq (by omega)]
          apply Agree.of_write
          rw [length_bytesAt]
        rw [cryptoSrvProcessReq_some hsome hyes,
          cryptoSrvProcessReq_some (hkey.trans hsome) (hdata.trans hyes), hlen, hlen, hfield]
        exact reply_eq_iff.mpr (cbcLoop_agree hcmd hpayload hcopy)

/-! ### Requests that are not covered -/

theorem crypto_covered_of_determined
    (h : ∀ b : UInt8, ∃ r, cryptoReply aes (env.withMemory (fun _ => 0) (fun _ => b) fun _ => b)
        request = some r ∧
      cryptoReply aes (env.withMemory (fun _ => 0) (fun _ => 0) fun _ => 0) request = some r) :
    CryptoCovered env request := by
  by_contra hcov
  rw [CryptoCovered, not_or, not_and] at hcov
  obtain ⟨hbuf, hrest⟩ := hcov
  have hbuf' : env.mallocBuf = true := by simpa using hbuf
  obtain ⟨r, hr₁, hr₀⟩ := h 1
  generalize hone : env.withMemory (fun _ => 0) (fun _ => 1) (fun _ => 1) = e₁ at hr₁
  generalize hzero : env.withMemory (fun _ => 0) (fun _ => 0) (fun _ => 0) = e₀ at hr₀
  have hheap₁ : e₁.heap = fun _ => 1 := by rw [← hone]; rfl
  have hheap₀ : e₀.heap = fun _ => 0 := by rw [← hzero]; rfl
  have hdata₁ : e₁.dataHeap = fun _ => 1 := by rw [← hone]; rfl
  have hdata₀ : e₀.dataHeap = fun _ => 0 := by rw [← hzero]; rfl
  have hcmd : (readRequest e₁ request).cmd = (readRequest e₀ request).cmd := by
    rw [← hone, ← hzero]; rfl
  have hlen : (readRequest e₁ request).payloadLen = (readRequest e₀ request).payloadLen := by
    rw [CryptoReq.payloadLen, CryptoReq.payloadLen, hcmd]
  obtain ⟨hin₁, hreply₁⟩ := (cryptoReply_some_iff (by rw [← hone]; exact hbuf')).mp hr₁
  obtain ⟨hin₀, hreply₀⟩ := (cryptoReply_some_iff (by rw [← hzero]; exact hbuf')).mp hr₀
  obtain ⟨_, hpayload⟩ := reply_eq_iff.mp (Option.some.inj (hreply₁.symm.trans hreply₀))
  -- a byte that is not received
  have hlast : ∀ e : CryptoEnv, request.length < sizeofCryptoSrvMsg + cryptoSrvPayloadSize →
      (readRequest e request).payload (cryptoSrvPayloadSize - 1) =
        e.heap (cryptoSrvPayloadSize - 1) := by
    intro e hshort
    apply readRequest_payload_heap
    rw [length_received]
    simp only [cryptoSrvPayloadSize, sizeofCryptoSrvMsg] at hshort ⊢
    omega
  by_cases hnone : env.key = none ∨ env.mallocData = false
  · have hnone₁ : e₁.key = none ∨ e₁.mallocData = false := by rw [← hone]; exact hnone
    have hnone₀ : e₀.key = none ∨ e₀.mallocData = false := by rw [← hzero]; exact hnone
    have hshort : request.length < sizeofCryptoSrvMsg + cryptoSrvPayloadSize := by
      by_contra hlong
      have hno := hrest (Nat.le_of_not_lt hlong)
      rw [not_or, not_or] at hno
      rcases hnone with hnone | hnone
      · exact hno.1 hnone
      · exact hno.2.1 hnone
    rw [cryptoSrvProcessReq_none hnone₁, cryptoSrvProcessReq_none hnone₀] at hpayload
    have hbyte := hpayload (cryptoSrvPayloadSize - 1) (by decide)
    rw [hlast e₁ hshort, hlast e₀ hshort, hheap₁, hheap₀] at hbyte
    exact absurd hbyte (by decide)
  · rw [not_or] at hnone
    obtain ⟨key, hsome⟩ := Option.ne_none_iff_exists'.mp hnone.1
    have hyes : env.mallocData = true := by simpa using hnone.2
    have hsome₁ : e₁.key = some key := by rw [← hone]; exact hsome
    have hsome₀ : e₀.key = some key := by rw [← hzero]; exact hsome
    have hyes₁ : e₁.mallocData = true := by rw [← hone]; exact hyes
    have hyes₀ : e₀.mallocData = true := by rw [← hzero]; exact hyes
    have hfits := (cryptoSrvProcessReq_inside hsome₀ hyes₀).mp hin₀
    have hfield : (readRequest e₁ request).cmdField = (readRequest e₀ request).cmdField := by
      rw [CryptoReq.cmdField, CryptoReq.cmdField, hcmd]
    rw [cryptoSrvProcessReq_some hsome₁ hyes₁, cryptoSrvProcessReq_some hsome₀ hyes₀, hlen,
      hfield] at hpayload
    have hround : aesBlockSize * blockCount (readRequest e₀ request).payloadLen ≤
        cryptoSrvPayloadSize := by
      rw [blockCount_eq hfits]
      simp only [aesBlockSize, cryptoSrvPayloadSize] at hfits ⊢
      omega
    -- a byte of the heap that is enciphered shows in the reply
    have hstart : Agree sizeofCryptoSrvMsg (copyPayload (readRequest e₁ request)).cmd
        (copyPayload (readRequest e₀ request)).cmd := fun i _ => congrFun hcmd i
    have hinput := cbcLoop_data_agree hstart (hpayload.mono hround)
    have hheap : ∀ i, i < aesBlockSize * blockCount (readRequest e₀ request).payloadLen →
        ¬((received request).length ≤ i ∨ (readRequest e₀ request).payloadLen ≤ i) := by
      intro i hi hout
      have hbyte := hinput i hi
      rw [copyPayload_data_heap hheap₁ hdata₁ (by rwa [hlen]),
        copyPayload_data_heap hheap₀ hdata₀ hout] at hbyte
      exact absurd hbyte (by decide)
    have hshort : request.length < sizeofCryptoSrvMsg + cryptoSrvPayloadSize := by
      by_contra hlong
      have hno := hrest (Nat.le_of_not_lt hlong)
      have hsent : (readRequest e₀ request).payloadLen = payloadLenReceived request :=
        readRequest_payloadLen_received (by omega)
      rw [not_or, not_or, ← hsent] at hno
      have hpart : ¬(readRequest e₀ request).payloadLen % aesBlockSize = 0 :=
        fun hwhole => hno.2.2 ⟨hfits, hwhole⟩
      refine hheap (readRequest e₀ request).payloadLen ?_ (.inr (Nat.le_refl _))
      rw [blockCount_eq hfits]
      simp only [aesBlockSize] at hpart ⊢
      omega
    by_cases hall : cryptoSrvPayloadSize ≤
        aesBlockSize * blockCount (readRequest e₀ request).payloadLen
    · refine hheap (cryptoSrvPayloadSize - 1) (Nat.lt_of_lt_of_le (by decide) hall) (.inl ?_)
      rw [length_received]
      simp only [cryptoSrvPayloadSize, sizeofCryptoSrvMsg] at hshort ⊢
      omega
    · have hbyte := hpayload (cryptoSrvPayloadSize - 1) (by decide)
      rw [cbcLoop_payload _ (.inr (by omega)), cbcLoop_payload _ (.inr (by omega))] at hbyte
      have hbyte' : (readRequest e₁ request).payload (cryptoSrvPayloadSize - 1) =
          (readRequest e₀ request).payload (cryptoSrvPayloadSize - 1) := hbyte
      rw [hlast e₁ hshort, hlast e₀ hshort, hheap₁, hheap₀] at hbyte'
      exact absurd hbyte' (by decide)

end

/-! ## The passphrase service after `LUKS_NO_PASS_RESPONSE` -/

section

variable {cmac : Block → List UInt8 → Block} {env : KdfEnv} {keys : LuksKeys} {noPass : Bool}
  {runs later' : List ((Nat → UInt8) × List UInt8)} {before later : List (List UInt8)}

/-- A `LUKS_NO_PASS_RESPONSE` request, whole as far as its command goes. -/
def IsNoPassRequest (request : List UInt8) : Prop :=
  4 ≤ request.length ∧ leNat (request.take 4) = luksNoPassResponse

/-- `no_pass_response` after one request after the other. -/
def luksNoPassAfter (cmac : Block → List UInt8 → Block) (env : KdfEnv) (keys : LuksKeys) :
    Bool → List ((Nat → UInt8) × List UInt8) → Bool
  | noPass, [] => noPass
  | noPass, (stack, request) :: rest =>
      luksNoPassAfter cmac env keys (luksSrvHandleMsg cmac env keys noPass stack request).2 rest

/-- After a `LUKS_NO_PASS_RESPONSE` among `before`, the replies to `later` are
the same in any two runs, whatever the keys and what stands on the stack. -/
def LuksSilenced (cmac : Block → List UInt8 → Block) (env : KdfEnv) (noPass : Bool)
    (before later : List (List UInt8)) : Prop :=
  (∃ r ∈ before, IsNoPassRequest r) → ∀ keys keys' runs runs',
    runs.map (·.2) = before ++ later → runs'.map (·.2) = before ++ later →
    (luksReplies cmac env keys noPass runs).drop before.length =
      (luksReplies cmac env keys' noPass runs').drop before.length

theorem luksSrvHandleMsg_silent (stack : Nat → UInt8) (request : List UInt8) :
    luksSrvHandleMsg cmac env keys true stack request =
      (some (bytesAt (write stack 0 (request.take sizeofLuksSrvCmdMsg)) 0 sizeofLuksSrvCmdMsg),
        true) := rfl

theorem luksNoPassAfter_true : luksNoPassAfter cmac env keys true runs = true := by
  induction runs with
  | nil => rfl
  | cons run rest ih => exact ih

/-- The flag is set by the request, and stays. -/
theorem luksNoPassAfter_request (h : ∃ r ∈ runs.map (·.2), IsNoPassRequest r) :
    luksNoPassAfter cmac env keys noPass runs = true := by
  induction runs generalizing noPass with
  | nil =>
      obtain ⟨r, hr, _⟩ := h
      cases hr
  | cons run rest ih =>
      obtain ⟨stack, request⟩ := run
      obtain ⟨r, hr, hpass⟩ := h
      rw [luksNoPassAfter]
      rcases List.mem_cons.mp hr with heq | hr
      · rw [heq] at hpass
        have hcmd := (@cmdAt_received stack sizeofLuksSrvCmdMsg request hpass.1
          (by decide)).trans hpass.2
        have hset : (luksSrvHandleMsg cmac env keys noPass stack request).2 = true := by
          rw [luksSrvHandleMsg, luksSrvProcessReq, hcmd]
          cases noPass with
          | true => rfl
          | false => rfl
        rw [hset]
        exact luksNoPassAfter_true
      · exact ih ⟨r, hr, hpass⟩

theorem luksReplies_drop (xs ys : List ((Nat → UInt8) × List UInt8)) :
    (luksReplies cmac env keys noPass (xs ++ ys)).drop xs.length =
      luksReplies cmac env keys (luksNoPassAfter cmac env keys noPass xs) ys := by
  induction xs generalizing noPass with
  | nil => rfl
  | cons x xs ih => exact ih

theorem luksReplies_silent : luksReplies cmac env keys true later' = later'.map (fun run =>
    some (bytesAt (write run.1 0 (run.2.take sizeofLuksSrvCmdMsg)) 0 sizeofLuksSrvCmdMsg)) := by
  induction later' with
  | nil => rfl
  | cons run rest ih =>
      rw [List.map_cons, ← ih]
      rfl

/-- What is sent in a run after the request. -/
theorem luksReplies_after (h : ∃ r ∈ before, IsNoPassRequest r)
    (hruns : runs.map (·.2) = before ++ later) :
    ∃ ys : List ((Nat → UInt8) × List UInt8), ys.map (·.2) = later ∧ (luksReplies cmac env keys noPass runs).drop before.length =
      ys.map (fun run =>
        some (bytesAt (write run.1 0 (run.2.take sizeofLuksSrvCmdMsg)) 0 sizeofLuksSrvCmdMsg)) := by
  obtain ⟨xs, ys, rfl, hxs, hys⟩ := List.map_eq_append_iff.mp hruns
  refine ⟨ys, hys, ?_⟩
  have hlen : before.length = xs.length := by rw [← hxs, List.length_map]
  rw [hlen, luksReplies_drop, luksNoPassAfter_request (by rwa [hxs]), luksReplies_silent]

theorem bytesAt_write_take {stack : Nat → UInt8} {request : List UInt8} {n : Nat}
    (h : n ≤ request.length) : bytesAt (write stack 0 (request.take n)) 0 n = request.take n := by
  have hall := bytesAt_write stack 0 (request.take n)
  rwa [List.length_take, Nat.min_eq_left h] at hall

theorem luksSilenced_iff : LuksSilenced cmac env noPass before later ↔
    ((∃ r ∈ before, IsNoPassRequest r) → ∀ r ∈ later, sizeofLuksSrvCmdMsg ≤ r.length) := by
  constructor
  · intro h hpass r hr
    by_contra hshort
    have hkeys : LuksKeys := ⟨Vector.replicate 16 0, Vector.replicate 16 0⟩
    have hmap : ∀ (b : UInt8) (l : List (List UInt8)),
        (l.map fun r => ((fun _ : Nat => b), r)).map (·.2) = l := by
      intro b l
      rw [List.map_map]
      exact List.map_id _
    have heq := h hpass hkeys hkeys _ _ (hmap 1 _) (hmap 2 _)
    have hafter : ∀ b : UInt8, (luksReplies cmac env hkeys noPass
        ((before ++ later).map fun r => ((fun _ : Nat => b), r))).drop before.length =
        later.map (fun r => some (bytesAt (write (fun _ => b) 0 (r.take sizeofLuksSrvCmdMsg)) 0
          sizeofLuksSrvCmdMsg)) := by
      intro b
      have hdrop := @luksReplies_drop cmac env hkeys noPass
        (before.map fun r => ((fun _ : Nat => b), r)) (later.map fun r => ((fun _ : Nat => b), r))
      rw [List.length_map] at hdrop
      rw [List.map_append, hdrop, luksNoPassAfter_request (by rwa [hmap]),
        luksReplies_silent, List.map_map]
      rfl
    rw [hafter 1, hafter 2] at heq
    have hreply := Option.some.inj (List.map_inj_left.mp heq r hr)
    -- the last byte is not received
    have hbyte := eq_of_bytesAt_eq hreply (sizeofLuksSrvCmdMsg - 1) (by decide)
    rw [write_take_outside (by omega), write_take_outside (by omega)] at hbyte
    exact absurd hbyte (by decide)
  · intro h hpass keys keys' runs runs' hruns hruns'
    obtain ⟨ys, hys, hreplies⟩ := @luksReplies_after cmac env keys noPass _ _ _ hpass hruns
    obtain ⟨ys', hys', hreplies'⟩ := @luksReplies_after cmac env keys' noPass _ _ _ hpass hruns'
    have hsent : ∀ zs : List ((Nat → UInt8) × List UInt8), zs.map (·.2) = later →
        zs.map (fun run => some (bytesAt (write run.1 0 (run.2.take sizeofLuksSrvCmdMsg)) 0
          sizeofLuksSrvCmdMsg)) = later.map (fun r => some (r.take sizeofLuksSrvCmdMsg)) := by
      intro zs hzs
      rw [← hzs, List.map_map]
      apply List.map_congr_left
      intro run hrun
      have hmem : run.2 ∈ later := by
        rw [← hzs]
        exact List.mem_map_of_mem hrun
      exact congrArg some (bytesAt_write_take (h hpass run.2 hmem))
    rw [hreplies, hreplies', hsent ys hys, hsent ys' hys']

end

/-! ## All three services -/

/-- The reply of the key service does not tell what stood on the stack. -/
def GetKeyDetermined (key : Option Block) (ecid : Block) (request : List UInt8) : Prop :=
  ∀ s s', getKeySrvHandleMsg key ecid s request = getKeySrvHandleMsg key ecid s' request

/-- The reply of the passphrase service is defined, and does not tell what
stood on the stack. -/
def LuksDetermined (cmac : Block → List UInt8 → Block) (env : KdfEnv) (keys : LuksKeys)
    (noPass : Bool) (request : List UInt8) : Prop :=
  ∀ s s', ∃ r, (luksSrvHandleMsg cmac env keys noPass s request).1 = some r ∧
    (luksSrvHandleMsg cmac env keys noPass s' request).1 = some r

/-- The reply of the encryption service is defined, and does not tell what
stood on the stack and in the heap. -/
def CryptoDetermined (aes : Aes) (env : CryptoEnv) (request : List UInt8) : Prop :=
  ∀ stack heap dataHeap stack' heap' dataHeap', ∃ r,
    cryptoReply aes (env.withMemory stack heap dataHeap) request = some r ∧
      cryptoReply aes (env.withMemory stack' heap' dataHeap') request = some r

theorem cryptoDetermined_iff {aes : Aes} {env : CryptoEnv} {request : List UInt8} :
    CryptoDetermined aes env request ↔ CryptoCovered env request := by
  constructor
  · intro h
    apply crypto_covered_of_determined
    intro b
    exact h _ _ _ _ _ _
  · intro h stack heap dataHeap stack' heap' dataHeap'
    apply crypto_determined_of_covered
    · exact h
    · rfl
    · rfl
    · rfl

/-- When the replies depend on the request, the keys and the flag only. -/
theorem replies_determined_iff (aes : Aes) (cmac : Block → List UInt8 → Block)
    (cryptoEnv : CryptoEnv) (env : KdfEnv) (key : Option Block) (ecid : Block) (keys : LuksKeys)
    (noPass : Bool) (request : List UInt8) (before later : List (List UInt8)) :
    (GetKeyDetermined key ecid request ↔ GetKeyCovered key request) ∧
      (CryptoDetermined aes cryptoEnv request ↔ CryptoCovered cryptoEnv request) ∧
      (LuksDetermined cmac env keys noPass request ↔ LuksCovered env noPass request) ∧
      (LuksSilenced cmac env noPass before later ↔
        ((∃ r ∈ before, IsNoPassRequest r) → ∀ r ∈ later, sizeofLuksSrvCmdMsg ≤ r.length)) :=
  ⟨getKeySrv_determined_iff, cryptoDetermined_iff, luksSrv_determined_iff, luksSilenced_iff⟩

/-- A command and nothing else: 32 bytes of the stack are sent back. -/
theorem bareCommand_not_determined :
    ¬∀ (key : Option Block) (ecid : Block) (request : List UInt8),
      GetKeyDetermined key ecid request := by
  intro h
  have heq := h none (Vector.replicate 16 0) [0, 0, 0, 0] (fun _ => 1) (fun _ => 2)
  have hbyte := eq_of_bytesAt_eq heq 4 (by decide)
  exact absurd hbyte (by decide)

end TX2SecureUart.Hwkey
