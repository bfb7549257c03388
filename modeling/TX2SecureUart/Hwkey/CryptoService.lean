/-
# `Hwkey.CryptoService` — the encryption service and its two buffers

`crypto_service.c` with `crypto_srv_handle_msg` of `ipc.c`.  A request is read
into a command structure on the stack and a payload buffer from the heap; the
payload is copied to a second buffer and processed block by block from there.
How many bytes were received is not looked at: the length is a field of the
command.

`log` is no part of the program: the ranges of the two buffers that are read
and written.
-/
import TX2SecureUart.Hwkey.Aes
import TX2SecureUart.Lib.LeBytes
import TX2SecureUart.Err

namespace TX2SecureUart.Hwkey

open Ipc

/-! ## Requests -/

/-- `CRYPTO_SRV_PAYLOAD_SIZE` -/
def cryptoSrvPayloadSize : Nat := 2048

/-- `sizeof(crypto_srv_msg_t)` -/
def sizeofCryptoSrvMsg : Nat := 24

/-- `offsetof(crypto_srv_msg_t, iv)` -/
def offsetofIv : Nat := 4

/-- `offsetof(crypto_srv_msg_t, payload_len)` -/
def offsetofPayloadLen : Nat := 20

/-- `CRYPTO_SRV_CMD_ENCRYPT` -/
def cryptoSrvCmdEncrypt : Nat := 1

/-- `CRYPTO_SRV_CMD_DECRYPT` -/
def cryptoSrvCmdDecrypt : Nat := 2

/-- `_msg_buf`, and `data` of `crypto_srv_process_req`. -/
inductive CryptoBuf where
  | payload
  | data
deriving DecidableEq

/-- A range of a buffer that is accessed. -/
structure BufAccess where
  buf : CryptoBuf
  write : Bool
  pos : Nat
  len : Nat
deriving DecidableEq

/-- What a request meets: the allocations, the key, and what stands in the
command structure and in the two buffers before. -/
structure CryptoEnv where
  mallocBuf : Bool
  key : Option Block
  mallocData : Bool
  stack : Nat → UInt8
  heap : Nat → UInt8
  dataHeap : Nat → UInt8

structure CryptoReq where
  cmd : Nat → UInt8
  payload : Nat → UInt8
  data : Nat → UInt8
  log : List BufAccess

/-- `msg->cmd` -/
def CryptoReq.cmdField (s : CryptoReq) : Nat := leNat (bytesAt s.cmd 0 4)

/-- `msg->payload_len` -/
def CryptoReq.payloadLen (s : CryptoReq) : Nat := leNat (bytesAt s.cmd offsetofPayloadLen 4)

/-- The payload bytes of a request that `read_msg` has room for. -/
def received (request : List UInt8) : List UInt8 :=
  (request.drop sizeofCryptoSrvMsg).take cryptoSrvPayloadSize

/-- `read_msg` with the two entries of `iov`. -/
def readRequest (env : CryptoEnv) (request : List UInt8) : CryptoReq where
  cmd := write env.stack 0 (request.take sizeofCryptoSrvMsg)
  payload := write env.heap 0 (received request)
  data := env.dataHeap
  log := [⟨.payload, true, 0, (received request).length⟩]

/-! ## Processing -/

/-- How often the loop runs, with the length as an `int`. -/
def blockCount (payloadLen : Nat) : Nat :=
  if payloadLen < 2 ^ 31 then (payloadLen + (aesBlockSize - 1)) / aesBlockSize else 0

/-- One pass of the loop. -/
def cbcStep (aes : Aes) (key : Block) (enc : Bool) (idx : Nat) (s : CryptoReq) : CryptoReq :=
  let r := aesCbcBlock aes key enc (blockAt s.cmd offsetofIv) (blockAt s.data idx)
  { s with
    cmd := write s.cmd offsetofIv r.2.toList
    payload := write s.payload idx r.1.toList
    log := s.log ++ [⟨.data, false, idx, aesBlockSize⟩, ⟨.payload, true, idx, aesBlockSize⟩] }

/-- The loop with `n` blocks to go from `idx` on. -/
def cbcLoop (aes : Aes) (key : Block) (enc : Bool) : Nat → Nat → CryptoReq → CryptoReq
  | 0, _, s => s
  | n + 1, idx, s => cbcLoop aes key enc n (idx + aesBlockSize) (cbcStep aes key enc idx s)

/-- `memcpy(data, payload, payload_len)` -/
def copyPayload (s : CryptoReq) : CryptoReq :=
  { s with
    data := write s.data 0 (bytesAt s.payload 0 s.payloadLen)
    log := s.log ++ [⟨.payload, false, 0, s.payloadLen⟩, ⟨.data, true, 0, s.payloadLen⟩] }

/-- `crypto_srv_process_req` -/
def cryptoSrvProcessReq (aes : Aes) (env : CryptoEnv) (s : CryptoReq) : CryptoReq :=
  match env.key with
  | none => s
  | some key =>
      if !env.mallocData then s
      else
        cbcLoop aes key (s.cmdField == cryptoSrvCmdEncrypt) (blockCount s.payloadLen) 0
          (copyPayload s)

/-- The reply is sent from the command structure and the whole payload buffer. -/
def CryptoReq.sent (s : CryptoReq) : CryptoReq :=
  { s with log := s.log ++ [⟨.payload, false, 0, cryptoSrvPayloadSize⟩] }

def CryptoReq.reply (s : CryptoReq) : List UInt8 :=
  bytesAt s.cmd 0 sizeofCryptoSrvMsg ++ bytesAt s.payload 0 cryptoSrvPayloadSize

/-- `crypto_srv_handle_msg` up to the reply; `none` where there is none. -/
def cryptoSrvHandleMsg (aes : Aes) (env : CryptoEnv) (request : List UInt8) : Option CryptoReq :=
  if !env.mallocBuf then none
  else some (cryptoSrvProcessReq aes env (readRequest env request)).sent

/-! ## The loop -/

section

variable {aes : Aes} {key : Block} {enc : Bool} {s : CryptoReq} {env : CryptoEnv}
  {request : List UInt8}

theorem cbcStep_payload {idx k : Nat} (h : k < idx ∨ idx + aesBlockSize ≤ k) :
    (cbcStep aes key enc idx s).payload k = s.payload k :=
  write_outside (by rwa [Vector.length_toList])

theorem cbcStep_cmd {idx k : Nat} (h : k < offsetofIv ∨ offsetofPayloadLen ≤ k) :
    (cbcStep aes key enc idx s).cmd k = s.cmd k :=
  write_outside (by rwa [Vector.length_toList])

/-- The loop writes its blocks only. -/
theorem cbcLoop_payload (n : Nat) {idx k : Nat} (h : k < idx ∨ idx + aesBlockSize * n ≤ k) :
    (cbcLoop aes key enc n idx s).payload k = s.payload k := by
  induction n generalizing idx s with
  | zero => rfl
  | succ n ih =>
      rw [Nat.mul_succ] at h
      rw [cbcLoop, ih (by omega), cbcStep_payload (by omega)]

/-- The loop changes nothing of the command but `iv`. -/
theorem cbcLoop_cmd (n : Nat) {idx k : Nat} (h : k < offsetofIv ∨ offsetofPayloadLen ≤ k) :
    (cbcLoop aes key enc n idx s).cmd k = s.cmd k := by
  induction n generalizing idx s with
  | zero => rfl
  | succ n ih => rw [cbcLoop, ih, cbcStep_cmd h]

/-- The blocks written and `iv` are those of one call of `AES_cbc_encrypt` over
all the blocks. -/
theorem cbcLoop_blocks (n idx : Nat) :
    blocksAt (cbcLoop aes key enc n idx s).payload idx n =
        (aesCbcEncrypt aes key enc (blockAt s.cmd offsetofIv) (blocksAt s.data idx n)).1 ∧
      blockAt (cbcLoop aes key enc n idx s).cmd offsetofIv =
        (aesCbcEncrypt aes key enc (blockAt s.cmd offsetofIv) (blocksAt s.data idx n)).2 := by
  induction n generalizing idx s with
  | zero =>
      cases enc with
      | true => exact ⟨rfl, rfl⟩
      | false => exact ⟨rfl, rfl⟩
  | succ n ih =>
      obtain ⟨hblocks, hiv⟩ := ih (s := cbcStep aes key enc idx s) (idx + aesBlockSize)
      have hstep : blockAt (cbcStep aes key enc idx s).cmd offsetofIv =
          (aesCbcBlock aes key enc (blockAt s.cmd offsetofIv) (blockAt s.data idx)).2 :=
        blockAt_write ..
      have hdata : (cbcStep aes key enc idx s).data = s.data := rfl
      rw [hstep, hdata] at hblocks hiv
      rw [cbcLoop, blocksAt, blocksAt, aesCbcEncrypt_cons, hblocks, hiv]
      -- the later blocks are written behind this one
      have hhead : blockAt (cbcLoop aes key enc n (idx + aesBlockSize)
          (cbcStep aes key enc idx s)).payload idx =
            (aesCbcBlock aes key enc (blockAt s.cmd offsetofIv) (blockAt s.data idx)).1 := by
        refine (blockAt_congr ?_).trans (blockAt_write s.payload idx _)
        intro k _ hk
        exact cbcLoop_payload n (Or.inl hk)
      rw [hhead]
      exact ⟨rfl, rfl⟩

/-- The accesses of the loop. -/
theorem mem_cbcLoop_log (n idx : Nat) (a : BufAccess) :
    a ∈ (cbcLoop aes key enc n idx s).log ↔ a ∈ s.log ∨ ∃ i < n,
      a = ⟨.data, false, idx + aesBlockSize * i, aesBlockSize⟩ ∨
        a = ⟨.payload, true, idx + aesBlockSize * i, aesBlockSize⟩ := by
  induction n generalizing idx s with
  | zero => simp [cbcLoop]
  | succ n ih =>
      have hstep : a ∈ (cbcStep aes key enc idx s).log ↔ a ∈ s.log ∨
          a = ⟨.data, false, idx, aesBlockSize⟩ ∨ a = ⟨.payload, true, idx, aesBlockSize⟩ := by
        simp [cbcStep]
      rw [cbcLoop, ih, hstep]
      constructor
      · rintro ((hmem | hhead) | ⟨i, hi, htail⟩)
        · exact .inl hmem
        · exact .inr ⟨0, Nat.succ_pos n, by simpa using hhead⟩
        · refine .inr ⟨i + 1, Nat.succ_lt_succ hi, ?_⟩
          rw [Nat.mul_succ, Nat.add_comm (aesBlockSize * i), ← Nat.add_assoc]
          exact htail
      · rintro (hmem | ⟨i, hi, hacc⟩)
        · exact .inl (.inl hmem)
        · cases i with
          | zero => exact .inl (.inr (by simpa using hacc))
          | succ i =>
              refine .inr ⟨i, Nat.lt_of_succ_lt_succ hi, ?_⟩
              rw [Nat.mul_succ, Nat.add_comm (aesBlockSize * i), ← Nat.add_assoc] at hacc
              exact hacc

theorem length_received_le : (received request).length ≤ cryptoSrvPayloadSize := by
  rw [received, List.length_take]
  exact Nat.min_le_left _ _

/-- What is processed of a request: nothing without a key and a second buffer. -/
theorem cryptoSrvProcessReq_some (hkey : env.key = some key) (hdata : env.mallocData = true) :
    cryptoSrvProcessReq aes env s =
      cbcLoop aes key (s.cmdField == cryptoSrvCmdEncrypt) (blockCount s.payloadLen) 0
        (copyPayload s) := by
  rw [cryptoSrvProcessReq, hkey]
  exact if_neg (by simp [hdata])

theorem cryptoSrvProcessReq_none (h : env.key = none ∨ env.mallocData = false) :
    cryptoSrvProcessReq aes env s = s := by
  rw [cryptoSrvProcessReq]
  cases hkey : env.key with
  | none => rfl
  | some key =>
      rcases h with h | h
      · rw [hkey] at h
        cases h
      · exact if_pos (by simp [h])

/-- A length that is received whole, up to the next block. -/
theorem blockCount_eq {n : Nat} (h : n ≤ cryptoSrvPayloadSize) :
    blockCount n = (n + (aesBlockSize - 1)) / aesBlockSize := by
  rw [blockCount, if_pos]
  rw [cryptoSrvPayloadSize] at h
  omega

end

/-! ## The buffers are not left -/

/-- What the service promises about the two buffers, whatever the request. -/
structure CryptoConfined (aes : Aes) (env : CryptoEnv) (request : List UInt8) : Prop where
  inside : ∀ t, cryptoSrvHandleMsg aes env request = some t →
    ∀ a ∈ t.log, a.pos + a.len ≤ cryptoSrvPayloadSize
  /-- only payload bytes that were received are read, written and processed -/
  onlyReceived : env.mallocBuf = true →
    ∀ a ∈ (cryptoSrvProcessReq aes env (readRequest env request)).log,
      a.pos + a.len ≤ (received request).length
  /-- a length that does not fit changes no memory -/
  refused : env.mallocBuf = true →
    (received request).length < (readRequest env request).payloadLen →
    cryptoSrvProcessReq aes env (readRequest env request) = readRequest env request

/-- Nothing is processed, or the blocks that `payload_len` stands for have all
been received. -/
def LengthFits (env : CryptoEnv) (request : List UInt8) : Prop :=
  env.mallocBuf = false ∨ env.key = none ∨ env.mallocData = false ∨
    ((readRequest env request).payloadLen + (aesBlockSize - 1)) / aesBlockSize * aesBlockSize ≤
      (received request).length

/-- The service stays inside its buffers and the request exactly then. -/
theorem cryptoSrv_confined_iff (aes : Aes) (env : CryptoEnv) (request : List UInt8) :
    CryptoConfined aes env request ↔ LengthFits env request := by
  have hrecv : (received request).length ≤ cryptoSrvPayloadSize := length_received_le
  cases hbuf : env.mallocBuf with
  | false =>
      refine ⟨fun _ => .inl hbuf, fun _ => ⟨?_, ?_, ?_⟩⟩
      · intro t ht
        rw [cryptoSrvHandleMsg, if_pos (by simp [hbuf])] at ht
        cases ht
      · intro h
        rw [hbuf] at h
        cases h
      · intro h
        rw [hbuf] at h
        cases h
  | true =>
      have hrun : cryptoSrvHandleMsg aes env request =
          some (cryptoSrvProcessReq aes env (readRequest env request)).sent := by
        rw [cryptoSrvHandleMsg, if_neg (by simp [hbuf])]
      -- what is read and written inside the request is inside the buffers
      have hsent : (∀ a ∈ (cryptoSrvProcessReq aes env (readRequest env request)).log,
            a.pos + a.len ≤ (received request).length) →
          ∀ t, cryptoSrvHandleMsg aes env request = some t →
            ∀ a ∈ t.log, a.pos + a.len ≤ cryptoSrvPayloadSize := by
        intro h t ht a ha
        rw [hrun] at ht
        cases ht
        rcases List.mem_append.mp ha with ha | ha
        · exact (h a ha).trans hrecv
        · rw [List.mem_singleton.mp ha, Nat.zero_add]
      by_cases hproc : env.key = none ∨ env.mallocData = false
      · have hlog : ∀ a ∈ (cryptoSrvProcessReq aes env (readRequest env request)).log,
            a.pos + a.len ≤ (received request).length := by
          intro a ha
          rw [cryptoSrvProcessReq_none hproc] at ha
          rw [List.mem_singleton.mp ha, Nat.zero_add]
        exact ⟨fun _ => .inr (hproc.imp_right .inl), fun _ => ⟨hsent hlog, fun _ => hlog,
          fun _ _ => cryptoSrvProcessReq_none hproc⟩⟩
      rw [not_or] at hproc
      obtain ⟨key, hkey⟩ := Option.ne_none_iff_exists'.mp hproc.1
      have hdata : env.mallocData = true := by simpa using hproc.2
      have hproc' := @cryptoSrvProcessReq_some aes key (readRequest env request) env hkey hdata
      constructor
      · intro h
        refine .inr (.inr (.inr ?_))
        have hall := h.onlyReceived hbuf
        rw [hproc'] at hall
        -- the copy of the payload
        have hcopy := hall ⟨.payload, false, 0, (readRequest env request).payloadLen⟩
          ((mem_cbcLoop_log _ _ _).mpr (.inl (by simp [copyPayload])))
        rw [Nat.zero_add] at hcopy
        have hcount := blockCount_eq (hcopy.trans hrecv)
        cases hn : ((readRequest env request).payloadLen + (aesBlockSize - 1)) / aesBlockSize with
        | zero => simp
        | succ n =>
            -- and the last block
            have hlast := hall ⟨.data, false, 0 + aesBlockSize * n, aesBlockSize⟩
              ((mem_cbcLoop_log _ _ _).mpr (.inr ⟨n, by rw [hcount, hn]; exact n.lt_add_one, .inl rfl⟩))
            simp only [Nat.zero_add] at hlast
            rw [Nat.succ_mul, Nat.mul_comm]
            exact hlast
      · intro h
        have hfit : ((readRequest env request).payloadLen + (aesBlockSize - 1)) / aesBlockSize *
            aesBlockSize ≤ (received request).length := by
          rcases h with hno | hno | hno | hfit
          · rw [hbuf] at hno
            cases hno
          · exact absurd hno hproc.1
          · exact absurd hno hproc.2
          · exact hfit
        have hlen : (readRequest env request).payloadLen ≤ (received request).length := by
          simp only [aesBlockSize] at hfit
          omega
        have hlog : ∀ a ∈ (cryptoSrvProcessReq aes env (readRequest env request)).log,
            a.pos + a.len ≤ (received request).length := by
          intro a ha
          rw [hproc', mem_cbcLoop_log, blockCount_eq (hlen.trans hrecv)] at ha
          rcases ha with ha | ⟨i, hi, hacc⟩
          · have hcases : a = ⟨.payload, true, 0, (received request).length⟩ ∨
                a = ⟨.payload, false, 0, (readRequest env request).payloadLen⟩ ∨
                a = ⟨.data, true, 0, (readRequest env request).payloadLen⟩ := by
              simpa [copyPayload, readRequest] using ha
            rcases hcases with rfl | rfl | rfl
            · rw [Nat.zero_add]
            · rw [Nat.zero_add]
              exact hlen
            · rw [Nat.zero_add]
              exact hlen
          · have hend : aesBlockSize * i + aesBlockSize ≤ (received request).length := by
              refine Nat.le_trans ?_ hfit
              rw [← Nat.mul_succ, Nat.mul_comm]
              exact Nat.mul_le_mul_right _ hi
            rcases hacc with rfl | rfl
            · rw [Nat.zero_add]
              exact hend
            · rw [Nat.zero_add]
              exact hend
        exact ⟨hsent hlog, fun _ => hlog, fun _ hlong => absurd hlen (Nat.not_le.mpr hlong)⟩

/-- Every allocation succeeds, and the memory is zero. -/
def cryptoEnvZero : CryptoEnv where
  mallocBuf := true
  key := some (Vector.replicate 16 0)
  mallocData := true
  stack := fun _ => 0
  heap := fun _ => 0
  dataHeap := fun _ => 0

/-- A command without a payload that says there are 4096 bytes. -/
def longRequest : List UInt8 := leBytes 4 1 ++ List.replicate 16 0 ++ leBytes 4 4096

theorem longRequest_not_confined :
    ¬∀ (aes : Aes) (env : CryptoEnv) (request : List UInt8), CryptoConfined aes env request := by
  intro h
  have hconf := h (fun _ => Equiv.refl _) cryptoEnvZero longRequest
  have hlen : (readRequest cryptoEnvZero longRequest).payloadLen = 4096 := by decide +kernel
  have hall := hconf.onlyReceived rfl
  rw [cryptoSrvProcessReq_some rfl rfl] at hall
  have hcopy := hall ⟨.payload, false, 0, (readRequest cryptoEnvZero longRequest).payloadLen⟩
    ((mem_cbcLoop_log _ _ _).mpr (.inl (by simp [copyPayload])))
  rw [hlen] at hcopy
  exact absurd hcopy (by decide +kernel)

end TX2SecureUart.Hwkey
