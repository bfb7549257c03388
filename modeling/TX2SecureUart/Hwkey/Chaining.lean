/-
# `Hwkey.Chaining` — the service computes CBC

One request gives the CBC encryption or decryption of its payload, and the `iv`
of the reply is the chaining value after it.  So a message can be sent in
several requests, each with the `iv` of the reply before it.
-/
import TX2SecureUart.Hwkey.CryptoService

namespace TX2SecureUart.Hwkey

open Ipc

/-! ## A client of the service -/

/-- `CRYPTO_SRV_PAYLOAD_SIZE`, in blocks -/
def maxBlocks : Nat := cryptoSrvPayloadSize / aesBlockSize

/-- A request with a whole number of blocks. -/
def encodeRequest (cmd : Nat) (iv : Block) (blocks : List Block) : List UInt8 :=
  leBytes 4 cmd ++ iv.toList ++ leBytes 4 (aesBlockSize * blocks.length) ++ toBytes blocks

/-- The first `n` blocks of the payload of a reply, and its `iv`. -/
def decodeReply (n : Nat) (reply : List UInt8) : List Block × Block :=
  (blocksAt (fun k => (reply[k]?).getD 0) sizeofCryptoSrvMsg n,
    blockAt (fun k => (reply[k]?).getD 0) offsetofIv)

/-- One request and its reply. -/
def exchange (aes : Aes) (env : CryptoEnv) (cmd : Nat) (iv : Block) (blocks : List Block) :
    Option (List Block × Block) :=
  (cryptoSrvHandleMsg aes env (encodeRequest cmd iv blocks)).map
    (fun s => decodeReply blocks.length s.reply)

/-- A message in several requests, each with the `iv` of the reply before it. -/
def exchanges (aes : Aes) (cmd : Nat) (iv : Block) :
    List (CryptoEnv × List Block) → Option (List Block)
  | [] => some []
  | (env, blocks) :: rest =>
      match exchange aes env cmd iv blocks with
      | none => none
      | some (out, iv') => (exchanges aes cmd iv' rest).map (out ++ ·)

/-- The allocations succeed, and the key is there. -/
structure CryptoEnv.Ready (env : CryptoEnv) (key : Block) : Prop where
  mallocBuf : env.mallocBuf = true
  key : env.key = some key
  mallocData : env.mallocData = true

/-! ## What is read of a request -/

section

variable {aes : Aes} {key iv : Block} {env : CryptoEnv} {cmd : Nat} {blocks : List Block}

theorem length_toList (b : Block) : b.toList.length = aesBlockSize := b.length_toList

theorem write_bytesAt {mem mem' : Nat → UInt8} {k len : Nat} (h : k < len) :
    write mem 0 (bytesAt mem' 0 len) k = mem' k := by
  simp [write, bytesAt, h]

theorem take_encodeRequest : (encodeRequest cmd iv blocks).take sizeofCryptoSrvMsg =
    leBytes 4 cmd ++ iv.toList ++ leBytes 4 (aesBlockSize * blocks.length) := by
  rw [encodeRequest]
  apply List.take_left'
  simp [aesBlockSize, sizeofCryptoSrvMsg]

theorem received_encodeRequest (h : blocks.length ≤ maxBlocks) :
    received (encodeRequest cmd iv blocks) = toBytes blocks := by
  have hdrop : (encodeRequest cmd iv blocks).drop sizeofCryptoSrvMsg = toBytes blocks := by
    rw [encodeRequest]
    apply List.drop_left'
    simp [aesBlockSize, sizeofCryptoSrvMsg]
  rw [received, hdrop, List.take_of_length_le]
  rw [length_toBytes]
  simp only [maxBlocks, cryptoSrvPayloadSize, aesBlockSize] at h ⊢
  omega

/-- The three fields, one write after the other. -/
theorem readRequest_cmd : (readRequest env (encodeRequest cmd iv blocks)).cmd =
    write (write (write env.stack 0 (leBytes 4 cmd)) offsetofIv iv.toList) offsetofPayloadLen
      (leBytes 4 (aesBlockSize * blocks.length)) := by
  have h₁ := write_write env.stack 0 (leBytes 4 cmd) iv.toList
  have h₂ := write_write env.stack 0 (leBytes 4 cmd ++ iv.toList)
    (leBytes 4 (aesBlockSize * blocks.length))
  rw [List.length_append, length_leBytes, length_toList] at h₂
  rw [length_leBytes] at h₁
  rw [readRequest, take_encodeRequest, ← h₂, ← h₁]
  rfl

theorem readRequest_cmdField (hcmd : cmd < 2 ^ 32) :
    (readRequest env (encodeRequest cmd iv blocks)).cmdField = cmd := by
  have hbytes := bytesAt_write env.stack 0 (leBytes 4 cmd)
  rw [length_leBytes] at hbytes
  rw [CryptoReq.cmdField, readRequest_cmd, bytesAt_write_of_disjoint, bytesAt_write_of_disjoint,
    hbytes, leNat_leBytes]
  · exact Nat.mod_eq_of_lt hcmd
  · exact .inl (by decide)
  · exact .inl (by decide)

theorem readRequest_iv :
    blockAt (readRequest env (encodeRequest cmd iv blocks)).cmd offsetofIv = iv := by
  rw [readRequest_cmd]
  refine (blockAt_congr ?_).trans
    (blockAt_write (write env.stack 0 (leBytes 4 cmd)) offsetofIv iv)
  intro k _ hk
  exact write_outside (.inl hk)

theorem readRequest_payloadLen (h : blocks.length ≤ maxBlocks) :
    (readRequest env (encodeRequest cmd iv blocks)).payloadLen = aesBlockSize * blocks.length := by
  have hbytes := bytesAt_write (write (write env.stack 0 (leBytes 4 cmd)) offsetofIv iv.toList)
    offsetofPayloadLen (leBytes 4 (aesBlockSize * blocks.length))
  rw [length_leBytes] at hbytes
  rw [CryptoReq.payloadLen, readRequest_cmd, hbytes, leNat_leBytes]
  apply Nat.mod_eq_of_lt
  simp only [maxBlocks, cryptoSrvPayloadSize, aesBlockSize] at h ⊢
  omega

theorem readRequest_payload (h : blocks.length ≤ maxBlocks) :
    blocksAt (readRequest env (encodeRequest cmd iv blocks)).payload 0 blocks.length = blocks := by
  rw [readRequest, received_encodeRequest h]
  exact blocksAt_write env.heap 0 blocks

/-! ## The reply -/

/-- What a client reads of the reply. -/
theorem decodeReply_reply (s : CryptoReq) {n : Nat} (h : n ≤ maxBlocks) :
    decodeReply n s.reply = (blocksAt s.payload 0 n, blockAt s.cmd offsetofIv) := by
  have hget : ∀ k, k < sizeofCryptoSrvMsg → (s.reply[k]?).getD 0 = s.cmd k := by
    intro k hk
    rw [CryptoReq.reply, List.getElem?_append_left (by rwa [length_bytesAt])]
    simp [bytesAt, hk]
  have hpayload : ∀ k, k < cryptoSrvPayloadSize →
      (s.reply[sizeofCryptoSrvMsg + k]?).getD 0 = s.payload k := by
    intro k hk
    rw [CryptoReq.reply, List.getElem?_append_right (by rw [length_bytesAt]; omega), length_bytesAt]
    simp [bytesAt, hk]
  have hblocks : blocksAt (fun k => (s.reply[k]?).getD 0) (sizeofCryptoSrvMsg + 0) n =
      blocksAt s.payload 0 n := by
    apply blocksAt_shift
    intro k _ hk
    refine hpayload k ?_
    simp only [maxBlocks, cryptoSrvPayloadSize, aesBlockSize] at h hk ⊢
    omega
  have hiv : blockAt (fun k => (s.reply[k]?).getD 0) offsetofIv = blockAt s.cmd offsetofIv := by
    apply blockAt_congr
    intro k _ hk
    refine hget k ?_
    simp only [offsetofIv, aesBlockSize, sizeofCryptoSrvMsg] at hk ⊢
    omega
  rw [decodeReply, hiv]
  rw [Nat.add_zero] at hblocks
  rw [hblocks]

/-- A request gives what `AES_cbc_encrypt` gives on its whole payload. -/
theorem exchange_eq (henv : env.Ready key) (hcmd : cmd < 2 ^ 32) (h : blocks.length ≤ maxBlocks) :
    exchange aes env cmd iv blocks =
      some (aesCbcEncrypt aes key (cmd == cryptoSrvCmdEncrypt) iv blocks) := by
  have hrun : cryptoSrvHandleMsg aes env (encodeRequest cmd iv blocks) =
      some (cryptoSrvProcessReq aes env (readRequest env (encodeRequest cmd iv blocks))).sent := by
    rw [cryptoSrvHandleMsg, if_neg (by simp [henv.mallocBuf])]
  have hlen : (readRequest env (encodeRequest cmd iv blocks)).payloadLen =
      aesBlockSize * blocks.length := readRequest_payloadLen h
  have hcount : blockCount (aesBlockSize * blocks.length) = blocks.length := by
    have hfit : aesBlockSize * blocks.length ≤ cryptoSrvPayloadSize := by
      simp only [maxBlocks, cryptoSrvPayloadSize, aesBlockSize] at h ⊢
      omega
    rw [blockCount_eq hfit]
    simp only [aesBlockSize]
    omega
  rw [exchange, hrun, Option.map_some, decodeReply_reply _ h,
    cryptoSrvProcessReq_some henv.key henv.mallocData, readRequest_cmdField hcmd, hlen, hcount]
  obtain ⟨hblocks, hiv⟩ := @cbcLoop_blocks aes key (cmd == cryptoSrvCmdEncrypt)
    (copyPayload (readRequest env (encodeRequest cmd iv blocks))) blocks.length 0
  -- the copy of the payload holds its blocks
  have hdata : blocksAt (copyPayload (readRequest env (encodeRequest cmd iv blocks))).data 0
      blocks.length = blocks := by
    have hpayload : blocksAt (readRequest env (encodeRequest cmd iv blocks)).payload 0
        blocks.length = blocks := readRequest_payload h
    refine Eq.trans (blocksAt_congr ?_) hpayload
    intro k _ hk
    rw [Nat.zero_add] at hk
    rw [copyPayload, hlen]
    exact write_bytesAt hk
  have hiv₀ : blockAt (copyPayload (readRequest env (encodeRequest cmd iv blocks))).cmd offsetofIv =
      iv := readRequest_iv
  rw [hdata, hiv₀] at hblocks hiv
  change some (blocksAt (cbcLoop ..).payload 0 _, blockAt (cbcLoop ..).cmd _) = _
  rw [hblocks, hiv]

/-- Several requests give what one call over all their blocks gives. -/
theorem exchanges_eq (hcmd : cmd < 2 ^ 32) (parts : List (CryptoEnv × List Block))
    (hparts : ∀ p ∈ parts, p.1.Ready key ∧ p.2.length ≤ maxBlocks) :
    exchanges aes cmd iv parts =
      some (aesCbcEncrypt aes key (cmd == cryptoSrvCmdEncrypt) iv (parts.flatMap (·.2))).1 := by
  induction parts generalizing iv with
  | nil =>
      cases hc : cmd == cryptoSrvCmdEncrypt with
      | true => rfl
      | false => rfl
  | cons p rest ih =>
      obtain ⟨hready, hlen⟩ := hparts p (List.mem_cons_self ..)
      have hrest := @ih (aesCbcEncrypt aes key (cmd == cryptoSrvCmdEncrypt) iv p.2).2
        (fun q hq => hparts q (List.mem_cons_of_mem _ hq))
      rw [exchanges, exchange_eq hready hcmd hlen, List.flatMap_cons, aesCbcEncrypt_append]
      dsimp only
      rw [hrest]
      rfl

end

/-- An ENCRYPT request gives the CBC encryption of its payload, a DECRYPT
request with the same `iv` gives the payload back, and a message in several
requests gives the bytes of one run over all of it, in both directions. -/
theorem cryptoSrv_chains (aes : Aes) (key iv : Block) (env env' : CryptoEnv) (blocks : List Block)
    (parts : List (CryptoEnv × List Block)) (henv : env.Ready key) (henv' : env'.Ready key)
    (hblocks : blocks.length ≤ maxBlocks)
    (hparts : ∀ p ∈ parts, p.1.Ready key ∧ p.2.length ≤ maxBlocks) :
    (exchange aes env cryptoSrvCmdEncrypt iv blocks).map (·.1) =
        some (Cbc.encrypt xorBlock (aes key) iv blocks) ∧
      (exchange aes env' cryptoSrvCmdDecrypt iv (Cbc.encrypt xorBlock (aes key) iv blocks)).map
        (·.1) = some blocks ∧
      exchanges aes cryptoSrvCmdEncrypt iv parts =
        some (Cbc.encrypt xorBlock (aes key) iv (parts.flatMap (·.2))) ∧
      exchanges aes cryptoSrvCmdDecrypt iv parts =
        some (Cbc.decrypt xorBlock (aes key).symm iv (parts.flatMap (·.2))) := by
  refine ⟨?_, ?_, ?_, ?_⟩
  · rw [exchange_eq henv (by decide) hblocks]
    rfl
  · rw [exchange_eq henv' (by decide) (by rwa [Cbc.length_encrypt])]
    exact congrArg some (aesCbcDecrypt_encrypt aes key iv blocks)
  · rw [exchanges_eq (by decide) parts hparts]
    rfl
  · rw [exchanges_eq (by decide) parts hparts]
    rfl

theorem cryptoEnvZero_ready : cryptoEnvZero.Ready (Vector.replicate 16 0) := ⟨rfl, rfl, rfl⟩

theorem cryptoSrv_chains_zero :
    (exchange (fun _ => Equiv.refl _) cryptoEnvZero cryptoSrvCmdEncrypt (Vector.replicate 16 0)
        [Vector.replicate 16 1]).map (·.1) =
      some (Cbc.encrypt xorBlock (Equiv.refl _) (Vector.replicate 16 0) [Vector.replicate 16 1]) :=
  (cryptoSrv_chains (fun _ => Equiv.refl _) (Vector.replicate 16 0) (Vector.replicate 16 0)
    cryptoEnvZero cryptoEnvZero [Vector.replicate 16 1]
    [(cryptoEnvZero, [Vector.replicate 16 1]), (cryptoEnvZero, [Vector.replicate 16 2])]
    cryptoEnvZero_ready cryptoEnvZero_ready (by decide)
    (by simp [cryptoEnvZero_ready, maxBlocks, cryptoSrvPayloadSize, aesBlockSize])).1

end TX2SecureUart.Hwkey
