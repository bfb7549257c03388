/-
# `Hwkey.Replies` — what a reply says about memory

Two runs of a handler get the same request, on stack frames and heap buffers
with different contents.  The replies are equal when every byte that is sent
has been received or written; a short request leaves bytes of the structure as
they were.
-/
import TX2SecureUart.Hwkey.Services
import TX2SecureUart.Hwkey.Chaining

namespace TX2SecureUart.Hwkey

open Ipc

/-! ## Equal memories -/

/-- Two memories agree on the first `n` bytes. -/
def Agree (n : Nat) (m m' : Nat → UInt8) : Prop := ∀ k, k < n → m k = m' k

section

variable {m m' s s' : Nat → UInt8} {n k pos len : Nat} {bytes request : List UInt8}

theorem Agree.mono (h : Agree n m m') (hk : k ≤ n) : Agree k m m' :=
  fun i hi => h i (Nat.lt_of_lt_of_le hi hk)

theorem Agree.bytesAt_eq (h : Agree n m m') (hlen : pos + len ≤ n) :
    bytesAt m pos len = bytesAt m' pos len := by
  apply bytesAt_congr
  intro i _ hi
  exact h i (Nat.lt_of_lt_of_le hi hlen)

/-- A prefix of memory that is written from the start. -/
theorem Agree.of_write (h : n ≤ bytes.length) : Agree n (write s 0 bytes) (write s' 0 bytes) := by
  intro i hi
  have hlt : i < bytes.length := by omega
  simp [write, hlt]

theorem Agree.write (h : Agree n m m') : Agree n (write m pos bytes) (write m' pos bytes) := by
  intro i hi
  simp only [Ipc.write]
  rw [h i hi]

/-- What is written extends what agrees. -/
theorem Agree.write_end (h : Agree pos m m') (bytes : List UInt8) :
    Agree (pos + bytes.length) (Ipc.write m pos bytes) (Ipc.write m' pos bytes) := by
  intro i hi
  simp only [Ipc.write]
  split
  · have hlt : i - pos < bytes.length := by omega
    rw [List.getElem?_eq_getElem hlt]
    rfl
  · rename_i hlow
    exact h i (Nat.lt_of_not_le hlow)

theorem eq_of_bytesAt_eq (h : bytesAt m 0 n = bytesAt m' 0 n) : Agree n m m' := by
  intro i hi
  have hget : (bytesAt m 0 n)[i]? = (bytesAt m' 0 n)[i]? := by rw [h]
  simpa [bytesAt, hi] using hget

/-- Behind what is written, the memory is as it was. -/
theorem write_take_outside (h : request.length ≤ k) :
    Ipc.write s 0 (request.take n) k = s k := by
  apply write_outside
  rw [List.length_take]
  omega

/-- A command of which a byte is missing is not one of the small numbers. -/
theorem cmdAt_short {b : UInt8} (hb : 1 ≤ b.toNat) (h : request.length < 4) :
    2 ^ 24 ≤ cmdAt (Ipc.write (fun _ => b) 0 (request.take n)) := by
  have hlast : Ipc.write (fun _ => b) 0 (request.take n) 3 = b := write_take_outside (by omega)
  have hbytes : ∀ mem : Nat → UInt8, bytesAt mem 0 4 = [mem 0, mem 1, mem 2, mem 3] :=
    fun _ => rfl
  rw [cmdAt, hbytes, hlast]
  simp only [leNat]
  omega

/-- A command that is received. -/
theorem cmdAt_received (h : 4 ≤ request.length) (hn : 4 ≤ n) :
    cmdAt (Ipc.write s 0 (request.take n)) = leNat (request.take 4) := by
  have htake : (request.take n).take 4 = request.take 4 := by
    rw [List.take_take, Nat.min_eq_left hn]
  have hbytes : bytesAt (Ipc.write s 0 (request.take n)) 0 4 = request.take 4 := by
    apply List.ext_getElem
    · simpa using h
    · intro i hi _
      have hi4 : i < 4 := by simpa using hi
      have hlt : i < request.length := by omega
      have hmin : i < n := by omega
      simp [bytesAt, Ipc.write, hlt, hmin]
  rw [cmdAt, hbytes]

end

/-! ## The key service -/

section GetKey

variable {key : Option Block} {ecid : Block} {s s' : Nat → UInt8} {request : List UInt8}

/-- The whole structure is received, or all of it that is not is filled in. -/
def GetKeyCovered (key : Option Block) (request : List UInt8) : Prop :=
  sizeofGetKeySrvCmdMsg ≤ request.length ∨
    (4 ≤ request.length ∧ leNat (request.take 4) = getKeySrvQueryEkbKey ∧ key.isSome = true)

theorem getKeySrvHandleMsg_other (h : cmdAt (write s 0 (request.take sizeofGetKeySrvCmdMsg)) ≠
      getKeySrvQueryEkbKey ∨ key = none) :
    getKeySrvHandleMsg key ecid s request =
      bytesAt (write s 0 (request.take sizeofGetKeySrvCmdMsg)) 0 sizeofGetKeySrvCmdMsg := by
  rw [getKeySrvHandleMsg]
  unfold getKeySrvProcessReq
  split
  · rename_i hcmd
    rcases h with h | h
    · exact absurd hcmd h
    · rw [h]
  · rfl

theorem getKeySrv_determined_iff :
    (∀ s s', getKeySrvHandleMsg key ecid s request = getKeySrvHandleMsg key ecid s' request) ↔
      GetKeyCovered key request := by
  constructor
  · intro h
    by_contra hcov
    rw [GetKeyCovered, not_or] at hcov
    obtain ⟨hshort, hcmd⟩ := hcov
    -- the last byte is sent as it was on the stack
    have hother : ∀ b : UInt8, 1 ≤ b.toNat →
        cmdAt (write (fun _ => b) 0 (request.take sizeofGetKeySrvCmdMsg)) ≠ getKeySrvQueryEkbKey ∨
          key = none := by
      intro b hb
      by_cases h4 : 4 ≤ request.length
      · rw [cmdAt_received h4 (by decide)]
        by_cases hone : leNat (request.take 4) = getKeySrvQueryEkbKey
        · right
          cases key with
          | none => rfl
          | some k => exact absurd ⟨h4, hone, rfl⟩ hcmd
        · exact .inl hone
      · have hbig := cmdAt_short (n := sizeofGetKeySrvCmdMsg) hb (Nat.lt_of_not_le h4)
        refine .inl fun hone => ?_
        rw [hone, getKeySrvQueryEkbKey] at hbig
        omega
    have hall := h (fun _ => 1) (fun _ => 2)
    rw [getKeySrvHandleMsg_other (hother 1 (by decide)),
      getKeySrvHandleMsg_other (hother 2 (by decide))] at hall
    have hbyte := eq_of_bytesAt_eq hall (sizeofGetKeySrvCmdMsg - 1) (by decide)
    rw [write_take_outside (by omega), write_take_outside (by omega)] at hbyte
    exact absurd hbyte (by decide)
  · intro h s s'
    rcases h with hlong | ⟨h4, hone, hkey⟩
    · have hagree : Agree sizeofGetKeySrvCmdMsg
          (write s 0 (request.take sizeofGetKeySrvCmdMsg))
          (write s' 0 (request.take sizeofGetKeySrvCmdMsg)) :=
        Agree.of_write (by rw [List.length_take]; omega)
      have hcmd : cmdAt (write s 0 (request.take sizeofGetKeySrvCmdMsg)) =
          cmdAt (write s' 0 (request.take sizeofGetKeySrvCmdMsg)) := by
        rw [cmdAt, cmdAt, hagree.bytesAt_eq (by decide)]
      rw [getKeySrvHandleMsg, getKeySrvHandleMsg]
      unfold getKeySrvProcessReq
      rw [hcmd]
      split
      · cases key with
        | none => exact hagree.bytesAt_eq (by decide)
        | some k => exact hagree.write.write.bytesAt_eq (by decide)
      · exact hagree.bytesAt_eq (by decide)
    · obtain ⟨k, rfl⟩ := Option.isSome_iff_exists.mp hkey
      have hagree : Agree offsetofKey (write s 0 (request.take sizeofGetKeySrvCmdMsg))
          (write s' 0 (request.take sizeofGetKeySrvCmdMsg)) := by
        apply Agree.of_write
        rw [List.length_take, offsetofKey, sizeofGetKeySrvCmdMsg]
        omega
      have hkeys := (hagree.write_end k.toList).mono
        (by rw [length_toList]; decide : offsetofEcid ≤ offsetofKey + k.toList.length)
      have hfull := (hkeys.write_end ecid.toList).mono
        (by rw [length_toList]; decide : sizeofGetKeySrvCmdMsg ≤ offsetofEcid + ecid.toList.length)
      rw [getKeySrvHandleMsg, getKeySrvHandleMsg]
      unfold getKeySrvProcessReq
      rw [if_pos ((cmdAt_received h4 (by decide)).trans hone),
        if_pos ((cmdAt_received h4 (by decide)).trans hone)]
      exact hfull.bytesAt_eq (by decide)

end GetKey

/-! ## The passphrase service -/

section Luks

variable {cmac : Block → List UInt8 → Block} {env : KdfEnv} {keys : LuksKeys} {noPass : Bool}
  {m m' s s' : Nat → UInt8} {n k : Nat} {request : List UInt8}

/-- A string that ends where the memories agree. -/
theorem cstringAt_congr {c c' : Nat → UInt8} (hagree : ∀ i, i ≤ k → c i = c' i) (hzero : c k = 0)
    (hk : k ≤ n) : CString.cstringAt c n = CString.cstringAt c' n := by
  induction n generalizing k c c' with
  | zero => rfl
  | succ n ih =>
      rw [CString.cstringAt, CString.cstringAt, ← hagree 0 (Nat.zero_le k)]
      split
      · rfl
      · rename_i hne
        cases k with
        | zero => exact absurd hzero hne
        | succ k =>
            rw [ih (k := k) (fun i hi => hagree (i + 1) (Nat.succ_le_succ hi)) hzero
              (Nat.le_of_succ_le_succ hk)]

theorem contextFits_iff :
    contextFits m = true ↔ ∃ i, i ≤ luksSrvContextStrLen ∧ contextStr m i = 0 := by
  simp [contextFits]

/-- The request asks for a passphrase. -/
def asksPass (noPass : Bool) (request : List UInt8) : Prop :=
  noPass = false ∧ (leNat (request.take 4) = luksGetUniquePass ∨
    leNat (request.take 4) = luksGetGenericPass)

/-- The context of the request ends inside the structure, or one byte behind. -/
def contextEnds (request : List UInt8) : Prop :=
  ∃ i, i ≤ luksSrvContextStrLen ∧ request[offsetofContextStr + i]? = some 0

/-- The whole structure is received, or all of it but a passphrase that is
filled in; and no context overwrites the heap. -/
def LuksCovered (env : KdfEnv) (noPass : Bool) (request : List UInt8) : Prop :=
  (asksPass noPass request → env.malloc = true → contextEnds request) ∧
    (sizeofLuksSrvCmdMsg ≤ request.length ∨ (offsetofOutputPassphrase ≤ request.length ∧
      asksPass noPass request ∧ env.malloc = true ∧ env.cmacNew = true))

/-- What a reply is made of: the structure as it was read, and a passphrase. -/
theorem luksKdf_cases (key : Block) (label : String) :
    luksKdf cmac env key label m = some m ∨ luksKdf cmac env key label m = none ∨
      ∃ b : Block, luksKdf cmac env key label m =
        some (write m offsetofOutputPassphrase b.toList) := by
  rw [luksKdf]
  split
  · exact .inl rfl
  split
  · exact .inr (.inl rfl)
  split
  · exact .inl rfl
  · exact .inr (.inr ⟨_, rfl⟩)

theorem luksSrvProcessReq_cases :
    (luksSrvProcessReq cmac env keys noPass m).1 = some m ∨
      (luksSrvProcessReq cmac env keys noPass m).1 = none ∨
      ∃ b : Block, (luksSrvProcessReq cmac env keys noPass m).1 =
        some (write m offsetofOutputPassphrase b.toList) := by
  rw [luksSrvProcessReq]
  split
  · exact .inl rfl
  split
  · exact luksKdf_cases ..
  split
  · exact luksKdf_cases ..
  split
  · exact .inl rfl
  · exact .inl rfl

/-- Without a passphrase the structure is sent as it was read. -/
theorem luksSrvProcessReq_unanswered (h : ¬((noPass = false ∧ (cmdAt m = luksGetUniquePass ∨
      cmdAt m = luksGetGenericPass)) ∧ env.malloc = true ∧ env.cmacNew = true)) :
    (luksSrvProcessReq cmac env keys noPass m).1 = some m ∨
      (luksSrvProcessReq cmac env keys noPass m).1 = none := by
  have hkdf : ∀ (key : Block) (label : String), ¬(env.malloc = true ∧ env.cmacNew = true) →
      luksKdf cmac env key label m = some m ∨ luksKdf cmac env key label m = none := by
    intro key label hno
    rw [luksKdf]
    split
    · exact .inl rfl
    rename_i hmalloc
    split
    · exact .inr rfl
    split
    · exact .inl rfl
    · rename_i hcmac
      exact absurd ⟨by simpa using hmalloc, by simpa using hcmac⟩ hno
  rw [luksSrvProcessReq]
  split
  · exact .inl rfl
  rename_i hpass
  have hfalse : noPass = false := by simpa using hpass
  split
  · rename_i hcmd
    exact hkdf _ _ fun hno => h ⟨⟨hfalse, .inl hcmd⟩, hno⟩
  split
  · rename_i hcmd
    exact hkdf _ _ fun hno => h ⟨⟨hfalse, .inr hcmd⟩, hno⟩
  split
  · exact .inl rfl
  · exact .inl rfl

/-- A request for something else is sent back as it was read. -/
theorem luksSrvProcessReq_silent (h : ¬(noPass = false ∧ (cmdAt m = luksGetUniquePass ∨
      cmdAt m = luksGetGenericPass))) :
    (luksSrvProcessReq cmac env keys noPass m).1 = some m := by
  rw [luksSrvProcessReq]
  split
  · rfl
  rename_i hpass
  have hfalse : noPass = false := by simpa using hpass
  split
  · rename_i hcmd
    exact absurd ⟨hfalse, .inl hcmd⟩ h
  split
  · rename_i hcmd
    exact absurd ⟨hfalse, .inr hcmd⟩ h
  split
  · rfl
  · rfl

/-- A passphrase that is asked for. -/
theorem luksSrvProcessReq_asked (hpass : noPass = false)
    (hcmd : cmdAt m = luksGetUniquePass ∨ cmdAt m = luksGetGenericPass) :
    ∃ key label, ∀ mem, cmdAt mem = cmdAt m →
      (luksSrvProcessReq cmac env keys noPass mem).1 = luksKdf cmac env key label mem := by
  subst hpass
  rcases hcmd with hcmd | hcmd
  · refine ⟨keys.unique, "luks-srv-passphrase-unique", ?_⟩
    intro mem hmem
    rw [luksSrvProcessReq, if_neg (by decide), hmem, if_pos hcmd]
  · refine ⟨keys.generic, "luks-srv-passphrase-generic", ?_⟩
    intro mem hmem
    rw [luksSrvProcessReq, if_neg (by decide), hmem, if_neg (by rw [hcmd]; decide), if_pos hcmd]

/-- A context that does not overwrite the heap. -/
theorem luksKdf_fits {key : Block} {label : String} {mem : Nat → UInt8}
    (hmalloc : env.malloc = true) (h : luksKdf cmac env key label m = some mem) :
    contextFits m = true := by
  rw [luksKdf, if_neg (by simp [hmalloc])] at h
  split at h
  · cases h
  · rename_i hfits
    simpa using hfits

/-- The reply and the structure it is sent from. -/
theorem luksSrvHandleMsg_some {r : List UInt8}
    (h : (luksSrvHandleMsg cmac env keys noPass s request).1 = some r) :
    ∃ mem, (luksSrvProcessReq cmac env keys noPass
        (write s 0 (request.take sizeofLuksSrvCmdMsg))).1 = some mem ∧
      r = bytesAt mem 0 sizeofLuksSrvCmdMsg := by
  rw [luksSrvHandleMsg] at h
  obtain ⟨mem, hmem, hr⟩ := Option.map_eq_some_iff.mp h
  exact ⟨mem, hmem, hr.symm⟩

theorem luksSrvHandleMsg_eq {mem : Nat → UInt8} (h : (luksSrvProcessReq cmac env keys noPass
      (write s 0 (request.take sizeofLuksSrvCmdMsg))).1 = some mem) :
    (luksSrvHandleMsg cmac env keys noPass s request).1 =
      some (bytesAt mem 0 sizeofLuksSrvCmdMsg) := by
  rw [luksSrvHandleMsg]
  exact (congrArg (Option.map (fun m => bytesAt m 0 sizeofLuksSrvCmdMsg)) h).trans rfl

/-- Nothing before the passphrase is changed. -/
theorem luksSrvProcessReq_below {mem : Nat → UInt8}
    (h : (luksSrvProcessReq cmac env keys noPass m).1 = some mem) :
    Agree offsetofOutputPassphrase mem m := by
  intro i hi
  have hcases : (luksSrvProcessReq cmac env keys noPass m).1 = some m ∨
      (luksSrvProcessReq cmac env keys noPass m).1 = none ∨
      ∃ b : Block, (luksSrvProcessReq cmac env keys noPass m).1 =
        some (write m offsetofOutputPassphrase b.toList) := luksSrvProcessReq_cases
  rcases hcases with hsame | hnone | ⟨b, hb⟩
  · rw [hsame] at h
    cases h
    rfl
  · rw [hnone] at h
    cases h
  · rw [hb] at h
    cases h
    exact write_outside (.inl hi)

theorem luksSrv_covered_of_determined
    (h : ∀ s s', ∃ r, (luksSrvHandleMsg cmac env keys noPass s request).1 = some r ∧
      (luksSrvHandleMsg cmac env keys noPass s' request).1 = some r) :
    LuksCovered env noPass request := by
  obtain ⟨r, hr, hr'⟩ := h (fun _ => 1) (fun _ => 2)
  obtain ⟨mem, hmem, hreply⟩ := luksSrvHandleMsg_some hr
  obtain ⟨mem', hmem', hreply'⟩ := luksSrvHandleMsg_some hr'
  have hagree : Agree sizeofLuksSrvCmdMsg mem mem' :=
    eq_of_bytesAt_eq (hreply.symm.trans hreply')
  have hbelow := luksSrvProcessReq_below hmem
  have hbelow' := luksSrvProcessReq_below hmem'
  -- the byte before the passphrase is sent as it was read
  have hlong : offsetofOutputPassphrase ≤ request.length := by
    by_contra hshort
    have hk : offsetofOutputPassphrase - 1 < offsetofOutputPassphrase := by decide
    have hbyte := hagree (offsetofOutputPassphrase - 1) (by decide)
    rw [hbelow _ hk, hbelow' _ hk, write_take_outside (by omega),
      write_take_outside (by omega)] at hbyte
    exact absurd hbyte (by decide)
  have h4 : 4 ≤ request.length := Nat.le_trans (by decide) hlong
  have hcmd : ∀ s, cmdAt (write s 0 (request.take sizeofLuksSrvCmdMsg)) =
      leNat (request.take 4) := fun s => cmdAt_received h4 (by decide)
  refine ⟨?_, ?_⟩
  · intro hask hmalloc
    obtain ⟨hpass, hcmd'⟩ := hask
    rw [← hcmd (fun _ => 1)] at hcmd'
    obtain ⟨key, label, hkdf⟩ :=
      @luksSrvProcessReq_asked cmac env keys noPass _ hpass hcmd'
    rw [hkdf _ rfl] at hmem
    obtain ⟨i, hi, hzero⟩ := contextFits_iff.mp (luksKdf_fits hmalloc hmem)
    refine ⟨i, hi, ?_⟩
    -- the stack holds no zero, so this one has been received
    rw [contextStr] at hzero
    by_cases hlt : offsetofContextStr + i < request.length
    · have hsize : offsetofContextStr + i < sizeofLuksSrvCmdMsg := by
        simp only [luksSrvContextStrLen, offsetofContextStr, sizeofLuksSrvCmdMsg] at hi ⊢
        omega
      have hget : write (fun _ => 1) 0 (request.take sizeofLuksSrvCmdMsg) (offsetofContextStr + i) =
          request[offsetofContextStr + i] := by
        simp [write, hlt, hsize]
      rw [List.getElem?_eq_getElem hlt, ← hget, hzero]
    · rw [write_take_outside (by omega)] at hzero
      exact absurd hzero (by decide)
  · by_cases hfull : sizeofLuksSrvCmdMsg ≤ request.length
    · exact .inl hfull
    right
    refine ⟨hlong, ?_⟩
    by_contra hno
    have hun : ∀ s, (luksSrvProcessReq cmac env keys noPass
        (write s 0 (request.take sizeofLuksSrvCmdMsg))).1 =
          some (write s 0 (request.take sizeofLuksSrvCmdMsg)) ∨
        (luksSrvProcessReq cmac env keys noPass
          (write s 0 (request.take sizeofLuksSrvCmdMsg))).1 = none := by
      intro s
      apply luksSrvProcessReq_unanswered
      rw [hcmd s]
      exact hno
    have hsame : mem = write (fun _ => 1) 0 (request.take sizeofLuksSrvCmdMsg) := by
      rcases hun (fun _ => 1) with heq | heq
      · exact Option.some.inj (hmem.symm.trans heq)
      · rw [heq] at hmem
        cases hmem
    have hsame' : mem' = write (fun _ => 2) 0 (request.take sizeofLuksSrvCmdMsg) := by
      rcases hun (fun _ => 2) with heq | heq
      · exact Option.some.inj (hmem'.symm.trans heq)
      · rw [heq] at hmem'
        cases hmem'
    have hbyte := hagree (sizeofLuksSrvCmdMsg - 1) (by decide)
    rw [hsame, hsame', write_take_outside (by omega), write_take_outside (by omega)] at hbyte
    exact absurd hbyte (by decide)

/-- The derivation on two structures that agree up to the end of the context. -/
theorem luksKdf_agree {key : Block} {label : String} (hagree : Agree n m m')
    (hpass : offsetofOutputPassphrase ≤ n)
    (hends : env.malloc = true → ∃ i, i ≤ luksSrvContextStrLen ∧ offsetofContextStr + i < n ∧
      contextStr m i = 0)
    (hfull : sizeofLuksSrvCmdMsg ≤ n ∨ (env.malloc = true ∧ env.cmacNew = true)) :
    ∃ mem mem', luksKdf cmac env key label m = some mem ∧
      luksKdf cmac env key label m' = some mem' ∧ Agree sizeofLuksSrvCmdMsg mem mem' := by
  cases hmalloc : env.malloc with
  | false =>
      have hall : sizeofLuksSrvCmdMsg ≤ n := by
        rcases hfull with hall | ⟨hyes, _⟩
        · exact hall
        · rw [hmalloc] at hyes
          cases hyes
      refine ⟨m, m', ?_, ?_, hagree.mono hall⟩
      · rw [luksKdf, if_pos (by simp [hmalloc])]
      · rw [luksKdf, if_pos (by simp [hmalloc])]
  | true =>
      obtain ⟨i, hi, hin, hzero⟩ := hends hmalloc
      have hcontext : ∀ j, j ≤ i → contextStr m j = contextStr m' j := by
        intro j hj
        exact hagree _ (by omega)
      have hfits : contextFits m = true := contextFits_iff.mpr ⟨i, hi, hzero⟩
      have hfits' : contextFits m' = true :=
        contextFits_iff.mpr ⟨i, hi, (hcontext i (Nat.le_refl i)).symm.trans hzero⟩
      have hnot : ¬(!env.malloc) = true := by simp [hmalloc]
      cases hcmac : env.cmacNew with
      | false =>
          have hall : sizeofLuksSrvCmdMsg ≤ n := by
            rcases hfull with hall | ⟨_, hyes⟩
            · exact hall
            · rw [hcmac] at hyes
              cases hyes
          refine ⟨m, m', ?_, ?_, hagree.mono hall⟩
          · rw [luksKdf, if_neg hnot, if_neg (by simp [hfits]), if_pos (by simp [hcmac])]
          · rw [luksKdf, if_neg hnot, if_neg (by simp [hfits']), if_pos (by simp [hcmac])]
      | true =>
          have hstr : CString.cstringAt (contextStr m) luksSrvContextStrLen =
              CString.cstringAt (contextStr m') luksSrvContextStrLen :=
            cstringAt_congr hcontext hzero hi
          refine ⟨_, _, by rw [luksKdf, if_neg hnot, if_neg (by simp [hfits]),
            if_neg (by simp [hcmac])], by rw [luksKdf, if_neg hnot, if_neg (by simp [hfits']),
            if_neg (by simp [hcmac])], ?_⟩
          rw [hstr]
          have hend := (hagree.mono hpass).write_end (cmac key ([1] ++ strBytes label ++ [0] ++
            CString.cstringAt (contextStr m') luksSrvContextStrLen)).toList
          refine hend.mono ?_
          rw [length_toList]
          decide

theorem luksSrv_determined_of_covered (h : LuksCovered env noPass request) (s s' : Nat → UInt8) :
    ∃ r, (luksSrvHandleMsg cmac env keys noPass s request).1 = some r ∧
      (luksSrvHandleMsg cmac env keys noPass s' request).1 = some r := by
  obtain ⟨hends, hlen⟩ := h
  have hlong : offsetofOutputPassphrase ≤ request.length := by
    rcases hlen with hfull | ⟨hlong, _⟩
    · exact Nat.le_trans (by decide) hfull
    · exact hlong
  have h4 : 4 ≤ request.length := Nat.le_trans (by decide) hlong
  have hcmd : ∀ s, cmdAt (write s 0 (request.take sizeofLuksSrvCmdMsg)) =
      leNat (request.take 4) := fun s => cmdAt_received h4 (by decide)
  -- what is received is the same on both stacks
  have hagree : Agree (request.take sizeofLuksSrvCmdMsg).length
      (write s 0 (request.take sizeofLuksSrvCmdMsg))
      (write s' 0 (request.take sizeofLuksSrvCmdMsg)) := Agree.of_write (Nat.le_refl _)
  rw [List.length_take] at hagree
  have hsend : ∀ mem mem', (luksSrvProcessReq cmac env keys noPass
        (write s 0 (request.take sizeofLuksSrvCmdMsg))).1 = some mem →
      (luksSrvProcessReq cmac env keys noPass
        (write s' 0 (request.take sizeofLuksSrvCmdMsg))).1 = some mem' →
      Agree sizeofLuksSrvCmdMsg mem mem' →
      ∃ r, (luksSrvHandleMsg cmac env keys noPass s request).1 = some r ∧
        (luksSrvHandleMsg cmac env keys noPass s' request).1 = some r := by
    intro mem mem' hmem hmem' heq
    refine ⟨_, luksSrvHandleMsg_eq hmem, ?_⟩
    rw [luksSrvHandleMsg_eq hmem', heq.bytesAt_eq (by decide)]
  by_cases hask : asksPass noPass request
  · have hpass := hask.2
    rw [← hcmd s] at hpass
    obtain ⟨key, label, hkdf⟩ :=
      @luksSrvProcessReq_asked cmac env keys noPass _ hask.1 hpass
    have hcontext : env.malloc = true → ∃ i, i ≤ luksSrvContextStrLen ∧
        offsetofContextStr + i < min sizeofLuksSrvCmdMsg request.length ∧
        contextStr (write s 0 (request.take sizeofLuksSrvCmdMsg)) i = 0 := by
      intro hmalloc
      obtain ⟨i, hi, hzero⟩ := hends hask hmalloc
      obtain ⟨hlt, hget⟩ := List.getElem?_eq_some_iff.mp hzero
      have hsize : offsetofContextStr + i < sizeofLuksSrvCmdMsg := by
        simp only [luksSrvContextStrLen, offsetofContextStr, sizeofLuksSrvCmdMsg] at hi ⊢
        omega
      refine ⟨i, hi, by omega, ?_⟩
      rw [contextStr, ← hget]
      simp [write, hlt, hsize]
    have hpass' : offsetofOutputPassphrase ≤ min sizeofLuksSrvCmdMsg request.length :=
      le_min (by decide) hlong
    have hfull : sizeofLuksSrvCmdMsg ≤ min sizeofLuksSrvCmdMsg request.length ∨
        (env.malloc = true ∧ env.cmacNew = true) := by
      rcases hlen with hfull | ⟨_, _, hyes⟩
      · exact .inl (le_min (Nat.le_refl _) hfull)
      · exact .inr hyes
    obtain ⟨mem, mem', hmem, hmem', heq⟩ :=
      @luksKdf_agree cmac env _ _ _ key label hagree hpass' hcontext hfull
    exact hsend mem mem' ((hkdf _ rfl).trans hmem)
      ((hkdf _ ((hcmd s').trans (hcmd s).symm)).trans hmem') heq
  · have hfull : sizeofLuksSrvCmdMsg ≤ min sizeofLuksSrvCmdMsg request.length := by
      rcases hlen with hfull | ⟨_, hyes, _⟩
      · exact le_min (Nat.le_refl _) hfull
      · exact absurd hyes hask
    have hsame : ∀ s, (luksSrvProcessReq cmac env keys noPass
        (write s 0 (request.take sizeofLuksSrvCmdMsg))).1 =
          some (write s 0 (request.take sizeofLuksSrvCmdMsg)) := by
      intro s
      rw [asksPass, ← hcmd s] at hask
      exact luksSrvProcessReq_silent hask
    exact hsend _ _ (hsame s) (hsame s') (hagree.mono hfull)

theorem luksSrv_determined_iff :
    (∀ s s', ∃ r, (luksSrvHandleMsg cmac env keys noPass s request).1 = some r ∧
      (luksSrvHandleMsg cmac env keys noPass s' request).1 = some r) ↔
      LuksCovered env noPass request :=
  ⟨luksSrv_covered_of_determined, luksSrv_determined_of_covered⟩

end Luks

end TX2SecureUart.Hwkey
