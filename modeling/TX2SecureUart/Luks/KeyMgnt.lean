/-
# `Luks.KeyMgnt` — the passphrases of the LUKS service

`key_mgnt.c` of `luks-srv`: a passphrase is a CMAC over a counter, a label and the context
that the client sends.  The allocation measures the context with `strnlen`, the copy with
`strlen`.
-/
import TX2SecureUart.Lib.CString
import TX2SecureUart.Hwkey.KeyMgnt

namespace TX2SecureUart.Luks

open CString Hwkey

/-- `LUKS_SRV_CONTEXT_STR_LEN` -/
def luksSrvContextStrLen : Nat := 40

/-- `luks_srv_cmd_msg_t` -/
structure LuksSrvCmdMsg where
  luksSrvCmd : UInt32
  contextStr : Vector UInt8 40
  outputPassphrase : Block

/-- What a derivation leaves: the result, the message given to CMAC, if it got that far, and
`out_dk`. -/
structure Derivation where
  rc : Int
  given : Option (List UInt8)
  outDk : Block

/-- Whether the allocations succeed, and what is in fresh memory. -/
structure Env extends KdfEnv where
  heap : Nat → UInt8

variable (cmac : Block → List UInt8 → Block) (env : Env)

/-- `str != NULL ? length(str) : 0` -/
def lengthOr0 (length : List UInt8 → Option Nat) : Option (List UInt8) → Option Nat
  | none => some 0
  | some str => length str

/-- `memcpy(mptr, str, strlen(str)); mptr += strlen(str);` for a string that is not `NULL` -/
def putString (message : List UInt8) (mptr : Nat) : Option (List UInt8) → Option (List UInt8 × Nat)
  | none => some (message, mptr)
  | some str => do
      let n ← strlen str
      let message ← memcpy message mptr (str.take n)
      some (message, mptr + n)

/-- The message is put together. -/
def buildMessage (message : List UInt8) (context label : Option (List UInt8)) :
    Option (List UInt8) := do
  let message ← memcpy message 0 [1]
  let (message, mptr) ← putString message 1 label
  let message ← memcpy message mptr [0]
  let (message, _) ← putString message (mptr + 1) context
  some message

/-- `nist_sp_800_108_with_cmac`, with the bytes of the objects that `context` and `label` point to;
`none` is an access outside of these or of the message. -/
def nistSp800108WithCmac (key : Block) (context label : Option (List UInt8)) (outDk : Block) :
    Option Derivation := do
  let contextLen ← lengthOr0 (strnlen · luksSrvContextStrLen) context
  let labelLen ← lengthOr0 strlen label
  let msgLen := contextLen + labelLen + 2
  if env.malloc = false then some ⟨errNoMemory, none, outDk⟩
  else
    let message ← buildMessage ((List.range msgLen).map env.heap) context label
    if env.cmacNew = false then some ⟨errNoMemory, none, outDk⟩
    else some ⟨noError, some message, cmac key message⟩

/-- A string literal -/
def literal (s : String) : List UInt8 := strBytes s ++ [0]

/-- The two kinds of passphrase. -/
inductive Pass where
  | generic
  | unique

/-- `luks_key_generic` and `luks_key_unique` -/
structure LuksKeys where
  luksKeyGeneric : Block
  luksKeyUnique : Block

variable (keys : LuksKeys)

/-- The message after the call, and what was given to CMAC. -/
def storePassphrase (msg : LuksSrvCmdMsg) (d : Derivation) : LuksSrvCmdMsg × Option (List UInt8) :=
  ({ msg with outputPassphrase := d.outDk }, d.given)

/-- `luks_srv_get_generic_pass` -/
def luksSrvGetGenericPass (msg : LuksSrvCmdMsg) : Option (LuksSrvCmdMsg × Option (List UInt8)) :=
  (nistSp800108WithCmac cmac env keys.luksKeyGeneric (some msg.contextStr.toList)
    (some (literal "luks-srv-passphrase-generic")) msg.outputPassphrase).map (storePassphrase msg)

/-- `luks_srv_get_unique_pass` -/
def luksSrvGetUniquePass (msg : LuksSrvCmdMsg) : Option (LuksSrvCmdMsg × Option (List UInt8)) :=
  (nistSp800108WithCmac cmac env keys.luksKeyUnique (some msg.contextStr.toList)
    (some (literal "luks-srv-passphrase-unique")) msg.outputPassphrase).map (storePassphrase msg)

/-! ## Putting the message together -/

/-- What the message should be. -/
def kdfMessage (label context : List UInt8) : List UInt8 := [1] ++ label ++ [0] ++ context

theorem putString_eq {str : List UInt8} (hstr : 0 ∈ str) (written rest : List UInt8)
    (hroom : (stringOf str).length ≤ rest.length) :
    putString (written ++ rest) written.length (some str) =
      some (written ++ stringOf str ++ rest.drop (stringOf str).length,
        written.length + (stringOf str).length) := by
  rw [putString, strlen_eq, if_pos hstr]
  show (memcpy _ _ (str.take (stringOf str).length)).bind _ = _
  rw [take_stringOf, memcpy_append _ _ _ hroom]
  rfl

theorem stringOf_literal {label : List UInt8} (hlabel : ∀ c ∈ label, c ≠ 0) :
    stringOf (label ++ [0]) = label := by
  induction label with
  | nil => rfl
  | cons c label ih =>
    rw [List.cons_append, stringOf_cons (hlabel c List.mem_cons_self),
      ih (fun d hd => hlabel d (List.mem_cons_of_mem c hd))]

/-- A block of the right size is filled when the context ends in its object. -/
theorem buildMessage_eq {block context label : List UInt8} (hlabel : ∀ c ∈ label, c ≠ 0)
    (hcontext : 0 ∈ context)
    (hblock : block.length = (stringOf context).length + label.length + 2) :
    buildMessage block (some context) (some (label ++ [0])) =
      some (kdfMessage label (stringOf context)) := by
  have hliteral := stringOf_literal hlabel
  have hcounter := memcpy_append [] block [1] (by rw [List.length_singleton]; omega)
  have hput := @putString_eq (label ++ [0]) (by simp) [1] (block.drop 1)
    (by rw [hliteral, List.length_drop]; omega)
  have hzero := memcpy_append ([1] ++ label) ((block.drop 1).drop label.length) [0]
    (by rw [List.length_drop, List.length_drop, List.length_singleton]; omega)
  have hlast := putString_eq hcontext ([1] ++ label ++ [0])
    (((block.drop 1).drop label.length).drop 1)
    (by rw [List.length_drop, List.length_drop, List.length_drop]; omega)
  have hfull : ((((block.drop 1).drop label.length).drop 1).drop (stringOf context).length) = [] := by
    rw [List.drop_eq_nil_iff, List.length_drop, List.length_drop, List.length_drop]
    omega
  rw [hliteral, ← List.length_append] at hput
  rw [hfull, List.append_nil] at hlast
  unfold buildMessage
  show (memcpy ([] ++ block) 0 [1]).bind _ = _
  rw [show memcpy ([] ++ block) 0 [1] = some ([1] ++ block.drop 1) from hcounter]
  show (putString ([1] ++ block.drop 1) ([1] : List UInt8).length _).bind _ = _
  rw [hput]
  show (memcpy _ _ [0]).bind _ = _
  rw [hzero]
  have hend : ([1] ++ label ++ [0]).length = ([1] ++ label).length + 1 := List.length_append
  rw [hend] at hlast
  exact congrArg (fun r => r.bind fun x => some x.1) hlast

/-- A context without a zero is read past its end. -/
theorem buildMessage_none {block context : List UInt8} {label : Option (List UInt8)}
    (hcontext : 0 ∉ context) : buildMessage block (some context) label = none := by
  have hput : ∀ message mptr, putString message mptr (some context) = none := by
    intro message mptr
    rw [putString, strlen_eq, if_neg hcontext]
    rfl
  unfold buildMessage
  cases memcpy block 0 [1] with
  | none => rfl
  | some first =>
    show (putString first 1 label).bind _ = none
    cases putString first 1 label with
    | none => rfl
    | some second =>
      show (memcpy second.1 second.2 [0]).bind _ = none
      cases memcpy second.1 second.2 [0] with
      | none => rfl
      | some third =>
        show (putString third (second.2 + 1) (some context)).bind _ = none
        rw [hput]
        rfl

/-! ## A derivation -/

/-- What a derivation from the field does: the message that it should be, unless an allocation
fails. -/
def derivation (key : Block) (label context : List UInt8) (outDk : Block) : Derivation :=
  if env.malloc && env.cmacNew then
    ⟨noError, some (kdfMessage label (stringOf context)), cmac key (kdfMessage label (stringOf context))⟩
  else ⟨errNoMemory, none, outDk⟩

variable {cmac env} in
/-- A derivation with a label that is a literal, and a context in a field of 40 bytes. -/
theorem nistSp800108WithCmac_eq {key outDk : Block} {label context : List UInt8}
    (hlabel : ∀ c ∈ label, c ≠ 0) (hfield : context.length = luksSrvContextStrLen) :
    nistSp800108WithCmac cmac env key (some context) (some (label ++ [0])) outDk =
      if env.malloc = false ∨ 0 ∈ context then some (derivation cmac env key label context outDk)
      else none := by
  have hctx : strnlen context luksSrvContextStrLen = some (stringOf context).length := by
    rw [strnlen_eq (Nat.le_of_eq hfield.symm), List.take_of_length_le (Nat.le_of_eq hfield)]
  have hlab : strlen (label ++ [0]) = some label.length := by
    rw [strlen_eq, if_pos (by simp), stringOf_literal hlabel]
  unfold nistSp800108WithCmac derivation
  show (strnlen context luksSrvContextStrLen).bind _ = _
  rw [hctx]
  show (strlen (label ++ [0])).bind _ = _
  rw [hlab]
  cases hmalloc : env.malloc with
  | false => rfl
  | true =>
    show (buildMessage _ _ _).bind _ = _
    by_cases h0 : 0 ∈ context
    · rw [buildMessage_eq hlabel h0 (by rw [List.length_map, List.length_range]), if_pos (.inr h0)]
      cases hnew : env.cmacNew with
      | false => simp
      | true => simp
    · rw [buildMessage_none h0, if_neg (by simp [h0])]
      rfl

/-! ## The two services -/

def Pass.label : Pass → String
  | .generic => "luks-srv-passphrase-generic"
  | .unique => "luks-srv-passphrase-unique"

def Pass.key : Pass → Block
  | .generic => keys.luksKeyGeneric
  | .unique => keys.luksKeyUnique

def Pass.get : Pass → LuksSrvCmdMsg → Option (LuksSrvCmdMsg × Option (List UInt8))
  | .generic => luksSrvGetGenericPass cmac env keys
  | .unique => luksSrvGetUniquePass cmac env keys

theorem label_ne_zero (pass : Pass) : ∀ c ∈ strBytes pass.label, c ≠ 0 := by
  cases pass with
  | generic => decide +kernel
  | unique => decide +kernel

theorem Pass.get_eq (pass : Pass) (msg : LuksSrvCmdMsg) :
    pass.get cmac env keys msg =
      (nistSp800108WithCmac cmac env (pass.key keys) (some msg.contextStr.toList)
        (some (strBytes pass.label ++ [0])) msg.outputPassphrase).map (storePassphrase msg) := by
  cases pass with
  | generic => rfl
  | unique => rfl

/-- The message for this passphrase. -/
def Pass.message (pass : Pass) (msg : LuksSrvCmdMsg) : List UInt8 :=
  kdfMessage (strBytes pass.label) (stringOf msg.contextStr.toList)

/-- No access goes outside the field or the message, CMAC is given the counter, the label, a zero
and the context, and the passphrase is what CMAC makes of that; when memory runs out nothing is
given or changed. -/
def Derives (pass : Pass) (msg : LuksSrvCmdMsg) : Prop :=
  pass.get cmac env keys msg =
    some (if env.malloc && env.cmacNew then
        ({ msg with outputPassphrase := cmac (pass.key keys) (pass.message msg) },
          some (pass.message msg))
      else (msg, none))

/-- A passphrase is derived from the field when the field has a zero, or no memory is left. -/
theorem luksSrvGetPass_derives_iff (pass : Pass) (msg : LuksSrvCmdMsg) :
    Derives cmac env keys pass msg ↔ env.malloc = false ∨ 0 ∈ msg.contextStr.toList := by
  unfold Derives
  rw [Pass.get_eq, nistSp800108WithCmac_eq (label_ne_zero pass) msg.contextStr.length_toList]
  constructor
  · intro h
    by_contra hnot
    rw [if_neg hnot] at h
    cases h
  · intro h
    rw [if_pos h, derivation]
    split
    · rfl
    · rfl

/-- A context of forty letters. -/
def fullContext : LuksSrvCmdMsg := ⟨2, Vector.replicate 40 65, zeroKey⟩

theorem fullContext_readsOn :
    ¬Derives (fun key _ => key) ⟨⟨true, true⟩, fun _ => 0⟩ ⟨zeroKey, zeroKey⟩ .generic fullContext := by
  unfold Derives
  intro h
  have hnone : (Pass.generic.get (fun key _ => key) ⟨⟨true, true⟩, fun _ => 0⟩ ⟨zeroKey, zeroKey⟩
      fullContext).isNone = true := by
    decide +kernel
  rw [h] at hnone
  cases hnone

end TX2SecureUart.Luks
