/-
# `Hwkey.Services` — the key service and the passphrase service

`get_key_srv.c` of the agent, and `luks_srv.c` with the derivation of
`key_mgnt.c` in `luks-srv`.  Both read a request into a structure on the stack,
work on it in place, and send the whole structure back.
-/
import TX2SecureUart.Hwkey.KeyMgnt
import TX2SecureUart.Lib.LeBytes
import TX2SecureUart.Lib.CString

namespace TX2SecureUart.Hwkey

open Ipc

/-- `msg->cmd`, which both structures start with. -/
def cmdAt (mem : Nat → UInt8) : Nat := leNat (bytesAt mem 0 4)

/-! ## The key service -/

/-- `GET_KEY_SRV_QUERY_EKB_KEY` -/
def getKeySrvQueryEkbKey : Nat := 1

/-- `sizeof(get_key_srv_cmd_msg_t)` -/
def sizeofGetKeySrvCmdMsg : Nat := 36

/-- `offsetof(get_key_srv_cmd_msg_t, key)` -/
def offsetofKey : Nat := 4

/-- `offsetof(get_key_srv_cmd_msg_t, ecid)` -/
def offsetofEcid : Nat := 20

/-- `get_key_srv_process_req`, with what `ekb_get_key` and
`fuse_get_queried_ecid` return. -/
def getKeySrvProcessReq (key : Option Block) (ecid : Block) (mem : Nat → UInt8) : Nat → UInt8 :=
  if cmdAt mem = getKeySrvQueryEkbKey then
    match key with
    | none => mem
    | some k => write (write mem offsetofKey k.toList) offsetofEcid ecid.toList
  else mem

/-- `get_key_srv_handle_msg` up to the reply, on a stack frame that holds `stack`. -/
def getKeySrvHandleMsg (key : Option Block) (ecid : Block) (stack : Nat → UInt8)
    (request : List UInt8) : List UInt8 :=
  bytesAt (getKeySrvProcessReq key ecid (write stack 0 (request.take sizeofGetKeySrvCmdMsg))) 0
    sizeofGetKeySrvCmdMsg

/-! ## The passphrase service -/

/-- `LUKS_GET_UNIQUE_PASS` -/
def luksGetUniquePass : Nat := 1

/-- `LUKS_GET_GENERIC_PASS` -/
def luksGetGenericPass : Nat := 2

/-- `LUKS_NO_PASS_RESPONSE` -/
def luksNoPassResponse : Nat := 10

/-- `LUKS_SRV_CONTEXT_STR_LEN` -/
def luksSrvContextStrLen : Nat := 40

/-- `sizeof(luks_srv_cmd_msg_t)` -/
def sizeofLuksSrvCmdMsg : Nat := 60

/-- `offsetof(luks_srv_cmd_msg_t, context_str)` -/
def offsetofContextStr : Nat := 4

/-- `offsetof(luks_srv_cmd_msg_t, output_passphrase)` -/
def offsetofOutputPassphrase : Nat := 44

/-- `luks_key_unique` and `luks_key_generic` -/
structure LuksKeys where
  unique : Block
  generic : Block

/-- `msg->context_str`, and what follows it. -/
def contextStr (mem : Nat → UInt8) : Nat → UInt8 := fun i => mem (offsetofContextStr + i)

/-- `strlen(context)` is at most `LUKS_SRV_CONTEXT_STR_LEN`. -/
def contextFits (mem : Nat → UInt8) : Bool :=
  (List.range (luksSrvContextStrLen + 1)).any (fun i => contextStr mem i == 0)

/-- `nist_sp_800_108_with_cmac` of `luks-srv` into `output_passphrase`.  The
message is allocated for `strnlen` bytes of the context and `strlen` bytes are
copied; where that is more, the heap is overwritten, and the result is `none`. -/
def luksKdf (cmac : Block → List UInt8 → Block) (env : KdfEnv) (key : Block) (label : String)
    (mem : Nat → UInt8) : Option (Nat → UInt8) :=
  if !env.malloc then some mem
  else if !contextFits mem then none
  else if !env.cmacNew then some mem
  else
    some (write mem offsetofOutputPassphrase (cmac key ([1] ++ strBytes label ++ [0] ++
      CString.cstringAt (contextStr mem) luksSrvContextStrLen)).toList)

/-- `luks_srv_process_req`: the structure and `no_pass_response`. -/
def luksSrvProcessReq (cmac : Block → List UInt8 → Block) (env : KdfEnv) (keys : LuksKeys)
    (noPass : Bool) (mem : Nat → UInt8) : Option (Nat → UInt8) × Bool :=
  if noPass then (some mem, true)
  else if cmdAt mem = luksGetUniquePass then
    (luksKdf cmac env keys.unique "luks-srv-passphrase-unique" mem, false)
  else if cmdAt mem = luksGetGenericPass then
    (luksKdf cmac env keys.generic "luks-srv-passphrase-generic" mem, false)
  else if cmdAt mem = luksNoPassResponse then (some mem, true)
  else (some mem, false)

/-- `luks_srv_handle_msg` up to the reply, on a stack frame that holds `stack`. -/
def luksSrvHandleMsg (cmac : Block → List UInt8 → Block) (env : KdfEnv) (keys : LuksKeys)
    (noPass : Bool) (stack : Nat → UInt8) (request : List UInt8) : Option (List UInt8) × Bool :=
  match luksSrvProcessReq cmac env keys noPass
    (write stack 0 (request.take sizeofLuksSrvCmdMsg)) with
  | (mem, noPass') => (mem.map (fun m => bytesAt m 0 sizeofLuksSrvCmdMsg), noPass')

/-- The replies to one request after the other, each with its own stack frame. -/
def luksReplies (cmac : Block → List UInt8 → Block) (env : KdfEnv) (keys : LuksKeys) :
    Bool → List ((Nat → UInt8) × List UInt8) → List (Option (List UInt8))
  | _, [] => []
  | noPass, (stack, request) :: rest =>
      match luksSrvHandleMsg cmac env keys noPass stack request with
      | (reply, noPass') => reply :: luksReplies cmac env keys noPass' rest

end TX2SecureUart.Hwkey
