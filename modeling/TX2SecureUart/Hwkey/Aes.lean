/-
# `Hwkey.Aes` — AES blocks in memory, and `AES_cbc_encrypt`

AES under a key is some permutation of the blocks of 16 bytes; what the
services rely on is the chaining of `cbc128.c` around it.  A key is a block
too.
-/
import TX2SecureUart.Lib.Cbc
import TX2SecureUart.Ipc.Iovec

namespace TX2SecureUart.Hwkey

open Ipc

/-- `AES_BLOCK_SIZE`, and `AES_KEY_128_SIZE` -/
def aesBlockSize : Nat := 16

abbrev Block := Vector UInt8 16

def xorBlock (a b : Block) : Block := Vector.zipWith (· ^^^ ·) a b

theorem xorBlock_cancel (a b : Block) : xorBlock (xorBlock a b) b = a := by
  ext i hi
  simp [xorBlock]

/-- AES under each key. -/
abbrev Aes := Block → Equiv.Perm Block

/-- `AES_cbc_encrypt` on whole blocks: what it writes, and `ivec` after it. -/
def aesCbcEncrypt (aes : Aes) (key : Block) (enc : Bool) (iv : Block) (blocks : List Block) :
    List Block × Block :=
  if enc then
    let out := Cbc.encrypt xorBlock (aes key) iv blocks
    (out, Cbc.chain iv out)
  else (Cbc.decrypt xorBlock (aes key).symm iv blocks, Cbc.chain iv blocks)

/-- `AES_cbc_encrypt` on one block, as the services call it. -/
def aesCbcBlock (aes : Aes) (key : Block) (enc : Bool) (iv b : Block) : Block × Block :=
  if enc then (aes key (xorBlock b iv), aes key (xorBlock b iv))
  else (xorBlock ((aes key).symm b) iv, b)

/-- A call for each block, with the `ivec` of the call before it. -/
theorem aesCbcEncrypt_cons (aes : Aes) (key : Block) (enc : Bool) (iv b : Block)
    (blocks : List Block) :
    aesCbcEncrypt aes key enc iv (b :: blocks) =
      ((aesCbcBlock aes key enc iv b).1 ::
          (aesCbcEncrypt aes key enc (aesCbcBlock aes key enc iv b).2 blocks).1,
        (aesCbcEncrypt aes key enc (aesCbcBlock aes key enc iv b).2 blocks).2) := by
  cases enc with
  | true => simp [aesCbcEncrypt, aesCbcBlock, Cbc.encrypt, Cbc.chain_cons]
  | false => simp [aesCbcEncrypt, aesCbcBlock, Cbc.decrypt, Cbc.chain_cons]

/-- A message in two parts. -/
theorem aesCbcEncrypt_append (aes : Aes) (key : Block) (enc : Bool) (iv : Block)
    (ps qs : List Block) :
    aesCbcEncrypt aes key enc iv (ps ++ qs) =
      ((aesCbcEncrypt aes key enc iv ps).1 ++
          (aesCbcEncrypt aes key enc (aesCbcEncrypt aes key enc iv ps).2 qs).1,
        (aesCbcEncrypt aes key enc (aesCbcEncrypt aes key enc iv ps).2 qs).2) := by
  cases enc with
  | true => simp [aesCbcEncrypt, Cbc.encrypt_append, Cbc.chain_append]
  | false => simp [aesCbcEncrypt, Cbc.decrypt_append, Cbc.chain_append]

theorem length_aesCbcEncrypt (aes : Aes) (key : Block) (enc : Bool) (iv : Block)
    (ps : List Block) : (aesCbcEncrypt aes key enc iv ps).1.length = ps.length := by
  cases enc with
  | true => simp [aesCbcEncrypt]
  | false => simp [aesCbcEncrypt]

/-- Decryption undoes encryption. -/
theorem aesCbcDecrypt_encrypt (aes : Aes) (key iv : Block) (ps : List Block) :
    (aesCbcEncrypt aes key false iv (aesCbcEncrypt aes key true iv ps).1).1 = ps :=
  Cbc.decrypt_encrypt xorBlock (aes key) (aes key).symm xorBlock_cancel
    (aes key).symm_apply_apply iv ps

/-! ## Blocks in memory -/

/-- The block at `mem + pos`. -/
def blockAt (mem : Nat → UInt8) (pos : Nat) : Block := Vector.ofFn fun i => mem (pos + i)

/-- The `n` blocks from `mem + pos` on. -/
def blocksAt (mem : Nat → UInt8) (pos : Nat) : Nat → List Block
  | 0 => []
  | n + 1 => blockAt mem pos :: blocksAt mem (pos + aesBlockSize) n

@[simp] theorem length_blocksAt (mem : Nat → UInt8) (pos n : Nat) :
    (blocksAt mem pos n).length = n := by
  induction n generalizing pos with
  | zero => rfl
  | succ n ih => rw [blocksAt, List.length_cons, ih]

/-- Equal bytes, `d` further on. -/
theorem blockAt_shift {mem mem' : Nat → UInt8} {pos : Nat} (d : Nat)
    (h : ∀ k, pos ≤ k → k < pos + aesBlockSize → mem' (d + k) = mem k) :
    blockAt mem' (d + pos) = blockAt mem pos := by
  ext i hi
  simp only [blockAt, Vector.getElem_ofFn]
  rw [Nat.add_assoc, h (pos + i) (Nat.le_add_right _ _) (by simp only [aesBlockSize]; omega)]

theorem blocksAt_shift {mem mem' : Nat → UInt8} {pos n : Nat} (d : Nat)
    (h : ∀ k, pos ≤ k → k < pos + aesBlockSize * n → mem' (d + k) = mem k) :
    blocksAt mem' (d + pos) n = blocksAt mem pos n := by
  induction n generalizing pos with
  | zero => rfl
  | succ n ih =>
      rw [Nat.mul_succ] at h
      have hhead : blockAt mem' (d + pos) = blockAt mem pos := by
        apply blockAt_shift
        intro k hlow hhigh
        exact h k hlow (by omega)
      have htail : blocksAt mem' (d + (pos + aesBlockSize)) n = blocksAt mem (pos + aesBlockSize) n := by
        apply ih
        intro k hlow hhigh
        exact h k (by omega) (by omega)
      rw [blocksAt, blocksAt, hhead, Nat.add_assoc, htail]

theorem blockAt_congr {mem mem' : Nat → UInt8} {pos : Nat}
    (h : ∀ k, pos ≤ k → k < pos + aesBlockSize → mem' k = mem k) :
    blockAt mem' pos = blockAt mem pos := by
  have hshift : blockAt mem' (0 + pos) = blockAt mem pos := by
    apply blockAt_shift
    intro k hlow hhigh
    rw [Nat.zero_add]
    exact h k hlow hhigh
  rwa [Nat.zero_add] at hshift

theorem blocksAt_congr {mem mem' : Nat → UInt8} {pos n : Nat}
    (h : ∀ k, pos ≤ k → k < pos + aesBlockSize * n → mem' k = mem k) :
    blocksAt mem' pos n = blocksAt mem pos n := by
  have hshift : blocksAt mem' (0 + pos) n = blocksAt mem pos n := by
    apply blocksAt_shift
    intro k hlow hhigh
    rw [Nat.zero_add]
    exact h k hlow hhigh
  rwa [Nat.zero_add] at hshift

theorem blockAt_write (mem : Nat → UInt8) (pos : Nat) (b : Block) :
    blockAt (write mem pos b.toList) pos = b := by
  ext i hi
  simp [blockAt, write]

theorem toList_blockAt (mem : Nat → UInt8) (pos : Nat) :
    (blockAt mem pos).toList = bytesAt mem pos aesBlockSize := by
  apply List.ext_getElem
  · simp [aesBlockSize]
  · intro i _ _
    simp [blockAt, bytesAt]

/-- The bytes of some blocks. -/
def toBytes (bs : List Block) : List UInt8 := bs.flatMap Vector.toList

@[simp] theorem length_toBytes (bs : List Block) : (toBytes bs).length = aesBlockSize * bs.length := by
  induction bs with
  | nil => rfl
  | cons b bs ih =>
      have hb : b.toList.length = aesBlockSize := b.length_toList
      have hcons : toBytes (b :: bs) = b.toList ++ toBytes bs := rfl
      rw [hcons, List.length_append, ih, hb, List.length_cons]
      ring

/-- Blocks that were written are found again. -/
theorem blocksAt_write (mem : Nat → UInt8) (pos : Nat) (bs : List Block) :
    blocksAt (write mem pos (toBytes bs)) pos bs.length = bs := by
  induction bs generalizing mem pos with
  | nil => rfl
  | cons b bs ih =>
      have hb : b.toList.length = aesBlockSize := b.length_toList
      have hcons : toBytes (b :: bs) = b.toList ++ toBytes bs := rfl
      have hhead : blockAt (write (write mem pos b.toList) (pos + aesBlockSize) (toBytes bs)) pos =
          b := by
        refine (blockAt_congr ?_).trans (blockAt_write mem pos b)
        intro k _ hhigh
        exact write_outside (Or.inl hhigh)
      rw [hcons, ← write_write, List.length_cons, blocksAt, hb, ih, hhead]

end TX2SecureUart.Hwkey
