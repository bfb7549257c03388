/-
# `Lib.Cbc` — cipher block chaining over any block cipher

A block cipher is a function on blocks and one that undoes it; blocks are
combined by an operation that undoes itself.  The chaining value after some
blocks is the last block of ciphertext, so a message can be processed in parts.
-/
import Mathlib

namespace TX2SecureUart.Cbc

variable {α : Type*} (xor : α → α → α) (e d : α → α)

/-- Each block is combined with the ciphertext before it, then enciphered. -/
def encrypt : α → List α → List α
  | _, [] => []
  | iv, p :: ps => e (xor p iv) :: encrypt (e (xor p iv)) ps

/-- Each block is deciphered, then combined with the ciphertext before it. -/
def decrypt : α → List α → List α
  | _, [] => []
  | iv, c :: cs => xor (d c) iv :: decrypt c cs

/-- The chaining value after the ciphertext `cs`. -/
def chain (iv : α) (cs : List α) : α := cs.getLastD iv

@[simp] theorem length_encrypt (iv : α) (ps : List α) :
    (encrypt xor e iv ps).length = ps.length := by
  induction ps generalizing iv with
  | nil => rfl
  | cons p ps ih => simp [encrypt, ih]

@[simp] theorem length_decrypt (iv : α) (cs : List α) :
    (decrypt xor d iv cs).length = cs.length := by
  induction cs generalizing iv with
  | nil => rfl
  | cons c cs ih => simp [decrypt, ih]

@[simp] theorem chain_nil (iv : α) : chain iv [] = iv := rfl

theorem chain_cons (iv c : α) (cs : List α) : chain iv (c :: cs) = chain c cs :=
  List.getLastD_cons ..

theorem chain_append (iv : α) (cs ds : List α) : chain iv (cs ++ ds) = chain (chain iv cs) ds := by
  induction cs generalizing iv with
  | nil => rfl
  | cons c cs ih => rw [List.cons_append, chain_cons, chain_cons, ih]

/-- A message in two parts: the second starts from the chaining value of the first. -/
theorem encrypt_append (iv : α) (ps qs : List α) :
    encrypt xor e iv (ps ++ qs) =
      encrypt xor e iv ps ++ encrypt xor e (chain iv (encrypt xor e iv ps)) qs := by
  induction ps generalizing iv with
  | nil => rfl
  | cons p ps ih => rw [List.cons_append, encrypt, encrypt, ih, List.cons_append, chain_cons]

theorem decrypt_append (iv : α) (cs ds : List α) :
    decrypt xor d iv (cs ++ ds) = decrypt xor d iv cs ++ decrypt xor d (chain iv cs) ds := by
  induction cs generalizing iv with
  | nil => rfl
  | cons c cs ih => rw [List.cons_append, decrypt, decrypt, ih, List.cons_append, chain_cons]

/-- Decryption from the same initial value undoes encryption. -/
theorem decrypt_encrypt (hxor : ∀ a b, xor (xor a b) b = a) (hd : ∀ a, d (e a) = a)
    (iv : α) (ps : List α) : decrypt xor d iv (encrypt xor e iv ps) = ps := by
  induction ps generalizing iv with
  | nil => rfl
  | cons p ps ih => rw [encrypt, decrypt, hd, hxor, ih]

end TX2SecureUart.Cbc
