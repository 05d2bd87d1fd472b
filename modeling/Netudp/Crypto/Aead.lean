/-
What the cipher supplies.

The code reaches its cipher through two function pointers, `g_aead_encrypt` and
`g_aead_decrypt` (`src/crypto/aead_dispatch.cpp`), and derives keys with a keyed
Blake2b.  Both are parameters of the model: every definition that uses them takes
a `Primitives`, and a result that needs the cipher to be a good one says so with
`Ideal`.

Ciphertexts are an arbitrary type.  A ciphertext of `n + 16` *bytes* cannot
determine a 32-byte key, a nonce and the associated data, so no function on bytes
is ideal in the sense below; `Sealed` is the ciphertext that can.
-/
import Netudp.Lib.LittleEndian

namespace Netudp

/-- A byte buffer with its length. -/
abbrev Bytes := List UInt8

variable {Key Ct : Type}

/-- The cipher and the keyed hash the crypto layer calls. -/
structure Primitives (Key Ct : Type) where
  /-- `g_aead_encrypt(key, nonce, aad, pt)`; `none` is a negative return. -/
  encrypt : Key → Bytes → Bytes → Bytes → Option Ct
  /-- `g_aead_decrypt(key, nonce, aad, ct)`; `none` is a negative return. -/
  decrypt : Key → Bytes → Bytes → Ct → Option Bytes
  /-- The length of a ciphertext in bytes. -/
  ctLen : Ct → Nat
  /-- `crypto_blake2b_keyed` with a 32-byte output. -/
  blake2bKeyed : Key → Bytes → Key
  /-- 32 zero bytes: a key never set, or wiped. -/
  zeroKey : Key

/-- An ideal AEAD: encryption never fails, appends a 16-byte tag, and a ciphertext
opens exactly with the key, nonce and associated data it was made with. -/
structure Primitives.Ideal (C : Primitives Key Ct) : Prop where
  encrypts : ∀ k n a p, ∃ c, C.encrypt k n a p = some c
  tag : ∀ {k n a p c}, C.encrypt k n a p = some c → C.ctLen c = p.length + 16
  opens : ∀ {k n a p c k' n' a' p'}, C.encrypt k n a p = some c →
    (C.decrypt k' n' a' c = some p' ↔ k' = k ∧ n' = n ∧ a' = a ∧ p' = p)

/-! ### The symbolic cipher -/

/-- A ciphertext that is the record of its own encryption. -/
structure Sealed (Key : Type) where
  key : Key
  nonce : Bytes
  aad : Bytes
  pt : Bytes
deriving DecidableEq

/-- The cipher whose ciphertexts are such records. -/
def symbolic [DecidableEq Key] (blake2bKeyed : Key → Bytes → Key) (zeroKey : Key) :
    Primitives Key (Sealed Key) where
  encrypt k n a p := some ⟨k, n, a, p⟩
  decrypt k n a c := if k = c.key ∧ n = c.nonce ∧ a = c.aad then some c.pt else none
  ctLen c := c.pt.length + 16
  blake2bKeyed := blake2bKeyed
  zeroKey := zeroKey

theorem symbolic_ideal [DecidableEq Key] (blake2bKeyed : Key → Bytes → Key) (zeroKey : Key) :
    (symbolic blake2bKeyed zeroKey).Ideal := by
  refine ⟨fun k n a p => ⟨_, rfl⟩, ?_, ?_⟩
  · intro k n a p c h
    simp only [symbolic, Option.some.injEq] at h
    subst h
    rfl
  · intro k n a p c k' n' a' p' h
    simp only [symbolic, Option.some.injEq] at h
    subst h
    simp only [symbolic]
    split
    · rename_i hc
      simp [hc, eq_comm]
    · rename_i hc
      simp only [reduceCtorEq, false_iff]
      rintro ⟨hk, hn, ha, -⟩
      exact hc ⟨hk, hn, ha⟩

end Netudp
