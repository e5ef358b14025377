import PicHost.Core.Models

/-!
# Encrypted tokens

`crypto.rs`: a token is stored as the base64 text of a nonce and its AES-256-GCM ciphertext.
-/

namespace PicHost

open Serialised

/-- `[u8; 32]`. -/
abbrev Key := { bytes : Bytes // bytes.length = 32 }

def nonceSize : ℕ := 12

abbrev Nonce := { bytes : Bytes // bytes.length = nonceSize }

/-- The cipher of the `aes_gcm` crate; a ciphertext ends in a tag of 16 bytes. -/
structure Aes256Gcm where
  encrypt : Key → Nonce → Bytes → Except String Bytes
  decrypt : Key → Nonce → Bytes → Option Bytes
  decrypt_encrypt : ∀ {key nonce plaintext ciphertext},
    encrypt key nonce plaintext = .ok ciphertext → decrypt key nonce ciphertext = some plaintext
  tag : ∀ {key nonce plaintext ciphertext}, encrypt key nonce plaintext = .ok ciphertext →
    16 ≤ ciphertext.length

/-- What the crate's module is built on. -/
structure Primitives where
  base64 : Codec Bytes String
  gcm : Aes256Gcm

inductive CryptoError
  | encrypt (error : String)
  | decrypt
  | invalidKey (length : ℕ)
deriving DecidableEq

def CryptoError.text : CryptoError → String
  | .encrypt error => "encryption failed: " ++ error
  | .decrypt => "decryption failed: invalid key or corrupted data"
  | .invalidKey length => "invalid key length: expected 32 bytes, got " ++ toString length

/-- `as_bytes`. -/
def utf8Bytes (s : String) : Bytes := s.toUTF8.data.toList

/-- `String::from_utf8`. -/
def ofUtf8 (bytes : Bytes) : Option String := String.fromUTF8? ⟨bytes.toArray⟩

namespace Primitives

variable (p : Primitives)

def encryptToken (nonce : Nonce) (plaintext : String) (key : Key) : Except CryptoError String :=
  match p.gcm.encrypt key nonce (utf8Bytes plaintext) with
  | .error e => .error (.encrypt e)
  | .ok ciphertext => .ok (p.base64.encode (nonce.val ++ ciphertext))

def decryptToken (encoded : String) (key : Key) : Except CryptoError String :=
  match p.base64.decode encoded with
  | none => .error .decrypt
  | some combined =>
    if h : nonceSize + 16 ≤ combined.length then
      let nonce : Nonce := ⟨combined.take nonceSize, List.length_take_of_le (by omega)⟩
      match (p.gcm.decrypt key nonce (combined.drop nonceSize)).bind ofUtf8 with
      | none => .error .decrypt
      | some plaintext => .ok plaintext
    else .error .decrypt

def decodeKey (encoded : String) : Except CryptoError Key :=
  match p.base64.decode encoded with
  | none => .error (.invalidKey 0)
  | some bytes =>
    if h : bytes.length = 32 then .ok ⟨bytes, h⟩ else .error (.invalidKey bytes.length)

end Primitives

theorem ofUtf8_utf8Bytes (s : String) : ofUtf8 (utf8Bytes s) = some s := by
  unfold ofUtf8 utf8Bytes String.fromUTF8?
  rw [Array.toArray_toList]
  exact dif_pos s.isValidUTF8

/-- What was encrypted under a key is decrypted under it. -/
theorem Primitives.decryptToken_encryptToken {p : Primitives} {nonce : Nonce} {plaintext : String}
    {key : Key} {encoded : String} (h : p.encryptToken nonce plaintext key = .ok encoded) :
    p.decryptToken encoded key = .ok plaintext := by
  unfold encryptToken at h
  split at h
  · cases h
  · rename_i ciphertext hciphertext
    cases h
    have htag := p.gcm.tag hciphertext
    have hlength : nonceSize + 16 ≤ (nonce.val ++ ciphertext).length := by
      rw [List.length_append, nonce.property]
      omega
    have htake : (nonce.val ++ ciphertext).take nonceSize = nonce.val :=
      List.take_left' nonce.property
    have hdrop : (nonce.val ++ ciphertext).drop nonceSize = ciphertext :=
      List.drop_left' nonce.property
    simp only [decryptToken, p.base64.decode_encode, dif_pos hlength, htake, hdrop,
      Subtype.coe_eta, p.gcm.decrypt_encrypt hciphertext, Option.bind_some, ofUtf8_utf8Bytes]

end PicHost
