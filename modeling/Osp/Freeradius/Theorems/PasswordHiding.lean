import Osp.Freeradius.Encode

/-!
# Hidden passwords

Reading a hidden password gives the password back, padded with zeros for the password of a user. `rad_tunnel_pwencode` copies the secret
into a buffer that is too small for secrets of more than 255 bytes.
-/

namespace Osp.Freeradius

open Osp.Lib List

variable {e : EncodeEnv} {vector : Digest} {salt : UInt8 × UInt8} {passwd : Bytes}

theorem xorBytes_xorBytes {a b : Bytes} (h : a.length = b.length) : xorBytes (xorBytes a b) b = a := by
  refine ext_getElem (by simp [xorBytes, h]) fun i _ _ => ?_
  simp only [xorBytes, getElem_zipWith]
  rw [UInt8.xor_assoc, UInt8.xor_self, UInt8.xor_zero]

/-- A block that was hidden is read with the same block before it. -/
theorem revealBlocks_hideBlocks (blocks : Nat) (before : Bytes) {text : Bytes} (h : text.length = 16 * blocks) :
    revealBlocks e blocks before (hideBlocks e blocks before text) = text := by
  induction blocks generalizing before text with
  | zero => rw [length_eq_zero_iff.1 h, revealBlocks]
  | succ blocks ih =>
    have htake : (text.take 16).length = 16 := by rw [length_take]; omega
    have hdrop : (text.drop 16).length = 16 * blocks := by rw [length_drop]; omega
    have hblock : (xorBytes (text.take 16) (e.md5.md5 (e.secret ++ before)).toList).length = 16 := by
      rw [xorBytes, length_zipWith, htake, Vector.length_toList, Nat.min_self]
    rw [hideBlocks, revealBlocks, take_left' hblock, drop_left' hblock, ih _ hdrop, xorBytes_xorBytes (by simp [htake]),
      take_append_drop]

theorem length_hideBlocks (blocks : Nat) (before : Bytes) {text : Bytes} (h : text.length = 16 * blocks) :
    (hideBlocks e blocks before text).length = 16 * blocks := by
  induction blocks generalizing before text with
  | zero => rfl
  | succ blocks ih =>
    rw [hideBlocks, length_append, ih _ (by rw [length_drop]; omega), xorBytes, length_zipWith, length_take,
      Vector.length_toList]
    omega

/-- The password with zeros up to a whole number of blocks, and at least one. -/
def zeroPadded (passwd : Bytes) : Bytes := passwd ++ List.replicate (max 16 (roundBlocks passwd.length) - passwd.length) 0

theorem readMem_of_ge {mem : Bytes} {n : Nat} (h : mem.length ≤ n) : readMem mem n = mem ++ List.replicate (n - mem.length) 0 := by
  rw [readMem, take_append, take_of_length_le h, take_replicate, Nat.min_eq_left (by omega)]

/-- Two ways to round up. -/
theorem padded_eq_roundBlocks (n : Nat) : (if n % 16 ≠ 0 then n + (16 - n % 16) else n) = roundBlocks n := by
  unfold roundBlocks
  split <;> omega

theorem makePasswd_eq (h : passwd.length ≤ 128) :
    makePasswd e vector passwd = hideBlocks e ((zeroPadded passwd).length / 16) vector.toList (zeroPadded passwd) := by
  have hmax : (if passwd.length = 0 then 16 else roundBlocks passwd.length) = max 16 (roundBlocks passwd.length) := by
    unfold roundBlocks
    split <;> omega
  have hle : passwd.length ≤ max 16 (roundBlocks passwd.length) := by
    unfold roundBlocks
    omega
  rw [makePasswd, take_of_length_le h]
  simp only [hmax, readMem_of_ge hle, zeroPadded, length_append, length_replicate, Nat.add_sub_cancel' hle]

theorem radPwdecode_makePasswd (h : passwd.length ≤ 128) : (radPwdecode e vector (makePasswd e vector passwd)).1 = zeroPadded passwd := by
  obtain ⟨blocks, hblocks, hle⟩ : ∃ blocks, (zeroPadded passwd).length = 16 * blocks ∧ blocks ≤ 8 := by
    refine ⟨max 1 ((passwd.length + 15) / 16), ?_⟩
    rw [zeroPadded, length_append, length_replicate, roundBlocks]
    omega
  have hlength := length_hideBlocks (e := e) blocks vector.toList hblocks
  rw [makePasswd_eq h, hblocks, Nat.mul_div_cancel_left _ (by decide), radPwdecode]
  rw [hlength, show (min (16 * blocks) 128 + 15) / 16 = blocks by omega, revealBlocks_hideBlocks _ _ hblocks,
    take_of_length_le (by omega)]

/-- What is read of a password that is hidden with its length in front. -/
theorem radTunnelPwdecode_hideBlocks {len : Nat} (hlen : len = roundBlocks (passwd.length + 1)) (hle : passwd.length ≤ 239) :
    radTunnelPwdecode e vector (salt.1 :: salt.2 ::
      hideBlocks e (len / 16) (vector.toList ++ [salt.1, salt.2]) (readMem (UInt8.ofNat passwd.length :: passwd) len)) = some passwd := by
  obtain ⟨blocks, hblocks⟩ : ∃ blocks, len = 16 * blocks := ⟨(passwd.length + 16) / 16, by rw [hlen, roundBlocks]; omega⟩
  have hfits : passwd.length + 1 ≤ 16 * blocks := by
    unfold roundBlocks at hlen
    omega
  rw [hblocks, Nat.mul_div_cancel_left _ (by decide)]
  have hmem := length_readMem (UInt8.ofNat passwd.length :: passwd) (16 * blocks)
  have hreveal := revealBlocks_hideBlocks (e := e) blocks (vector.toList ++ [salt.1, salt.2]) hmem
  have hlength := length_hideBlocks (e := e) blocks (vector.toList ++ [salt.1, salt.2]) hmem
  have hread : readMem (UInt8.ofNat passwd.length :: passwd) (16 * blocks) =
      UInt8.ofNat passwd.length :: (passwd ++ List.replicate (16 * blocks - (passwd.length + 1)) 0) := by
    rw [readMem_of_ge (by simpa using hfits)]
    rfl
  rw [radTunnelPwdecode]
  simp only [length_cons, take_succ_cons, take_zero, drop_succ_cons, drop_zero, hlength]
  rw [if_neg (by omega), if_neg (by omega), show (16 * blocks + 1 + 1 - 2 + 15) / 16 = blocks by omega, hreveal, hread]
  simp only [headD_cons, tail_cons, UInt8.toNat_ofNat', Nat.mod_eq_of_lt (show passwd.length < 2 ^ 8 by omega)]
  rw [if_neg (by omega), Nat.min_eq_left hle, take_left]

/-- The password of a user that is hidden by either encoder is read with zeros behind it. The password of a tunnel is read as it was, but
`rad_tunnel_pwencode` has a result only for secrets of at most 255 bytes. -/
theorem hidden_passwords_read (e : EncodeEnv) (vector : Digest) (salt : UInt8 × UInt8) :
    (∀ passwd : Bytes, passwd.length ≤ 128 →
      radPwencode e vector passwd = makePasswd e vector passwd ∧
      (radPwdecode e vector (radPwencode e vector passwd)).1 = zeroPadded passwd) ∧
    (∀ (passwd : Bytes) (room : Nat), roundBlocks (passwd.length + 1) + 2 ≤ min room 253 →
      radTunnelPwdecode e vector (makeTunnelPasswd e vector salt room passwd) = some passwd) ∧
    ((∀ passwd : Bytes, passwd.length ≤ 127 →
      (radTunnelPwencode e vector salt passwd).bind (radTunnelPwdecode e vector) = some passwd) ↔ e.secret.length ≤ 255) := by
  refine ⟨?_, ?_, ?_, ?_⟩
  · intro passwd h
    have hencoders : radPwencode e vector passwd = makePasswd e vector passwd := by
      simp only [radPwencode, makePasswd, padded_eq_roundBlocks]
    rw [hencoders]
    exact ⟨rfl, radPwdecode_makePasswd h⟩
  · intro passwd room hroom
    unfold roundBlocks at hroom
    rw [makeTunnelPasswd, take_of_length_le (by omega)]
    exact radTunnelPwdecode_hideBlocks rfl (by omega)
  · intro h
    by_contra hlong
    have hnone : radTunnelPwencode e vector salt [] = none := if_pos (by omega)
    have hempty := h [] (by simp)
    rw [hnone] at hempty
    cases hempty
  · intro hsecret passwd h
    rw [radTunnelPwencode, take_of_length_le h]
    rw [if_neg (by omega), Option.bind_some, padded_eq_roundBlocks]
    exact radTunnelPwdecode_hideBlocks rfl (by omega)

/-- With a secret of 256 bytes the copies end one byte behind the buffer. -/
theorem hidden_passwords_long_secret :
    let e : EncodeEnv := ⟨⟨fun _ => none, fun _ => none, by simp, by simp⟩, ⟨fun _ => zeroDigest, fun _ _ => zeroDigest⟩,
      List.replicate 256 97, fun _ => (128, 0)⟩
    radTunnelPwencode e zeroDigest (128, 0) [112] = none := by
  intro e
  have hlength : e.secret.length = 256 := length_replicate
  rw [radTunnelPwencode, if_pos (by omega)]

end Osp.Freeradius
