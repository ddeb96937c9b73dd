import Mathlib
import EdgeQuery.Cli.Codec
import EdgeQuery.Proofs.WireRoundTrip
import EdgeQuery.Proofs.ZstdRaw
import EdgeQuery.Proofs.Base64RoundTrip
/-! # Checkpoint tokens read back

A checkpoint travels as a token: its serial form, compressed and written in the URL base64
alphabet. Decoding the token of a checkpoint gives back the checkpoint itself
(`Checkpoint.decode_encode`) whenever the token codec carries it and its compression is
lossless: each layer is undone by a law of its own, `Base64.decode_encode_url` for the
text and the codec's laws for the rest.

The command line's codec, MessagePack compressed as Zstandard frames, has those laws
(`Cli.zstd_lossless`, `Cli.checkpointTokens_carries`) for every checkpoint that fits its
token (`Checkpoint.Storable`): sixteen-byte ids, a time of 64-bit seconds and fewer
nanoseconds than a second, units that fit their stored forms, and a MessagePack form within
the 16 MiB a token may hold. The MessagePack reading laws are shown here for times in each
of the three stored forms (`Instant.read_toValue`), identifiers and whole checkpoints. -/

namespace EdgeQuery.Plan

open Msgpack

/-! ## Times and identifiers -/

theorem signed_one_ff : signed 1 (255 : UInt8).toNat = -1 := by decide

theorem Instant.read_four (data : Nat) (hd : data < 4294967296) :
    Reads Instant.read (encode (.ext (-1) (bigEndian 4 data))) ⟨data, 0⟩ := by
  have henc : encode (.ext (-1) (bigEndian 4 data)) = 0xd6 :: 0xff :: bigEndian 4 data := by
    rw [encode]
    simp [length_bigEndian]
    decide
  rw [henc]
  unfold Instant.read
  refine readNil_then (by decide) ?_
  simp only [Bool.false_eq_true, if_false]
  refine readCode_bind (Reads.nil_bind (fun _ => rfl) (readCode_bind ?_))
  simp only [signed_one_ff, bne_self_eq_false, Bool.false_eq_true, if_false]
  refine Reads.bind_nil readN_width ?_
  simp only [length_bigEndian, ofBigEndian_bigEndian, Nat.mod_eq_of_lt hd]
  exact Reads.pure _

theorem Instant.read_eight (data : Nat) (hd : data < 18446744073709551616) :
    Reads Instant.read (encode (.ext (-1) (bigEndian 8 data)))
      (Instant.ofParts (data % Nat.pow 2 34 : Nat) (data / Nat.pow 2 34)) := by
  have henc : encode (.ext (-1) (bigEndian 8 data)) = 0xd7 :: 0xff :: bigEndian 8 data := by
    rw [encode]
    simp [length_bigEndian]
    decide
  rw [henc]
  unfold Instant.read
  refine readNil_then (by decide) ?_
  simp only [Bool.false_eq_true, if_false]
  refine readCode_bind (Reads.nil_bind (fun _ => rfl) (readCode_bind ?_))
  simp only [signed_one_ff, bne_self_eq_false, Bool.false_eq_true, if_false]
  refine Reads.bind_nil readN_width ?_
  simp only [length_bigEndian, ofBigEndian_bigEndian, Nat.mod_eq_of_lt hd]
  exact Reads.pure _

theorem Instant.read_twelve (ns secs : Nat) (hns : ns < 4294967296) (hs : secs < 18446744073709551616) :
    Reads Instant.read (encode (.ext (-1) (bigEndian 4 ns ++ bigEndian 8 secs)))
      (Instant.ofParts (signed 8 secs) ns) := by
  have henc : encode (.ext (-1) (bigEndian 4 ns ++ bigEndian 8 secs)) =
      0xc7 :: bigEndian 1 12 ++ 0xff :: (bigEndian 4 ns ++ bigEndian 8 secs) := by
    rw [encode]
    simp [length_bigEndian, bigEndian_one]
    decide
  rw [henc]
  unfold Instant.read
  refine readNil_then (by decide) ?_
  simp only [Bool.false_eq_true, if_false]
  refine readCode_bind (Reads.bind (readUInt_reads 1 12) (readCode_bind ?_))
  simp only [signed_one_ff, bne_self_eq_false, Bool.false_eq_true, if_false]
  have hlen : 12 % Nat.pow 256 1 = (bigEndian 4 ns ++ bigEndian 8 secs).length := by
    simp [length_bigEndian]
  rw [hlen]
  refine Reads.bind_nil readN_reads ?_
  simp only [List.length_append, length_bigEndian, Nat.reduceAdd,
    List.take_left' (length_bigEndian 4 ns), List.drop_left' (length_bigEndian 4 ns),
    ofBigEndian_bigEndian, Nat.mod_eq_of_lt hns, Nat.mod_eq_of_lt hs]
  exact Reads.pure _
/-- A time fits its stored form: 64-bit seconds, and fewer nanoseconds than a second. -/
structure Instant.Storable (t : Instant) : Prop where
  seconds : -Int.pow 2 63 ≤ t.seconds ∧ t.seconds < Int.pow 2 63
  nanos : t.nanos < 1000000000

instance : DecidablePred Instant.Storable := fun t =>
  decidable_of_iff ((-Int.pow 2 63 ≤ t.seconds ∧ t.seconds < Int.pow 2 63) ∧ t.nanos < 1000000000)
    ⟨fun ⟨h₁, h₂⟩ => ⟨h₁, h₂⟩, fun ⟨h₁, h₂⟩ => ⟨h₁, h₂⟩⟩

theorem Instant.read_toValue {t : Instant} (ht : t.Storable) : Reads Instant.read (encode t.toValue) t := by
  obtain ⟨seconds, nanos⟩ := t
  obtain ⟨⟨hlo, hhi⟩, hns⟩ := ht
  simp only at hlo hhi hns
  have htw := twos_eight_cast hlo hhi
  have h34 : Nat.pow 2 34 = 17179869184 := by decide
  have h32 : Nat.pow 2 32 = 4294967296 := by decide
  have h63 : Int.pow 2 63 = 9223372036854775808 := by decide
  unfold Instant.toValue
  simp only [h34, h32] at htw ⊢
  split
  · rename_i hsmall
    simp only [beq_iff_eq] at hsmall
    -- seconds from 0 to 2 ^ 34 - 1: nanoseconds and seconds share four or eight bytes
    split
    · rename_i hdata
      have h := Instant.read_four _ hdata
      have hv : (⟨((nanos * 17179869184 + twos 8 seconds : Nat) : Int), 0⟩ : Instant) = ⟨seconds, nanos⟩ := by
        simp only [Instant.mk.injEq]
        split at htw <;> omega
      rwa [hv] at h
    · have h := Instant.read_eight (nanos * 17179869184 + twos 8 seconds) (by split at htw <;> omega)
      have hv : Instant.ofParts ((nanos * 17179869184 + twos 8 seconds) % Nat.pow 2 34 : Nat)
          ((nanos * 17179869184 + twos 8 seconds) / Nat.pow 2 34) = ⟨seconds, nanos⟩ := by
        simp only [Instant.ofParts, h34, Instant.mk.injEq]
        split at htw <;> omega
      rwa [hv] at h
  · -- seconds outside that range: four bytes of nanoseconds, then eight of seconds
    have h := Instant.read_twelve nanos (twos 8 seconds) (by omega)
      (by split at htw <;> omega)
    have hv : Instant.ofParts (signed 8 (twos 8 seconds)) nanos = ⟨seconds, nanos⟩ := by
      simp only [Instant.ofParts, signed_twos_eight hlo hhi, Instant.mk.injEq]
      omega
    rwa [hv] at h

theorem Uuid.read_bin {id : Uuid} (h : id.bytes.length = 16) :
    Reads Uuid.read (encode (.bin id.bytes)) id := by
  have henc : encode (.bin id.bytes) = 0xc4 :: bigEndian 1 16 ++ id.bytes := by
    rw [encode, h, bigEndian_one (by decide)]
    rfl
  have hbytes := readBytes_bin (b := id.bytes) (by omega) (by omega)
  rw [henc] at hbytes ⊢
  unfold Uuid.read
  refine readNil_then (by decide) ?_
  simp only [Bool.false_eq_true, if_false]
  refine Reads.bind_nil hbytes ?_
  simp only [h, bne_self_eq_false, Bool.false_eq_true, if_false]
  exact Reads.pure _

/-- A checkpoint fits its token: sixteen-byte ids, a time and units that fit their stored
forms, and a stored form no longer than a token's content may be. -/
structure Checkpoint.Storable (cp : Checkpoint) : Prop where
  id : cp.id.bytes.length = 16
  queryId : cp.queryId.bytes.length = 16
  created : cp.created.Storable
  units : ∀ u ∈ cp.units, u.Storable
  size : (Msgpack.encode cp.toValue).length ≤ Zstd.maxDecoded

instance : DecidablePred Checkpoint.Storable := fun cp =>
  decidable_of_iff (cp.id.bytes.length = 16 ∧ cp.queryId.bytes.length = 16 ∧ cp.created.Storable ∧
      (∀ u ∈ cp.units, u.Storable) ∧ (Msgpack.encode cp.toValue).length ≤ Zstd.maxDecoded)
    ⟨fun ⟨h₁, h₂, h₃, h₄, h₅⟩ => ⟨h₁, h₂, h₃, h₄, h₅⟩, fun ⟨h₁, h₂, h₃, h₄, h₅⟩ => ⟨h₁, h₂, h₃, h₄, h₅⟩⟩

/-- The fields of a stored checkpoint, each with the change reading it makes. -/
def checkpointFields (cp : Checkpoint) : List (String × Option Value × (Checkpoint → Checkpoint)) :=
  [("id", some (.bin cp.id.bytes), fun x => { x with id := cp.id }),
   ("q", some (.bin cp.queryId.bytes), fun x => { x with queryId := cp.queryId }),
   ("t", some cp.created.toValue, fun x => { x with created := cp.created }),
   ("u", some (.arr (cp.units.map unitValue)), fun x => { x with units := cp.units })]

theorem Checkpoint.toValue_eq_record (cp : Checkpoint) :
    cp.toValue = record ((checkpointFields cp).map fun e => (e.1, e.2.1)) := rfl

theorem Checkpoint.read_toValue {cp : Checkpoint} (hcp : cp.Storable) :
    Reads Checkpoint.read (Msgpack.encode cp.toValue) cp := by
  have hsmall : (Msgpack.encode cp.toValue).length < 4294967296 := by
    have := hcp.size
    unfold Zstd.maxDecoded at this
    omega
  rw [Checkpoint.toValue_eq_record] at hsmall ⊢
  unfold Checkpoint.read
  refine record_reads (checkpointFields cp) hsmall ?_ rfl
  simp only [checkpointFields, List.mem_cons, List.not_mem_nil, or_false]
  rintro e (rfl | rfl | rfl | rfl) v hv hlen <;> cases hv
  · exact ⟨_, rfl, fun acc => Reads.bind_pure (fun i => { acc with id := i }) (Uuid.read_bin hcp.id)⟩
  · exact ⟨_, rfl, fun acc => Reads.bind_pure (fun i => { acc with queryId := i })
      (Uuid.read_bin hcp.queryId)⟩
  · exact ⟨_, rfl, fun acc => Reads.bind_pure (fun t => { acc with created := t })
      (Instant.read_toValue hcp.created)⟩
  · exact ⟨_, rfl, fun acc => Reads.bind_pure (fun us => { acc with units := us })
      (readList_reads hlen fun u hu hu' => readUnit_unitValue (hcp.units u hu) hu')⟩
/-! ## Tokens -/

/-- A token in the URL alphabet reads back as the value written, when the codec carries the
value and its compression is lossless up to a token's content. -/
theorem Token.decode_encode_url {α : Type} {c : TokenCodec α} (hz : c.compression.Lossless Token.maxDecoded)
    {a : α} (ha : c.Carries a) : Token.decode c Base64.url (Token.encode c Base64.url a) = .ok a := by
  have hread : c.serial.read (c.serial.write a) = .ok a := ha.readsBack
  unfold Token.decode Token.unpack Token.encode
  simp [Base64.decode_encode_url, hz _ ha.size, hread, bind, Except.bind, Except.mapError]

/-- Decoding the token of a checkpoint that the codec carries gives back the checkpoint. -/
theorem Checkpoint.decode_encode {c : TokenCodec Checkpoint} (hz : c.compression.Lossless Token.maxDecoded)
    {cp : Checkpoint} (hcp : c.Carries cp) : Checkpoint.decode c (Checkpoint.encode c cp) = .ok cp := by
  unfold Checkpoint.decode Checkpoint.encode
  rw [Token.decode_encode_url hz hcp]
  rfl

/-- Decoding the tokens of checkpoints that the codec carries gives back the checkpoints. -/
theorem Checkpoint.mapM_decode_encode {c : TokenCodec Checkpoint} (hz : c.compression.Lossless Token.maxDecoded)
    {cps : List Checkpoint} (h : ∀ cp ∈ cps, c.Carries cp) :
    cps.mapM (fun cp => Checkpoint.decode c (Checkpoint.encode c cp)) = .ok cps := by
  induction cps with
  | nil => rfl
  | cons cp cps ih =>
    rw [List.mapM_cons, Checkpoint.decode_encode hz (h cp List.mem_cons_self),
      ih fun x hx => h x (List.mem_cons_of_mem cp hx)]
    rfl

/-! ## The command line's codec -/

/-- The Zstandard frames the command line writes decompress to what was compressed, up to a
token's content. -/
theorem Cli.zstd_lossless : Cli.zstd.Lossless Token.maxDecoded :=
  fun b hb => Zstd.decompress_compress b hb

/-- The command line's checkpoint tokens carry every checkpoint that fits its token. -/
theorem Cli.checkpointTokens_carries {cp : Checkpoint} (hcp : cp.Storable) :
    Cli.checkpointTokens.Carries cp :=
  ⟨(Checkpoint.read_toValue hcp).run'_eq, hcp.size⟩

end EdgeQuery.Plan
