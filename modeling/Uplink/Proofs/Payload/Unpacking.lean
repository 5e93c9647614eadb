import Uplink.Payload.Codec
import Uplink.Proofs.Gzip.Lossless
import Uplink.Proofs.Wire.Spelling

/-!
# Packed and plain payloads

What arrives in a gzip member is read as it would be read without the member. Nothing that can be
read looks like a member itself, so nothing is unpacked that should not be; and what cannot be read
becomes a body as it arrived, member and all.
-/

namespace Uplink

/-! ## 1. The first byte -/

theorem Gzip.eq_cons_of_isGzip {bs : List UInt8} (h : isGzip bs = true) :
    ∃ rest, bs = 0x1F :: rest := by
  obtain ⟨rest, rfl⟩ := List.isPrefixOf_iff_prefix.1 h
  exact ⟨0x8B :: rest, rfl⟩

namespace Utf8

/-- A character begins with a byte of the upper half, or it is that byte. -/
theorem exists_utf8EncodeChar_eq_cons (c : Char) :
    ∃ b bs, String.utf8EncodeChar c = b :: bs ∧ (b.toNat < 128 → b.toNat = c.toNat) := by
  have hc : c.toNat = c.val.toNat := rfl
  rw [String.utf8EncodeChar]
  split
  · exact ⟨_, _, rfl, fun _ => by rw [UInt8.toNat_ofNat']; omega⟩
  split
  · exact ⟨_, _, rfl, fun h => by rw [UInt8.toNat_ofNat'] at h; omega⟩
  split
  · exact ⟨_, _, rfl, fun h => by rw [UInt8.toNat_ofNat'] at h; omega⟩
  · exact ⟨_, _, rfl, fun h => by rw [UInt8.toNat_ofNat'] at h; omega⟩

/-- A byte of the lower half is a whole character. -/
theorem toList_of_bytes_eq_cons {text : String} {b : UInt8} {bs : List UInt8}
    (h : bytes text = b :: bs) (hb : b.toNat < 128) :
    ∃ cs, text.toList = Char.ofNat b.toNat :: cs := by
  rw [← String.ofList_toList (s := text), bytes_ofList] at h
  cases hcs : text.toList with
  | nil => rw [hcs] at h; cases h
  | cons c cs =>
    obtain ⟨first, after, hchar, hfirst⟩ := exists_utf8EncodeChar_eq_cons c
    rw [hcs, List.flatMap_cons, hchar] at h
    obtain ⟨rfl, -⟩ := List.cons.inj h
    exact ⟨cs, by rw [hfirst hb, Char.ofNat_toNat]⟩

end Utf8

/-- No value begins with the character of that byte. -/
theorem Json.readChars_unitSeparator (cs : List Char) :
    Json.readChars (Char.ofNat 0x1F :: cs) = none := by
  rfl

/-! ## 2. What can be read does not look like a member -/

theorem Wire.Field.readAll_eq_none_of_cons (level : Nat) (bs : List UInt8) :
    readAll level (0x1F :: bs) = none := by
  cases hread : readAll level (0x1F :: bs) with
  | none => rfl
  | some fields =>
    obtain ⟨parts, hbs, -, hparts⟩ := readAll_eq_some_iff.1 hread
    cases parts with
    | nil => cases hbs
    | cons part parts => exact absurd hbs.symm (hparts part List.mem_cons_self).ne_cons

theorem Payload.Binary.decode_of_cons (bs : List UInt8) :
    Payload.Binary.decode (0x1F :: bs) = .error .binary := by
  rw [decode, RawPayload.read, Wire.Field.readAll_eq_none_of_cons]
  rfl

theorem Payload.JsonForm.decode_of_cons (bs : List UInt8) :
    Payload.JsonForm.decode (0x1F :: bs) = .error .json := by
  have hread : (Utf8.ofBytes? (0x1F :: bs)).bind Json.read = none := by
    cases htext : Utf8.ofBytes? (0x1F :: bs) with
    | none => rfl
    | some text =>
      obtain ⟨cs, hcs⟩ := Utf8.toList_of_bytes_eq_cons (Utf8.bytes_of_ofBytes? htext) (by decide)
      rw [Option.bind_some, Json.read, hcs]
      exact Json.readChars_unitSeparator cs
  rw [decode, hread]
  rfl

theorem Encoding.isGzip_of_decode {encoding : Encoding} {bs : List UInt8} {p : Payload}
    (h : encoding.decode bs = .ok p) : Gzip.isGzip bs = false := by
  cases hgzip : Gzip.isGzip bs with
  | false => rfl
  | true =>
    obtain ⟨rest, rfl⟩ := Gzip.eq_cons_of_isGzip hgzip
    cases encoding with
    | binary =>
      have herror := Payload.Binary.decode_of_cons rest
      cases h.symm.trans herror
    | json =>
      have herror := Payload.JsonForm.decode_of_cons rest
      cases h.symm.trans herror

/-! ## 3. With and without a member -/

namespace Options

theorem unwrapWith_of_decompress {z : Gzip.Packer} {bs packed : List UInt8}
    (hpacked : Gzip.isGzip packed = true) (hbs : z.decompress packed = some bs) :
    unwrapWith z packed = bs := by
  rw [unwrapWith, if_pos hpacked, hbs, Option.getD_some]

theorem unwrapWith_of_not_isGzip {z : Gzip.Packer} {bs : List UInt8}
    (h : Gzip.isGzip bs = false) : unwrapWith z bs = bs := by
  rw [unwrapWith, if_neg (by rw [h]; decide)]

/-- **A member is read as what it expands to**, if that can be read, and then the same bytes without
a member are read in the same way. If not, the member itself becomes the body. -/
theorem decodePayloadWith_of_decompress {z : Gzip.Packer} {bs packed : List UInt8}
    (hpacked : Gzip.isGzip packed = true) (hbs : z.decompress packed = some bs) (o : Options) :
    (∀ p, o.encoding.decode bs = .ok p →
      o.decodePayloadWith z packed = p ∧ o.decodePayloadWith z bs = p) ∧
    (∀ fault, o.encoding.decode bs = .error fault →
      o.decodePayloadWith z packed = .ofBody packed) := by
  have hunwrap := unwrapWith_of_decompress hpacked hbs
  constructor
  · intro p hp
    have hplain : unwrapWith z bs = bs := unwrapWith_of_not_isGzip (Encoding.isGzip_of_decode hp)
    exact ⟨decodePayloadWith_of_ok (by rw [hunwrap, hp]),
      decodePayloadWith_of_ok (by rw [hplain, hp])⟩
  · intro fault hfault
    exact decodePayloadWith_of_error (by rw [hunwrap, hfault])

/-- A message with a body of one byte. -/
def oneByte : List UInt8 := [0xCA, 0xB8, 0x02, 0x01, 0x2A]

theorem decodePayloadWith_of_decompress_oneByte :
    Gzip.isGzip (Gzip.compress oneByte) = true ∧
      Gzip.decompress (Gzip.compress oneByte) = some oneByte ∧
      ({} : Options).decodePayload (Gzip.compress oneByte) = .ofBody [0x2A] ∧
      ({} : Options).decodePayload oneByte = .ofBody [0x2A] ∧
      ({ encoding := .json } : Options).decodePayload (Gzip.compress oneByte) =
        .ofBody (Gzip.compress oneByte) := by
  have hpacked := Gzip.isGzip_compress oneByte
  have hbs := Gzip.decompress_compress oneByte
  have hbinary := (decodePayloadWith_of_decompress (z := .storing) hpacked hbs {}).1
    (.ofBody [0x2A]) (by rfl)
  have hjson := (decodePayloadWith_of_decompress (z := .storing) hpacked hbs
    { encoding := .json }).2 .json (by rfl)
  exact ⟨hpacked, hbs, hbinary.1, hbinary.2, hjson⟩

end Options

end Uplink
