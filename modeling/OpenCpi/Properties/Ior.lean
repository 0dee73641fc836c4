import OpenCpi.Ior.Text

/-!
# Object references are decoded to what was encoded

The encoder writes lengths with 32 bits and leaves the components of an IIOP 1.0 body out. Apart from
that, what `encode` writes is decoded to an equal object, and so is what an encoder of the other byte
order writes, whatever its padding is.
-/

namespace OpenCpi.Ior

open Infra

variable {s : Style} {native : Bool}

/-! ## Lengths -/

/-- The lengths fit into 32 bits. -/
def Tagged.Short (t : Tagged) : Prop := t.data.length < 2 ^ 32

def ShortSeq (l : List Tagged) : Prop := l.length < 2 ^ 32 ∧ ∀ t ∈ l, t.Short

def ShortString (v : Bytes) : Prop := v.length + 1 < 2 ^ 32

structure IOR.Short (ior : IOR) : Prop where
  typeId : ShortString ior.typeId
  profiles : ShortSeq ior.profiles

structure ProfileBody.Short (b : ProfileBody) : Prop where
  host : ShortString b.host
  objectKey : b.objectKey.length < 2 ^ 32
  components : ShortSeq b.components

/-! ## Tagged data -/

theorem decodes_tagged {t : Tagged} (h : t.Short) :
    Decodes (getTagged native s.little) (putTagged s t) t := by
  have htag : Decodes (getULong native s.little) (putULong s t.tag.toNat) t.tag.toNat :=
    decodes_uLong t.tag.toNat_lt
  have hoctets : Decodes (getOctetSeq native s.little) (putOctetSeq s t.data) t.data :=
    decodes_octetSeq h
  have hdata := hoctets.map fun data => Tagged.mk (UInt32.ofNat t.tag.toNat) data
  have hall := Decodes.bind
    (g := fun tag => getOctetSeq native s.little >>= fun data =>
      pure (Tagged.mk (UInt32.ofNat tag) data))
    (p := putOctetSeq s t.data) htag hdata
  rw [UInt32.ofNat_toNat] at hall
  exact hall

theorem putTagged_length (t : Tagged) (d : Bytes) : d.length + 8 ≤ (putTagged s t d).length := by
  have h₁ := le_alignUp (m := 4) (by decide) d.length
  have h₂ := le_alignUp (m := 4) (by decide) (putULong s t.tag.toNat d).length
  have h₃ := putULong_length (s := s) t.tag.toNat d
  unfold putTagged putOctetSeq
  rw [List.length_append, putULong_length]
  omega

/-- **A sequence is decoded**, and passes the check of the number of its elements. -/
theorem decodes_taggedSeq {l : List Tagged} (h : ShortSeq l) :
    Decodes (getTaggedSeq native s.little) (putTaggedSeq s l) l := by
  have hn : Decodes (getULong native s.little) (putULong s (l.length % 2 ^ 32)) l.length := by
    rw [Nat.mod_eq_of_lt h.1]
    exact decodes_uLong h.1
  have hl : Decodes (getAll (getTagged native s.little) l.length) (putAll (putTagged s) l) l :=
    decodes_all fun t ht => decodes_tagged (h.2 t ht)
  refine Decodes.bind (p := putAll (putTagged s) l) hn ⟨hl.grows, fun d data hp => ?_⟩
  have hlen : d.length + l.length * 8 ≤ (putAll (putTagged s) l d).length :=
    putAll_grows putTagged_length l d
  have hdata := hp.length_le
  have hmod := Nat.mod_le (l.length * 8) (2 ^ 32)
  have hcheck : ¬data.length - d.length < l.length * 8 % 2 ^ 32 := by omega
  show (if data.length - d.length < l.length * 8 % 2 ^ 32 then throw Fault.invalidData
    else getAll (getTagged native s.little) l.length : Decoder (List Tagged)) _ = _
  rw [if_neg hcheck]
  exact hl.get d data hp

/-! ## Objects -/

theorem decodeWith_of_decodes {α : Type} {get : Decoder α} {put : Bytes → Bytes} {v : α}
    (h : Decodes get put v) {data : Bytes} (hp : put [] <+: data) : decodeWith get data = .ok v := by
  unfold decodeWith
  have hget := h.get [] data hp
  rw [List.length_nil] at hget
  rw [hget]

theorem decodes_ior {ior : IOR} (h : ior.Short) : Decodes (IOR.get native) (ior.put s) ior := by
  have hseq : Decodes (getTaggedSeq native s.little) (putTaggedSeq s ior.profiles) ior.profiles :=
    decodes_taggedSeq h.profiles
  have hid : Decodes (getString native s.little) (putString s ior.typeId) ior.typeId :=
    decodes_string h.typeId
  have hprofiles := hseq.map fun profiles => IOR.mk ior.typeId profiles
  have htype := Decodes.bind
    (g := fun typeId => getTaggedSeq native s.little >>= fun profiles =>
      pure (IOR.mk typeId profiles))
    (p := putTaggedSeq s ior.profiles) hid hprofiles
  exact Decodes.bind
    (g := fun order => getString native order >>= fun typeId =>
      getTaggedSeq native order >>= fun profiles => pure (IOR.mk typeId profiles))
    (p := fun d => putTaggedSeq s ior.profiles (putString s ior.typeId d))
    (decodes_boolean s.little) htype

theorem decodes_mcp {p : MultipleComponentProfile} (h : ShortSeq p.components) :
    Decodes (MultipleComponentProfile.get native) (p.put s) p := by
  have hseq : Decodes (getTaggedSeq native s.little) (putTaggedSeq s p.components) p.components :=
    decodes_taggedSeq h
  have hcomponents := hseq.map MultipleComponentProfile.mk
  exact Decodes.bind
    (g := fun order => getTaggedSeq native order >>= fun components =>
      pure (MultipleComponentProfile.mk components))
    (p := putTaggedSeq s p.components) (decodes_boolean s.little) hcomponents

/-- The components, in the versions that have them. -/
theorem decodes_components {b : ProfileBody} (h : ShortSeq b.components)
    (hnone : b.minor = 0 → b.components = []) :
    Decodes (getComponents native s.little b.minor) (b.putComponents s) b.components := by
  unfold getComponents ProfileBody.putComponents
  by_cases hminor : 1 ≤ b.minor
  · simp only [if_pos hminor]
    exact decodes_taggedSeq h
  · simp only [if_neg hminor]
    have hzero : b.minor = 0 := by
      rw [← UInt8.toNat_inj]
      rw [UInt8.le_iff_toNat_le] at hminor
      exact Nat.lt_one_iff.mp (Nat.lt_of_not_le hminor)
    rw [hnone hzero]
    exact decodes_pure []

theorem decodes_profileBody {b : ProfileBody} (hknown : b.known) (h : b.Short)
    (hnone : b.minor = 0 → b.components = []) :
    Decodes (ProfileBody.get native) (b.put s) b := by
  have hversion : ¬(b.major ≠ 1 ∨ 3 < b.minor) := by
    rintro (hmajor | hminor)
    · exact hmajor hknown.1
    · exact absurd hknown.2 (UInt8.not_le.mpr hminor)
  have hcomponents : Decodes (getComponents native s.little b.minor) (b.putComponents s)
      b.components := decodes_components h.components hnone
  have hend := hcomponents.map fun components => ProfileBody.mk b.major b.minor b.host (UInt16.ofNat b.port.toNat) b.objectKey
      components
  rw [UInt16.ofNat_toNat] at hend
  unfold ProfileBody.get
  -- one field after the other, each with what is still to be written
  refine Decodes.bind (p := fun d => b.putComponents s (putOctetSeq s b.objectKey
    (putUShort s b.port.toNat (putString s b.host (putOctet b.minor (putOctet b.major d))))))
    (decodes_boolean s.little) ?_
  refine Decodes.bind (p := fun d => b.putComponents s (putOctetSeq s b.objectKey
    (putUShort s b.port.toNat (putString s b.host (putOctet b.minor d)))))
    (decodes_octet b.major) ?_
  refine Decodes.bind (p := fun d => b.putComponents s (putOctetSeq s b.objectKey
    (putUShort s b.port.toNat (putString s b.host d)))) (decodes_octet b.minor) ?_
  rw [if_neg hversion]
  refine Decodes.bind (p := fun d => b.putComponents s (putOctetSeq s b.objectKey
    (putUShort s b.port.toNat d))) (decodes_string h.host) ?_
  refine Decodes.bind (p := fun d => b.putComponents s (putOctetSeq s b.objectKey d))
    (decodes_uShort b.port.toNat_lt) ?_
  refine Decodes.bind (p := b.putComponents s) (decodes_octetSeq h.objectKey) ?_
  rw [UInt16.ofNat_toNat]
  exact hend

/-! ## The round trips -/

/-- The objects that are encoded without loss. -/
structure ProfileBody.Whole (b : ProfileBody) : Prop extends b.Short where
  known : b.known
  components₀ : b.minor = 0 → b.components = []

/-- **Round trips**, on a host of any byte order: of what the host encodes, and of what an encoder of
the other byte order writes. -/
theorem decode_encode (native : Bool) (fill : Nat → UInt8) :
    (∀ ior : IOR, ior.Short → IOR.decode native (ior.encode native) = .ok ior ∧
      IOR.decode native (ior.encodeIn ⟨!native, fill⟩) = .ok ior) ∧
    (∀ p : MultipleComponentProfile, ShortSeq p.components →
      MultipleComponentProfile.decode native (p.encode native) = .ok p ∧
      MultipleComponentProfile.decode native (p.encodeIn ⟨!native, fill⟩) = .ok p) ∧
    ∀ b : ProfileBody, b.Whole →
      (b.encode native).bind (ProfileBody.decode native) = .ok b ∧
      (b.encodeIn ⟨!native, fill⟩).bind (ProfileBody.decode native) = .ok b := by
  refine ⟨fun ior h => ⟨?_, ?_⟩, fun p h => ⟨?_, ?_⟩, fun b h => ⟨?_, ?_⟩⟩
  · exact decodeWith_of_decodes (decodes_ior h) List.prefix_rfl
  · exact decodeWith_of_decodes (decodes_ior h) List.prefix_rfl
  · exact decodeWith_of_decodes (decodes_mcp h) List.prefix_rfl
  · exact decodeWith_of_decodes (decodes_mcp h) List.prefix_rfl
  · unfold ProfileBody.encode ProfileBody.encodeIn
    rw [if_pos h.known]
    exact decodeWith_of_decodes (decodes_profileBody h.known h.toShort h.components₀)
      List.prefix_rfl
  · unfold ProfileBody.encodeIn
    rw [if_pos h.known]
    exact decodeWith_of_decodes (decodes_profileBody h.known h.toShort h.components₀)
      List.prefix_rfl

/-- A type id, a profile and a component, on a little-endian host. -/
theorem decode_encode_small :
    IOR.decode true (IOR.encode true ⟨[73, 68], [⟨0, [1, 2, 3]⟩, ⟨1, []⟩]⟩) =
        .ok ⟨[73, 68], [⟨0, [1, 2, 3]⟩, ⟨1, []⟩]⟩ ∧
      MultipleComponentProfile.decode true (MultipleComponentProfile.encode true ⟨[⟨7, [9]⟩]⟩) =
        .ok ⟨[⟨7, [9]⟩]⟩ ∧
      ((ProfileBody.mk 1 2 [104] 80 [5, 6] [⟨3, [1]⟩]).encodeIn ⟨false, fun _ => 0⟩).bind
        (ProfileBody.decode true) = .ok ⟨1, 2, [104], 80, [5, 6], [⟨3, [1]⟩]⟩ := by
  refine ⟨((decode_encode true fun _ => 0).1 _ ⟨?_, ?_⟩).1,
    ((decode_encode true fun _ => 0).2.1 _ ?_).1,
    ((decode_encode true fun _ => 0).2.2 _ ⟨⟨?_, ?_, ?_⟩, by decide, by decide⟩).2⟩
  · simp [ShortString]
  · simp [ShortSeq, Tagged.Short]
  · simp [ShortSeq, Tagged.Short]
  · simp [ShortString]
  · simp
  · simp [ShortSeq, Tagged.Short]

/-- Data whose length is a multiple of 4 GiB is encoded with the length zero. -/
theorem decode_encode_wrapped {n : Nat} (hn : n % 2 ^ 32 = 0) (hpos : 0 < n) :
    MultipleComponentProfile.decode native
      (MultipleComponentProfile.encode native ⟨[⟨0, List.replicate n 0⟩]⟩) ≠
        .ok ⟨[⟨0, List.replicate n 0⟩]⟩ := by
  intro hne
  -- the decoder sees an empty component
  have hp : (MultipleComponentProfile.mk [⟨0, []⟩]).put (nativeStyle native) [] <+:
      MultipleComponentProfile.encode native ⟨[⟨0, List.replicate n 0⟩]⟩ := by
    unfold MultipleComponentProfile.encode MultipleComponentProfile.encodeIn
      MultipleComponentProfile.put putTaggedSeq putAll
    simp only [List.foldl_cons, List.foldl_nil, putTagged, putOctetSeq, List.length_replicate, hn,
      List.length_nil, Nat.zero_mod, List.append_nil, List.length_cons]
    exact List.prefix_append _ _
  have hempty : Decodes (MultipleComponentProfile.get native)
      ((MultipleComponentProfile.mk [⟨0, []⟩]).put (nativeStyle native)) ⟨[⟨0, []⟩]⟩ :=
    decodes_mcp ⟨by decide, by simp [Tagged.Short]⟩
  have hdec := decodeWith_of_decodes hempty hp
  have heq := hdec.symm.trans hne
  simp only [Except.ok.injEq, MultipleComponentProfile.mk.injEq, List.cons.injEq, Tagged.mk.injEq,
    true_and, and_true] at heq
  have hlen := congrArg List.length heq
  simp only [List.length_nil, List.length_replicate] at hlen
  omega

/-- A body of version 1.0 loses its components, and data of 4 GiB is lost. -/
theorem decode_encode_lossy :
    (∃ b : ProfileBody, b.known ∧ b.Short ∧
      (b.encode true).bind (ProfileBody.decode true) ≠ .ok b) ∧
    ∃ p : MultipleComponentProfile, ∀ native,
      MultipleComponentProfile.decode native (p.encode native) ≠ .ok p := by
  refine ⟨⟨⟨1, 0, [104], 80, [5, 6], [⟨3, [1]⟩]⟩, by decide, ⟨?_, ?_, ?_, ?_⟩, by decide⟩,
    ⟨⟨[⟨0, List.replicate (2 ^ 32) 0⟩]⟩, fun native => ?_⟩⟩
  · simp [ShortString]
  · simp
  · simp
  · simp [Tagged.Short]
  · exact decode_encode_wrapped (Nat.mod_self _) (by decide)

/-! ## The text form

`decode_ior_string` answers `true` when it succeeds. The constructor of `IOR` takes it so, but
`string_to_ior` takes it for a failure.
-/

/-- What the constructor makes of a text is what `decode` makes of the bytes. -/
theorem ofUri_iorToString (ior : IOR) :
    IOR.ofUri native (iorToString native ior) = IOR.decode native (ior.encode native) := by
  unfold IOR.ofUri
  rw [decodeIorString_iorToString]
  rfl

/-- **The constructor reads the text form back**, where the lengths fit into 32 bits. -/
theorem ofUri_roundTrip {ior : IOR} (h : ior.Short) :
    IOR.ofUri native (iorToString native ior) = .ok ior := by
  rw [ofUri_iorToString]
  exact decodeWith_of_decodes (decodes_ior h) List.prefix_rfl

/-- **`string_to_ior` rejects every text that `ior_to_string` makes.** -/
theorem stringToIor_rejects (native : Bool) (ior : IOR) :
    stringToIor native (iorToString native ior) = .error "can not read ior string" := by
  unfold stringToIor
  rw [decodeIorString_iorToString]
  rfl

/-- **There is no round trip** through `string_to_ior`, for any reference. -/
theorem stringToIor_never (native : Bool) (ior : IOR) :
    stringToIor native (iorToString native ior) ≠ .ok ior := by
  rw [stringToIor_rejects]
  exact fun h => by cases h

/-- A reference without a type and without profiles. -/
theorem stringToIor_empty : ¬∀ (native : Bool) (ior : IOR),
    stringToIor native (iorToString native ior) = .ok ior := by
  intro h
  have hempty := h true ⟨[], []⟩
  rw [stringToIor_rejects] at hempty
  cases hempty

end OpenCpi.Ior
