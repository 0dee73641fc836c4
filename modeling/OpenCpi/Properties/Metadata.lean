import OpenCpi.Hdl.Metadata

/-!
# Reading the metadata ROM

The number of compressed bytes is checked against the size of the whole array, but the bytes are stored
behind the four words of the header. With 4081 to 4095 of them the loop stores behind the array, and the
decompressor is given what it stored there.
-/

namespace OpenCpi.Hdl

open Infra Traced

variable {words : BitVec 16 → BitVec 32} {zs : Zlib} {rom : Rom}

/-- What is asked for: accesses inside `rom`, an input inside `rom`, and an output area of the size of
`xml`. -/
def InsideRom : RomEvent → Prop
  | .access n => n < NROMWORDS
  | .inflate nextIn availIn availOut xmlSize => nextIn + availIn ≤ NROMWORDS * 4 ∧ availOut = xmlSize

/-- Every event is inside; any error may be reported. -/
abbrev RomSafe {α : Type} (x : RomM α) (rom : Rom) : Prop := Guarded InsideRom (fun _ => False) x rom

/-- The header is accepted. -/
def HeaderOk (words : BitVec 16 → BitVec 32) : Prop :=
  getRomWord words 0 = 1 ∧ getRomWord words 1 < NROMWORDS * 4 ∧ getRomWord words 2 < MAXXMLBYTES

theorem romSafe_storeWord {n : Nat} {α : Type} {f : Nat → RomM α} :
    RomSafe (storeWord words n >>= f) rom ↔ n < NROMWORDS ∧
      RomSafe (f (getRomWord words n)) (Function.update rom n (getRomWord words n)) := by
  unfold storeWord RomSafe
  rw [bind_assoc, guarded_report_bind, bind_assoc, guarded_change_bind]
  exact Iff.rfl

/-- The loop stays inside if its last word does, and then the rest decides. -/
theorem romSafe_storeWords {α : Type} {f : Unit → RomM α} : ∀ (count n : Nat) (rom : Rom),
    n ≤ NROMWORDS → (RomSafe (storeWords words count n >>= f) rom ↔
      n + count ≤ NROMWORDS ∧ ∃ rom', (storeWords words count n rom).2.2 = rom' ∧ RomSafe (f ()) rom')
  | 0, n, rom, hn => ⟨fun h => ⟨hn, rom, rfl, h⟩, fun ⟨_, _, hr, h⟩ => by cases hr; exact h⟩
  | count + 1, n, rom, hn => by
    rw [storeWords, bind_assoc, romSafe_storeWord]
    constructor
    · rintro ⟨hlt, h⟩
      obtain ⟨hle, h⟩ := (romSafe_storeWords count (n + 1) _ hlt).mp h
      exact ⟨by omega, h⟩
    · rintro ⟨hle, h⟩
      have hlt : n < NROMWORDS := by omega
      exact ⟨hlt, (romSafe_storeWords count (n + 1) _ hlt).mpr ⟨by omega, h⟩⟩

theorem romSafe_raise {e : String} {α : Type} : RomSafe (raise e : RomM α) rom :=
  guarded_raise.mpr id

theorem romSafe_decompress {inBytes xmlBytes check : Nat} :
    RomSafe (decompress zs inBytes xmlBytes check) rom ↔ 16 + inBytes ≤ NROMWORDS * 4 := by
  unfold decompress RomSafe
  rw [guarded_read_bind, guarded_report_bind]
  refine ⟨fun h => h.1.1, fun h => ⟨⟨h, rfl⟩, ?_⟩⟩
  dsimp only
  split
  · split
    · exact romSafe_raise
    · exact guarded_pure _
  · exact romSafe_raise

/-- With an accepted header it is the number of compressed bytes that decides. -/
theorem romSafe_of_headerOk (h : HeaderOk words) :
    RomSafe (getMetadata words zs) rom ↔ getRomWord words 1 ≤ 4 * (NROMWORDS - 4) := by
  obtain ⟨hversion, hin, hxml⟩ := h
  unfold getMetadata
  rw [romSafe_storeWord, if_neg (not_not_intro hversion), romSafe_storeWord, if_neg (Nat.not_le.mpr hin),
    romSafe_storeWord, if_neg (Nat.not_le.mpr hxml), romSafe_storeWord,
    romSafe_storeWords _ _ _ (by decide)]
  unfold NROMWORDS at *
  constructor
  · rintro ⟨-, -, -, -, hle, -⟩
    omega
  · intro hle
    refine ⟨by decide, by decide, by decide, by decide, by omega, _, rfl, romSafe_decompress.mpr ?_⟩
    unfold NROMWORDS
    omega

theorem romSafe_of_not_headerOk (h : ¬HeaderOk words) : RomSafe (getMetadata words zs) rom := by
  unfold getMetadata
  rw [romSafe_storeWord]
  refine ⟨by decide, ?_⟩
  by_cases hversion : getRomWord words 0 = 1
  · rw [if_neg (not_not_intro hversion), romSafe_storeWord]
    refine ⟨by decide, ?_⟩
    by_cases hin : NROMWORDS * 4 ≤ getRomWord words 1
    · rw [if_pos hin]
      exact romSafe_raise
    · rw [if_neg hin, romSafe_storeWord]
      refine ⟨by decide, ?_⟩
      rw [if_pos]
      · exact romSafe_raise
      · by_contra hxml
        exact h ⟨hversion, Nat.not_le.mp hin, Nat.not_le.mp hxml⟩
  · rw [if_pos hversion]
    exact romSafe_raise

/-- **Reading the metadata ROM is safe** if and only if the header is refused or leaves room for the header
itself. -/
theorem romSafe_iff (words : BitVec 16 → BitVec 32) (zs : Zlib) (rom : Rom) :
    RomSafe (getMetadata words zs) rom ↔ (HeaderOk words → getRomWord words 1 ≤ 4 * (NROMWORDS - 4)) := by
  by_cases h : HeaderOk words
  · exact (romSafe_of_headerOk h).trans ⟨fun hle _ => hle, fun hle => hle h⟩
  · exact iff_of_true (romSafe_of_not_headerOk h) fun hh => absurd hh h

/-- The header of 4081 compressed bytes. -/
def fullRom (n : BitVec 16) : BitVec 32 := if n = 0 then 1 else if n = 1 then 4081 else 0

/-- The last of 4081 bytes stands behind the array. -/
theorem fullRom_unsafe : ¬RomSafe (getMetadata fullRom ⟨true, fun _ _ => (true, [], 0), true⟩) fun _ => 0 :=
  fun h => absurd ((romSafe_of_headerOk (by unfold HeaderOk; decide)).mp h) (by decide)

end OpenCpi.Hdl
