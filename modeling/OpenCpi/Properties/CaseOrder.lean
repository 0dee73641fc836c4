import Mathlib.Data.List.Lex
import Mathlib.Data.Set.Basic
import OpenCpi.Misc.Compare

/-!
# Strings ordered without regard to case

A letter is compared without its case to another letter, but as it is to any other character. The characters between
`Z` and `a` are therefore behind a capital letter and before a small one, although these two may be the same letter.
-/

namespace OpenCpi.Misc

open Util (Text toInt)

variable {A : Set UInt8} {S T : Set Text} {a b c : UInt8} {x y z : Text} {n : Nat}

/-! ## A strict weak order -/

def Less (s1 s2 : Text) : Prop := less s1 s2 = some true

instance (s1 s2 : Text) : Decidable (Less s1 s2) := inferInstanceAs (Decidable (_ = _))

/-- **The comparison orders a set of strings**: it is defined, a strict weak ordering, and strings are the same to it
if they are equal without regard to case. -/
structure WellOrdered (S : Set Text) : Prop where
  defined : ∀ x ∈ S, ∀ y ∈ S, (less x y).isSome
  irrefl : ∀ x ∈ S, ¬Less x x
  asymm : ∀ x ∈ S, ∀ y ∈ S, Less x y → ¬Less y x
  trans : ∀ x ∈ S, ∀ y ∈ S, ∀ z ∈ S, Less x y → Less y z → Less x z
  incomparable : ∀ x ∈ S, ∀ y ∈ S, (¬Less x y ∧ ¬Less y x) ↔ x.map Util.tolower = y.map Util.tolower
  incomparable_trans : ∀ x ∈ S, ∀ y ∈ S, ∀ z ∈ S, ¬Less x y → ¬Less y x → ¬Less y z → ¬Less z y →
    ¬Less x z ∧ ¬Less z x

/-- The strings of some characters up to a length. -/
def Over (A : Set UInt8) (n : Nat) : Set Text := {x | x.length ≤ n ∧ ∀ c ∈ x, c ∈ A}

/-- A character between `Z` and `a`, and a capital and a small letter that are not ordered like their capital and
small forms. -/
def Conflict (A : Set UInt8) : Prop := ∃ m ∈ A, ∃ u ∈ A, ∃ l ∈ A,
  (91 ≤ m ∧ m ≤ 96) ∧ (65 ≤ u ∧ u ≤ 90) ∧ (97 ≤ l ∧ l ≤ 122) ∧ l ≤ Util.tolower u

/-- The condition on the characters and the lengths of strings. -/
def Sound (A : Set UInt8) (n : Nat) : Prop :=
  n = 0 ∨ (∀ c ∈ A, InCtype c) ∧ ¬Conflict A ∧ (A.Nonempty → n < 2 ^ 31)

/-! ## Characters -/

def letter (i : Int) : Prop := 65 ≤ i ∧ i ≤ 90 ∨ 97 ≤ i ∧ i ≤ 122

instance (i : Int) : Decidable (letter i) := inferInstanceAs (Decidable (_ ∨ _))

/-- A small letter for a capital one. -/
def low (i : Int) : Int := if 65 ≤ i ∧ i ≤ 90 then i + 32 else i

/-- The difference that is computed for two characters. -/
def charDiff (i j : Int) : Int := if letter i ∧ letter j then low j - low i else j - i

theorem toInt_cases (h : InCtype c) : toInt c = c.toNat ∧ c.toNat < 128 ∨ toInt c = -1 ∧ c.toNat = 255 := by
  rcases h with h | rfl
  · exact .inl ⟨if_pos h, UInt8.lt_iff_toNat_lt.mp h⟩
  · exact .inr ⟨rfl, rfl⟩

theorem isalpha_iff (h : InCtype c) : Util.isalpha c = true ↔ letter (toInt c) := by
  have hc := toInt_cases h
  simp only [Util.isalpha, letter, Bool.or_eq_true, Bool.and_eq_true, decide_eq_true_eq, UInt8.le_iff_toNat_le,
    UInt8.reduceToNat]
  omega

theorem toInt_tolower (h : InCtype c) : toInt (Util.tolower c) = low (toInt c) := by
  have hc := toInt_cases h
  unfold Util.tolower low
  simp only [Bool.and_eq_true, decide_eq_true_eq, UInt8.le_iff_toNat_le, UInt8.reduceToNat]
  by_cases hcapital : 65 ≤ c.toNat ∧ c.toNat ≤ 90
  · have hsum : (c + 32).toNat = c.toNat + 32 := by
      rw [UInt8.toNat_add, show (32 : UInt8).toNat = 32 from rfl]
      omega
    have hlt : c + 32 < 128 := by
      rw [UInt8.lt_iff_toNat_lt, hsum, show (128 : UInt8).toNat = 128 from rfl]
      omega
    rw [if_pos hcapital, if_pos (by omega), toInt, if_pos hlt, hsum]
    omega
  · rw [if_neg hcapital, if_neg (by omega)]

theorem charCompare_eq (ha : InCtype a) (hb : InCtype b) :
    charCompare a b = some (charDiff (toInt a) (toInt b)) := by
  have hla := isalpha_iff ha
  have hlb := isalpha_iff hb
  have hlow : ∀ {c}, InCtype c → ¬letter (toInt c) → low (toInt c) = toInt c := by
    intro c _ hc
    unfold letter at hc
    exact if_neg (by omega)
  unfold charCompare charDiff isalpha tolower
  simp only [if_pos ha, if_pos hb, toInt_tolower ha, toInt_tolower hb]
  by_cases h1 : letter (toInt a) <;> by_cases h2 : letter (toInt b)
  · simp [hla.mpr h1, hlb.mpr h2, h1, h2]
  · simp [hla.mpr h1, mt hlb.mp h2, h1, h2, hlow hb h2]
  · simp [mt hla.mp h1, hlb.mpr h2, h1, h2, hlow ha h1]
  · simp [mt hla.mp h1, mt hlb.mp h2, h1]

theorem toInt_inj (ha : InCtype a) (hb : InCtype b) : toInt a = toInt b ↔ a = b := by
  have hta := toInt_cases ha
  have htb := toInt_cases hb
  refine ⟨fun h => UInt8.toNat_inj.mp ?_, fun h => h ▸ rfl⟩
  omega

theorem InCtype.tolower (h : InCtype c) : InCtype (Util.tolower c) := by
  have hc := toInt_cases h
  unfold Util.tolower
  split
  next hcapital =>
    simp only [Bool.and_eq_true, decide_eq_true_eq, UInt8.le_iff_toNat_le, UInt8.reduceToNat] at hcapital
    refine .inl (UInt8.lt_iff_toNat_lt.mpr ?_)
    rw [UInt8.toNat_add, show (32 : UInt8).toNat = 32 from rfl, show (128 : UInt8).toNat = 128 from rfl]
    omega
  next => exact h

theorem tolower_eq_iff (ha : InCtype a) (hb : InCtype b) :
    Util.tolower a = Util.tolower b ↔ low (toInt a) = low (toInt b) := by
  rw [← toInt_inj ha.tolower hb.tolower, toInt_tolower ha, toInt_tolower hb]

/-! ## Keys -/

/-- A number for each character by which the characters are ordered, from the greatest to the least. -/
structure KeyFor (A : Set UInt8) (key : UInt8 → Int) : Prop where
  neg : ∀ a ∈ A, ∀ b ∈ A, charDiff (toInt a) (toInt b) < 0 ↔ key b < key a
  zero : ∀ a ∈ A, ∀ b ∈ A, charDiff (toInt a) (toInt b) = 0 ↔ key a = key b
  same : ∀ a ∈ A, ∀ b ∈ A, key a = key b ↔ Util.tolower a = Util.tolower b

/-- A character between `Z` and `a`. -/
def Middle (c : UInt8) : Prop := 91 ≤ c ∧ c ≤ 96

/-- Without a character between `Z` and `a`, the small letters order all. -/
theorem keyFor_low (hdef : ∀ c ∈ A, InCtype c) (hno : ∀ c ∈ A, ¬Middle c) : KeyFor A fun c => low (toInt c) := by
  have hmiddle : ∀ c ∈ A, ¬(91 ≤ toInt c ∧ toInt c ≤ 96) := by
    intro c hc h
    have hcases := toInt_cases (hdef c hc)
    refine hno c hc ⟨UInt8.le_iff_toNat_le.mpr ?_, UInt8.le_iff_toNat_le.mpr ?_⟩
    · show 91 ≤ c.toNat
      omega
    · show c.toNat ≤ 96
      omega
  have hdiff : ∀ a ∈ A, ∀ b ∈ A, (charDiff (toInt a) (toInt b) < 0 ↔ low (toInt b) < low (toInt a)) ∧
      (charDiff (toInt a) (toInt b) = 0 ↔ low (toInt a) = low (toInt b)) := by
    intro a ha b hb
    have h1 := hmiddle a ha
    have h2 := hmiddle b hb
    unfold charDiff low letter
    split_ifs <;> omega
  exact ⟨fun a ha b hb => (hdiff a ha b hb).1, fun a ha b hb => (hdiff a ha b hb).2,
    fun a ha b hb => (tolower_eq_iff (hdef a ha) (hdef b hb)).symm⟩

/-- With one, the characters themselves do, if the letters are in order. -/
theorem keyFor_self {m : UInt8} (hdef : ∀ c ∈ A, InCtype c) (hno : ¬Conflict A) (hm : m ∈ A) (hmid : Middle m) :
    KeyFor A toInt := by
  have hletters : ∀ u ∈ A, ∀ l ∈ A, 65 ≤ toInt u → toInt u ≤ 90 → 97 ≤ toInt l → toInt l ≤ 122 →
      low (toInt u) < toInt l := by
    intro u hu l hl h1 h2 h3 h4
    by_contra hge
    have hcu := toInt_cases (hdef u hu)
    have hcl := toInt_cases (hdef l hl)
    have hcl' := toInt_cases (hdef u hu).tolower
    rw [toInt_tolower (hdef u hu)] at hcl'
    refine hno ⟨m, hm, u, hu, l, hl, hmid, ?_, ?_, ?_⟩
    · simp only [UInt8.le_iff_toNat_le, UInt8.reduceToNat]
      omega
    · simp only [UInt8.le_iff_toNat_le, UInt8.reduceToNat]
      omega
    · rw [UInt8.le_iff_toNat_le]
      omega
  have hdiff : ∀ a ∈ A, ∀ b ∈ A, (charDiff (toInt a) (toInt b) < 0 ↔ toInt b < toInt a) ∧
      (charDiff (toInt a) (toInt b) = 0 ↔ toInt a = toInt b) ∧
      (toInt a = toInt b ↔ low (toInt a) = low (toInt b)) := by
    intro a ha b hb
    have h1 := hletters a ha b hb
    have h2 := hletters b hb a ha
    unfold charDiff letter
    unfold low at h1 h2 ⊢
    split_ifs at h1 h2 ⊢ <;> omega
  exact ⟨fun a ha b hb => (hdiff a ha b hb).1, fun a ha b hb => (hdiff a ha b hb).2.1,
    fun a ha b hb => (hdiff a ha b hb).2.2.trans (tolower_eq_iff (hdef a ha) (hdef b hb)).symm⟩

/-! ## Strings -/

variable {key : UInt8 → Int}

theorem compareLoop_nil (rest : Int) (s : Text) : compareLoop rest [] s = some rest := by
  cases s <;> rfl

theorem compareLoop_cons_nil (rest : Int) (c : UInt8) (s : Text) : compareLoop rest (c :: s) [] = some rest := rfl

/-- **The loop compares the keys** of the characters, and then the lengths. -/
theorem compareLoop_key (hdef : ∀ c ∈ A, InCtype c) (hkey : KeyFor A key) (hx : ∀ c ∈ x, c ∈ A)
    (hy : ∀ c ∈ y, c ∈ A) : ∃ d, compareLoop ((y.length : Int) - x.length) x y = some d ∧
      (d < 0 ↔ y.map key < x.map key) ∧ (d = 0 ↔ x.map key = y.map key) := by
  induction x generalizing y with
  | nil =>
    refine ⟨_, compareLoop_nil _ y, ?_, ?_⟩
    · exact iff_of_false (by simp only [List.length_nil]; omega) (List.not_lt_nil _)
    · cases y with
      | nil => exact iff_of_true rfl rfl
      | cons b y =>
        refine iff_of_false ?_ (List.cons_ne_nil _ _).symm
        simp only [List.length_cons, List.length_nil]
        omega
  | cons a x ih =>
    cases y with
    | nil =>
      have hlt : (([] : Text).length : Int) - (a :: x).length < 0 := by
        simp only [List.length_cons, List.length_nil]
        omega
      exact ⟨_, compareLoop_cons_nil _ a x, iff_of_true hlt (List.nil_lt_cons _ _),
        iff_of_false (Int.ne_of_lt hlt) (List.cons_ne_nil _ _)⟩
    | cons b y =>
      have ha := hx a List.mem_cons_self
      have hb := hy b List.mem_cons_self
      obtain ⟨d, hd, hneg, hzero⟩ := ih (fun c hc => hx c (List.mem_cons_of_mem _ hc))
        (fun c hc => hy c (List.mem_cons_of_mem _ hc))
      have hrest : ((b :: y).length : Int) - (a :: x).length = y.length - x.length := by
        simp only [List.length_cons]
        omega
      rw [hrest, compareLoop, charCompare_eq (hdef a ha) (hdef b hb), Option.bind_eq_bind, Option.bind_some,
        List.map_cons, List.map_cons, List.cons_lt_cons_iff, List.cons.injEq]
      by_cases hc : charDiff (toInt a) (toInt b) = 0
      · have heq := (hkey.zero a ha b hb).mp hc
        rw [if_neg (not_not_intro hc), heq]
        exact ⟨d, hd, by simpa using hneg, by simpa using hzero⟩
      · have hne := mt (hkey.zero a ha b hb).mpr hc
        rw [if_pos hc]
        refine ⟨_, rfl, ?_, ?_⟩
        · rw [hkey.neg a ha b hb]
          exact ⟨.inl, fun h => h.elim id fun h => absurd h.1.symm hne⟩
        · exact iff_of_false hc fun h => hne h.1

theorem map_key_eq (hkey : KeyFor A key) (hx : ∀ c ∈ x, c ∈ A) (hy : ∀ c ∈ y, c ∈ A) :
    x.map key = y.map key ↔ x.map Util.tolower = y.map Util.tolower := by
  induction x generalizing y with
  | nil => rw [List.map_nil, List.map_nil, eq_comm, List.map_eq_nil_iff, eq_comm (a := []), List.map_eq_nil_iff]
  | cons a x ih =>
    cases y with
    | nil => exact iff_of_false (List.cons_ne_nil _ _) (List.cons_ne_nil _ _)
    | cons b y =>
      rw [List.map_cons, List.map_cons, List.map_cons, List.map_cons, List.cons.injEq, List.cons.injEq,
        hkey.same a (hx a List.mem_cons_self) b (hy b List.mem_cons_self),
        ih (fun c hc => hx c (List.mem_cons_of_mem _ hc)) (fun c hc => hy c (List.mem_cons_of_mem _ hc))]

/-- Strings of some characters, with lengths that an `int` can count. -/
structure Countable (A : Set UInt8) (S : Set Text) : Prop where
  chars : ∀ x ∈ S, ∀ c ∈ x, c ∈ A
  length : ∀ x ∈ S, x.length < 2 ^ 31

theorem Countable.less_iff (h : Countable A S) (hdef : ∀ c ∈ A, InCtype c) (hkey : KeyFor A key) (hx : x ∈ S)
    (hy : y ∈ S) : less x y = some (decide (y.map key < x.map key)) := by
  obtain ⟨d, hd, hneg, -⟩ := compareLoop_key hdef hkey (h.chars x hx) (h.chars y hy)
  have h1 := h.length x hx
  have h2 := h.length y hy
  rw [less, caseInsensitiveStringCompare, Int.bmod_eq_of_le (by omega) (by omega), hd, Option.map_some]
  exact congrArg some (decide_eq_decide.mpr hneg)

/-- **With keys the strings are well ordered.** -/
theorem Countable.wellOrdered (h : Countable A S) (hdef : ∀ c ∈ A, InCtype c) (hkey : KeyFor A key) :
    WellOrdered S := by
  have hless : ∀ x ∈ S, ∀ y ∈ S, Less x y ↔ y.map key < x.map key := by
    intro x hx y hy
    rw [Less, h.less_iff hdef hkey hx hy, Option.some_inj, decide_eq_true_eq]
  have hsame : ∀ x ∈ S, ∀ y ∈ S, (¬Less x y ∧ ¬Less y x) ↔ x.map key = y.map key := by
    intro x hx y hy
    rw [hless x hx y hy, hless y hy x hx, not_lt, not_lt]
    exact ⟨fun h => le_antisymm h.1 h.2, fun h => ⟨h.le, h.ge⟩⟩
  refine ⟨?_, ?_, ?_, ?_, ?_, ?_⟩
  · intro x hx y hy
    rw [h.less_iff hdef hkey hx hy]
    rfl
  · intro x hx
    rw [hless x hx x hx]
    exact lt_irrefl _
  · intro x hx y hy hxy
    rw [hless y hy x hx]
    exact lt_asymm ((hless x hx y hy).mp hxy)
  · intro x hx y hy z hz hxy hyz
    rw [hless x hx z hz]
    exact lt_trans ((hless y hy z hz).mp hyz) ((hless x hx y hy).mp hxy)
  · intro x hx y hy
    rw [hsame x hx y hy, map_key_eq hkey (h.chars x hx) (h.chars y hy)]
  · intro x hx y hy z hz h1 h2 h3 h4
    rw [hsame x hx z hz]
    exact ((hsame x hx y hy).mp ⟨h1, h2⟩).trans ((hsame y hy z hz).mp ⟨h3, h4⟩)

/-! ## When the strings are ordered -/

theorem exists_key (hdef : ∀ c ∈ A, InCtype c) (hno : ¬Conflict A) : ∃ key, KeyFor A key := by
  by_cases hm : ∃ m ∈ A, Middle m
  · obtain ⟨m, hm, hmid⟩ := hm
    exact ⟨_, keyFor_self hdef hno hm hmid⟩
  · exact ⟨_, keyFor_low hdef fun c hc hmid => hm ⟨c, hc, hmid⟩⟩

theorem wellOrdered_of_sound (h : Sound A n) : WellOrdered (Over A n) := by
  rcases h with rfl | ⟨hdef, hno, hlen⟩
  · -- only the empty string is left, as if there were no characters
    have hempty : Countable ∅ (Over A 0) := by
      refine ⟨fun x hx c hc => ?_, fun x hx => Nat.lt_of_le_of_lt hx.1 (by decide)⟩
      rw [List.length_eq_zero_iff.mp (Nat.le_zero.mp hx.1)] at hc
      exact absurd hc List.not_mem_nil
    have hnone : ∀ c ∈ (∅ : Set UInt8), InCtype c := fun c hc => hc.elim
    exact hempty.wellOrdered hnone (keyFor_low hnone fun c hc => hc.elim)
  · obtain ⟨key, hkey⟩ := exists_key hdef hno
    refine Countable.wellOrdered (A := A) ⟨fun x hx => hx.2, fun x hx => ?_⟩ hdef hkey
    rcases A.eq_empty_or_nonempty with rfl | hne
    · rw [List.eq_nil_iff_forall_not_mem.mpr hx.2]
      decide
    · exact Nat.lt_of_le_of_lt hx.1 (hlen hne)

theorem single_mem_over (hn : n ≠ 0) (hc : c ∈ A) : [c] ∈ Over A n :=
  ⟨Nat.one_le_iff_ne_zero.mpr hn, fun _ h => (List.mem_singleton.mp h).symm ▸ hc⟩

theorem inCtype_of_wellOrdered (h : WellOrdered (Over A n)) (hn : n ≠ 0) (hc : c ∈ A) : InCtype c := by
  by_contra hnot
  have hdefined := h.defined [c] (single_mem_over hn hc) [c] (single_mem_over hn hc)
  have hnone : less [c] [c] = none := by
    have halpha : isalpha c = none := if_neg hnot
    rw [less, caseInsensitiveStringCompare, compareLoop, charCompare, halpha]
    rfl
  rw [hnone] at hdefined
  exact Bool.noConfusion hdefined

/-- Two strings of one character. -/
theorem less_single (ha : InCtype a) (hb : InCtype b) : Less [a] [b] ↔ charDiff (toInt a) (toInt b) < 0 := by
  rw [Less, less, caseInsensitiveStringCompare, compareLoop, charCompare_eq ha hb, Option.bind_eq_bind,
    Option.bind_some]
  by_cases hc : charDiff (toInt a) (toInt b) = 0
  · rw [if_neg (not_not_intro hc), hc]
    exact iff_of_false (by simp [compareLoop_nil]) (by decide)
  · rw [if_pos hc, Option.pure_def, Option.map_some, Option.some_inj, decide_eq_true_eq]

theorem not_conflict_of_wellOrdered (h : WellOrdered (Over A n)) (hn : n ≠ 0) : ¬Conflict A := by
  rintro ⟨m, hm, u, hu, l, hl, hmid, hcap, hsmall, hle⟩
  have hdef : ∀ {c}, c ∈ A → InCtype c := fun hc => inCtype_of_wellOrdered h hn hc
  have hcm := toInt_cases (hdef hm)
  have hcu := toInt_cases (hdef hu)
  have hcl := toInt_cases (hdef hl)
  have hclow := toInt_cases (hdef hu).tolower
  rw [toInt_tolower (hdef hu)] at hclow
  simp only [UInt8.le_iff_toNat_le, UInt8.reduceToNat] at hmid hcap hsmall hle
  have hlm : Less [l] [m] := by
    rw [less_single (hdef hl) (hdef hm)]
    unfold charDiff letter low
    split_ifs <;> omega
  have hmu : Less [m] [u] := by
    rw [less_single (hdef hm) (hdef hu)]
    unfold charDiff letter low
    split_ifs <;> omega
  have hlu := h.trans [l] (single_mem_over hn hl) [m] (single_mem_over hn hm) [u] (single_mem_over hn hu) hlm hmu
  rw [less_single (hdef hl) (hdef hu)] at hlu
  unfold charDiff letter low at hlu
  unfold low at hclow
  split_ifs at hlu hclow <;> omega

/-- The length of a string is a negative `int` from 2^31 characters on. -/
theorem length_of_wellOrdered (h : WellOrdered (Over A n)) (hc : c ∈ A) : n < 2 ^ 31 := by
  by_contra hge
  have hlong : List.replicate (2 ^ 31) c ∈ Over A n :=
    ⟨by rw [List.length_replicate]; exact Nat.not_lt.mp hge, fun _ h => (List.eq_of_mem_replicate h).symm ▸ hc⟩
  have hempty : [] ∈ Over A n := ⟨Nat.zero_le _, fun _ h => absurd h List.not_mem_nil⟩
  have hless : Less [] (List.replicate (2 ^ 31) c) := by
    rw [Less, less, caseInsensitiveStringCompare, compareLoop_nil, List.length_replicate]
    rfl
  refine h.asymm _ hempty _ hlong hless ?_
  rw [Less, less, caseInsensitiveStringCompare, List.length_replicate,
    show (2 : Nat) ^ 31 = (2 ^ 31 - 1) + 1 from rfl, List.replicate_succ, compareLoop_cons_nil]
  rfl

/-- **The comparison orders all strings** of some characters up to a length if and only if the characters are
defined for it and there is no conflict between them, and the lengths are those of an `int`. -/
theorem ordered_iff (A : Set UInt8) (n : Nat) : WellOrdered (Over A n) ↔ Sound A n := by
  refine ⟨fun h => ?_, wellOrdered_of_sound⟩
  by_cases hn : n = 0
  · exact .inl hn
  · exact .inr ⟨fun c hc => inCtype_of_wellOrdered h hn hc, not_conflict_of_wellOrdered h hn,
      fun ⟨c, hc⟩ => length_of_wellOrdered h hc⟩

/-- `a` comes before `_`, and `_` before `A`, but `a` is the same as `A`. -/
theorem underscore_not_ordered : ¬WellOrdered Set.univ := by
  intro h
  have htrans := h.trans [97] trivial [95] trivial [65] trivial (by decide) (by decide)
  exact absurd htrans (by decide)

end OpenCpi.Misc
