import Mathlib.Data.List.Basic
import Mathlib.Tactic.SplitIfs

/-!
# Sorted maps

The entries of a map in the order of their keys. What is put in for a key is found for it, and what is found for
others stays. The entries of a map, put in one after the other, are the map again.
-/

namespace OpenCpi.Infra

/-- The entries of a map, in the order of the keys. -/
@[ext] structure SortedMap (κ ν : Type) [LT κ] where
  entries : List (κ × ν)
  sorted : entries.Pairwise fun a b => a.1 < b.1

namespace SortedMap

variable {κ ν μ : Type}

/-! ## Entries -/

section

variable [DecidableEq κ]

/-- What is found for a key. -/
def findEntry (k : κ) (l : List (κ × ν)) : Option ν := (l.find? fun e => e.1 = k).map (·.2)

theorem findEntry_cons (k : κ) (e : κ × ν) (l : List (κ × ν)) :
    findEntry k (e :: l) = if e.1 = k then some e.2 else findEntry k l := by
  unfold findEntry
  by_cases h : e.1 = k <;> simp [h]

theorem findEntry_isSome (k : κ) (l : List (κ × ν)) : (findEntry k l).isSome ↔ ∃ e ∈ l, e.1 = k := by
  unfold findEntry
  simp

end

section

variable [LT κ] [DecidableEq κ] [DecidableLT κ] {k : κ} {v : ν} {e : κ × ν} {l : List (κ × ν)}

/-- An entry in its place. One for the same key is replaced. -/
def insertEntry (k : κ) (v : ν) : List (κ × ν) → List (κ × ν)
  | [] => [(k, v)]
  | e :: l => if e.1 = k then (k, v) :: l else if k < e.1 then (k, v) :: e :: l else e :: insertEntry k v l

theorem mem_insertEntry (h : e ∈ insertEntry k v l) : e = (k, v) ∨ e ∈ l := by
  induction l with
  | nil => exact Or.inl (List.mem_singleton.mp h)
  | cons a l ih =>
    rw [insertEntry] at h
    split_ifs at h
    · simp only [List.mem_cons] at h ⊢
      exact h.imp_right Or.inr
    · exact List.mem_cons.mp h
    · simp only [List.mem_cons] at h ⊢
      rcases h with h | h
      · exact Or.inr (Or.inl h)
      · exact (ih h).imp_right Or.inr

theorem findEntry_insertEntry (k k' : κ) (v : ν) (l : List (κ × ν)) :
    findEntry k' (insertEntry k v l) = if k = k' then some v else findEntry k' l := by
  induction l with
  | nil => exact findEntry_cons k' (k, v) []
  | cons a l ih =>
    rw [insertEntry]
    by_cases ha : a.1 = k
    · rw [if_pos ha, findEntry_cons, findEntry_cons, ha]
      by_cases hk : k = k' <;> simp [hk]
    · by_cases hlt : k < a.1
      · rw [if_neg ha, if_pos hlt, findEntry_cons]
      · rw [if_neg ha, if_neg hlt, findEntry_cons, findEntry_cons, ih]
        by_cases hk : k = k'
        · simp [hk, hk ▸ ha]
        · simp [hk]

end

/-! ## Maps -/

def empty [LT κ] : SortedMap κ ν := ⟨[], List.Pairwise.nil⟩

variable [LT κ] [DecidableEq κ]

def find (m : SortedMap κ ν) (k : κ) : Option ν := findEntry k m.entries

def erase (m : SortedMap κ ν) (k : κ) : SortedMap κ ν := ⟨m.entries.filter fun e => e.1 ≠ k, m.sorted.filter _⟩

/-- Whether some key of a map has a property. -/
theorem any_keys (m : SortedMap κ ν) (p : κ → Bool) :
    (m.entries.any fun e => p e.1) = true ↔ ∃ k, (m.find k).isSome ∧ p k := by
  rw [List.any_eq_true]
  constructor
  · rintro ⟨e, he, hp⟩
    exact ⟨e.1, (findEntry_isSome e.1 m.entries).mpr ⟨e, he, rfl⟩, hp⟩
  · rintro ⟨k, hk, hp⟩
    obtain ⟨e, he, rfl⟩ := (findEntry_isSome k m.entries).mp hk
    exact ⟨e, he, hp⟩

variable [DecidableLT κ] [Std.Trichotomous (fun a b : κ => a < b)]
  [Trans (fun a b : κ => a < b) (fun a b : κ => a < b) (fun a b : κ => a < b)]

theorem pairwise_insertEntry (k : κ) (v : ν) {l : List (κ × ν)} (h : l.Pairwise fun a b => a.1 < b.1) :
    (insertEntry k v l).Pairwise fun a b => a.1 < b.1 := by
  induction l with
  | nil => exact List.pairwise_singleton _ _
  | cons a l ih =>
    obtain ⟨ha, hl⟩ := List.pairwise_cons.mp h
    rw [insertEntry]
    split_ifs with heq hlt
    · exact List.pairwise_cons.mpr ⟨fun e he => heq ▸ ha e he, hl⟩
    · refine List.pairwise_cons.mpr ⟨fun e he => ?_, h⟩
      rcases List.mem_cons.mp he with rfl | he
      · exact hlt
      · exact Trans.trans hlt (ha e he)
    · refine List.pairwise_cons.mpr ⟨fun e he => ?_, ih hl⟩
      rcases mem_insertEntry he with rfl | he
      · exact Decidable.byContradiction fun hnot =>
          heq (Std.Trichotomous.trichotomous (r := fun a b : κ => a < b) a.1 k hnot hlt)
      · exact ha e he

def insert (m : SortedMap κ ν) (k : κ) (v : ν) : SortedMap κ ν :=
  ⟨insertEntry k v m.entries, pairwise_insertEntry k v m.sorted⟩

theorem find_insert (m : SortedMap κ ν) (k k' : κ) (v : ν) :
    (m.insert k v).find k' = if k = k' then some v else m.find k' := findEntry_insertEntry k k' v m.entries

variable [Std.Irrefl (fun a b : κ => a < b)]

omit [Std.Trichotomous (fun a b : κ => a < b)] in
/-- An entry behind all others. -/
theorem insertEntry_last (k : κ) (v : ν) {l : List (κ × ν)} (h : ∀ e ∈ l, e.1 < k) :
    insertEntry k v l = l ++ [(k, v)] := by
  induction l with
  | nil => rfl
  | cons a l ih =>
    have ha := h a List.mem_cons_self
    have hne : a.1 ≠ k := fun heq => Std.Irrefl.irrefl (r := fun a b : κ => a < b) k (heq ▸ ha)
    have hlt : ¬k < a.1 := fun hlt => Std.Irrefl.irrefl (r := fun a b : κ => a < b) k (Trans.trans hlt ha)
    rw [insertEntry, if_neg hne, if_neg hlt, ih fun e he => h e (List.mem_cons_of_mem _ he)]
    rfl

/-- The entries of a map, put in behind those in front of them. -/
theorem foldl_insert (m : SortedMap κ ν) : ∀ (rest : List (κ × ν)) (start : SortedMap κ ν),
    m.entries = start.entries ++ rest → rest.foldl (fun m e => m.insert e.1 e.2) start = m
  | [], start, h => SortedMap.ext (by rw [List.foldl_nil, h, List.append_nil])
  | e :: rest, start, h => by
    rw [List.foldl_cons]
    refine foldl_insert m rest (start.insert e.1 e.2) ?_
    have hsorted := m.sorted
    rw [h, List.pairwise_append] at hsorted
    show m.entries = insertEntry e.1 e.2 start.entries ++ rest
    rw [insertEntry_last e.1 e.2 fun a ha => hsorted.2.2 a ha e List.mem_cons_self, h, List.append_assoc]
    rfl

end SortedMap

end OpenCpi.Infra
