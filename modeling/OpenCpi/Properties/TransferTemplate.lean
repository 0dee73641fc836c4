import Mathlib.Logic.Relation
import OpenCpi.Transport.Template

/-!
# What a complete template has gated

After each removal the scan of the pending transfers goes on at index 1, so that it passes over the entry
that has come to the front. It is not looked at and stays in the list. `isComplete` is right when what it
passes over is complete, or something that it looks at is not.
-/

namespace OpenCpi.Transport

open Relation

variable {fuel : Nat} {h h' : Heap} {t : Nat}

/-! ## The property -/

/-- The sequence has reached its maximum, and the requests of the template are complete. -/
def OcpiTransferTemplate.Done (x : OcpiTransferTemplate) : Prop :=
  x.maxSequence ≤ x.sequence ∧ ∀ r ∈ x.xferReq, r = .completeSuccess

instance (x : OcpiTransferTemplate) : Decidable x.Done := inferInstanceAs (Decidable (_ ∧ _))

/-- The lists of pending transfers. -/
abbrev Lists := Nat → List Nat

def Heap.lists (h : Heap) : Lists := fun t => (h t).gatedTransfersPending

/-- A transfer is pending in a list. -/
def Lists.Gates (p : Lists) (t u : Nat) : Prop := u ∈ p t

/-- A template is complete when it is done and everything that is pending below it. -/
def Complete (h : Heap) (t : Nat) : Prop := ∀ u, ReflTransGen h.lists.Gates t u → (h u).Done

/-- `isComplete` only returns true when the template is done and all pending transfers are complete. -/
def CompleteOnly (fuel : Nat) (h : Heap) (t : Nat) : Prop :=
  ∀ h', isComplete fuel h t = some (true, h') →
    (h t).maxSequence ≤ (h t).sequence ∧ (∀ r ∈ (h t).xferReq, r = .completeSuccess) ∧
      ∀ u ∈ (h t).gatedTransfersPending, Complete h u

/-! ## What is looked at -/

def Lists.remove (p : Lists) (t item : Nat) : Lists :=
  Function.update p t (removeFromList (p t) item)

mutual

/-- What `isComplete` looks at as long as it is done, and the lists that it leaves. -/
def look : Nat → Lists → Nat → Option (List Nat × Lists)
  | 0, _, _ => none
  | fuel + 1, p, t => (lookAll fuel p t 0).map fun (vs, p) => (t :: vs, p)

/-- What its loop looks at. -/
def lookAll : Nat → Lists → Nat → Nat → Option (List Nat × Lists)
  | 0, _, _, _ => none
  | fuel + 1, p, t, i =>
    match (p t)[i]? with
    | none => some ([], p)
    | some temp =>
      (look fuel p temp).bind fun (vs, p) =>
        (lookAll fuel (p.remove t temp) t 1).map fun (ws, p) => (vs ++ ws, p)

end

/-- The condition: where everything is done that is looked at, the transfers that are passed over, which
are those that stay in the lists, are complete. -/
def PassesOverComplete (fuel : Nat) (h : Heap) (t : Nat) : Prop :=
  ∀ vs p, look fuel h.lists t = some (vs, p) → (∀ v ∈ vs, (h v).Done) →
    ∀ v ∈ vs, ∀ u ∈ p v, Complete h u

theorem look_succ {p p' : Lists} {vs : List Nat} (hlook : look (fuel + 1) p t = some (vs, p')) :
    ∃ ws, vs = t :: ws ∧ lookAll fuel p t 0 = some (ws, p') := by
  unfold look at hlook
  obtain ⟨⟨ws, q⟩, hall, heq⟩ := Option.map_eq_some_iff.mp hlook
  cases heq
  exact ⟨ws, rfl, hall⟩

theorem lookAll_succ {p p' : Lists} {i : Nat} {vs : List Nat}
    (hall : lookAll (fuel + 1) p t i = some (vs, p')) :
    ((p t)[i]? = none ∧ vs = [] ∧ p' = p) ∨ ∃ temp us p₁ ws, (p t)[i]? = some temp ∧
      look fuel p temp = some (us, p₁) ∧ lookAll fuel (p₁.remove t temp) t 1 = some (ws, p') ∧
        vs = us ++ ws := by
  unfold lookAll at hall
  cases hentry : (p t)[i]? with
  | none =>
    rw [hentry] at hall
    cases hall
    exact Or.inl ⟨rfl, rfl, rfl⟩
  | some temp =>
    rw [hentry] at hall
    obtain ⟨⟨us, p₁⟩, hlook, hrest⟩ := Option.bind_eq_some_iff.mp hall
    obtain ⟨⟨ws, p₂⟩, hall₁, heq⟩ := Option.map_eq_some_iff.mp hrest
    cases heq
    exact Or.inr ⟨temp, us, p₁, ws, rfl, hlook, hall₁, rfl⟩

theorem mem_removeFromList {l : List Nat} {item x : Nat} :
    x ∈ removeFromList l item ↔ x ∈ l ∧ x ≠ item := by
  unfold removeFromList
  rw [List.mem_filter, bne_iff_ne]

theorem Lists.mem_remove {p : Lists} {item u x : Nat} :
    x ∈ p.remove t item u ↔ x ∈ p u ∧ (u = t → x ≠ item) := by
  unfold Lists.remove
  by_cases hu : u = t
  · rw [hu, Function.update_self, mem_removeFromList]
    exact and_congr_right fun _ => ⟨fun hne _ => hne, fun hne => hne rfl⟩
  · rw [Function.update_of_ne hu]
    exact ⟨fun hx => ⟨hx, fun h => absurd h hu⟩, And.left⟩

/-- What the lists lose was looked at, and only what can be reached is. -/
structure Looked (p p' : Lists) (start : Nat → Prop) (vs : List Nat) : Prop where
  subset : ∀ u, ∀ x ∈ p' u, x ∈ p u
  lost : ∀ u, ∀ x ∈ p u, x ∈ p' u ∨ x ∈ vs
  reached : ∀ v ∈ vs, ∃ u, start u ∧ ReflTransGen p.Gates u v

theorem Lists.Gates.mono {p p' : Lists} (hsub : ∀ u, ∀ x ∈ p' u, x ∈ p u) {u v : Nat}
    (hreach : ReflTransGen p'.Gates u v) : ReflTransGen p.Gates u v :=
  ReflTransGen.mono (fun u x (hx : x ∈ p' u) => hsub u x hx) _ _ hreach

/-- One induction for both functions, on the fuel. -/
theorem looked : ∀ fuel,
    (∀ {p p' : Lists} {t vs}, look fuel p t = some (vs, p') → t ∈ vs ∧ Looked p p' (· = t) vs) ∧
      ∀ {p p' : Lists} {t i vs}, lookAll fuel p t i = some (vs, p') → Looked p p' (· ∈ p t) vs
  | 0 => by
    constructor
    · intro p p' t vs hlook
      cases hlook
    · intro p p' t i vs hall
      cases hall
  | fuel + 1 => by
    obtain ⟨ihlook, ihall⟩ := looked fuel
    constructor
    · intro p p' t vs hlook
      obtain ⟨ws, rfl, hall⟩ := look_succ hlook
      obtain ⟨hsub, hlost, hreached⟩ := ihall hall
      refine ⟨List.mem_cons_self, hsub, fun u x hx => (hlost u x hx).imp_right (List.mem_cons_of_mem t),
        fun v hv => ⟨t, rfl, ?_⟩⟩
      rcases List.mem_cons.mp hv with rfl | hv
      · exact ReflTransGen.refl
      · obtain ⟨u, hu, hreach⟩ := hreached v hv
        exact ReflTransGen.head hu hreach
    · intro p p' t i vs hall
      rcases lookAll_succ hall with ⟨-, rfl, rfl⟩ | ⟨temp, us, p₁, ws, hentry, hlook, hrest, rfl⟩
      · exact ⟨fun _ _ hx => hx, fun _ _ hx => Or.inl hx, fun v hv => absurd hv List.not_mem_nil⟩
      · obtain ⟨hmem, hsub₁, hlost₁, hreached₁⟩ := ihlook hlook
        obtain ⟨hsub₂, hlost₂, hreached₂⟩ := ihall hrest
        have hsub (u x : Nat) (hx : x ∈ p' u) : x ∈ p u :=
          hsub₁ u x (Lists.mem_remove.mp (hsub₂ u x hx)).1
        have htemp : temp ∈ p t := List.mem_of_getElem? hentry
        refine ⟨hsub, fun u x hx => ?_, fun v hv => ?_⟩
        · -- an entry goes below the one that is looked at, or with it, or later
          rcases hlost₁ u x hx with hx₁ | hx₁
          · by_cases hgone : u = t ∧ x = temp
            · rw [hgone.2]
              exact Or.inr (List.mem_append_left _ hmem)
            · have hstays : x ∈ p₁.remove t temp u :=
                Lists.mem_remove.mpr ⟨hx₁, fun hu hxt => hgone ⟨hu, hxt⟩⟩
              exact (hlost₂ u x hstays).imp_right (List.mem_append_right us)
          · exact Or.inr (List.mem_append_left _ hx₁)
        · rcases List.mem_append.mp hv with hv | hv
          · obtain ⟨u, rfl, hreach⟩ := hreached₁ v hv
            exact ⟨u, htemp, hreach⟩
          · obtain ⟨u, hu, hreach⟩ := hreached₂ v hv
            have hsub' (u x : Nat) (hx : x ∈ p₁.remove t temp u) : x ∈ p u :=
              hsub₁ u x (Lists.mem_remove.mp hx).1
            exact ⟨u, hsub' t u hu, Lists.Gates.mono hsub' hreach⟩

/-! ## The scan -/

/-- The heap with other lists. -/
def Heap.withLists (h : Heap) (p : Lists) : Heap := fun t => { h t with gatedTransfersPending := p t }

theorem Heap.remove_withLists {p : Lists} {item : Nat} :
    (h.withLists p).remove t item = h.withLists (p.remove t item) := by
  funext u
  by_cases hu : u = t
  · subst hu
    unfold Heap.remove Heap.withLists Lists.remove
    rw [Function.update_self, Function.update_self]
  · unfold Heap.remove Heap.withLists Lists.remove
    rw [Function.update_of_ne hu, Function.update_of_ne hu]

theorem isComplete_done {p : Lists} (hdone : (h t).Done) :
    isComplete (fuel + 1) (h.withLists p) t = scan fuel (h.withLists p) t 0 := by
  have hany : ¬((h.withLists p) t).xferReq.any (· != .completeSuccess) = true := by
    rw [List.any_eq_true]
    rintro ⟨r, hr, hne⟩
    exact bne_iff_ne.mp hne (hdone.2 r hr)
  have hseq : ¬((h.withLists p) t).sequence < ((h.withLists p) t).maxSequence := Nat.not_lt.mpr hdone.1
  unfold isComplete
  rw [if_neg hseq, if_neg hany]

theorem isComplete_not_done {p : Lists} (hdone : ¬(h t).Done) :
    isComplete (fuel + 1) (h.withLists p) t = some (false, h.withLists p) := by
  unfold isComplete
  by_cases hseq : ((h.withLists p) t).sequence < ((h.withLists p) t).maxSequence
  · rw [if_pos hseq]
  · have hany : ((h.withLists p) t).xferReq.any (· != .completeSuccess) = true := by
      by_contra hany
      refine hdone ⟨Nat.not_lt.mp hseq, fun r hr => ?_⟩
      by_contra hne
      exact hany (List.any_eq_true.mpr ⟨r, hr, bne_iff_ne.mpr hne⟩)
    rw [if_neg hseq, if_pos hany]

/-- It returns true where everything is done that it looks at. One induction for both functions, on the
fuel. -/
theorem true_iff_looked (h : Heap) : ∀ fuel,
    (∀ p t h', isComplete fuel (h.withLists p) t = some (true, h') ↔
      ∃ vs p', look fuel p t = some (vs, p') ∧ (∀ v ∈ vs, (h v).Done) ∧ h' = h.withLists p') ∧
      ∀ p t i h', scan fuel (h.withLists p) t i = some (true, h') ↔
        ∃ vs p', lookAll fuel p t i = some (vs, p') ∧ (∀ v ∈ vs, (h v).Done) ∧ h' = h.withLists p'
  | 0 => by
    constructor
    · intro p t h'
      constructor
      · intro hcomplete
        cases hcomplete
      · rintro ⟨vs, p', hlook, -⟩
        cases hlook
    · intro p t i h'
      constructor
      · intro hscan
        cases hscan
      · rintro ⟨vs, p', hall, -⟩
        cases hall
  | fuel + 1 => by
    obtain ⟨ihcomplete, ihscan⟩ := true_iff_looked h fuel
    constructor
    · intro p t h'
      by_cases hdone : (h t).Done
      · rw [isComplete_done hdone, ihscan]
        constructor
        · rintro ⟨vs, p', hall, hvs, rfl⟩
          refine ⟨t :: vs, p', ?_, List.forall_mem_cons.mpr ⟨hdone, hvs⟩, rfl⟩
          unfold look
          rw [hall, Option.map_some]
        · rintro ⟨vs, p', hlook, hvs, rfl⟩
          obtain ⟨ws, rfl, hall⟩ := look_succ hlook
          exact ⟨ws, p', hall, (List.forall_mem_cons.mp hvs).2, rfl⟩
      · rw [isComplete_not_done hdone]
        constructor
        · intro heq
          exact absurd (congrArg Prod.fst (Option.some.inj heq)) Bool.false_ne_true
        · rintro ⟨vs, p', hlook, hvs, -⟩
          obtain ⟨ws, rfl, -⟩ := look_succ hlook
          exact absurd (List.forall_mem_cons.mp hvs).1 hdone
    · intro p t i h'
      cases hentry : (p t)[i]? with
      | none =>
        have hend : ((h.withLists p) t).gatedTransfersPending[i]? = none := hentry
        unfold scan lookAll
        rw [hend, hentry]
        constructor
        · intro heq
          cases heq
          exact ⟨[], p, rfl, fun v hv => absurd hv List.not_mem_nil, rfl⟩
        · rintro ⟨vs, p', heq, -, rfl⟩
          cases heq
          rfl
      | some temp =>
        have hnext : ((h.withLists p) t).gatedTransfersPending[i]? = some temp := hentry
        constructor
        · intro heq
          unfold scan at heq
          rw [hnext] at heq
          dsimp only at heq
          match hcomplete : isComplete fuel (h.withLists p) temp with
          | none =>
            rw [hcomplete] at heq
            cases heq
          | some (false, h₁) =>
            rw [hcomplete] at heq
            exact absurd (congrArg Prod.fst (Option.some.inj heq)) Bool.false_ne_true
          | some (true, h₁) =>
            obtain ⟨us, p₁, hlook, hus, rfl⟩ := (ihcomplete p temp h₁).mp hcomplete
            rw [hcomplete] at heq
            dsimp only at heq
            rw [Heap.remove_withLists] at heq
            obtain ⟨ws, p', hall, hws, rfl⟩ := (ihscan _ t 1 h').mp heq
            refine ⟨us ++ ws, p', ?_, List.forall_mem_append.mpr ⟨hus, hws⟩, rfl⟩
            unfold lookAll
            rw [hentry]
            dsimp only
            rw [hlook, Option.bind_some]
            dsimp only
            rw [hall, Option.map_some]
        · rintro ⟨vs, p', hall, hvs, rfl⟩
          rcases lookAll_succ hall with ⟨hnone, -⟩ | ⟨temp', us, p₁, ws, hsome, hlook, hall, rfl⟩
          · rw [hentry] at hnone
            cases hnone
          · rw [hentry] at hsome
            cases hsome
            obtain ⟨hus, hws⟩ := List.forall_mem_append.mp hvs
            have hcomplete := (ihcomplete p temp _).mpr ⟨us, p₁, hlook, hus, rfl⟩
            unfold scan
            rw [hnext]
            dsimp only
            rw [hcomplete]
            dsimp only
            rw [Heap.remove_withLists]
            exact (ihscan _ t 1 _).mpr ⟨ws, p', hall, hws, rfl⟩

theorem isComplete_true_iff : isComplete fuel h t = some (true, h') ↔
    ∃ vs p', look fuel h.lists t = some (vs, p') ∧ (∀ v ∈ vs, (h v).Done) ∧ h' = h.withLists p' :=
  (true_iff_looked h fuel).1 h.lists t h'

/-! ## When it is right -/

theorem Complete.gated {u : Nat} (hcomplete : Complete h t) (hreach : ReflTransGen h.lists.Gates t u) :
    Complete h u :=
  fun v hv => hcomplete v (hreach.trans hv)

theorem complete_iff_gated : Complete h t ↔ (h t).Done ∧ ∀ u ∈ h.lists t, Complete h u := by
  constructor
  · intro hcomplete
    exact ⟨hcomplete t ReflTransGen.refl, fun u hu => hcomplete.gated (ReflTransGen.single hu)⟩
  · rintro ⟨hdone, hgated⟩ u hreach
    rcases ReflTransGen.cases_head hreach with rfl | ⟨v, hv, hrest⟩
    · exact hdone
    · exact hgated v hv u hrest

/-- The property says that the template is complete. -/
theorem completeOnly_iff_complete :
    CompleteOnly fuel h t ↔ ∀ h', isComplete fuel h t = some (true, h') → Complete h t := by
  unfold CompleteOnly
  simp only [complete_iff_gated (t := t), OcpiTransferTemplate.Done, and_assoc, Heap.lists]

/-- **`isComplete` only returns true on a complete template if and only if the pending transfers that it
passes over are complete, or something that it looks at is not.** -/
theorem completeOnly_iff_passesOver (fuel : Nat) (h : Heap) (t : Nat) :
    CompleteOnly fuel h t ↔ PassesOverComplete fuel h t := by
  rw [completeOnly_iff_complete]
  constructor
  · intro hright vs p hlook hvs v hv u hu
    have hcomplete : Complete h t := hright _ (isComplete_true_iff.mpr ⟨vs, p, hlook, hvs, rfl⟩)
    obtain ⟨-, hlooked⟩ := (looked fuel).1 hlook
    obtain ⟨_, rfl, hreach⟩ := hlooked.reached v hv
    exact hcomplete.gated (hreach.tail (hlooked.subset v u hu))
  · intro hcond h' htrue
    obtain ⟨vs, p, hlook, hvs, -⟩ := isComplete_true_iff.mp htrue
    obtain ⟨hmem, hlooked⟩ := (looked fuel).1 hlook
    have hall : ∀ u, ReflTransGen h.lists.Gates t u → u ∈ vs ∨ Complete h u := by
      intro u hreach
      induction hreach with
      | refl => exact Or.inl hmem
      | tail _ hgates ih =>
        rcases ih with hv | hcomplete
        · rcases hlooked.lost _ _ hgates with hstays | hlooked
          · exact Or.inr (hcond vs p hlook hvs _ hv _ hstays)
          · exact Or.inl hlooked
        · exact Or.inr (hcomplete.gated (ReflTransGen.single hgates))
    intro u hreach
    rcases hall u hreach with hu | hu
    · exact hvs u hu
    · exact hu u ReflTransGen.refl

/-- Of two pending transfers the second one is passed over. -/
def twoPending : Heap
  | 0 => ⟨[], [1, 2], 0, 0⟩
  | 2 => ⟨[.pending], [], 0, 0⟩
  | _ => ⟨[], [], 0, 0⟩

/-- `isComplete` returns true on a template with a pending transfer that is not complete. -/
theorem pending_passed_over : ¬∀ fuel h t, CompleteOnly fuel h t := by
  intro hall
  obtain ⟨h', htrue⟩ : ∃ h', isComplete 5 twoPending 0 = some (true, h') := ⟨_, rfl⟩
  obtain ⟨-, -, hgated⟩ := hall 5 twoPending 0 h' htrue
  have hdone : (twoPending 2).Done := hgated 2 (by decide) 2 ReflTransGen.refl
  exact absurd hdone (by decide)

/-! ## Gated transfers that gate nothing -/

theorem look_leaf {p : Lists} {v : Nat} (hleaf : p v = []) : look (fuel + 2) p v = some ([v], p) := by
  unfold look lookAll
  rw [hleaf]
  rfl

theorem removeFromList_second {b v : Nat} {rest : List Nat} (hnodup : (b :: v :: rest).Nodup) :
    removeFromList (b :: v :: rest) v = b :: rest := by
  obtain ⟨hb, hv⟩ := List.nodup_cons.mp hnodup
  obtain ⟨hv, -⟩ := List.nodup_cons.mp hv
  have hbv : (b != v) = true := bne_iff_ne.mpr fun heq => hb (heq ▸ List.mem_cons_self)
  have hrest : rest.filter (· != v) = rest :=
    List.filter_eq_self.mpr fun x hx => bne_iff_ne.mpr fun heq => hv (heq ▸ hx)
  unfold removeFromList
  rw [List.filter_cons, if_pos hbv, List.filter_cons_of_neg (by simp), hrest]

/-- From index 1 on, everything but the first entry is looked at and removed. -/
theorem lookAll_leaves {p : Lists} {b : Nat} : ∀ {rest : List Nat} {fuel : Nat}, rest.length + 2 ≤ fuel →
    (b :: rest).Nodup → (∀ v ∈ rest, v ≠ t ∧ p v = []) →
      lookAll fuel (Function.update p t (b :: rest)) t 1 = some (rest, Function.update p t [b])
  | [], fuel + 1, _, _, _ => by
    unfold lookAll
    rw [Function.update_self]
    rfl
  | v :: rest, fuel + 3, hfuel, hnodup, hleaves => by
    obtain ⟨⟨hvt, hleaf⟩, hrest⟩ := List.forall_mem_cons.mp hleaves
    have hv : Function.update p t (b :: v :: rest) v = [] := (Function.update_of_ne hvt ..).trans hleaf
    have hremoved : Lists.remove (Function.update p t (b :: v :: rest)) t v =
        Function.update p t (b :: rest) := by
      unfold Lists.remove
      rw [Function.update_self, removeFromList_second hnodup, Function.update_idem]
    have hsub : (b :: rest).Nodup := hnodup.sublist ((List.sublist_cons_self v rest).cons_cons b)
    have hless : rest.length + 2 ≤ fuel + 2 := Nat.le_of_succ_le_succ hfuel
    have ih := lookAll_leaves hless hsub hrest
    unfold lookAll
    rw [Function.update_self, List.getElem?_cons_succ, List.getElem?_cons_zero]
    dsimp only
    rw [look_leaf hv, Option.bind_some]
    dsimp only
    rw [hremoved, ih]
    rfl

/-- Different gated transfers that gate nothing: the second one of the list is passed over. -/
theorem isComplete_leaves {a b : Nat} {rest : List Nat}
    (hgated : (h t).gatedTransfersPending = a :: b :: rest) (hnodup : (a :: b :: rest).Nodup)
    (hleaves : ∀ v ∈ a :: b :: rest, (h v).gatedTransfersPending = []) (hfuel : rest.length + 4 ≤ fuel) :
    (∃ h', isComplete fuel h t = some (true, h')) ↔
      (h t).Done ∧ (h a).Done ∧ ∀ v ∈ rest, (h v).Done := by
  have hne (v : Nat) (hv : v ∈ a :: b :: rest) : v ≠ t := by
    rintro rfl
    have hempty := hleaves v hv
    rw [hgated] at hempty
    cases hempty
  obtain ⟨ha, hrest⟩ := List.nodup_cons.mp hnodup
  obtain ⟨fuel, rfl⟩ : ∃ n, fuel = n + 4 := ⟨fuel - 4, by omega⟩
  have hremoved : h.lists.remove t a = Function.update h.lists t (b :: rest) := by
    have hfilter : (b :: rest).filter (· != a) = b :: rest :=
      List.filter_eq_self.mpr fun x hx => bne_iff_ne.mpr fun heq => ha (heq ▸ hx)
    have hlist : h.lists t = a :: b :: rest := hgated
    unfold Lists.remove removeFromList
    rw [hlist, List.filter_cons_of_neg (by simp), hfilter]
  have hlook : look (fuel + 4) h.lists t =
      some (t :: a :: rest, Function.update h.lists t [b]) := by
    have hleaf : h.lists a = [] := hleaves a List.mem_cons_self
    have hlist : h.lists t = a :: b :: rest := hgated
    have hless : rest.length + 2 ≤ fuel + 2 := by omega
    have hothers (v : Nat) (hv : v ∈ rest) : v ≠ t ∧ h.lists v = [] :=
      have hmem : v ∈ a :: b :: rest := List.mem_cons_of_mem a (List.mem_cons_of_mem b hv)
      ⟨hne v hmem, hleaves v hmem⟩
    have hall := lookAll_leaves hless hrest hothers
    unfold look lookAll
    rw [hlist, List.getElem?_cons_zero]
    dsimp only
    rw [look_leaf hleaf, Option.bind_some]
    dsimp only
    rw [hremoved, hall]
    rfl
  have hdone : (∀ v ∈ t :: a :: rest, (h v).Done) ↔ (h t).Done ∧ (h a).Done ∧ ∀ v ∈ rest, (h v).Done := by
    rw [List.forall_mem_cons, List.forall_mem_cons]
  rw [← hdone]
  constructor
  · rintro ⟨h', htrue⟩
    obtain ⟨vs, p, hlook', hvs, -⟩ := isComplete_true_iff.mp htrue
    rw [hlook] at hlook'
    cases hlook'
    exact hvs
  · intro hvs
    exact ⟨_, isComplete_true_iff.mpr ⟨_, _, hlook, hvs, rfl⟩⟩

end OpenCpi.Transport
