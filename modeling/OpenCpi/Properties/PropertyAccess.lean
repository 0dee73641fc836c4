import OpenCpi.Application.Access
import OpenCpi.Properties.ValueSlots
import OpenCpi.Value.Datum

/-!
# Get and set address the same property, if the name is that of the property

`findProperty` finds the instance and the ordinal of a property. `getProperty` uses them, but `setProperty`
gives the name to the worker as it got it. A name with the instance in it is not known there, and a mapped
name is not known or is the name of another property.
-/

namespace OpenCpi.Application

open Util

variable {α : Type} {a : Util.Assembly} {impl : Nat → List (Property α)} {props : List (Property α)}
  {table : List AppProperty} {workerInstName : Option Text} {propName : Text} {e : AppProperty}

/-! ## What the two functions should do -/

/-- Where `getProperty` reads a property, `setProperty` on the same name addresses that one, and what it
changes is the value of that one. -/
structure SameProperty (impl : Nat → List (Property α)) (table : List AppProperty)
    (workerInstName : Option Text) (propName : Text) (e : AppProperty) : Prop where
  same : ∀ n p, propertyRead (impl e.inst) e.property = .ok (n, p) →
    propertyNamed (impl e.inst) propName = .ok (n, p)
  reads : ∀ n p, propertyRead (impl e.inst) e.property = .ok (n, p) →
    ∀ held, getProperty impl table workerInstName propName held = .ok (held e.inst n)
  changes : ∀ n p, propertyRead (impl e.inst) e.property = .ok (n, p) →
    ∀ value held held', setProperty impl table workerInstName propName value held = .ok held' →
      ∃ v, p.parse value = .ok v ∧
        held' = Function.update held e.inst (Function.update (held e.inst) n v)

/-! ## Names -/

/-- Names that are the same are looked up alike. -/
theorem findProperty_congr {x y : Text} (h : sameName x y = true) :
    findProperty props x = findProperty props y := by
  have hpred : (fun p : Property α => sameName p.name x) = fun p => sameName p.name y := by
    funext p
    unfold sameName
    rw [sameName_iff.mp h]
  unfold findProperty whichProperty
  rw [show (sameName ·.name x : Property α → Bool) = (sameName ·.name y) from hpred]

/-- What is found has the name. -/
theorem sameName_of_findProperty {x : Text} {n : Nat} {p : Property α}
    (h : findProperty props x = some (n, p)) : sameName p.name x = true := by
  obtain ⟨hwhich, hget⟩ := findProperty_eq_some.mp h
  obtain ⟨hlt, hname, -⟩ := List.findIdx?_eq_some_iff_getElem.mp hwhich
  rw [List.getElem?_eq_getElem hlt, Option.some.injEq] at hget
  rwa [hget] at hname

/-- A property is found by its name, or another one of the same name. -/
theorem exists_findProperty {p : Property α} {n : Nat} (h : props[n]? = some p) :
    ∃ k q, findProperty props p.name = some (k, q) := by
  have hmem : ∃ q ∈ props, sameName q.name p.name = true :=
    ⟨p, List.mem_of_getElem? h, sameName_iff.mpr rfl⟩
  obtain ⟨k, hk⟩ : ∃ k, whichProperty props p.name = some k := by
    rw [← Option.isSome_iff_exists, whichProperty, List.findIdx?_isSome, List.any_eq_true]
    exact hmem
  obtain ⟨hlt, -, -⟩ := List.findIdx?_eq_some_iff_getElem.mp hk
  exact ⟨k, props[k], findProperty_eq_some.mpr ⟨hk, List.getElem?_eq_getElem hlt⟩⟩

/-! ## The table -/

/-- What `mapM` gives comes from an element. -/
theorem exists_of_mem_mapM {β γ ε : Type} {f : β → Except ε γ} {y : γ} : ∀ {l : List β} {out : List γ},
    l.mapM f = .ok out → y ∈ out → ∃ x ∈ l, f x = .ok y
  | [], out, h, hy => by
    rw [List.mapM_nil] at h
    cases h
    cases hy
  | x :: l, out, h, hy => by
    rw [List.mapM_cons] at h
    cases hx : f x with
    | error err =>
      rw [hx] at h
      cases h
    | ok z =>
      cases hl : l.mapM f with
      | error err =>
        rw [hx, hl] at h
        cases h
      | ok zs =>
        rw [hx, hl] at h
        cases h
        rcases List.mem_cons.mp hy with rfl | hy
        · exact ⟨x, List.mem_cons_self, hx⟩
        · obtain ⟨w, hw, hfw⟩ := exists_of_mem_mapM hl hy
          exact ⟨w, List.mem_cons_of_mem _ hw, hfw⟩

/-- An entry of the table has a property of an instance. -/
theorem exists_of_mem_table (ht : finalizeTable a impl = .ok table) (he : e ∈ table) :
    ∃ p, (impl e.inst)[e.property]? = some p := by
  unfold finalizeTable at ht
  cases hm : a.mappedProperties.mapM (mappedEntry impl) with
  | error err =>
    rw [hm] at ht
    cases ht
  | ok mapped =>
    rw [hm] at ht
    cases ht
    rcases List.mem_append.mp he with he | he
    · obtain ⟨mp, -, hmp⟩ := exists_of_mem_mapM hm he
      unfold mappedEntry at hmp
      split at hmp
      · next n hn =>
        cases hmp
        obtain ⟨hlt, -, -⟩ := List.findIdx?_eq_some_iff_getElem.mp hn
        exact ⟨_, List.getElem?_eq_getElem hlt⟩
      · cases hmp
    · obtain ⟨entries, hentries, he⟩ := List.mem_flatten.mp he
      obtain ⟨n, hn, rfl⟩ := List.mem_mapIdx.mp hentries
      obtain ⟨nn, hnn, rfl⟩ := List.mem_mapIdx.mp he
      exact ⟨_, List.getElem?_eq_getElem hnn⟩

/-! ## Reading and writing -/

theorem propertyRead_eq {p : Property α} {ordinal : Nat} (hp : props[ordinal]? = some p)
    (hs : p.base.isStruct = false) (ht : p.base.isType = false) :
    propertyRead props ordinal = propertyNamed props p.name := by
  unfold propertyRead
  rw [hp]
  dsimp only
  rw [hs, ht]
  rfl

/-- Structures and typedefs cannot be read. -/
theorem propertyRead_ne_ok {p : Property α} {ordinal n : Nat} {q : Property α}
    (hp : props[ordinal]? = some p) (h : p.base.isStruct = true ∨ p.base.isType = true) :
    propertyRead props ordinal ≠ .ok (n, q) := by
  unfold propertyRead
  rw [hp]
  dsimp only
  rw [if_pos (by simpa using h)]
  exact nofun

theorem propertyNamed_eq_ok {x : Text} {n : Nat} {p : Property α} :
    propertyNamed props x = .ok (n, p) ↔ findProperty props x = some (n, p) := by
  unfold propertyNamed
  split
  · next q hq => rw [hq, Except.ok.injEq, Option.some.injEq]
  · next hq => simp [hq]

theorem reads_of_propertyRead {n : Nat} {p : Property α}
    (hfind : findEntry table workerInstName propName = .ok e)
    (h : propertyRead (impl e.inst) e.property = .ok (n, p)) (held : Nat → Nat → List α) :
    getProperty impl table workerInstName propName held = .ok (held e.inst n) := by
  unfold getProperty
  rw [hfind]
  show Worker.getProperty (impl e.inst) e.property (held e.inst) = _
  unfold Worker.getProperty
  rw [h]
  rfl

/-- **What a successful `setProperty` does**: it changes the property that the worker knows by the name. -/
theorem changes_of_propertyNamed {n : Nat} {p : Property α} {value : Text} {held held' : Nat → Nat → List α}
    (hfind : findEntry table workerInstName propName = .ok e)
    (h : propertyNamed (impl e.inst) propName = .ok (n, p))
    (hset : setProperty impl table workerInstName propName value held = .ok held') :
    ∃ v, p.parse value = .ok v ∧
      held' = Function.update held e.inst (Function.update (held e.inst) n v) := by
  unfold setProperty at hset
  rw [hfind] at hset
  have hworker : ∃ worker, Worker.setProperty (impl e.inst) propName value (held e.inst) = .ok worker ∧
      held' = Function.update held e.inst worker := by
    cases hw : Worker.setProperty (impl e.inst) propName value (held e.inst) with
    | error err =>
      change Except.bind (Worker.setProperty (impl e.inst) propName value (held e.inst)) _ = _ at hset
      rw [hw] at hset
      cases hset
    | ok worker =>
      change Except.bind (Worker.setProperty (impl e.inst) propName value (held e.inst)) _ = _ at hset
      rw [hw] at hset
      cases hset
      exact ⟨worker, rfl, rfl⟩
  obtain ⟨worker, hw, rfl⟩ := hworker
  unfold Worker.setProperty at hw
  rw [h] at hw
  change (if p.base.isStruct then throw .unsupportedStruct else _ : Except AccessError _) = _ at hw
  split at hw
  · cases hw
  · cases hv : p.parse value with
    | error err =>
      simp only [hv] at hw
      cases hw
    | ok v =>
      simp only [hv] at hw
      split at hw
      · cases hw
      · cases hw
        exact ⟨v, rfl, rfl⟩

/-! ## The condition -/

/-- **Get and set address the same property** if and only if the name that was given for the property is its
name, or it is a structure or a typedef, which cannot be read. -/
theorem sameProperty_iff (ht : finalizeTable a impl = .ok table)
    (hfind : findEntry table workerInstName propName = .ok e) :
    SameProperty impl table workerInstName propName e ↔
      ∃ p, (impl e.inst)[e.property]? = some p ∧
        (p.base.isStruct = true ∨ p.base.isType = true ∨ sameName propName p.name = true) := by
  have hmem : e ∈ table := by
    unfold findEntry at hfind
    split at hfind
    · next q hq =>
      cases hfind
      exact List.mem_of_find?_eq_some hq
    · cases hfind
  obtain ⟨p, hp⟩ := exists_of_mem_table ht hmem
  constructor
  · intro h
    refine ⟨p, hp, ?_⟩
    by_cases hs : p.base.isStruct = true
    · exact .inl hs
    · by_cases hty : p.base.isType = true
      · exact .inr (.inl hty)
      · obtain ⟨k, q, hq⟩ := exists_findProperty hp
        have hread : propertyRead (impl e.inst) e.property = .ok (k, q) := by
          rw [propertyRead_eq hp (by simpa using hs) (by simpa using hty)]
          exact propertyNamed_eq_ok.mpr hq
        have hnamed := propertyNamed_eq_ok.mp (h.same k q hread)
        have hname := sameName_iff.mp (sameName_of_findProperty hq)
        have hprop := sameName_iff.mp (sameName_of_findProperty hnamed)
        exact .inr (.inr (sameName_iff.mpr (hprop.symm.trans hname)))
  · rintro ⟨q, hq, hcond⟩
    obtain rfl : p = q := Option.some.inj (hp.symm.trans hq)
    have hsame : ∀ n r, propertyRead (impl e.inst) e.property = .ok (n, r) →
        propertyNamed (impl e.inst) propName = .ok (n, r) := by
      intro n r hread
      rcases hcond with hs | hty | hname
      · exact absurd hread (propertyRead_ne_ok hp (.inl hs))
      · exact absurd hread (propertyRead_ne_ok hp (.inr hty))
      · by_cases hb : p.base.isStruct = true ∨ p.base.isType = true
        · exact absurd hread (propertyRead_ne_ok hp hb)
        · obtain ⟨hs, hty⟩ := not_or.mp hb
          rw [propertyRead_eq hp (by simpa using hs) (by simpa using hty)] at hread
          rw [propertyNamed_eq_ok, findProperty_congr hname]
          exact propertyNamed_eq_ok.mp hread
    exact ⟨hsame, fun n r hread held => reads_of_propertyRead hfind hread held,
      fun n r hread _ _ _ hset => changes_of_propertyNamed hfind (hsame n r hread) hset⟩

/-! ## An application with a mapped property -/

/-- A property of type Bool. -/
def flag (name : Text) : Property Value.Datum where
  name
  isReadable := true
  isWritable := true
  decl := { name, arrayDimensions := [], isSequence := false, sequenceLength := 0 }
  base := Value.Scalar.base (fun _ _ => none) .bool

/-- The instance `i`, whose property `a` is mapped to the name `m`. -/
def mappedFlag : Util.Assembly :=
  { instances := [⟨[105], []⟩], mappedProperties := [⟨[109], [97], 0⟩] }

/-- The properties `a` and `m`. -/
def flags : Nat → List (Property Value.Datum) := fun _ => [flag [97], flag [109]]

def flagTable : List AppProperty := [⟨[109], 0, 0⟩, ⟨[105, 46, 97], 0, 0⟩, ⟨[105, 46, 109], 0, 1⟩]

/-- `i` and `A`, given separately. -/
theorem sameProperty_separate : SameProperty flags flagTable (some [105]) [65] ⟨[105, 46, 97], 0, 0⟩ := by
  have htable : finalizeTable mappedFlag flags = .ok flagTable := rfl
  exact (sameProperty_iff htable rfl).mpr ⟨flag [97], rfl, .inr (.inr (by decide))⟩

/-- `i=a` is not known to the worker, and setting `m` sets the property `m` where `a` is read. -/
theorem another_property :
    finalizeTable mappedFlag flags = .ok flagTable ∧
    (findEntry flagTable none [105, 61, 97] = .ok ⟨[105, 46, 97], 0, 0⟩ ∧
      propertyNamed (flags 0) [105, 61, 97] = .error (.unknownProperty [105, 61, 97]) ∧
      ¬SameProperty flags flagTable none [105, 61, 97] ⟨[105, 46, 97], 0, 0⟩) ∧
    findEntry flagTable none [109] = .ok ⟨[109], 0, 0⟩ ∧
      propertyRead (flags 0) 0 = .ok (0, flag [97]) ∧
      propertyNamed (flags 0) [109] = .ok (1, flag [109]) ∧
      ¬SameProperty flags flagTable none [109] ⟨[109], 0, 0⟩ := by
  have hunknown : propertyNamed (flags 0) [105, 61, 97] = .error (.unknownProperty [105, 61, 97]) := rfl
  have hother : propertyNamed (flags 0) [109] = .ok (1, flag [109]) := rfl
  have hread : propertyRead (flags 0) 0 = .ok (0, flag [97]) := rfl
  refine ⟨rfl, ⟨rfl, hunknown, fun h => ?_⟩, rfl, hread, hother, fun h => ?_⟩
  · have hsame := h.same 0 (flag [97]) hread
    rw [hunknown] at hsame
    cases hsame
  · have hsame := h.same 0 (flag [97]) hread
    rw [hother, Except.ok.injEq, Prod.mk.injEq] at hsame
    exact absurd hsame.1 (by decide)

end OpenCpi.Application
