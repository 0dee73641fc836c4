import OpenCpi.MemFs.StaticMemFs
import OpenCpi.Properties.FileNames

/-!
# A tree of files in memory

The mounted files are a set of paths. `exists_` finds the files and the directories above them, but not the
root, whose name ends in the slash that it looks for behind a directory. Nothing is looked at when a file is
mounted, so that a file may become a directory.
-/

namespace OpenCpi.MemFs

open Infra
open Util (Text slash dot segments)
open Os (Plain absName relName pathAt joinNames)

/-! ## The tree -/

/-- The path of another file begins with it. -/
def IsDir (files : List (List Text)) (p : List Text) : Prop := ∃ f ∈ files, p <+: f ∧ p ≠ f

instance (files : List (List Text)) (p : List Text) : Decidable (IsDir files p) :=
  inferInstanceAs (Decidable (∃ f ∈ files, p <+: f ∧ p ≠ f))

/-- **What there is at a path**: a file, a directory or nothing. -/
def lookup (files : List (List Text)) (p : List Text) : Option Bool :=
  if p ∈ files then some false else if IsDir files p then some true else none

/-- No file is a directory. -/
def IsTree (files : List (List Text)) : Prop := ∀ f ∈ files, f ≠ [] ∧ ¬IsDir files f

section Tree

variable {files : List (List Text)} {p : List Text}

/-- A path that is no directory, and not below a file, can be a file. -/
theorem IsTree.cons (h : IsTree files) (hne : p ≠ []) (hdir : ¬IsDir files p)
    (hbelow : ∀ f ∈ files, ¬(f <+: p ∧ f ≠ p)) : IsTree (p :: files) := by
  refine List.forall_mem_cons.mpr ⟨⟨hne, ?_⟩, ?_⟩
  · rintro ⟨g, hg, hfront, hneq⟩
    rcases List.mem_cons.mp hg with hgp | hg
    · exact hneq hgp.symm
    · exact hdir ⟨g, hg, hfront, hneq⟩
  · intro f hf
    refine ⟨(h f hf).1, ?_⟩
    rintro ⟨g, hg, hfront, hneq⟩
    rcases List.mem_cons.mp hg with hgp | hg
    · rw [hgp] at hfront hneq
      exact hbelow f hf ⟨hfront, hneq⟩
    · exact (h f hf).2 ⟨g, hg, hfront, hneq⟩

theorem isDir_root (h : IsTree files) : IsDir files [] ↔ files ≠ [] := by
  constructor
  · rintro ⟨f, hf, -⟩
    exact List.ne_nil_of_mem hf
  · intro hne
    obtain ⟨f, files, rfl⟩ := List.exists_cons_of_ne_nil hne
    exact ⟨f, List.mem_cons_self .., List.nil_prefix, Ne.symm (h f (List.mem_cons_self ..)).1⟩

end Tree

/-! ## Accepted names -/

def Accepted (name : Text) : Prop := testFilenameForValidity name = .ok ()

variable {name : Text}

instance (name : Text) : Decidable (Accepted name) :=
  match h : testFilenameForValidity name with
  | .ok () => .isTrue h
  | .error _ => .isFalse fun hok => nomatch h.symm.trans hok

theorem testComponent_ok {c : Text} (h : testComponent c = .ok ()) : c ≠ [] := by
  rintro rfl
  cases h

theorem plain_of_forM (h : (segments name).forM testComponent = .ok ()) : Plain (segments name) := by
  have hall {l : List Text} (h : l.forM testComponent = Except.ok ()) : ∀ c ∈ l, c ≠ [] := by
    induction l with
    | nil => exact nofun
    | cons c l ih =>
      change (testComponent c >>= fun _ => l.forM testComponent) = _ at h
      cases hc : testComponent c with
      | error e =>
        rw [hc] at h
        cases h
      | ok u =>
        rw [hc] at h
        exact List.forall_mem_cons.mpr ⟨testComponent_ok hc, ih h⟩
  exact fun c hc => ⟨hall h c hc, Util.slash_notMem_segments name c hc⟩

theorem relName_segments (name : Text) : relName (segments name) = name := by
  unfold relName
  rw [Util.segments_eq_splitOn, List.intercalate_splitOn]

/-- **An accepted name** is that of a path. -/
theorem accepted_path (h : Accepted name) :
    ∃ p, Plain p ∧ (name = absName p ∨ p ≠ [] ∧ name = relName p) := by
  unfold Accepted testFilenameForValidity at h
  split at h
  · cases h
  · split at h
    · next hroot => exact ⟨[], Os.plain_nil, .inl hroot⟩
    · split at h
      · cases h
      · split at h
        · next hhead =>
          obtain ⟨rest, rfl⟩ : ∃ rest, name = slash :: rest := by
            cases name with
            | nil => cases hhead
            | cons x rest => exact ⟨rest, congrArg (· :: rest) (Option.some.inj hhead)⟩
          refine ⟨segments rest, plain_of_forM h, .inl ?_⟩
          rw [absName, relName_segments]
        · exact ⟨segments name, plain_of_forM h, .inr ⟨Util.segments_ne_nil name, (relName_segments name).symm⟩⟩

/-! ## The file system -/

namespace StaticMemFs

def files (fs : StaticMemFs) : List (List Text) := fs.contents.map (pathAt [])

def dir (fs : StaticMemFs) : List Text := pathAt [] fs.cwd

/-- The path of a name in the current directory. -/
def path (fs : StaticMemFs) (name : Text) : List Text := pathAt fs.dir name

end StaticMemFs

/-- Every name that is kept is the absolute name of a path. -/
structure Named (fs : StaticMemFs) : Prop where
  cwd : Plain fs.dir ∧ absName fs.dir = fs.cwd
  contents : ∀ n ∈ fs.contents, Plain (pathAt [] n) ∧ absName (pathAt [] n) = n

variable {fs fs' : StaticMemFs}

theorem Named.absoluteName (h : Named fs) (hname : Accepted name) :
    Plain (fs.path name) ∧ fs.absoluteName name = .ok (absName (fs.path name)) := by
  obtain ⟨hplain, hcwd⟩ := h.cwd
  obtain ⟨p, hp, rfl | ⟨hne, rfl⟩⟩ := accepted_path hname
  · have hpath : fs.path (absName p) = p := Os.pathAt_absName fs.dir hp
    rw [hpath]
    exact ⟨hp, rfl⟩
  · have hpath : fs.path (relName p) = fs.dir ++ p := Os.pathAt_relName fs.dir hp
    rw [hpath]
    refine ⟨hplain.append hp, ?_⟩
    unfold StaticMemFs.absoluteName
    rw [← hcwd, Os.joinNames_absName hplain hp hne]

theorem Named.mem_contents (h : Named fs) {p : List Text} (hp : Plain p) :
    absName p ∈ fs.contents ↔ p ∈ fs.files := by
  constructor
  · intro hmem
    exact List.mem_map.mpr ⟨_, hmem, Os.pathAt_absName [] hp⟩
  · intro hmem
    obtain ⟨n, hn, rfl⟩ := List.mem_map.mp hmem
    rw [(h.contents n hn).2]
    exact hn

theorem isBelow_iff (nn n : Text) : StaticMemFs.isBelow nn n = true ↔ nn ++ [slash] <+: n := by
  unfold StaticMemFs.isBelow
  rw [Bool.and_eq_true_iff, Bool.and_eq_true_iff, decide_eq_true_iff, beq_iff_eq, beq_iff_eq]
  constructor
  · rintro ⟨⟨hlt, htake⟩, hget⟩
    refine ⟨n.drop (nn.length + 1), ?_⟩
    have hat : n[nn.length] = slash := Option.some.inj ((List.getElem?_eq_getElem hlt).symm.trans hget)
    conv => rhs; rw [← List.take_append_drop nn.length n, htake, List.drop_eq_getElem_cons hlt, hat]
    rw [List.append_assoc]
    rfl
  · rintro ⟨rest, rfl⟩
    rw [List.append_assoc]
    simp

theorem Named.any_below (h : Named fs) {p : List Text} (hp : Plain p) (hne : p ≠ []) :
    fs.contents.any (StaticMemFs.isBelow (absName p)) = true ↔ IsDir fs.files p := by
  rw [List.any_eq_true]
  constructor
  · rintro ⟨n, hn, hbelow⟩
    obtain ⟨hq, hname⟩ := h.contents n hn
    rw [isBelow_iff, ← hname, Os.prefix_iff hp hq hne] at hbelow
    exact ⟨_, List.mem_map.mpr ⟨n, hn, rfl⟩, hbelow⟩
  · rintro ⟨f, hf, hfront⟩
    obtain ⟨n, hn, rfl⟩ := List.mem_map.mp hf
    obtain ⟨hq, hname⟩ := h.contents n hn
    refine ⟨n, hn, ?_⟩
    rw [isBelow_iff, ← hname, Os.prefix_iff hp hq hne]
    exact hfront

/-- Nothing is below the root for `exists_`: no name has two slashes at its start. -/
theorem Named.none_below_root (h : Named fs) : fs.contents.any (StaticMemFs.isBelow (absName [])) = false := by
  rw [List.any_eq_false]
  intro n hn hbelow
  obtain ⟨hq, hname⟩ := h.contents n hn
  obtain ⟨rest, hrest⟩ := (isBelow_iff _ _).mp hbelow
  rw [← hname] at hrest
  have htail : slash :: rest = relName (pathAt [] n) := (List.cons.inj hrest).2
  exact Os.relName_head hq (htail ▸ rfl)

/-- **What `exists_` finds.** -/
theorem Named.exists_eq (h : Named fs) (hname : Accepted name) : fs.exists_ name = .ok
    (if fs.path name ∈ fs.files then some false
      else if fs.path name ≠ [] ∧ IsDir fs.files (fs.path name) then some true else none) := by
  obtain ⟨hplain, habs⟩ := h.absoluteName hname
  unfold StaticMemFs.exists_
  rw [hname]
  show (do let nn ← fs.absoluteName name; _) = _
  rw [habs]
  show (if absName (fs.path name) ∈ fs.contents then _ else _) = _
  have hbelow : fs.contents.any (StaticMemFs.isBelow (absName (fs.path name))) = true ↔
      fs.path name ≠ [] ∧ IsDir fs.files (fs.path name) := by
    by_cases hroot : fs.path name = []
    · rw [hroot, h.none_below_root]
      exact ⟨nofun, fun hc => absurd rfl hc.1⟩
    · rw [h.any_below hplain hroot]
      exact (and_iff_right hroot).symm
  simp only [h.mem_contents hplain, hbelow]
  split
  · rfl
  · split <;> rfl

theorem Named.mount_eq (h : Named fs) (hname : Accepted name) : fs.mount name =
    if fs.path name ∈ fs.files then .error "already mounted"
    else .ok { fs with contents := absName (fs.path name) :: fs.contents } := by
  obtain ⟨hplain, habs⟩ := h.absoluteName hname
  unfold StaticMemFs.mount
  rw [habs]
  show (if absName (fs.path name) ∈ fs.contents then _ else _) = _
  simp only [h.mem_contents hplain]

/-- A directory change that succeeds goes to a path. -/
theorem Named.cd_ok (h : Named fs) (hcd : fs.cd name = .ok fs') :
    ∃ p, Plain p ∧ fs' = { fs with cwd := absName p } := by
  unfold StaticMemFs.cd at hcd
  cases hname : testFilenameForValidity name with
  | error e =>
    rw [hname] at hcd
    cases hcd
  | ok u =>
    obtain ⟨hplain, habs⟩ := h.absoluteName hname
    rw [hname] at hcd
    change (do let nn ← fs.absoluteName name; _) = _ at hcd
    rw [habs] at hcd
    change (if absName (fs.path name) ∈ fs.contents then _ else _) = _ at hcd
    split at hcd
    · cases hcd
    · cases hcd
      exact ⟨_, hplain, rfl⟩

/-! ## Runs -/

/-- **A mount that keeps the tree**: the path is not the root, no directory, and not below a file. -/
def Fits (fs : StaticMemFs) : Call → Prop
  | .mount name => Accepted name ∧ fs.path name ≠ [] ∧ ¬IsDir fs.files (fs.path name) ∧
      ∀ f ∈ fs.files, ¬(f <+: fs.path name ∧ f ≠ fs.path name)
  | .cd _ => True

/-- Mounts of accepted names, and any directory changes. -/
def AnyMount (_ : StaticMemFs) : Call → Prop
  | .mount name => Accepted name
  | .cd _ => True

instance (fs : StaticMemFs) : (c : Call) → Decidable (Fits fs c)
  | .mount _ => inferInstanceAs (Decidable (_ ∧ _ ∧ _ ∧ _))
  | .cd _ => .isTrue trivial

instance (fs : StaticMemFs) : (c : Call) → Decidable (AnyMount fs c)
  | .mount name => inferInstanceAs (Decidable (Accepted name))
  | .cd _ => .isTrue trivial

theorem named_new : Named StaticMemFs.new where
  cwd := ⟨Os.plain_nil, rfl⟩
  contents := nofun

/-- A call that is accepted moves to a path, or adds one. -/
theorem Named.call (h : Named fs) {c : Call} (hfits : Fits fs c) :
    Named (fs.call c) ∧ ((fs.call c).files = fs.files ∨
      ∃ name, c = .mount name ∧ (fs.call c).files = fs.path name :: fs.files) := by
  cases c with
  | mount name =>
    obtain ⟨hplain, -⟩ := h.absoluteName hfits.1
    unfold StaticMemFs.call
    dsimp only
    rw [h.mount_eq hfits.1]
    split
    · exact ⟨h, .inl rfl⟩
    · have hpath := Os.pathAt_absName [] hplain
      refine ⟨⟨h.cwd, List.forall_mem_cons.mpr ⟨?_, h.contents⟩⟩, .inr ⟨name, rfl, ?_⟩⟩
      · rw [hpath]
        exact ⟨hplain, rfl⟩
      · exact congrArg (· :: fs.files) hpath
  | cd name =>
    unfold StaticMemFs.call
    dsimp only
    cases hcd : fs.cd name with
    | error e => exact ⟨h, .inl rfl⟩
    | ok fs' =>
      obtain ⟨p, hp, rfl⟩ := h.cd_ok hcd
      refine ⟨⟨?_, h.contents⟩, .inl rfl⟩
      show Plain (pathAt [] (absName p)) ∧ absName (pathAt [] (absName p)) = absName p
      rw [Os.pathAt_absName [] hp]
      exact ⟨hp, rfl⟩

/-- **The file system is a tree**, in every run of mounts that keep it one, and `exists_` tells what there is
at every path but the root, which it does not find. -/
theorem exists_iff (h : Reach StaticMemFs.step Fits .new fs) :
    IsTree fs.files ∧ ∀ name, Accepted name →
      (fs.exists_ name = .ok (lookup fs.files (fs.path name)) ↔ fs.path name ≠ [] ∨ fs.files = []) := by
  have hinv : Named fs ∧ IsTree fs.files := by
    refine h.invariant (P := fun fs => Named fs ∧ IsTree fs.files) ⟨named_new, nofun⟩ ?_
    rintro fs c fs' ⟨hnamed, htree⟩ hfits hstep
    obtain rfl : fs.call c = fs' := Option.some.inj hstep
    obtain ⟨hnamed', hfiles | ⟨name, rfl, hfiles⟩⟩ := hnamed.call hfits
    · exact ⟨hnamed', hfiles ▸ htree⟩
    · exact ⟨hnamed', hfiles ▸ htree.cons hfits.2.1 hfits.2.2.1 hfits.2.2.2⟩
  obtain ⟨hnamed, htree⟩ := hinv
  refine ⟨htree, ?_⟩
  intro name hname
  rw [hnamed.exists_eq hname]
  unfold lookup
  by_cases hroot : fs.path name = []
  · have hfile : fs.path name ∉ fs.files := fun hmem => (htree _ hmem).1 hroot
    rw [if_neg hfile, if_neg hfile, if_neg (fun hc => hc.1 hroot), hroot]
    by_cases hnone : fs.files = []
    · rw [if_neg (fun hdir => (isDir_root htree).mp hdir hnone)]
      exact ⟨fun _ => .inr hnone, fun _ => rfl⟩
    · rw [if_pos ((isDir_root htree).mpr hnone)]
      exact ⟨nofun, fun hc => hc.elim (absurd rfl) (fun hn => absurd hn hnone)⟩
  · simp only [and_iff_right hroot]
    exact ⟨fun _ => .inl hroot, fun _ => trivial⟩

theorem exists_below_mounted : ∃ fs : StaticMemFs, fs.files = [[[97], [98]]] ∧ fs.exists_ [98] = .ok (some false) ∧
    fs.exists_ [slash, 97] = .ok (some true) := by
  have hrun : Reach StaticMemFs.step Fits .new ⟨[slash, 97], [[slash, 97, slash, 98]]⟩ :=
    reach_of_exec_checked [.cd [97], .mount [98]] (by decide)
  obtain ⟨-, hexists⟩ := exists_iff hrun
  exact ⟨_, by decide, (hexists [98] (by decide)).mpr (by decide),
    (hexists [slash, 97] (by decide)).mpr (by decide)⟩

/-- The root of a file system with a file in it, and a file below another one. -/
theorem root_not_found :
    (¬∀ fs, Reach StaticMemFs.step AnyMount .new fs →
      ∀ name, Accepted name → fs.exists_ name = .ok (lookup fs.files (fs.path name))) ∧
      ¬∀ fs, Reach StaticMemFs.step AnyMount .new fs → IsTree fs.files := by
  constructor
  · intro hall
    have hroot := hall ⟨[slash], [[slash, 97]]⟩ (reach_of_exec_checked [.mount [97]] (by decide)) [slash] (by decide)
    exact nomatch hroot
  · intro hall
    have htree := hall ⟨[slash], [[slash, 97, slash, 98], [slash, 97]]⟩
      (reach_of_exec_checked [.mount [97], .mount [97, slash, 98]] (by decide))
    exact (htree [[97]] (by decide)).2 (by decide)

end OpenCpi.MemFs
