import Mathlib.Data.List.TakeWhile
import OpenCpi.Infra.Run
import OpenCpi.Properties.UriPath
import OpenCpi.Uri.Parse

/-!
# The components of a URI and its text

An object is consistent when its components are those of a new object with its text. Parsing a text whose
first character is not a letter keeps the scheme of an earlier text, and resolving keeps the user info of the
base, the last dot segment as the file name, and a base path that is not absolute. In all other runs every
object stays consistent.
-/

namespace OpenCpi.Util

open Infra

/-! ## The property and the condition -/

/-- The object is the one that is made from its text. -/
def Uri.Consistent (u : Uri) : Prop := parse {} u.uri = .ok u

instance (u : Uri) : Decidable u.Consistent := inferInstanceAs (Decidable (_ = _))

/-- The scheme is cleared or set when a text is parsed. -/
def KeepsScheme (u : Uri) (text : Text) : Prop := u.scheme = [] ∨ ∃ c ∈ text.head?, isalpha c = true

/-- Empty, or from the root on. -/
def Rooted (path : Text) : Prop := path = [] ∨ path.head? = some slash

/-- What a relative reference and its base have to be. -/
def Resolvable (u other : Uri) : Prop :=
  if other.authority ≠ [] then other.userinfo = u.userinfo
  else if other.path.head? = some slash then True
  else if other.path ≠ [] ∨ other.query ≠ [] then
    ¬IsDots other.filename ∧ (slash ∈ u.path → Rooted u.path)
  else Rooted u.path

/-- The condition. -/
def Keeps (s : Objects) : Op → Prop
  | .construct _ => False
  | .constructText _ _ | .copy _ _ => True
  | .assignText i text => ∀ u ∈ s i, KeepsScheme u text
  | .assign i j => ∀ u ∈ s i, ∀ other ∈ s j, KeepsScheme u other.uri
  | .resolveText i text => ∀ u ∈ s i, ∀ other ∈ (parse {} text).toOption,
      other.isAbsolute = false → Resolvable u other
  | .resolve i j => ∀ u ∈ s i, ∀ other ∈ s j, other.isAbsolute = false → Resolvable u other

section

variable (u other : Uri) (s : Objects) (path text : Text)

instance : Decidable (KeepsScheme u text) := inferInstanceAs (Decidable (_ ∨ _))

instance : Decidable (Rooted path) := inferInstanceAs (Decidable (_ ∨ _))

instance : Decidable (Resolvable u other) := by unfold Resolvable; infer_instance

instance : (op : Op) → Decidable (Keeps s op)
  | .construct _ => .isFalse id
  | .constructText _ _ | .copy _ _ => .isTrue trivial
  | .assignText i text => inferInstanceAs (Decidable (∀ u ∈ s i, KeepsScheme u text))
  | .assign i j => inferInstanceAs (Decidable (∀ u ∈ s i, ∀ other ∈ s j, KeepsScheme u other.uri))
  | .resolveText i text => inferInstanceAs (Decidable (∀ u ∈ s i, ∀ other ∈ (parse {} text).toOption,
      other.isAbsolute = false → Resolvable u other))
  | .resolve i j => inferInstanceAs (Decidable (∀ u ∈ s i, ∀ other ∈ s j,
      other.isAbsolute = false → Resolvable u other))

end

/-! ## Spans -/

/-- A text ends or goes on with a character that is not in the class. -/
def Stops (p : UInt8 → Bool) (rest : Text) : Prop := ∀ c ∈ rest.head?, p c = false

theorem takeWhile_stops {p : UInt8 → Bool} {text rest : Text} (htext : ∀ c ∈ text, p c = true)
    (hrest : Stops p rest) : (text ++ rest).takeWhile p = text := by
  have hnil : rest.takeWhile p = [] := by
    cases rest with
    | nil => rfl
    | cons c rest => rw [List.takeWhile_cons, hrest c rfl]; rfl
  rw [List.takeWhile_append_of_pos htext, hnil, List.append_nil]

theorem dropWhile_stops {p : UInt8 → Bool} {text rest : Text} (htext : ∀ c ∈ text, p c = true)
    (hrest : Stops p rest) : (text ++ rest).dropWhile p = rest := by
  rw [List.dropWhile_append_of_pos htext]
  cases rest with
  | nil => rfl
  | cons c rest => rw [List.dropWhile_cons, hrest c rfl]; rfl

theorem stops_marked {p : UInt8 → Bool} {mark : UInt8} (hmark : p mark = false) {text rest : Text}
    (hrest : Stops p rest) : Stops p (marked mark text ++ rest) := by
  unfold marked
  split
  · intro c hc
    cases hc
    exact hmark
  · exact hrest

theorem stops_nil {p : UInt8 → Bool} : Stops p [] := fun _ hc => nomatch hc

/-! ## Parsing a text that is built -/

/-- The scheme of an absolute URI. -/
def IsScheme : Text → Prop
  | [] => False
  | c :: scheme => isalpha c = true ∧ ∀ x ∈ scheme, isscheme x = true

theorem parseScheme_scheme {scheme : Text} (h : IsScheme scheme) (rest : Text) :
    parseScheme (scheme ++ colon :: rest) = (some scheme, rest) := by
  cases scheme with
  | nil => exact h.elim
  | cons c scheme =>
    obtain ⟨hc, hscheme⟩ := h
    have hstop : Stops isscheme (colon :: rest) := by
      intro x hx
      cases hx
      rfl
    show parseScheme (c :: (scheme ++ colon :: rest)) = _
    rw [parseScheme, if_pos hc, takeWhile_stops hscheme hstop, dropWhile_stops hscheme hstop]
    exact if_pos rfl

theorem parseAuthority_authority {authority rest : Text} (h : ∀ c ∈ authority, isauthority c = true)
    (hrest : Stops isauthority rest) :
    parseAuthority (slash :: slash :: (authority ++ rest)) = (authority, rest) := by
  rw [parseAuthority, if_pos ⟨rfl, rfl⟩, takeWhile_stops h hrest, dropWhile_stops h hrest]

/-- A component with its mark is read back, also when it is empty and left out. -/
theorem parseMark_marked {mark : UInt8} {text rest : Text} (h : ∀ c ∈ text, isuric c = true)
    (hrest : Stops isuric rest) (hmark : rest.head? ≠ some mark) :
    (parseMark mark (marked mark text ++ rest)).2 = rest ∧
      (parseMark mark (marked mark text ++ rest)).1.getD [] = text ∧
        ((parseMark mark (marked mark text ++ rest)).1.map (mark :: ·)).getD [] = marked mark text := by
  unfold marked
  split
  · have hread : parseMark mark (mark :: text ++ rest) = (some text, rest) := by
      show (if mark = mark then (some ((text ++ rest).takeWhile isuric), (text ++ rest).dropWhile isuric)
        else (none, mark :: (text ++ rest))) = _
      rw [if_pos rfl, takeWhile_stops h hrest, dropWhile_stops h hrest]
    rw [hread]
    exact ⟨rfl, rfl, rfl⟩
  · next hempty =>
    have hread : parseMark mark ([] ++ rest) = (none, rest) := by
      cases rest with
      | nil => rfl
      | cons c rest => exact if_neg fun hc => hmark (by rw [hc]; rfl)
    have htext : text = [] := List.length_eq_zero_iff.mp (not_not.mp hempty)
    rw [hread, htext]
    exact ⟨rfl, rfl, rfl⟩

/-- The components are made of their characters and fit together. -/
structure Parts (u : Uri) : Prop where
  authority : ∀ c ∈ u.authority, isauthority c = true
  user : userinfoOf u.authority = (u.userinfo, u.hostport)
  host : hostOf u.hostport = (u.host, u.port)
  path : ∀ c ∈ u.path, ispath c = true
  filename : filenameOf u.path = u.filename
  query : ∀ c ∈ u.query, isuric c = true

theorem stops_rooted {path rest : Text} (hpath : Rooted path) (hrest : Stops isauthority rest) :
    Stops isauthority (path ++ rest) := by
  rcases hpath with rfl | hslash
  · exact hrest
  · cases path with
    | nil => cases hslash
    | cons c path =>
      cases hslash
      intro x hx
      cases hx
      rfl

/-- The text that is built is parsed to the components that it is built from. -/
theorem consistent_rebuild {u : Uri} {fragment : Text} (hscheme : IsScheme u.scheme) (hparts : Parts u)
    (hroot : Rooted u.path) (hfragment : ∀ c ∈ fragment, isuric c = true) :
    (u.rebuild fragment).Consistent := by
  have hend : Stops isuric (marked hash fragment) := by
    rw [← List.append_nil (marked hash fragment)]
    exact stops_marked rfl stops_nil
  have hnotQuery : (marked hash fragment).head? ≠ some question := by
    unfold marked
    split
    · exact fun h => absurd (Option.some.inj h) (by decide)
    · exact fun h => nomatch h
  obtain ⟨hq₁, hq₂, hq₃⟩ := parseMark_marked hparts.query hend hnotQuery
  have hnotHash : ([] : Text).head? ≠ some hash := fun h => nomatch h
  obtain ⟨hf₁, hf₂, -⟩ := parseMark_marked hfragment stops_nil hnotHash
  rw [List.append_nil] at hf₁ hf₂
  have hmarks {p : UInt8 → Bool} (h₁ : p question = false) (h₂ : p hash = false) :
      Stops p (marked question u.query ++ marked hash fragment) := by
    refine stops_marked h₁ ?_
    rw [← List.append_nil (marked hash fragment)]
    exact stops_marked h₂ stops_nil
  have htext : (u.rebuild fragment).uri = u.scheme ++ colon :: slash :: slash :: (u.authority ++
      (u.path ++ (marked question u.query ++ marked hash fragment))) := by
    show u.scheme ++ colon :: slash :: slash :: u.authority ++ u.path ++ marked question u.query ++
      marked hash fragment = _
    simp only [List.append_assoc, List.cons_append]
  have hpath := hmarks (p := ispath) rfl rfl
  unfold Uri.Consistent parse
  rw [htext, parseScheme_scheme hscheme]
  dsimp only
  rw [parseAuthority_authority hparts.authority (stops_rooted hroot (hmarks rfl rfl))]
  dsimp only
  rw [takeWhile_stops hparts.path hpath, dropWhile_stops hparts.path hpath, hq₁, hf₁, hparts.user]
  dsimp only
  rw [hparts.host, hparts.filename, hq₂, hq₃, hf₂, ← htext]
  rfl

/-! ## What is parsed -/

theorem parseScheme_isScheme (data : Text) : ∀ scheme ∈ (parseScheme data).1, scheme ≠ [] → IsScheme scheme := by
  intro scheme hscheme hne
  cases data with
  | nil => cases hscheme
  | cons c uri =>
    rw [parseScheme] at hscheme
    split at hscheme
    · next hc =>
      split at hscheme
      · cases hscheme
        exact absurd rfl hne
      · split at hscheme
        · cases hscheme
          exact ⟨hc, fun x hx => List.mem_takeWhile_imp hx⟩
        · cases hscheme
          exact absurd rfl hne
    · cases hscheme

theorem parseMark_isuric (mark : UInt8) (rest : Text) :
    ∀ c ∈ (parseMark mark rest).1.getD [], isuric c = true := by
  intro c hc
  cases rest with
  | nil => exact absurd hc List.not_mem_nil
  | cons x rest =>
    rw [parseMark] at hc
    split at hc
    · exact List.mem_takeWhile_imp hc
    · exact absurd hc List.not_mem_nil

/-- Behind an authority there is no character of one, so that the path starts at the root. -/
theorem parseAuthority_spec (rest : Text) :
    (∀ c ∈ (parseAuthority rest).1, isauthority c = true) ∧
      ((parseAuthority rest).1 ≠ [] → Rooted ((parseAuthority rest).2.takeWhile ispath)) := by
  unfold parseAuthority
  split
  · next x y rest =>
    split
    · refine ⟨fun c hc => List.mem_takeWhile_imp hc, fun _ => ?_⟩
      cases hdrop : rest.dropWhile isauthority with
      | nil => exact Or.inl rfl
      | cons c tail =>
        have hstop : isauthority c = false := by
          have h := List.head?_dropWhile_not isauthority rest
          rw [hdrop] at h
          exact h
        dsimp only
        rw [List.takeWhile_cons]
        split
        · next hpath =>
          right
          -- a slash is the only character of a path that an authority has not
          have hslash : c = slash := by
            unfold isauthority at hstop
            unfold ispath at hpath
            simp only [Bool.or_eq_true, Bool.or_eq_false_iff, List.contains_cons, List.contains_nil,
              Bool.or_false, beq_iff_eq, beq_eq_false_iff_ne] at hstop hpath
            grind
          rw [hslash]
          rfl
        · exact Or.inl rfl
    · exact ⟨fun c hc => absurd hc List.not_mem_nil, fun h => absurd rfl h⟩
  · exact ⟨fun c hc => absurd hc List.not_mem_nil, fun h => absurd rfl h⟩

theorem parse_eq {u₀ u : Uri} {data : Text} (h : parse u₀ data = .ok u) :
    let scheme := parseScheme data
    let authority := parseAuthority scheme.2
    let query := parseMark question (authority.2.dropWhile ispath)
    u.uri = data ∧ u.scheme = scheme.1.getD u₀.scheme ∧ u.authority = authority.1 ∧
      (u.userinfo, u.hostport) = userinfoOf u.authority ∧ (u.host, u.port) = hostOf u.hostport ∧
        u.path = authority.2.takeWhile ispath ∧ u.filename = filenameOf u.path ∧
          u.query = query.1.getD [] ∧ u.fragment = (parseMark hash query.2).1.getD [] := by
  unfold parse at h
  dsimp only at h
  split at h
  · cases h
  · cases h
    exact ⟨rfl, rfl, rfl, rfl, rfl, rfl, rfl, rfl, rfl⟩

theorem parts_of_parse {u₀ u : Uri} {data : Text} (h : parse u₀ data = .ok u) :
    Parts u ∧ (u.authority ≠ [] → Rooted u.path) ∧ ∀ c ∈ u.fragment, isuric c = true := by
  obtain ⟨-, -, hauthority, huser, hhost, hpath, hfilename, hquery, hfragment⟩ := parse_eq h
  obtain ⟨hchars, hroot⟩ := parseAuthority_spec (parseScheme data).2
  refine ⟨⟨?_, huser.symm, hhost.symm, ?_, hfilename.symm, ?_⟩, ?_, ?_⟩
  · rw [hauthority]
    exact hchars
  · rw [hpath]
    exact fun c hc => List.mem_takeWhile_imp hc
  · rw [hquery]
    exact parseMark_isuric question _
  · rw [hauthority, hpath]
    exact hroot
  · rw [hfragment]
    exact parseMark_isuric hash _

/-- An object that is parsed is consistent when no scheme is left over. -/
theorem consistent_of_parse {u₀ u : Uri} {data : Text} (h : parse u₀ data = .ok u)
    (hscheme : u₀.scheme = [] ∨ (parseScheme data).1 ≠ none) : u.Consistent := by
  have hsame : (parseScheme data).1.getD u₀.scheme = (parseScheme data).1.getD [] := by
    rcases hscheme with hnil | hsome
    · rw [hnil]
    · obtain ⟨scheme, hscheme⟩ := Option.ne_none_iff_exists'.mp hsome
      rw [hscheme]
      rfl
  unfold Uri.Consistent
  rw [(parse_eq h).1]
  rw [← h]
  unfold parse
  dsimp only
  rw [hsame]

theorem parseScheme_ne_none {data : Text} (h : ∃ c ∈ data.head?, isalpha c = true) :
    (parseScheme data).1 ≠ none := by
  obtain ⟨c, hc, halpha⟩ := h
  cases data with
  | nil => cases hc
  | cons x uri =>
    cases hc
    rw [parseScheme, if_pos halpha]
    split
    · exact Option.some_ne_none _
    · split <;> exact Option.some_ne_none _

/-! ## The file name -/

theorem exists_last_slash {path : Text} (h : slash ∈ path) : ∃ a b, path = a ++ slash :: b ∧ slash ∉ b := by
  induction path with
  | nil => exact absurd h List.not_mem_nil
  | cons c path ih =>
    by_cases hmem : slash ∈ path
    · obtain ⟨a, b, heq, hb⟩ := ih hmem
      exact ⟨c :: a, b, by rw [heq]; rfl, hb⟩
    · rcases List.mem_cons.mp h with hc | hc
      · exact ⟨[], path, by rw [hc]; rfl, hmem⟩
      · exact absurd hc hmem

theorem filenameOf_append {b : Text} (h : slash ∉ b) (a : Text) : filenameOf (a ++ slash :: b) = b := by
  unfold filenameOf
  rw [rfind_append h]
  dsimp only
  rw [List.drop_append, List.drop_eq_nil_of_le (Nat.le_succ _), Nat.add_sub_cancel_left]
  rfl

theorem filenameOf_plain {path : Text} (h : slash ∉ path) : filenameOf path = path := by
  unfold filenameOf
  rw [rfind_eq_none h]
  dsimp only
  split
  · next hempty => exact (List.length_eq_zero_iff.mp hempty).symm
  · rfl

/-- The file name is the one of the text behind any slash. -/
theorem filenameOf_behind (a b : Text) : filenameOf (a ++ slash :: b) = filenameOf b := by
  by_cases hb : slash ∈ b
  · obtain ⟨a', b', rfl, hb'⟩ := exists_last_slash hb
    have hassoc : a ++ slash :: (a' ++ slash :: b') = (a ++ slash :: a') ++ slash :: b' := by
      rw [List.append_assoc, List.cons_append]
    rw [hassoc, filenameOf_append hb', filenameOf_append hb']
  · rw [filenameOf_append hb, filenameOf_plain hb]

/-- The file name is the last segment. -/
theorem segments_filename (path : Text) : ∃ front, segments path = front ++ [filenameOf path] := by
  by_cases h : slash ∈ path
  · obtain ⟨a, b, rfl, hb⟩ := exists_last_slash h
    refine ⟨segments a, ?_⟩
    rw [filenameOf_append hb, segments_eq_splitOn, List.splitOn_append_cons_self,
      List.splitOn_eq_singleton hb, ← segments_eq_splitOn]
  · refine ⟨[], ?_⟩
    rw [filenameOf_plain h, segments_eq_splitOn, List.splitOn_eq_singleton h]
    rfl

/-- The file name stays the last segment, unless it is a dot segment. -/
theorem filenameOf_normalizePath {path : Text} (h : ¬IsDots (filenameOf path)) :
    filenameOf (normalizePath (slash :: path)) = filenameOf path := by
  obtain ⟨front, hfront⟩ := segments_filename path
  have hslash : slash ∉ filenameOf path :=
    slash_notMem_segments path _ (by rw [hfront]; exact List.mem_append_right _ List.mem_cons_self)
  have htrailing : trailing (segments path) = [] := by
    refine if_neg ?_
    rintro ⟨seg, hseg, hdots⟩
    rw [hfront, List.getLast?_concat] at hseg
    cases hseg
    exact h hdots
  have hpush (stack : List Text) : pushSegment stack (filenameOf path) = stack ++ [filenameOf path] := by
    unfold pushSegment
    rw [if_neg fun hdot => h (Or.inl hdot), if_neg fun hdot => h (Or.inr hdot)]
  rw [normalizePath_eq_render]
  unfold removeDots
  rw [htrailing, List.append_nil, hfront, List.foldl_append, List.foldl_cons, List.foldl_nil, hpush,
    render_concat, filenameOf_append hslash]

/-! ## The path of a resolved reference -/

theorem mem_segments {path : Text} {c : UInt8} : ∀ seg ∈ segments path, c ∈ seg → c ∈ path := by
  induction path with
  | nil =>
    intro seg hseg hc
    rw [List.mem_singleton.mp hseg] at hc
    exact hc
  | cons x path ih =>
    intro seg hseg hc
    rw [segments] at hseg
    split at hseg
    · rcases List.mem_cons.mp hseg with rfl | hseg
      · exact absurd hc List.not_mem_nil
      · exact List.mem_cons_of_mem x (ih seg hseg hc)
    · cases hsegs : segments path with
      | nil => exact absurd hsegs (segments_ne_nil path)
      | cons first rest =>
        rw [hsegs, List.modifyHead_cons] at hseg
        rw [hsegs] at ih
        rcases List.mem_cons.mp hseg with rfl | hseg
        · rcases List.mem_cons.mp hc with rfl | hc
          · exact List.mem_cons_self
          · exact List.mem_cons_of_mem x (ih first List.mem_cons_self hc)
        · exact List.mem_cons_of_mem x (ih seg (List.mem_cons_of_mem first hseg) hc)

theorem mem_foldl_pushSegment : ∀ {segs stack : List Text} {seg : Text},
    seg ∈ segs.foldl pushSegment stack → seg ∈ stack ∨ seg ∈ segs
  | [], _, _, h => Or.inl h
  | x :: segs, stack, seg, h => by
    have h : seg ∈ segs.foldl pushSegment (pushSegment stack x) := h
    rcases mem_foldl_pushSegment h with hstack | hsegs
    · unfold pushSegment at hstack
      split at hstack
      · exact Or.inl hstack
      · split at hstack
        · exact Or.inl (List.dropLast_subset stack hstack)
        · rcases List.mem_append.mp hstack with hstack | hx
          · exact Or.inl hstack
          · rw [List.mem_singleton.mp hx]
            exact Or.inr List.mem_cons_self
    · exact Or.inr (List.mem_cons_of_mem x hsegs)

/-- Normalizing adds no characters but slashes. -/
theorem mem_normalizePath {path : Text} {c : UInt8} (h : c ∈ normalizePath (slash :: path)) :
    c = slash ∨ c ∈ path := by
  rw [normalizePath_eq_render] at h
  obtain ⟨seg, hseg, hc⟩ := List.mem_flatMap.mp h
  rcases List.mem_cons.mp hc with rfl | hc
  · exact Or.inl rfl
  · right
    rcases List.mem_append.mp hseg with hseg | hseg
    · rcases mem_foldl_pushSegment hseg with hnil | hseg
      · exact absurd hnil List.not_mem_nil
      · exact mem_segments seg hseg hc
    · unfold trailing at hseg
      split at hseg
      · rw [List.mem_singleton.mp hseg] at hc
        exact absurd hc List.not_mem_nil
      · exact absurd hseg List.not_mem_nil

theorem rooted_normalizePath (path : Text) : Rooted (normalizePath (slash :: path)) := by
  obtain ⟨-, ⟨path', heq, -⟩, -⟩ := normalizePath_removes_dots path
  rw [heq]
  exact Or.inr rfl

/-- The directory of a rooted path, or of one without a slash, ends in a slash and starts with one. -/
theorem directory_spec {path : Text} (h : slash ∈ path → Rooted path) :
    ∃ a, directory path = a ++ [slash] ∧ (∃ tail, a ++ [slash] = slash :: tail) ∧
      ∀ c ∈ directory path, c = slash ∨ c ∈ path := by
  by_cases hmem : slash ∈ path
  · obtain ⟨a, b, rfl, hb⟩ := exists_last_slash hmem
    have htake : (a ++ slash :: b).take (a.length + 1) = a ++ [slash] := by
      rw [List.take_append, List.take_of_length_le (Nat.le_succ _), Nat.add_sub_cancel_left]
      rfl
    have hdir : directory (a ++ slash :: b) = a ++ [slash] := by
      unfold directory
      rw [rfind_append hb]
      exact htake
    refine ⟨a, hdir, ?_, fun c hc => Or.inr ?_⟩
    · cases a with
      | nil => exact ⟨[], rfl⟩
      | cons x a =>
        rcases h hmem with hnil | hhead
        · cases hnil
        · cases hhead
          exact ⟨a ++ [slash], rfl⟩
    · rw [hdir, ← htake] at hc
      exact List.mem_of_mem_take hc
  · have hdir : directory path = [] ++ [slash] := by
      unfold directory
      rw [rfind_eq_none hmem]
      rfl
    refine ⟨[], hdir, ⟨[], rfl⟩, fun c hc => Or.inl ?_⟩
    rw [hdir] at hc
    exact List.mem_singleton.mp hc

/-- The path of a reference in the directory of its base. -/
theorem resolved_path {path other : Text} (hpath : ∀ c ∈ path, ispath c = true)
    (hother : ∀ c ∈ other, ispath c = true) (hroot : slash ∈ path → Rooted path)
    (hdots : ¬IsDots (filenameOf other)) :
    (∀ c ∈ normalizePath (directory path ++ other), ispath c = true) ∧
      Rooted (normalizePath (directory path ++ other)) ∧
        filenameOf (normalizePath (directory path ++ other)) = filenameOf other := by
  obtain ⟨a, hdir, ⟨tail, htail⟩, hmem⟩ := directory_spec hroot
  have hstart : directory path ++ other = slash :: (tail ++ other) := by
    rw [hdir, htail]
    rfl
  have hname : filenameOf (tail ++ other) = filenameOf other := by
    have hbehind : slash :: (tail ++ other) = a ++ slash :: other := by
      rw [← hstart, hdir, List.append_assoc]
      rfl
    have hhead : filenameOf ([] ++ slash :: (tail ++ other)) = filenameOf (tail ++ other) :=
      filenameOf_behind [] _
    rw [← hhead, List.nil_append, hbehind, filenameOf_behind]
  have hchars : ∀ c ∈ directory path ++ other, ispath c = true := by
    refine List.forall_mem_append.mpr ⟨fun c hc => ?_, hother⟩
    rcases hmem c hc with rfl | hc
    · rfl
    · exact hpath c hc
  refine ⟨fun c hc => ?_, ?_, ?_⟩
  · rw [hstart] at hc hchars
    rcases mem_normalizePath hc with rfl | hc
    · rfl
    · exact hchars c (List.mem_cons_of_mem slash hc)
  · rw [hstart]
    exact rooted_normalizePath _
  · rw [hstart, filenameOf_normalizePath (by rw [hname]; exact hdots), hname]

/-! ## Resolving -/

/-- An object that is not relative has a scheme. -/
theorem isScheme_of_consistent {u : Uri} (h : u.Consistent) (habsolute : u.isAbsolute = true) :
    IsScheme u.scheme ∧ (parseScheme u.uri).1 ≠ none := by
  have hscheme : u.scheme = (parseScheme u.uri).1.getD [] := (parse_eq h).2.1
  have hne : u.scheme ≠ [] := by
    intro hnil
    unfold Uri.isAbsolute at habsolute
    rw [hnil] at habsolute
    cases habsolute
  cases hparse : (parseScheme u.uri).1 with
  | none =>
    rw [hparse] at hscheme
    exact absurd hscheme hne
  | some scheme =>
    rw [hparse, Option.getD_some] at hscheme
    rw [hscheme] at hne ⊢
    exact ⟨parseScheme_isScheme u.uri scheme hparse hne, Option.some_ne_none _⟩

/-- **Resolving a reference keeps the object consistent.** -/
theorem consistent_resolve {u other u' : Uri} (hu : u.Consistent) (hother : other.Consistent)
    (hok : other.isAbsolute = false → Resolvable u other) (h : resolve u other = .ok u') : u'.Consistent := by
  unfold resolve at h
  split at h
  · next habsolute =>
    exact consistent_of_parse h (Or.inr (isScheme_of_consistent hother habsolute).2)
  · next hrelative =>
    split at h
    · cases h
    · next habsolute =>
      have hscheme := (isScheme_of_consistent hu (by simpa using habsolute)).1
      obtain ⟨hparts, hroot, -⟩ := parts_of_parse hu
      obtain ⟨hparts', hroot', hfragment'⟩ := parts_of_parse hother
      have hok := hok (Bool.not_eq_true _ ▸ hrelative)
      unfold Resolvable at hok
      split at h
      · next hauthority =>
        have hne : other.authority ≠ [] := fun hnil => hauthority (by rw [hnil]; rfl)
        rw [if_pos hne] at hok
        have huser : userinfoOf other.authority = (u.userinfo, other.hostport) := by
          rw [hparts'.user, hok]
        cases h
        exact consistent_rebuild hscheme ⟨hparts'.authority, huser, hparts'.host, hparts'.path,
          hparts'.filename, hparts'.query⟩ (hroot' hne) hfragment'
      · next hauthority =>
        have hnil : other.authority = [] := List.length_eq_zero_iff.mp (not_not.mp hauthority)
        rw [if_neg (not_not_intro hnil)] at hok
        split at h
        · next hslash =>
          cases h
          exact consistent_rebuild hscheme ⟨hparts.authority, hparts.user, hparts.host, hparts'.path,
            hparts'.filename, hparts'.query⟩ (Or.inr hslash) hfragment'
        · next hslash =>
          rw [if_neg hslash] at hok
          have hlength : (other.path.length ≠ 0 ∨ other.query.length ≠ 0) ↔
              (other.path ≠ [] ∨ other.query ≠ []) := by
            rw [Ne, Ne, List.length_eq_zero_iff, List.length_eq_zero_iff]
          split at h
          · next hsome =>
            rw [if_pos (hlength.mp hsome)] at hok
            have hdots : ¬IsDots (filenameOf other.path) := by
              rw [hparts'.filename]
              exact hok.1
            obtain ⟨hpath, hrooted, hname⟩ := resolved_path hparts.path hparts'.path hok.2 hdots
            cases h
            exact consistent_rebuild hscheme ⟨hparts.authority, hparts.user, hparts.host, hpath,
              hname.trans hparts'.filename, hparts'.query⟩ hrooted hfragment'
          · next hsome =>
            rw [if_neg fun hne => hsome (hlength.mpr hne)] at hok
            cases h
            exact consistent_rebuild hscheme hparts hok hfragment'

/-! ## Runs -/

/-- All objects are consistent. -/
def AllConsistent (s : Objects) : Prop := ∀ i, ∀ u ∈ s i, u.Consistent

theorem AllConsistent.set {s s' : Objects} {i : Nat} {r : Except String Uri} (h : AllConsistent s)
    (hs : s.set i r = some s') (hr : ∀ u, r = .ok u → u.Consistent) : AllConsistent s' := by
  unfold Objects.set at hs
  cases r with
  | error e => cases hs
  | ok u =>
    cases hs
    intro k v hv
    dsimp only at hv
    by_cases hk : k = i
    · rw [hk, Function.update_self] at hv
      cases hv
      exact hr u rfl
    · rw [Function.update_of_ne hk] at hv
      exact h k v hv

theorem consistent_of_keepsScheme {u u' : Uri} {text : Text} (h : parse u text = .ok u')
    (hkeeps : KeepsScheme u text) : u'.Consistent :=
  consistent_of_parse h (hkeeps.imp_right parseScheme_ne_none)

theorem consistent_new {u : Uri} {text : Text} (h : parse {} text = .ok u) : u.Consistent :=
  consistent_of_parse h (Or.inl rfl)

/-- **Step.** -/
theorem allConsistent_step {s s' : Objects} {op : Op} (h : AllConsistent s) (hok : Keeps s op)
    (hs : step s op = some s') : AllConsistent s' := by
  cases op with
  | construct i => exact hok.elim
  | constructText i text => exact h.set hs fun u hu => consistent_new hu
  | copy i j =>
    obtain ⟨other, -, hs⟩ := Option.bind_eq_some_iff.mp hs
    exact h.set hs fun u hu => consistent_new hu
  | assignText i text =>
    obtain ⟨u, hi, hs⟩ := Option.bind_eq_some_iff.mp hs
    exact h.set hs fun u' hu' => consistent_of_keepsScheme hu' (hok u hi)
  | assign i j =>
    obtain ⟨u, hi, hs⟩ := Option.bind_eq_some_iff.mp hs
    obtain ⟨other, hj, hs⟩ := Option.bind_eq_some_iff.mp hs
    exact h.set hs fun u' hu' => consistent_of_keepsScheme hu' (hok u hi other hj)
  | resolveText i text =>
    obtain ⟨u, hi, hs⟩ := Option.bind_eq_some_iff.mp hs
    refine h.set hs fun u' hu' => ?_
    cases hparse : parse {} text with
    | error e =>
      rw [hparse] at hu'
      cases hu'
    | ok other =>
      rw [hparse] at hu'
      have hother : other ∈ (parse {} text).toOption := by
        rw [hparse]
        rfl
      exact consistent_resolve (h i u hi) (consistent_new hparse) (hok u hi other hother) hu'
  | resolve i j =>
    obtain ⟨u, hi, hs⟩ := Option.bind_eq_some_iff.mp hs
    obtain ⟨other, hj, hs⟩ := Option.bind_eq_some_iff.mp hs
    exact h.set hs fun u' hu' => consistent_resolve (h i u hi) (h j other hj) (hok u hi other hj) hu'

/-- **Run**: every object equals the one that is made from its text. -/
theorem consistent_of_keeps (s : Objects) (h : Reach step Keeps (fun _ => none) s) :
    ∀ i, ∀ u ∈ s i, parse {} u.uri = .ok u :=
  h.invariant (fun _ _ hu => nomatch hu) fun _ _ _ hs hok hstep => allConsistent_step hs hok hstep

/-- A base, a reference in its directory, a copy and an assignment. -/
theorem consistent_resolved : ∃ s, exec (checked step Keeps) (fun _ => none)
    [.constructText 0 [97, colon, slash, slash, 104, slash, 98], .resolveText 0 [99], .copy 1 0,
      .assign 0 1] = some s ∧ ∀ i, ∀ u ∈ s i, parse {} u.uri = .ok u := by
  obtain ⟨s, hs⟩ : ∃ s, exec (checked step Keeps) (fun _ => none)
      [.constructText 0 [97, colon, slash, slash, 104, slash, 98], .resolveText 0 [99], .copy 1 0,
        .assign 0 1] = some s := ⟨_, rfl⟩
  exact ⟨s, hs, consistent_of_keeps s (reach_of_exec_checked _ hs)⟩

/-- The scheme of the earlier text is left over. -/
theorem scheme_left_over : ¬∀ s, Reach step anyStep (fun _ => none) s →
    ∀ i, ∀ u ∈ s i, parse {} u.uri = .ok u := by
  intro h
  obtain ⟨s, hs, u, hu, huri, hscheme⟩ : ∃ s, exec step (fun _ => none)
      [.constructText 0 [97, colon], .assignText 0 []] = some s ∧ ∃ u, s 0 = some u ∧ u.uri = [] ∧
        u.scheme = [97] := ⟨_, rfl, _, rfl, rfl, rfl⟩
  have hfresh := h s (reach_of_exec _ hs) 0 u hu
  rw [huri] at hfresh
  cases hfresh
  exact absurd hscheme (by decide)

end OpenCpi.Util
