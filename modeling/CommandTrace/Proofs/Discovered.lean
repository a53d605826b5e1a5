/-
The files that are found below a folder.

They are those that the pattern is for and that no ignored folder is on the
way to (`IsFound`), in the order of their paths. What is in ignored folders
does not count, save in one way: whatever the pattern yields is asked for, so a
match that is too long to be asked for ends the search wherever it is.

What becomes of a yield does not depend on how it was made, so it is said of
every yield that is complete (`Yield.IsComplete`). Following a pattern makes one
where all that is on the way can be asked for (`isComplete_follow`).
-/
import CommandTrace.Discovery
import CommandTrace.Proofs.Descent
import CommandTrace.Proofs.Distinct
import CommandTrace.Proofs.NamePatterns
import Mathlib.Data.List.TakeWhile

namespace CommandTrace

/-! ## The order of paths -/

namespace Path

theorem le_go_iff {as bs : List String} : le.go as bs = true ↔ ¬bs < as := by
  fun_induction le.go as bs with
  | case1 bs => simp
  | case2 a as => simp
  | case3 as b bs ih => simp [ih]
  | case4 a as b bs hne =>
    have hlt : a < b ↔ ¬b < a := by
      refine ⟨String.lt_asymm, fun hge => String.not_le.1 fun hle => hne ?_⟩
      exact String.le_antisymm (String.not_lt.1 hge) hle
    simp [List.cons_lt_cons_iff, Ne.symm hne, hlt]

theorem le_trans (p q r : Path) (hpq : p.le q = true) (hqr : q.le r = true) : p.le r = true := by
  rw [le, le_go_iff, List.not_lt] at hpq hqr ⊢
  exact List.le_trans hpq hqr

theorem le_total (p q : Path) : (p.le q || q.le p) = true := by
  rw [Bool.or_eq_true, le, le, le_go_iff, le_go_iff, List.not_lt, List.not_lt]
  exact List.le_total _ _

/-- Paths that start alike are in the order of their components. -/
theorem parts_lt_of_le {p q : Path} (hanchor : p.anchor = q.anchor) (hne : p ≠ q) (h : p.le q = true) :
    p.parts < q.parts := by
  have hparts : p.parts ≠ q.parts := fun hparts => hne (by cases p; cases q; simp_all)
  have hge : ¬q.parts < p.parts := by
    rw [le, le_go_iff, List.cons_lt_cons_iff, not_or] at h
    exact fun hlt => h.2 ⟨by rw [hanchor], hlt⟩
  refine List.not_le.1 fun hle => hparts ?_
  exact List.le_antisymm (List.not_lt.1 hge) hle

/-- The one list of some paths that is in order. -/
theorem eq_of_pairwise_of_mem_iff {l l' : List Path} (hl : l.Pairwise fun p q => p.parts < q.parts)
    (hl' : l'.Pairwise fun p q => p.parts < q.parts) (h : ∀ p, p ∈ l ↔ p ∈ l') : l = l' := by
  have hnodup : ∀ {l : List Path}, l.Pairwise (fun p q => p.parts < q.parts) → l.Nodup := fun hl =>
    hl.imp fun {p q} hlt (he : p = q) => List.lt_irrefl q.parts (he ▸ hlt)
  exact ((List.perm_ext_iff_of_nodup (hnodup hl) (hnodup hl')).2 h).eq_of_pairwise
    (fun _ _ _ _ hlt hgt => absurd hgt (List.lt_asymm hlt)) hl hl'

end Path

namespace Item

open Glob

/-! ## What is looked for -/

/-- The path of an item below a folder that the pattern is for. -/
def IsMatch (base : Item) (folder : Path) (pattern : String) (path : Path) : Prop :=
  ∃ names name sub, path = folder.extend (names ++ [name]) ∧
    base.descend? (names ++ [name]) = some sub ∧ Matches (elements pattern.toList) name.toList

/-- The path of a file below a folder that the pattern is for, with no ignored name
between them. -/
def IsFound (base : Item) (folder : Path) (pattern : String) (ignored : List String) (path : Path) : Prop :=
  ∃ names name content, path = folder.extend (names ++ [name]) ∧
    base.descend? (names ++ [name]) = some (.file content) ∧ Matches (elements pattern.toList) name.toList ∧
    ∀ between ∈ names, between ∉ ignored

/-- A path that is asked for while the pattern is followed: a folder, or what a pattern
without wildcards names in it. -/
inductive IsOnTheWay (base : Item) (folder : Path) (pattern : String) : Path → Prop
  | folder {names : List String} {items : List (String × Item)} (h : base.descend? names = some (.folder items)) :
    IsOnTheWay base folder pattern (folder.extend names)
  | named {names : List String} {items : List (String × Item)} (h : base.descend? names = some (.folder items))
    (hplain : isPlain pattern = true) : IsOnTheWay base folder pattern (folder.extend (names ++ [pattern]))

/-- All matches are yielded, each once, and nothing else. -/
structure Yield.IsComplete (found : Yield) (base : Item) (folder : Path) (pattern : String) : Prop where
  mem_iff (path : Path) : path ∈ found.paths ↔ IsMatch base folder pattern path
  nodup : found.paths.Nodup
  failure : found.failure = none

theorem IsTree.ne_above_concat {base sub : Item} {pattern : String} {names : List String} (htree : base.IsTree)
    (hdescend : base.descend? names = some sub) (hpattern : IsNamePattern pattern) :
    ∀ name ∈ names ++ [pattern], name ≠ ".." := by
  intro name hname
  rcases List.mem_append.1 hname with hname | hname
  · exact htree.ne_above hdescend name hname
  · exact List.mem_singleton.1 hname ▸ hpattern.ne_above

section

variable {root base : Item} {folder : Path} {pattern : String} {ignored : List String}

/-- What is there and is not refused is what is found at its path. -/
theorem find?_of_descend? {names : List String} {sub : Item} (htree : root.IsTree)
    (hbase : root.find? folder = some base) (hsub : base.descend? names = some sub)
    (hasked : ¬(folder.extend names).Refused) : root.find? (folder.extend names) = some sub := by
  have hnames := (htree.of_find? hbase).1.ne_above hsub
  have hlimits : ¬(folder.extend names).Exceeds := fun hlimits =>
    hasked ⟨hlimits, hasZero_of_descend? htree hbase hsub⟩
  rw [find?_extend hbase hnames hlimits, hsub]

theorem descend?_of_find? {names : List String} {sub : Item} (htree : root.IsTree)
    (hbase : root.find? folder = some base) (hnames : ∀ name ∈ names, name ≠ "..")
    (hsub : root.find? (folder.extend names) = some sub) : base.descend? names = some sub := by
  rw [← find?_extend hbase hnames (htree.of_find? hsub).2.1, hsub]

/-- Whether it fails to ask for a path on the way. -/
theorem IsOnTheWay.isTooLong_iff {path : Path} (htree : root.IsTree) (hbase : root.find? folder = some base)
    (hpattern : IsNamePattern pattern) (h : IsOnTheWay base folder pattern path) :
    root.isTooLong path = true ↔ path.Refused := by
  have hbasetree := (htree.of_find? hbase).1
  cases h with
  | folder h => exact isTooLong_iff_refused htree hbase (leadsTo_of_descend? h) (hbasetree.ne_above h)
  | named h _ =>
    exact isTooLong_iff_refused htree hbase (leadsTo_concat h pattern) (hbasetree.ne_above_concat h hpattern)

/-- Whether it fails to ask for a match. -/
theorem IsMatch.isTooLong_iff {path : Path} (htree : root.IsTree) (hbase : root.find? folder = some base)
    (h : IsMatch base folder pattern path) : root.isTooLong path = true ↔ path.Refused := by
  obtain ⟨names, name, sub, rfl, hsub, -⟩ := h
  exact isTooLong_iff_refused htree hbase (leadsTo_of_descend? hsub) ((htree.of_find? hbase).1.ne_above hsub)

theorem IsMatch.anchor {path : Path} (h : IsMatch base folder pattern path) : path.anchor = folder.anchor := by
  obtain ⟨names, name, sub, rfl, -⟩ := h
  rfl

/-- What is in ignored folders is not looked for. -/
theorem isFound_iff_of_prune_eq {base' : Item} (htree : base.IsTree) (htree' : base'.IsTree)
    (h : base'.prune ignored = base.prune ignored) (path : Path) :
    IsFound base' folder pattern ignored path ↔ IsFound base folder pattern ignored path := by
  refine exists_congr fun names => exists_congr fun name => exists_congr fun content => and_congr_right fun _ => ?_
  rw [and_congr_left_iff]
  rintro ⟨-, hbetween⟩
  rw [← htree'.descend?_prune hbetween, h, htree.descend?_prune hbetween]

/-! ## What is kept of a yield -/

theorem between_extend (folder : Path) (names : List String) (name : String) :
    between folder (folder.extend (names ++ [name])) = names := by
  simp [between, Path.extend]

theorem isFileAt_iff {path : Path} :
    root.isFileAt path = true ↔ ∃ content, root.find? path = some (.file content) := by
  rw [isFileAt, Option.any_eq_true]
  constructor
  · rintro ⟨_ | items, hfind, hfile⟩
    · exact ⟨_, hfind⟩
    · simp [isFolder] at hfile
  · rintro ⟨content, hfind⟩
    exact ⟨_, hfind, rfl⟩

theorem mem_filesAmong {paths : List Path} {path : Path} :
    path ∈ root.filesAmong folder ignored paths ↔
      path ∈ paths ∧ root.isFileAt path = true ∧ ∀ name ∈ between folder path, name ∉ ignored := by
  simp [filesAmong]

theorem nodup_filesAmong {paths : List Path} (h : paths.Nodup) : (root.filesAmong folder ignored paths).Nodup :=
  (List.mergeSort_perm _ _).nodup_iff.2 (h.filter _)

theorem pairwise_filesAmong {paths : List Path} (hnodup : paths.Nodup)
    (hanchor : ∀ path ∈ paths, path.anchor = folder.anchor) :
    (root.filesAmong folder ignored paths).Pairwise fun p q => p.parts < q.parts := by
  have hle : (root.filesAmong folder ignored paths).Pairwise fun p q => p.le q = true :=
    List.pairwise_mergeSort Path.le_trans Path.le_total _
  refine (hle.and (nodup_filesAmong hnodup)).imp_of_mem fun {p q} hp hq hpq => ?_
  have hsame : p.anchor = q.anchor :=
    (hanchor p (mem_filesAmong.1 hp).1).trans (hanchor q (mem_filesAmong.1 hq).1).symm
  exact Path.parts_lt_of_le hsame hpq.2 hpq.1

section

variable (htree : root.IsTree) (hbase : root.find? folder = some base) {found : Yield}
  (hfound : found.IsComplete base folder pattern)
include htree hbase hfound

/-- Where no match is refused, exactly what is looked for is kept. -/
theorem mem_filesAmong_iff_isFound (hasked : ∀ path, IsMatch base folder pattern path → ¬path.Refused)
    {path : Path} :
    path ∈ root.filesAmong folder ignored found.paths ↔ IsFound base folder pattern ignored path := by
  rw [mem_filesAmong, isFileAt_iff, hfound.mem_iff]
  constructor
  · rintro ⟨⟨names, name, sub, rfl, hsub, hname⟩, ⟨content, hfile⟩, hbetween⟩
    have hnames := (htree.of_find? hbase).1.ne_above hsub
    rw [between_extend] at hbetween
    exact ⟨names, name, content, rfl, descend?_of_find? htree hbase hnames hfile, hname, hbetween⟩
  · rintro ⟨names, name, content, rfl, hfile, hname, hbetween⟩
    have hmatch : IsMatch base folder pattern (folder.extend (names ++ [name])) :=
      ⟨names, name, _, rfl, hfile, hname⟩
    refine ⟨hmatch, ⟨content, find?_of_descend? htree hbase hfile (hasked _ hmatch)⟩, ?_⟩
    rwa [between_extend]

theorem keepFiles_of_refused (ignored : List String) {path : Path} (hpath : IsMatch base folder pattern path)
    (hrefused : path.Refused) :
    ∃ first, IsMatch base folder pattern first ∧ first.Refused ∧
      root.keepFiles folder ignored found = .error (.file (.nameTooLong first)) := by
  have hsome : (found.paths.find? root.isTooLong).isSome = true :=
    List.find?_isSome.2 ⟨path, (hfound.mem_iff path).2 hpath, (hpath.isTooLong_iff htree hbase).2 hrefused⟩
  obtain ⟨first, hfirst⟩ := Option.isSome_iff_exists.1 hsome
  refine ⟨first, ?_, refused_of_isTooLong (List.find?_some hfirst), ?_⟩
  · exact (hfound.mem_iff first).1 (List.mem_of_find?_eq_some hfirst)
  · rw [keepFiles, hfirst, Option.some_or]

theorem keepFiles_of_not_refused (ignored : List String)
    (hasked : ∀ path, IsMatch base folder pattern path → ¬path.Refused) :
    ∃ files, root.keepFiles folder ignored found = .ok files ∧
      (∀ path, path ∈ files ↔ IsFound base folder pattern ignored path) ∧
      files.Nodup ∧ files.Pairwise fun p q => p.parts < q.parts := by
  have hmatch : ∀ path ∈ found.paths, IsMatch base folder pattern path := fun path => (hfound.mem_iff path).1
  have hnone : found.paths.find? root.isTooLong = none :=
    List.find?_eq_none.2 fun path hpath hlong => hasked path (hmatch path hpath) (refused_of_isTooLong hlong)
  refine ⟨root.filesAmong folder ignored found.paths, ?_, fun path => ?_, ?_, ?_⟩
  · rw [keepFiles, hnone, hfound.failure, Option.or_none]
  · exact mem_filesAmong_iff_isFound htree hbase hfound hasked
  · exact nodup_filesAmong hfound.nodup
  · exact pairwise_filesAmong hfound.nodup fun path hpath => (hmatch path hpath).anchor

end

/-! ## What following a pattern yields -/

theorem mem_visits_folders (htree : base.IsTree)
    (hbase : root.find? folder = some base) {s : Step} {visit : Visit} :
    visit ∈ root.visits [.folders, s] folder ↔
      ∃ names items, base.descend? names = some (.folder items) ∧
        (visit ∈ root.visits [s] (folder.extend names) ∨ visit = .way (folder.extend names)) := by
  simp only [visits, hbase, Option.map_some, Option.getD_some, List.mem_flatMap, List.mem_append,
    List.mem_singleton, mem_folders htree]
  constructor
  · rintro ⟨path, ⟨names, items, hdescend, rfl⟩, hvisit⟩
    exact ⟨names, items, hdescend, hvisit⟩
  · rintro ⟨names, items, hdescend, hvisit⟩
    exact ⟨_, ⟨names, items, hdescend, rfl⟩, hvisit⟩

/-- A pattern without wildcards asks for one path, and any other for the items that it is for. -/
theorem mem_visits_nameStep {path : Path} {visit : Visit} :
    visit ∈ root.visits [nameStep pattern] path ↔
      isPlain pattern = true ∧ (visit = .way (path.child pattern) ∨
        visit = .stop (path.child pattern) ∧ (root.find? (path.child pattern)).isSome = true) ∨
      isPlain pattern = false ∧ (visit = .way path ∨
        ∃ item name sub, root.find? path = some item ∧ (name, sub) ∈ item.items ∧
          Matches (elements pattern.toList) name.toList ∧ visit = .stop (path.child name)) := by
  cases hplain : isPlain pattern with
  | true =>
    cases hfind : (root.find? (path.child pattern)).isSome <;> simp [nameStep, hplain, visits, hfind]
  | false =>
    cases hfind : root.find? path with
    | none => simp [nameStep, hplain, visits, hfind]
    | some item =>
      simp only [nameStep, hplain, visits, hfind, Bool.false_eq_true, if_false, Option.map_some, Option.getD_some,
        List.isEmpty_nil, Bool.true_or, Bool.true_and, fits_iff, List.mem_cons, List.mem_flatMap, List.mem_filter]
      grind

/-- The visits of a search for names. -/
def visitsFor (root : Item) (folder : Path) (pattern : String) : List Visit :=
  .way folder :: root.visits [.folders, nameStep pattern] folder

theorem mapError_parse (hpattern : IsNamePattern pattern) :
    (parse pattern).mapError DiscoveryError.pattern = .ok [.folders, nameStep pattern] := by
  rw [parse_of_isNamePattern hpattern]
  rfl

theorem discover_eq (hpattern : IsNamePattern pattern) (ignored : List String) :
    root.discover folder pattern ignored =
      root.keepFiles folder ignored (root.follow [.folders, nameStep pattern] folder) := by
  rw [discover, mapError_parse hpattern]
  rfl

theorem follow_eq (hthere : root.isFolderAt folder = true) :
    root.follow [.folders, nameStep pattern] folder =
      { paths := distinct (((root.visitsFor folder pattern).takeWhile (!·.fails root)).filterMap Visit.found?)
        failure := ((root.visitsFor folder pattern).find? (·.fails root)).map Visit.path } := by
  simp only [follow, hthere, if_true, visitsFor]

theorem mem_filterMap_found? {visits : List Visit} {path : Path} :
    path ∈ visits.filterMap Visit.found? ↔ .stop path ∈ visits := by
  rw [List.mem_filterMap]
  constructor
  · rintro ⟨_ | found, hvisit, hfound⟩
    · simp [Visit.found?] at hfound
    · exact Option.some.inj hfound ▸ hvisit
  · exact fun h => ⟨_, h, rfl⟩

section

variable (htree : root.IsTree) (hbase : root.find? folder = some base) (hfolder : base.isFolder = true)

include hbase hfolder in
theorem isFolderAt_of_find? : root.isFolderAt folder = true := by
  simp [isFolderAt, hbase, hfolder]

include htree hbase hfolder

theorem mem_visitsFor {visit : Visit} :
    visit ∈ root.visitsFor folder pattern ↔
      ∃ names items, base.descend? names = some (.folder items) ∧
        (visit ∈ root.visits [nameStep pattern] (folder.extend names) ∨ visit = .way (folder.extend names)) := by
  rw [visitsFor, List.mem_cons, mem_visits_folders (htree.of_find? hbase).1 hbase, or_iff_right_of_imp]
  rintro rfl
  cases base with
  | file content => simp [isFolder] at hfolder
  | folder items => exact ⟨[], items, rfl, .inr (by simp)⟩

theorem way_mem_visitsFor {path : Path} (h : IsOnTheWay base folder pattern path) :
    .way path ∈ root.visitsFor folder pattern := by
  cases h with
  | @folder names items h => exact (mem_visitsFor htree hbase hfolder).2 ⟨names, items, h, .inr rfl⟩
  | @named names items h hplain =>
    refine (mem_visitsFor htree hbase hfolder).2 ⟨names, items, h, .inl (mem_visits_nameStep.2 ?_)⟩
    exact .inl ⟨hplain, .inl (by rw [Path.child_extend])⟩

/-- A visit is on the way, or it is of a match. -/
theorem visitsFor_cases (hpattern : IsNamePattern pattern) {visit : Visit}
    (h : visit ∈ root.visitsFor folder pattern) :
    (∃ path, visit = .way path ∧ IsOnTheWay base folder pattern path) ∨
      ∃ path, visit = .stop path ∧ IsMatch base folder pattern path := by
  have hbasetree := (htree.of_find? hbase).1
  obtain ⟨names, items, hdescend, hvisit | rfl⟩ := (mem_visitsFor htree hbase hfolder).1 h
  · rw [mem_visits_nameStep, Path.child_extend] at hvisit
    obtain ⟨hplain, rfl | ⟨rfl, hthere⟩⟩ | ⟨-, rfl | ⟨item, name, sub, hitem, hmem, hname, rfl⟩⟩ := hvisit
    · exact .inl ⟨_, rfl, .named hdescend hplain⟩
    · obtain ⟨sub, hsub⟩ := Option.isSome_iff_exists.1 hthere
      have hdescend' := descend?_of_find? htree hbase (hbasetree.ne_above_concat hdescend hpattern) hsub
      exact .inr ⟨_, rfl, names, pattern, sub, rfl, hdescend', (matches_plain_iff hplain).2 rfl⟩
    · exact .inl ⟨_, rfl, .folder hdescend⟩
    · have hitems := (hbasetree.of_descend? hdescend).2
      have hagain := descend?_of_find? htree hbase (hbasetree.ne_above hdescend) hitem
      obtain rfl : item = .folder items := Option.some.inj (hagain.symm.trans hdescend)
      have hsub := descend?_concat_eq_some_iff.2 ⟨items, hdescend, hitems.child?_eq_some_iff.2 hmem⟩
      exact .inr ⟨_, rfl, names, name, sub, Path.child_extend folder names name, hsub, hname⟩
  · exact .inl ⟨_, rfl, .folder hdescend⟩

theorem isMatch_of_stop_mem (hpattern : IsNamePattern pattern) {path : Path}
    (h : .stop path ∈ root.visitsFor folder pattern) : IsMatch base folder pattern path := by
  obtain ⟨way, hvisit, -⟩ | ⟨path', hvisit, hmatch⟩ := visitsFor_cases htree hbase hfolder hpattern h
  · simp at hvisit
  · exact Visit.stop.inj hvisit ▸ hmatch

/-- What a visit fails at is on the way. -/
theorem isOnTheWay_of_fails (hpattern : IsNamePattern pattern) {visit : Visit}
    (h : visit ∈ root.visitsFor folder pattern) (hfails : visit.fails root = true) :
    IsOnTheWay base folder pattern visit.path ∧ visit.path.Refused := by
  obtain ⟨path, rfl, hpath⟩ | ⟨path, rfl, -⟩ := visitsFor_cases htree hbase hfolder hpattern h
  · exact ⟨hpath, refused_of_isTooLong hfails⟩
  · simp [Visit.fails] at hfails

/-- A match is visited where all that is on the way can be asked for. -/
theorem stop_mem_visitsFor {path : Path} (hmatch : IsMatch base folder pattern path)
    (hway : ∀ path, IsOnTheWay base folder pattern path → ¬path.Refused) :
    .stop path ∈ root.visitsFor folder pattern := by
  obtain ⟨names, name, sub, rfl, hsub, hname⟩ := hmatch
  obtain ⟨items, hdescend, hchild⟩ := descend?_concat_eq_some_iff.1 hsub
  refine (mem_visitsFor htree hbase hfolder).2 ⟨names, items, hdescend, .inl (mem_visits_nameStep.2 ?_)⟩
  cases hplain : isPlain pattern with
  | true =>
    obtain rfl := (matches_plain_iff hplain).1 hname
    refine .inl ⟨rfl, .inr ⟨by rw [Path.child_extend], ?_⟩⟩
    rw [Path.child_extend, find?_of_descend? htree hbase hsub (hway _ (.named hdescend hplain))]
    rfl
  | false =>
    have hitems := find?_of_descend? htree hbase hdescend (hway _ (.folder hdescend))
    exact .inr ⟨rfl, .inr ⟨_, name, sub, hitems, mem_of_child? hchild, hname, by rw [Path.child_extend]⟩⟩

theorem isComplete_follow (hpattern : IsNamePattern pattern)
    (hway : ∀ path, IsOnTheWay base folder pattern path → ¬path.Refused) :
    (root.follow [.folders, nameStep pattern] folder).IsComplete base folder pattern := by
  have hfails : ∀ visit ∈ root.visitsFor folder pattern, ¬visit.fails root = true := fun visit hvisit hfails =>
    have ⟨hpath, hrefused⟩ := isOnTheWay_of_fails htree hbase hfolder hpattern hvisit hfails
    hway _ hpath hrefused
  have hall : (root.visitsFor folder pattern).takeWhile (!·.fails root) = root.visitsFor folder pattern :=
    List.takeWhile_eq_self_iff.2 fun visit hvisit => by simpa using hfails visit hvisit
  rw [follow_eq (isFolderAt_of_find? hbase hfolder), hall, List.find?_eq_none.2 hfails]
  refine ⟨fun path => ?_, nodup_distinct _, rfl⟩
  rw [mem_distinct, mem_filterMap_found?]
  exact ⟨isMatch_of_stop_mem htree hbase hfolder hpattern,
    fun hmatch => stop_mem_visitsFor htree hbase hfolder hmatch hway⟩

/-- Where something on the way is refused, the search fails there or at a match before it. -/
theorem discover_of_refused (ignored : List String) (hpattern : IsNamePattern pattern) {path : Path}
    (hpath : IsOnTheWay base folder pattern path) (hrefused : path.Refused) :
    ∃ first, (IsOnTheWay base folder pattern first ∨ IsMatch base folder pattern first) ∧ first.Refused ∧
      root.discover folder pattern ignored = .error (.file (.nameTooLong first)) := by
  have hsome : ((root.visitsFor folder pattern).find? (·.fails root)).isSome = true :=
    List.find?_isSome.2 ⟨.way path, way_mem_visitsFor htree hbase hfolder hpath,
      (hpath.isTooLong_iff htree hbase hpattern).2 hrefused⟩
  obtain ⟨visit, hvisit⟩ := Option.isSome_iff_exists.1 hsome
  rw [discover_eq hpattern, follow_eq (isFolderAt_of_find? hbase hfolder), hvisit, keepFiles]
  cases hlong : (distinct (((root.visitsFor folder pattern).takeWhile (!·.fails root)).filterMap
      Visit.found?)).find? root.isTooLong with
  | some first =>
    have hfirst := mem_filterMap_found?.1 (mem_distinct.1 (List.mem_of_find?_eq_some hlong))
    have hmatch := isMatch_of_stop_mem htree hbase hfolder hpattern ((List.takeWhile_sublist _).mem hfirst)
    exact ⟨first, .inr hmatch, refused_of_isTooLong (List.find?_some hlong), rfl⟩
  | none =>
    obtain ⟨hfirst, hrefused⟩ := isOnTheWay_of_fails htree hbase hfolder hpattern
      (List.mem_of_find?_eq_some hvisit) (List.find?_some hvisit)
    exact ⟨visit.path, .inl hfirst, hrefused, rfl⟩

end

/-- **Exactly the files that are looked for are found, unless a match is too long to be asked for.**
A search keeps the files of what its pattern yields. Of all matches below a folder, in
whatever order, it keeps each file once that no ignored folder is on the way to, in the order
of the components of the paths, and what is in ignored folders may be anything else. But all
matches are asked for, also in ignored folders: where one of them is too long for that, the
search fails. The pattern yields all matches where nothing on the way is too long, and the
search fails as well where something is. -/
theorem discovered_files (ignored : List String) (htree : root.IsTree) (hbase : root.find? folder = some base)
    (hfolder : base.isFolder = true) (hpattern : IsNamePattern pattern) :
    (∃ steps, parse pattern = .ok steps ∧
      root.discover folder pattern ignored = root.keepFiles folder ignored (root.follow steps folder) ∧
      ((∀ path, IsOnTheWay base folder pattern path → ¬path.Refused) →
        (root.follow steps folder).IsComplete base folder pattern) ∧
      ((∃ path, IsOnTheWay base folder pattern path ∧ path.Refused) →
        ∃ path, (IsOnTheWay base folder pattern path ∨ IsMatch base folder pattern path) ∧ path.Refused ∧
          root.discover folder pattern ignored = .error (.file (.nameTooLong path)))) ∧
    ∀ found : Yield, found.IsComplete base folder pattern →
      ((∃ path, IsMatch base folder pattern path ∧ path.Refused) →
        ∃ path, IsMatch base folder pattern path ∧ path.Refused ∧
          root.keepFiles folder ignored found = .error (.file (.nameTooLong path))) ∧
      ((∀ path, IsMatch base folder pattern path → ¬path.Refused) →
        ∃ files, root.keepFiles folder ignored found = .ok files ∧
          (∀ path, path ∈ files ↔ IsFound base folder pattern ignored path) ∧
          files.Nodup ∧ (files.Pairwise fun p q => p.parts < q.parts) ∧
          ∀ (root' base' : Item) (found' : Yield), root'.IsTree → root'.find? folder = some base' →
            base'.prune ignored = base.prune ignored → found'.IsComplete base' folder pattern →
            (∀ path, IsMatch base' folder pattern path → ¬path.Refused) →
            root'.keepFiles folder ignored found' = .ok files) := by
  refine ⟨⟨_, parse_of_isNamePattern hpattern, discover_eq hpattern ignored,
    isComplete_follow htree hbase hfolder hpattern, ?_⟩, fun found hfound => ⟨?_, fun hasked => ?_⟩⟩
  · rintro ⟨path, hpath, hrefused⟩
    exact discover_of_refused htree hbase hfolder ignored hpattern hpath hrefused
  · rintro ⟨path, hpath, hrefused⟩
    exact keepFiles_of_refused htree hbase hfound ignored hpath hrefused
  · obtain ⟨files, hfiles, hmem, hnodup, hordered⟩ := keepFiles_of_not_refused htree hbase hfound ignored hasked
    refine ⟨files, hfiles, hmem, hnodup, hordered, fun root' base' found' htree' hbase' hprune hfound' hasked' => ?_⟩
    obtain ⟨files', hfiles', hmem', -, hordered'⟩ := keepFiles_of_not_refused htree' hbase' hfound' ignored hasked'
    have hsame : ∀ path, path ∈ files' ↔ path ∈ files := fun path => by
      rw [hmem', hmem, isFound_iff_of_prune_eq (htree.of_find? hbase).1 (htree'.of_find? hbase').1 hprune]
    rw [hfiles', Path.eq_of_pairwise_of_mem_iff hordered' hordered hsame]

end

/-! A folder whose path has an ignored name in it, with a folder that is named like a file,
ignored folders at two depths, and a file whose own name is ignored. -/

namespace Mixed

def text : Item := file ⟨[], none⟩

/-- What a build leaves in an ignored folder. -/
def built : List (String × Item) := [("c.cs", text)]

def sources (inner : List (String × Item)) : Item :=
  folder [("note.cs", text), ("a-b.cs", text), ("obj", folder inner), ("x.txt", text),
    ("a", folder [("obj", folder inner), ("lib.cs", folder [("e.cs", text)]), ("b.cs", text)])]

def root (inner : List (String × Item)) : Item :=
  folder [("obj", folder [("src", sources inner)])]

def path (names : List String) : Path :=
  ⟨.here, "obj" :: "src" :: names⟩

def found : List Path :=
  [path ["a", "b.cs"], path ["a", "lib.cs", "e.cs"], path ["a-b.cs"], path ["note.cs"]]

theorem isTree_built : IsTree (folder built) :=
  .cons (by simp) (by simp) (.file _) .empty

theorem isTree {inner : List (String × Item)} (h : IsTree (folder inner)) : (root inner).IsTree := by
  have hlib : IsTree (folder [("e.cs", text)]) := .cons (by simp) (by simp) (.file _) .empty
  have ha : IsTree (folder [("obj", folder inner), ("lib.cs", folder [("e.cs", text)]), ("b.cs", text)]) :=
    .cons (by simp) (by simp) h <| .cons (by simp) (by simp) hlib <|
    .cons (by simp) (by simp) (.file _) .empty
  have hsources : (sources inner).IsTree :=
    .cons (by simp) (by simp) (.file _) <| .cons (by simp) (by simp) (.file _) <|
    .cons (by simp) (by simp) h <| .cons (by simp) (by simp) (.file _) <|
    .cons (by simp) (by simp) ha .empty
  exact .cons (by simp) (by simp) (.cons (by simp) (by simp) hsources .empty) .empty

theorem find?_root (inner : List (String × Item)) : (root inner).find? (path []) = some (sources inner) := rfl

theorem isNamePattern : IsNamePattern "*.cs" :=
  ⟨by decide, by decide, by decide, by decide, by decide⟩

theorem not_refused {inner : List (String × Item)} (htree : IsTree (folder inner))
    (h : ∀ visit ∈ (root inner).visitsFor (path []) "*.cs", ¬visit.path.Refused) :
    (∀ p, IsOnTheWay (sources inner) (path []) "*.cs" p → ¬p.Refused) ∧
      ∀ p, IsMatch (sources inner) (path []) "*.cs" p → ¬p.Refused := by
  have hway : ∀ p, IsOnTheWay (sources inner) (path []) "*.cs" p → ¬p.Refused := fun p hp =>
    h _ (way_mem_visitsFor (isTree htree) (find?_root inner) rfl hp)
  exact ⟨hway, fun p hp => h _ (stop_mem_visitsFor (isTree htree) (find?_root inner) rfl hp hway)⟩

theorem not_refused_built :
    (∀ p, IsOnTheWay (sources built) (path []) "*.cs" p → ¬p.Refused) ∧
      ∀ p, IsMatch (sources built) (path []) "*.cs" p → ¬p.Refused :=
  not_refused isTree_built (by decide +kernel)

theorem isFound_iff (p : Path) :
    IsFound (sources built) (path []) "*.cs" ["obj", "note.cs"] p ↔ p ∈ found := by
  obtain ⟨hway, hmatch⟩ := not_refused_built
  have hcomplete := isComplete_follow (isTree isTree_built) (find?_root built) rfl isNamePattern hway
  rw [← mem_filesAmong_iff_isFound (isTree isTree_built) (find?_root built) hcomplete hmatch, filesAmong,
    List.mem_mergeSort]
  exact List.Perm.mem_iff (by decide +kernel)

theorem sources_found :
    (root built).IsTree ∧ (root built).find? (path []) = some (sources built) ∧ IsNamePattern "*.cs" ∧
      (root built).discover (path []) "*.cs" ["obj", "note.cs"] = .ok found ∧
      (root []).discover (path []) "*.cs" ["obj", "note.cs"] = .ok found := by
  obtain ⟨hway, hmatch⟩ := not_refused_built
  obtain ⟨hway', hmatch'⟩ := not_refused .empty (by decide +kernel)
  obtain ⟨⟨steps, -, hdiscover, hcomplete, -⟩, hkept⟩ :=
    discovered_files ["obj", "note.cs"] (isTree isTree_built) (find?_root built) rfl isNamePattern
  obtain ⟨⟨steps', -, hdiscover', hcomplete', -⟩, -⟩ :=
    discovered_files ["obj", "note.cs"] (isTree .empty) (find?_root []) rfl isNamePattern
  obtain ⟨files, hfiles, hmem, -, hordered, hsame⟩ := (hkept _ (hcomplete hway)).2 hmatch
  obtain rfl : files = found :=
    Path.eq_of_pairwise_of_mem_iff hordered (by decide +kernel) fun p => (hmem p).trans (isFound_iff p)
  refine ⟨isTree isTree_built, find?_root built, isNamePattern, hdiscover.trans hfiles, hdiscover'.trans ?_⟩
  exact hsame _ _ _ (isTree .empty) (find?_root []) rfl (hcomplete' hway') hmatch'

end Mixed

/-! A folder with a path so long that a file in an ignored folder cannot be asked for. -/

namespace Winding

open Mixed

def winding : Path := ⟨.here, (List.replicate 818 ["d", ".."]).flatten⟩

def tree (inner : List (String × Item)) : Item :=
  folder [("x.cs", text), ("d", empty), ("obj", folder inner)]

theorem isTree_tree {inner : List (String × Item)} (h : IsTree (folder inner)) : (tree inner).IsTree :=
  .cons (by simp) (by simp) (.file _) <| .cons (by simp) (by simp) .empty <|
  .cons (by simp) (by simp) h .empty

theorem fits_names :
    fits (elements "*.cs".toList) "x.cs".toList = true ∧ fits (elements "*.cs".toList) "c.cs".toList = true ∧
      fits (elements "*.cs".toList) "d".toList = false ∧ fits (elements "*.cs".toList) "obj".toList = false := by
  decide +kernel

theorem size_winding : winding.toString.utf8ByteSize = 4089 := by
  decide +kernel

theorem find?_winding (inner : List (String × Item)) : (tree inner).find? winding = some (tree inner) := by
  have hsteps (n : Nat) : (List.replicate n ["d", ".."]).flatten.foldlM Place.step (Place.top (tree inner)) =
      .ok (Place.top (tree inner)) := by
    induction n with
    | zero => rfl
    | succ n ih => exact ih
  exact find?_eq_some_iff.2 ⟨_, locate_eq_ok_iff.2 ⟨by rw [size_winding]; decide, hsteps 818⟩, rfl⟩

theorem not_exceeds_winding : ¬winding.Exceeds :=
  ((isTree_tree .empty).of_find? (find?_winding [])).2.1

theorem not_exceeds_child {name : String} (hname : name.utf8ByteSize ≤ 5) : ¬(winding.child name).Exceeds := by
  rw [Path.exceeds_child_iff (List.cons_ne_nil "d" _) not_exceeds_winding, size_winding]
  simp only [pathLimit, nameLimit]
  omega

theorem refused_built : (winding.extend ["obj", "c.cs"]).Refused := by
  refine ⟨?_, hasZero_of_descend? (isTree_tree isTree_built) (find?_winding built) rfl⟩
  have hchild : winding.extend ["obj", "c.cs"] = (winding.child "obj").child "c.cs" :=
    (Path.child_extend winding ["obj"] "c.cs").symm
  have hsize : (winding.child "obj").toString.utf8ByteSize = 4093 := by
    rw [Path.toString_child (List.cons_ne_nil "d" _), String.utf8ByteSize_append, String.utf8ByteSize_append,
      size_winding]
    rfl
  rw [hchild, Path.exceeds_child_iff (List.cons_ne_nil "d" _) (not_exceeds_child (by decide)), hsize]
  decide

theorem eq_nil_of_descend? {item sub : Item} {names : List String} (hleaf : item.items = [])
    (h : item.descend? names = some sub) : names = [] ∧ sub = item := by
  cases names with
  | nil => exact ⟨rfl, (Option.some.inj h).symm⟩
  | cons name names =>
    obtain ⟨next, hchild, -⟩ := Option.bind_eq_some_iff.1 h
    have hmem := mem_of_child? hchild
    simp [hleaf] at hmem

/-- What there is in the folder, and what there is in `obj` as well. -/
theorem descend?_tree_cases {inner : List (String × Item)} {names : List String} {sub : Item}
    (h : (tree inner).descend? names = some sub) :
    names = [] ∨ names = ["x.cs"] ∧ sub = text ∨ names = ["d"] ∧ sub = empty ∨
      ∃ rest, names = "obj" :: rest ∧ (folder inner).descend? rest = some sub := by
  cases names with
  | nil => exact .inl rfl
  | cons name rest =>
    obtain ⟨next, hchild, hnext⟩ := Option.bind_eq_some_iff.1 h
    have hmem := mem_of_child? hchild
    simp only [tree, items, List.mem_cons, Prod.mk.injEq, List.not_mem_nil, or_false] at hmem
    obtain ⟨rfl, rfl⟩ | ⟨rfl, rfl⟩ | ⟨rfl, rfl⟩ := hmem
    · obtain ⟨rfl, rfl⟩ := eq_nil_of_descend? rfl hnext
      exact .inr (.inl ⟨rfl, rfl⟩)
    · obtain ⟨rfl, rfl⟩ := eq_nil_of_descend? rfl hnext
      exact .inr (.inr (.inl ⟨rfl, rfl⟩))
    · exact .inr (.inr (.inr ⟨rest, rfl, hnext⟩))

theorem descend?_inner_cases {inner : List (String × Item)} (hinner : inner = built ∨ inner = [])
    {names : List String} {sub : Item} (h : (folder inner).descend? names = some sub) :
    names = [] ∨ inner = built ∧ names = ["c.cs"] ∧ sub = text := by
  cases names with
  | nil => exact .inl rfl
  | cons name rest =>
    obtain ⟨next, hchild, hnext⟩ := Option.bind_eq_some_iff.1 h
    have hmem := mem_of_child? hchild
    obtain rfl | rfl := hinner
    · simp only [built, items, List.mem_singleton, Prod.mk.injEq] at hmem
      obtain ⟨rfl, rfl⟩ := hmem
      obtain ⟨rfl, rfl⟩ := eq_nil_of_descend? rfl hnext
      exact .inr ⟨rfl, rfl, rfl⟩
    · simp [items] at hmem

section

variable {inner : List (String × Item)} (hinner : inner = built ∨ inner = [])
include hinner

/-- All folders can be asked for. -/
theorem not_refused_of_isOnTheWay (path : Path) (h : IsOnTheWay (tree inner) winding "*.cs" path) :
    ¬path.Refused := by
  rintro ⟨hlimits, -⟩
  cases h with
  | named _ hplain => exact absurd hplain (by decide)
  | folder h =>
    obtain rfl | ⟨rfl, -⟩ | ⟨rfl, -⟩ | ⟨rest, rfl, hrest⟩ := descend?_tree_cases h
    · exact not_exceeds_winding (Path.extend_nil winding ▸ hlimits)
    · exact not_exceeds_child (by decide) hlimits
    · exact not_exceeds_child (by decide) hlimits
    · obtain rfl | ⟨-, -, hfile⟩ := descend?_inner_cases hinner hrest
      · exact not_exceeds_child (by decide) hlimits
      · simp [text] at hfile

theorem isMatch_cases {path : Path} (h : IsMatch (tree inner) winding "*.cs" path) :
    path = winding.extend ["x.cs"] ∨ inner = built ∧ path = winding.extend ["obj", "c.cs"] := by
  obtain ⟨names, name, sub, rfl, hsub, hname⟩ := h
  have hends : ∀ other, fits (elements "*.cs".toList) other.toList = false → names ++ [name] ≠ [other] := by
    rintro other hother hnames
    obtain rfl : name = other := by simpa using congrArg List.getLast? hnames
    exact Bool.false_ne_true (hother.symm.trans (fits_iff.2 hname))
  obtain hnil | ⟨hnames, -⟩ | ⟨hnames, -⟩ | ⟨rest, hnames, hrest⟩ := descend?_tree_cases hsub
  · simp at hnil
  · exact .inl (by rw [hnames])
  · exact absurd hnames (hends "d" fits_names.2.2.1)
  · obtain rfl | ⟨hbuilt, rfl, -⟩ := descend?_inner_cases hinner hrest
    · exact absurd hnames (hends "obj" fits_names.2.2.2)
    · exact .inr ⟨hbuilt, by rw [hnames]⟩

end

theorem not_refused_source : ¬(winding.extend ["x.cs"]).Refused := fun hrefused =>
  not_exceeds_child (by decide) hrefused.1

theorem eq_of_isMatch {path : Path} (h : IsMatch (tree []) winding "*.cs" path) : path = winding.extend ["x.cs"] :=
  (isMatch_cases (.inr rfl) h).resolve_right fun ⟨hbuilt, _⟩ => by simp [built] at hbuilt

theorem isFound_tree_iff (path : Path) :
    IsFound (tree []) winding "*.cs" ["obj"] path ↔ path ∈ [winding.extend ["x.cs"]] := by
  rw [List.mem_singleton]
  constructor
  · rintro ⟨names, name, content, rfl, hfile, hname, -⟩
    exact eq_of_isMatch ⟨names, name, _, rfl, hfile, hname⟩
  · rintro rfl
    exact ⟨[], "x.cs", _, rfl, rfl, fits_iff.1 fits_names.1, by simp⟩

/-- A file in an ignored folder ends a search that finds a file without it, though the
pattern yields all matches. -/
theorem ignored_file_ends_search :
    (tree built).IsTree ∧ (tree built).find? winding = some (tree built) ∧ IsNamePattern "*.cs" ∧
      (∃ steps, parse "*.cs" = .ok steps ∧
        ((tree built).follow steps winding).IsComplete (tree built) winding "*.cs") ∧
      IsFound (tree built) winding "*.cs" ["obj"] (winding.extend ["x.cs"]) ∧
      (tree built).discover winding "*.cs" ["obj"] =
        .error (.file (.nameTooLong (winding.extend ["obj", "c.cs"]))) ∧
      (tree []).discover winding "*.cs" ["obj"] = .ok [winding.extend ["x.cs"]] := by
  have htree := isTree_tree isTree_built
  have hprune : (tree built).prune ["obj"] = (tree []).prune ["obj"] := rfl
  have hcomplete := isComplete_follow htree (find?_winding built) rfl isNamePattern
    (not_refused_of_isOnTheWay (.inl rfl))
  have hcomplete' := isComplete_follow (isTree_tree .empty) (find?_winding []) rfl isNamePattern
    (not_refused_of_isOnTheWay (.inr rfl))
  refine ⟨htree, find?_winding built, isNamePattern, ⟨_, parse_of_isNamePattern isNamePattern, hcomplete⟩, ?_, ?_, ?_⟩
  · rw [isFound_iff_of_prune_eq (isTree_tree .empty) htree hprune, isFound_tree_iff]
    exact List.mem_singleton_self _
  · have hmatch : IsMatch (tree built) winding "*.cs" (winding.extend ["obj", "c.cs"]) :=
      ⟨["obj"], "c.cs", text, rfl, rfl, fits_iff.1 fits_names.2.1⟩
    obtain ⟨path, hpath, hrefused, herror⟩ :=
      keepFiles_of_refused htree (find?_winding built) hcomplete ["obj"] hmatch refused_built
    obtain rfl | ⟨-, rfl⟩ := isMatch_cases (.inl rfl) hpath
    · exact absurd hrefused not_refused_source
    · exact (discover_eq isNamePattern ["obj"]).trans herror
  · have hasked : ∀ path, IsMatch (tree []) winding "*.cs" path → ¬path.Refused := fun path hmatch hrefused =>
      not_refused_source (eq_of_isMatch hmatch ▸ hrefused)
    obtain ⟨files, hfiles, hmem, -, hordered⟩ :=
      keepFiles_of_not_refused (isTree_tree .empty) (find?_winding []) hcomplete' ["obj"] hasked
    rw [discover_eq isNamePattern, hfiles,
      Path.eq_of_pairwise_of_mem_iff hordered (List.pairwise_singleton _ _) fun path =>
        (hmem path).trans (isFound_tree_iff path)]

end Winding

end Item

end CommandTrace
