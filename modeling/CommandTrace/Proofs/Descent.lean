/-
What there is below a folder.

`descend?` goes down by names alone. As long as no limit is passed, looking up
the path is the same (`find?_extend`); a path that passes one is refused where
folders lead up to its last name (`locate_of_exceeds`), and nothing else is
(`exceeds_of_locate`). `folders` lists the folders that `descend?` reaches
(`mem_folders`).

`prune` takes folders of some names away. It keeps the files that are reached
through other folders (`descend?_prune`).
-/
import CommandTrace.Proofs.Line
import CommandTrace.Workspace

namespace CommandTrace

namespace Path

/-- The path some components further down. -/
def extend (p : Path) (names : List String) : Path :=
  { p with parts := p.parts ++ names }

@[simp]
theorem extend_nil (p : Path) : p.extend [] = p := by
  simp [extend]

@[simp]
theorem child_extend (p : Path) (names : List String) (name : String) :
    (p.extend names).child name = p.extend (names ++ [name]) := by
  simp [extend, child]

@[simp]
theorem extend_child (p : Path) (names : List String) (name : String) :
    (p.child name).extend names = p.extend (name :: names) := by
  simp [extend, child]

/-- The path or a name in it has more bytes than there may be. -/
def Exceeds (p : Path) : Prop :=
  pathLimit < p.toString.utf8ByteSize ∨ ∃ name ∈ p.parts, nameLimit < name.utf8ByteSize

instance (p : Path) : Decidable p.Exceeds :=
  inferInstanceAs (Decidable (_ ∨ _))

/-- The path is one that it fails to ask for. -/
def Refused (p : Path) : Prop :=
  p.Exceeds ∧ p.hasZero = false

instance (p : Path) : Decidable p.Refused :=
  inferInstanceAs (Decidable (_ ∧ _))

theorem toString_child {p : Path} (h : p.parts ≠ []) (name : String) :
    (p.child name).toString = p.toString ++ "/" ++ name := by
  rw [Path.toString, if_neg (by simp [child]), Path.toString, if_neg (by simp [h]), child,
    joinWith_append_singleton _ _ h]
  simp only [String.append_assoc]

/-- One more name passes a limit by its own length, or by that of the path. -/
theorem exceeds_child_iff {p : Path} {name : String} (hparts : p.parts ≠ []) (h : ¬p.Exceeds) :
    (p.child name).Exceeds ↔
      pathLimit < p.toString.utf8ByteSize + 1 + name.utf8ByteSize ∨ nameLimit < name.utf8ByteSize := by
  have hsize : (p.child name).toString.utf8ByteSize = p.toString.utf8ByteSize + 1 + name.utf8ByteSize := by
    rw [toString_child hparts, String.utf8ByteSize_append, String.utf8ByteSize_append]
    rfl
  have hname : (∃ part ∈ (p.child name).parts, nameLimit < part.utf8ByteSize) ↔ nameLimit < name.utf8ByteSize := by
    constructor
    · rintro ⟨part, hpart, hlong⟩
      rcases List.mem_append.1 hpart with hpart | hpart
      · exact absurd (.inr ⟨part, hpart, hlong⟩) h
      · exact List.mem_singleton.1 hpart ▸ hlong
    · exact fun hlong => ⟨name, by simp [child], hlong⟩
  rw [Exceeds, hsize, hname]

theorem hasZero_eq_false {p : Path} (h : ∀ name ∈ p.parts, '\x00' ∉ name.toList) : p.hasZero = false := by
  have hanchor : '\x00' ∉ p.anchor.toString.toList := by
    cases p.anchor <;> decide +kernel
  have hparts : '\x00' ∉ (joinWith "/" p.parts).toList := fun hzero =>
    (mem_joinWith hzero).elim (by decide +kernel) fun ⟨name, hname, hc⟩ => h name hname hc
  rw [hasZero, Path.toString]
  split
  · decide +kernel
  · simp [String.toList_append, hanchor, hparts]

end Path

namespace Item

/-! ## Trees -/

/-- The item that some names lead to, from folder to folder. -/
def descend? : Item → List String → Option Item
  | item, [] => some item
  | item, name :: names => (item.child? name).bind (descend? · names)

/-- Names in a folder differ. None is the one of the folder above, and none
has the character zero in it. -/
inductive IsTree : Item → Prop
  | file (content : SourceFile) : IsTree (.file content)
  | folder {items : List (String × Item)} (distinct : (items.map Prod.fst).Nodup)
    (names : ∀ entry ∈ items, entry.1 ≠ ".." ∧ '\x00' ∉ entry.1.toList) (below : ∀ entry ∈ items, IsTree entry.2) :
    IsTree (.folder items)

theorem IsTree.empty : IsTree .empty :=
  .folder (by simp) (by simp) (by simp)

theorem IsTree.cons {name : String} {item : Item} {items : List (String × Item)}
    (hname : name ≠ ".." ∧ '\x00' ∉ name.toList) (hnew : name ∉ items.map Prod.fst) (hitem : item.IsTree)
    (h : IsTree (.folder items)) : IsTree (.folder ((name, item) :: items)) := by
  cases h with
  | folder distinct names below =>
    refine .folder ?_ (List.forall_mem_cons.2 ⟨hname, names⟩) (List.forall_mem_cons.2 ⟨hitem, below⟩)
    exact List.nodup_cons.2 ⟨hnew, distinct⟩

@[simp]
theorem descend?_nil (item : Item) : item.descend? [] = some item := rfl

theorem descend?_cons (item : Item) (name : String) (names : List String) :
    item.descend? (name :: names) = (item.child? name).bind (descend? · names) := rfl

theorem descend?_append (item : Item) (names names' : List String) :
    item.descend? (names ++ names') = (item.descend? names).bind (descend? · names') := by
  induction names generalizing item with
  | nil => rfl
  | cons name names ih => simp [descend?_cons, ih, Option.bind_assoc]

theorem child?_file (content : SourceFile) (name : String) : (file content).child? name = none := rfl

theorem mem_of_child? {item sub : Item} {name : String} (h : item.child? name = some sub) :
    (name, sub) ∈ item.items := by
  obtain ⟨⟨name', sub'⟩, hfind, rfl⟩ := Option.map_eq_some_iff.1 h
  obtain rfl : name' = name := by simpa using List.find?_some hfind
  exact List.mem_of_find?_eq_some hfind

theorem child?_of_mem {items : List (String × Item)} (hdistinct : (items.map Prod.fst).Nodup) {name : String}
    {sub : Item} (h : (name, sub) ∈ items) : (folder items).child? name = some sub := by
  rw [child?, Item.items]
  induction items with
  | nil => simp at h
  | cons entry items ih =>
    rw [List.map_cons, List.nodup_cons] at hdistinct
    rcases List.mem_cons.1 h with rfl | h
    · simp
    · have hne : entry.1 ≠ name := fun he => hdistinct.1 (he ▸ List.mem_map_of_mem h)
      rw [List.find?_cons_of_neg (by simpa using hne)]
      exact ih hdistinct.2 h

theorem IsTree.child?_eq_some_iff {item sub : Item} {name : String} (h : item.IsTree) :
    item.child? name = some sub ↔ (name, sub) ∈ item.items := by
  refine ⟨mem_of_child?, fun hmem => ?_⟩
  cases h with
  | file content => simp [items] at hmem
  | folder distinct _ _ => exact child?_of_mem distinct hmem

theorem exists_folder_of_child? {item sub : Item} {name : String} (h : item.child? name = some sub) :
    ∃ items, item = folder items := by
  cases item with
  | file content => simp [child?_file] at h
  | folder items => exact ⟨items, rfl⟩

/-- The last name is one in a folder. -/
theorem descend?_concat_eq_some_iff {item sub : Item} {names : List String} {name : String} :
    item.descend? (names ++ [name]) = some sub ↔
      ∃ items, item.descend? names = some (folder items) ∧ (folder items).child? name = some sub := by
  rw [descend?_append, Option.bind_eq_some_iff]
  constructor
  · rintro ⟨parent, hparent, hsub⟩
    have hchild : parent.child? name = some sub := by simpa [descend?_cons] using hsub
    obtain ⟨items, rfl⟩ := exists_folder_of_child? hchild
    exact ⟨items, hparent, hchild⟩
  · rintro ⟨items, hparent, hchild⟩
    exact ⟨folder items, hparent, by simp [descend?_cons, hchild]⟩

/-- A name that leads somewhere is no way up and has no zero in it. -/
theorem IsTree.of_child? {item sub : Item} {name : String} (h : item.IsTree) (hchild : item.child? name = some sub) :
    (name ≠ ".." ∧ '\x00' ∉ name.toList) ∧ sub.IsTree := by
  have hmem := mem_of_child? hchild
  cases h with
  | file content => simp [child?_file] at hchild
  | folder _ names below => exact ⟨names _ hmem, below _ hmem⟩

theorem IsTree.of_descend? {item sub : Item} {names : List String} (h : item.IsTree)
    (hdescend : item.descend? names = some sub) :
    (∀ name ∈ names, name ≠ ".." ∧ '\x00' ∉ name.toList) ∧ sub.IsTree := by
  induction names generalizing item with
  | nil => exact ⟨by simp, Option.some.inj hdescend ▸ h⟩
  | cons name names ih =>
    obtain ⟨next, hchild, hnext⟩ := Option.bind_eq_some_iff.1 hdescend
    obtain ⟨hname, htree⟩ := h.of_child? hchild
    obtain ⟨hnames, hsub⟩ := ih htree hnext
    exact ⟨List.forall_mem_cons.2 ⟨hname, hnames⟩, hsub⟩

theorem IsTree.ne_above {item sub : Item} {names : List String} (h : item.IsTree)
    (hdescend : item.descend? names = some sub) : ∀ name ∈ names, name ≠ ".." := fun name hname =>
  ((h.of_descend? hdescend).1 name hname).1

/-! ## Folders below a folder -/

theorem mem_foldersIn {path p : Path} {items : List (String × Item)} :
    p ∈ folders.foldersIn path items ↔ ∃ entry ∈ items, p ∈ folders (path.child entry.1) entry.2 := by
  induction items with
  | nil => simp [folders.foldersIn]
  | cons entry items ih => simp [folders.foldersIn, ih]

theorem mem_folders {path p : Path} {item : Item} (h : item.IsTree) :
    p ∈ folders path item ↔ ∃ names items, item.descend? names = some (folder items) ∧ p = path.extend names := by
  induction h generalizing path with
  | file content =>
    refine ⟨fun h => by simp [folders] at h, fun ⟨names, items, hdescend, _⟩ => ?_⟩
    cases names <;> simp [descend?_cons, child?_file] at hdescend
  | @folder items distinct _ below ih =>
    rw [folders, List.mem_cons, mem_foldersIn]
    constructor
    · rintro (rfl | ⟨⟨name, sub⟩, hmem, hp⟩)
      · exact ⟨[], items, rfl, by simp⟩
      · obtain ⟨names, items', hdescend, rfl⟩ := (ih _ hmem).1 hp
        exact ⟨name :: names, items', by simpa [descend?_cons, child?_of_mem distinct hmem] using hdescend, by simp⟩
    · rintro ⟨names, items', hdescend, rfl⟩
      cases names with
      | nil => simp
      | cons name names =>
        obtain ⟨sub, hchild, hsub⟩ := Option.bind_eq_some_iff.1 hdescend
        have hmem := mem_of_child? hchild
        exact .inr ⟨(name, sub), hmem, (ih _ hmem).2 ⟨names, items', hsub, by simp⟩⟩

/-- Folders lead up to the last of the names. -/
inductive LeadsTo : Item → List String → Prop
  | here (item : Item) : LeadsTo item []
  | entry (items : List (String × Item)) (name : String) : LeadsTo (.folder items) [name]
  | into {item sub : Item} {name : String} {names : List String} (hchild : item.child? name = some sub)
    (h : LeadsTo sub names) : LeadsTo item (name :: names)

theorem leadsTo_of_descend? {item sub : Item} {names : List String} (h : item.descend? names = some sub) :
    item.LeadsTo names := by
  induction names generalizing item with
  | nil => exact .here item
  | cons name names ih =>
    obtain ⟨next, hchild, hnext⟩ := Option.bind_eq_some_iff.1 h
    exact .into hchild (ih hnext)

theorem leadsTo_concat {item : Item} {items : List (String × Item)} {names : List String}
    (h : item.descend? names = some (folder items)) (name : String) : item.LeadsTo (names ++ [name]) := by
  induction names generalizing item with
  | nil => exact Option.some.inj h ▸ .entry items name
  | cons next names ih =>
    obtain ⟨sub, hchild, hsub⟩ := Option.bind_eq_some_iff.1 h
    exact .into hchild (ih hsub)

end Item

/-! ## Places -/

namespace Place

/-- All that a place knows of is a tree. -/
structure IsSound (p : Place) : Prop where
  item : p.item.IsTree
  above : ∀ entry ∈ p.above, entry.2.IsTree

theorem isSound_outside (parts : List String) : (outside parts).IsSound :=
  ⟨.empty, by simp [outside]⟩

/-- A step goes up, or to an item of the folder under a name that is short enough. -/
theorem step_cases {p p' : Place} {name : String} (h : p.step name = .ok p') :
    name = ".." ∧ (p' = outside (p.parts ++ [name]) ∨
      ∃ entry above, p.above = entry :: above ∧ p' = ⟨entry.1, entry.2, above⟩) ∨
    name.utf8ByteSize ≤ nameLimit ∧
      ∃ sub, p.item.child? name = some sub ∧ p' = ⟨p.parts ++ [name], sub, (p.parts, p.item) :: p.above⟩ := by
  rw [step] at h
  split at h
  · split at h
    · rename_i hname
      refine .inl ⟨hname, ?_⟩
      split at h
      · exact .inl (Except.ok.inj h).symm
      · rename_i entries parts item above habove
        exact .inr ⟨(parts, item), above, habove, (Except.ok.inj h).symm⟩
    · split at h
      · simp at h
      · rename_i hshort
        refine .inr ⟨Nat.not_lt.1 hshort, ?_⟩
        split at h
        · simp at h
        · rename_i sub hchild
          exact ⟨sub, hchild, (Except.ok.inj h).symm⟩
  · simp at h

theorem IsSound.step {p p' : Place} {name : String} (hp : p.IsSound) (h : p.step name = .ok p') :
    p'.IsSound ∧ name.utf8ByteSize ≤ nameLimit ∧ '\x00' ∉ name.toList := by
  obtain ⟨rfl, rfl | ⟨entry, above, habove, rfl⟩⟩ | ⟨hshort, sub, hchild, rfl⟩ := step_cases h
  · exact ⟨isSound_outside _, by decide +kernel, by decide +kernel⟩
  · have hmem : ∀ other ∈ entry :: above, other.2.IsTree := habove ▸ hp.above
    exact ⟨⟨hmem _ (by simp), fun other hother => hmem other (by simp [hother])⟩, by decide +kernel, by decide +kernel⟩
  · obtain ⟨hname, hsub⟩ := hp.item.of_child? hchild
    exact ⟨⟨hsub, List.forall_mem_cons.2 ⟨hp.item, hp.above⟩⟩, hshort, hname.2⟩

theorem IsSound.foldlM {p p' : Place} {names : List String} (hp : p.IsSound)
    (h : names.foldlM Place.step p = .ok p') :
    p'.IsSound ∧ ∀ name ∈ names, name.utf8ByteSize ≤ nameLimit ∧ '\x00' ∉ name.toList := by
  induction names generalizing p with
  | nil => exact ⟨Except.ok.inj h ▸ hp, by simp⟩
  | cons name names ih =>
    rw [List.foldlM_cons] at h
    cases hstep : p.step name with
    | error error => simp [hstep, bind, Except.bind] at h
    | ok next =>
      rw [hstep] at h
      obtain ⟨hnext, hname⟩ := hp.step hstep
      obtain ⟨hp', hnames⟩ := ih hnext h
      exact ⟨hp', List.forall_mem_cons.2 ⟨hname, hnames⟩⟩

/-- Only a name can be too long for a step. -/
theorem long_of_foldlM {p : Place} {names : List String} (h : names.foldlM Place.step p = .error .tooLong) :
    ∃ name ∈ names, nameLimit < name.utf8ByteSize := by
  induction names generalizing p with
  | nil => simp [pure, Except.pure] at h
  | cons name names ih =>
    rw [List.foldlM_cons] at h
    cases hstep : p.step name with
    | ok next =>
      rw [hstep] at h
      obtain ⟨other, hother, hlong⟩ := ih h
      exact ⟨other, List.mem_cons_of_mem name hother, hlong⟩
    | error error =>
      rw [hstep] at h
      obtain rfl : error = .tooLong := Except.error.inj h
      refine ⟨name, by simp, ?_⟩
      rw [step] at hstep
      split at hstep
      · split at hstep
        · split at hstep <;> simp at hstep
        · split at hstep
          · assumption
          · split at hstep <;> simp at hstep
      · simp at hstep

theorem step_of_child? {p : Place} {name : String} {sub : Item} (hname : name ≠ "..")
    (hshort : name.utf8ByteSize ≤ nameLimit) (hchild : p.item.child? name = some sub) :
    p.step name = .ok ⟨p.parts ++ [name], sub, (p.parts, p.item) :: p.above⟩ := by
  obtain ⟨items, hitem⟩ := Item.exists_folder_of_child? hchild
  have hfolder : p.item.isFolder = true := hitem ▸ rfl
  rw [step, if_pos hfolder, if_neg hname, if_neg (Nat.not_lt.2 hshort), hchild]

theorem step_of_long {p : Place} {name : String} {items : List (String × Item)} (hitem : p.item = .folder items)
    (hname : name ≠ "..") (hlong : nameLimit < name.utf8ByteSize) : p.step name = .error .tooLong := by
  simp [step, hitem, Item.isFolder, hname, hlong]

/-- With short names the steps lead to what the names lead to. -/
theorem foldlM_of_short {p : Place} {names : List String} (hnames : ∀ name ∈ names, name ≠ "..")
    (hshort : ∀ name ∈ names, name.utf8ByteSize ≤ nameLimit) :
    (names.foldlM Place.step p).toOption.map Place.item = p.item.descend? names := by
  induction names generalizing p with
  | nil => rfl
  | cons name names ih =>
    rw [List.forall_mem_cons] at hnames hshort
    rw [List.foldlM_cons, Item.descend?_cons]
    cases hchild : p.item.child? name with
    | some sub =>
      rw [step_of_child? hnames.1 hshort.1 hchild]
      exact ih hnames.2 hshort.2
    | none =>
      cases hstep : p.step name with
      | error error => rfl
      | ok next =>
        obtain ⟨hup, _⟩ | ⟨_, sub, hsub, _⟩ := step_cases hstep
        · exact absurd hup hnames.1
        · simp [hchild] at hsub

theorem foldlM_of_long {p : Place} {names : List String} (hleads : p.item.LeadsTo names)
    (hnames : ∀ name ∈ names, name ≠ "..") (hlong : ∃ name ∈ names, nameLimit < name.utf8ByteSize) :
    names.foldlM Place.step p = .error .tooLong := by
  generalize hitem : p.item = item at hleads
  induction hleads generalizing p with
  | here item => simp at hlong
  | entry items name =>
    simp only [List.mem_singleton, exists_eq_left] at hlong
    rw [List.foldlM_cons, step_of_long hitem (hnames name (by simp)) hlong]
    rfl
  | @into item sub name names hchild _ ih =>
    subst hitem
    rw [List.forall_mem_cons] at hnames
    rw [List.foldlM_cons]
    by_cases hname : nameLimit < name.utf8ByteSize
    · obtain ⟨items, hitem⟩ := Item.exists_folder_of_child? hchild
      rw [step_of_long hitem hnames.1 hname]
      rfl
    · rw [step_of_child? hnames.1 (Nat.not_lt.1 hname) hchild]
      refine ih hnames.2 ?_ rfl
      simpa [hname] using hlong

end Place

namespace Item

/-- Where a path starts. -/
def startOf (root : Item) (path : Path) : Place :=
  if path.isAbsolute then Place.outside [""] else Place.top root

theorem isSound_startOf {root : Item} (h : root.IsTree) (path : Path) : (root.startOf path).IsSound := by
  rw [startOf]
  split
  · exact Place.isSound_outside _
  · exact ⟨h, by simp [Place.top]⟩

theorem locate_of_le {root : Item} {path : Path} (h : path.toString.utf8ByteSize ≤ pathLimit) :
    root.locate path = (path.parts.foldlM Place.step (root.startOf path)).mapError (·.toFileError path) :=
  if_neg (Nat.not_lt.2 h)

theorem locate_eq_ok_iff {root : Item} {path : Path} {place : Place} :
    root.locate path = .ok place ↔
      path.toString.utf8ByteSize ≤ pathLimit ∧ path.parts.foldlM Place.step (root.startOf path) = .ok place := by
  by_cases hsize : pathLimit < path.toString.utf8ByteSize
  · simp [locate, hsize, Nat.not_le.2 hsize]
  · rw [locate_of_le (Nat.not_lt.1 hsize)]
    cases path.parts.foldlM Place.step (root.startOf path) with
    | ok place' =>
      refine ⟨fun h => ⟨Nat.not_lt.1 hsize, ?_⟩, fun h => ?_⟩
      · rw [Except.ok.inj h]
      · rw [Except.ok.inj h.2]
        rfl
    | error error => exact ⟨nofun, nofun⟩

theorem find?_eq_some_iff {root item : Item} {path : Path} :
    root.find? path = some item ↔ ∃ place, root.locate path = .ok place ∧ place.item = item := by
  rw [find?]
  cases root.locate path <;> simp

/-- What is found is a tree again, at a path that passes no limit. -/
theorem IsTree.of_find? {root item : Item} {path : Path} (h : root.IsTree) (hfind : root.find? path = some item) :
    item.IsTree ∧ ¬path.Exceeds ∧ ∀ name ∈ path.parts, '\x00' ∉ name.toList := by
  obtain ⟨place, hlocate, rfl⟩ := find?_eq_some_iff.1 hfind
  obtain ⟨hsize, hsteps⟩ := locate_eq_ok_iff.1 hlocate
  obtain ⟨hplace, hnames⟩ := (isSound_startOf h path).foldlM hsteps
  refine ⟨hplace.item, ?_, fun name hname => (hnames name hname).2⟩
  rintro (hlong | ⟨name, hname, hlong⟩)
  · exact Nat.not_lt.2 hsize hlong
  · exact Nat.not_lt.2 (hnames name hname).1 hlong

theorem exceeds_of_locate {root : Item} {path path' : Path} (h : root.locate path = .error (.nameTooLong path')) :
    path.Exceeds := by
  by_cases hsize : pathLimit < path.toString.utf8ByteSize
  · exact .inl hsize
  · rw [locate_of_le (Nat.not_lt.1 hsize)] at h
    cases hsteps : path.parts.foldlM Place.step (root.startOf path) with
    | ok place =>
      rw [hsteps] at h
      exact nomatch h
    | error error =>
      rw [hsteps] at h
      have hcause : error.toFileError path = .nameTooLong path' := Except.error.inj h
      cases error with
      | tooLong => exact .inr (Place.long_of_foldlM hsteps)
      | missing => simp [StepError.toFileError] at hcause
      | insideFile => simp [StepError.toFileError] at hcause

theorem refused_of_isTooLong {root : Item} {path : Path} (h : root.isTooLong path = true) : path.Refused := by
  rw [isTooLong] at h
  split at h
  · rename_i hlocate
    exact ⟨exceeds_of_locate hlocate, by simpa using h⟩
  · simp at h

section

variable {root base : Item} {folder : Path} {names : List String}

theorem foldlM_extend {place : Place} (hplace : root.locate folder = .ok place) :
    (folder.extend names).parts.foldlM Place.step (root.startOf (folder.extend names)) =
      names.foldlM Place.step place := by
  have hstart : folder.parts.foldlM Place.step (root.startOf (folder.extend names)) = .ok place :=
    (locate_eq_ok_iff.1 hplace).2
  rw [Path.extend, List.foldlM_append, ← Path.extend, hstart]
  rfl

theorem find?_extend (hbase : root.find? folder = some base) (hnames : ∀ name ∈ names, name ≠ "..")
    (hlimits : ¬(folder.extend names).Exceeds) : root.find? (folder.extend names) = base.descend? names := by
  obtain ⟨place, hplace, rfl⟩ := find?_eq_some_iff.1 hbase
  obtain ⟨hsize, hshort⟩ := not_or.1 hlimits
  have hshort : ∀ name ∈ names, name.utf8ByteSize ≤ nameLimit := fun name hname =>
    Nat.not_lt.1 fun hlong => hshort ⟨name, List.mem_append_right _ hname, hlong⟩
  rw [find?, locate_of_le (Nat.not_lt.1 hsize), foldlM_extend hplace, ← Place.foldlM_of_short hnames hshort]
  cases names.foldlM Place.step place <;> rfl

theorem locate_of_exceeds (htree : root.IsTree) (hbase : root.find? folder = some base)
    (hleads : base.LeadsTo names) (hnames : ∀ name ∈ names, name ≠ "..")
    (hlimits : (folder.extend names).Exceeds) :
    root.locate (folder.extend names) = .error (.nameTooLong (folder.extend names)) := by
  have hfolder := (htree.of_find? hbase).2.1
  obtain ⟨place, hplace, rfl⟩ := find?_eq_some_iff.1 hbase
  by_cases hsize : pathLimit < (folder.extend names).toString.utf8ByteSize
  · exact if_pos hsize
  · -- The folder is there, so the long name is one of those below it.
    have hlong : ∃ name ∈ names, nameLimit < name.utf8ByteSize := by
      obtain hlong | ⟨name, hname, hlong⟩ := hlimits
      · exact absurd hlong hsize
      · rcases List.mem_append.1 hname with hname | hname
        · exact absurd (.inr ⟨name, hname, hlong⟩) hfolder
        · exact ⟨name, hname, hlong⟩
    rw [locate_of_le (Nat.not_lt.1 hsize), foldlM_extend hplace, Place.foldlM_of_long hleads hnames hlong]
    rfl

theorem isTooLong_iff_refused (htree : root.IsTree) (hbase : root.find? folder = some base)
    (hleads : base.LeadsTo names) (hnames : ∀ name ∈ names, name ≠ "..") :
    root.isTooLong (folder.extend names) = true ↔ (folder.extend names).Refused := by
  refine ⟨refused_of_isTooLong, fun h => ?_⟩
  rw [isTooLong, locate_of_exceeds htree hbase hleads hnames h.1]
  simp [h.2]

/-- What is there can be refused only for its length. -/
theorem hasZero_of_descend? {sub : Item} (htree : root.IsTree) (hbase : root.find? folder = some base)
    (hsub : base.descend? names = some sub) : (folder.extend names).hasZero = false := by
  obtain ⟨hbasetree, _, hzero⟩ := htree.of_find? hbase
  refine Path.hasZero_eq_false fun name hname => ?_
  rcases List.mem_append.1 hname with hname | hname
  · exact hzero name hname
  · exact ((hbasetree.of_descend? hsub).1 name hname).2

end

/-! ## Folders that do not count -/

/-- The item without the folders in it that have one of the names. -/
def prune (ignored : List String) : Item → Item
  | file content => file content
  | folder items => folder (pruneIn items)
where
  pruneIn : List (String × Item) → List (String × Item)
    | [] => []
    | (name, item) :: rest =>
      if item.isFolder && ignored.contains name then pruneIn rest else (name, prune ignored item) :: pruneIn rest

variable {ignored : List String}

theorem mem_pruneIn {name : String} {sub : Item} {items : List (String × Item)} :
    (name, sub) ∈ prune.pruneIn ignored items ↔
      ∃ item, (name, item) ∈ items ∧ ¬(item.isFolder = true ∧ name ∈ ignored) ∧ item.prune ignored = sub := by
  induction items with
  | nil => simp [prune.pruneIn]
  | cons entry items ih =>
    obtain ⟨name', item'⟩ := entry
    rw [prune.pruneIn]
    split <;> grind

theorem map_fst_pruneIn (ignored : List String) (items : List (String × Item)) :
    ((prune.pruneIn ignored items).map Prod.fst).Sublist (items.map Prod.fst) := by
  induction items with
  | nil => simp [prune.pruneIn]
  | cons entry items ih =>
    rw [prune.pruneIn]
    split
    · exact ih.cons _
    · exact ih.cons_cons _

theorem IsTree.child?_prune {item sub : Item} {name : String} (h : item.IsTree) :
    (item.prune ignored).child? name = some sub ↔
      ∃ item', item.child? name = some item' ∧ ¬(item'.isFolder = true ∧ name ∈ ignored) ∧
        item'.prune ignored = sub := by
  cases h with
  | file content => simp [prune, child?_file]
  | @folder items distinct names below =>
    have hdistinct := distinct.sublist (map_fst_pruneIn ignored items)
    rw [prune]
    constructor
    · intro hchild
      obtain ⟨item', hmem, hkept⟩ := mem_pruneIn.1 (mem_of_child? hchild)
      exact ⟨item', child?_of_mem distinct hmem, hkept⟩
    · rintro ⟨item', hchild, hkept⟩
      exact child?_of_mem hdistinct (mem_pruneIn.2 ⟨item', mem_of_child? hchild, hkept⟩)

theorem prune_eq_file_iff {item : Item} {content : SourceFile} :
    item.prune ignored = file content ↔ item = file content := by
  cases item <;> simp [prune]

/-- The files outside the folders that do not count stay. -/
theorem IsTree.descend?_prune {item : Item} {names : List String} {name : String} {content : SourceFile}
    (h : item.IsTree) (hnames : ∀ name ∈ names, name ∉ ignored) :
    (item.prune ignored).descend? (names ++ [name]) = some (.file content) ↔
      item.descend? (names ++ [name]) = some (.file content) := by
  induction names generalizing item with
  | nil =>
    simp only [List.nil_append, descend?_cons, descend?_nil, Option.bind_fun_some, h.child?_prune, prune_eq_file_iff]
    constructor
    · rintro ⟨item', hchild, -, rfl⟩
      exact hchild
    · exact fun hchild => ⟨_, hchild, by simp [isFolder], rfl⟩
  | cons next names ih =>
    rw [List.forall_mem_cons] at hnames
    rw [List.cons_append, descend?_cons, descend?_cons, Option.bind_eq_some_iff, Option.bind_eq_some_iff]
    constructor
    · rintro ⟨sub, hchild, hsub⟩
      obtain ⟨item', hchild', -, rfl⟩ := h.child?_prune.1 hchild
      exact ⟨item', hchild', (ih (h.of_child? hchild').2 hnames.2).1 hsub⟩
    · rintro ⟨item', hchild, hsub⟩
      exact ⟨_, h.child?_prune.2 ⟨item', hchild, fun hdrop => hnames.1 hdrop.2, rfl⟩,
        (ih (h.of_child? hchild).2 hnames.2).2 hsub⟩

end Item

end CommandTrace
