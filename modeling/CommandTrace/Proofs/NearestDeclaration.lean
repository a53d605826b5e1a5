/-
The type of a name at a place in a file.

The declarations of a name are listed in document order (`filter_declarations`), so of
those before a place the last in the list is the last in the document, and the
first in the list is the first of all. Where nodes that come later start no earlier,
the last one before a place is also the nearest. A name may be asked for with one
`this.` in front of it (`AsksFor`).
-/
import CommandTrace.CallSite.Key
import CommandTrace.Proofs.Walks
import Mathlib.Data.List.Basic

namespace CommandTrace

namespace SyntaxTree

variable {t : SyntaxTree}

theorem IsParse.descendants_root (ht : t.IsParse) : t.descendants root = List.range' 1 (t.size - 1) := by
  obtain ⟨path, source, tree, hasError, rfl⟩ := ht
  have hnodes := nodes_ofParseTree path source tree hasError
  have hsize : (ofParseTree path source tree hasError).size = tree.size := by
    rw [size, ← Array.length_toList, hnodes, ParseTree.length_number]
  have hpre : (ofParseTree path source tree hasError).preorder root = List.range' 0 tree.size :=
    preorder_number (p := none) tree [] (by rw [hnodes, List.append_nil, root, List.drop_zero])
  rw [← subtree_eq_preorder, subtree] at hpre
  rw [hsize]
  cases htree : tree.size with
  | zero => simp [htree] at hpre
  | succ n =>
    rw [htree, List.range'_succ] at hpre
    exact (List.cons.inj hpre).2

/-! ## Declarations of a name -/

variable (t) in
/-- A declarator or a parameter below the root that has a name. -/
def Declares (name : String) (i : Nat) : Prop :=
  i ≠ root ∧ (t.kind i = .declarator ∧ t.declaratorName i = some name ∨
    t.kind i = .parameter ∧ t.parameterName i = some name)

instance (name : String) (i : Nat) : Decidable (t.Declares name i) :=
  inferInstanceAs (Decidable (_ ∧ _))

variable (t) in
/-- The node of the type that a declarator or a parameter is declared with. -/
def HasTypeNode (i typeNode : Nat) : Prop :=
  t.kind i = .parameter ∧ t.childByField i "type" = some typeNode ∨
    t.kind i = .declarator ∧ ∃ d, t.parent i = some d ∧ t.kind d = .variableDecl ∧
      t.childByField d "type" = some typeNode

variable (t) in
/-- A declarator that leaves its type open and starts with the creation of an
object, whose type is at `created`. -/
def Creates (i created : Nat) : Prop :=
  t.kind i = .declarator ∧ ∃ typeNode value, t.HasTypeNode i typeNode ∧
    (t.kind typeNode = .implicitType ∨ t.text typeNode = "var") ∧ t.declaratorValue i = some value ∧
    t.kind value = .objectCreation ∧ t.childByField value "type" = some created

variable (t) in
/-- The text of the type that a declarator or a parameter counts with: of the type
it creates, else of the one it is declared with, else none. -/
inductive HasTypeText (i : Nat) : String → Prop
  | created {created : Nat} (h : t.Creates i created) : HasTypeText i (t.text created)
  | declared {typeNode : Nat} (h : t.HasTypeNode i typeNode) (hnot : ∀ created, ¬t.Creates i created) :
    HasTypeText i (t.text typeNode)
  | missing (h : ∀ typeNode, ¬t.HasTypeNode i typeNode) : HasTypeText i ""

variable (t) in
def typeText (i : Nat) : String :=
  if t.kind i = .declarator then t.declaredType i else t.parameterType i

theorem hasTypeNode_parameter {i typeNode : Nat} (h : t.kind i = .parameter) :
    t.HasTypeNode i typeNode ↔ t.childByField i "type" = some typeNode := by
  simp [HasTypeNode, h]

theorem hasTypeNode_declarator {i d typeNode : Nat} (h : t.kind i = .declarator) (hd : t.parent i = some d)
    (hkind : t.kind d = .variableDecl) : t.HasTypeNode i typeNode ↔ t.childByField d "type" = some typeNode := by
  simp [HasTypeNode, h, hd, hkind]

theorem createdType_eq_some {i created : Nat} :
    t.createdType i = some created ↔ ∃ value, t.declaratorValue i = some value ∧ t.kind value = .objectCreation ∧
      t.childByField value "type" = some created := by
  rw [createdType]
  cases t.declaratorValue i <;> simp

theorem HasTypeNode.unique {i typeNode typeNode' : Nat} (h : t.HasTypeNode i typeNode)
    (h' : t.HasTypeNode i typeNode') : typeNode = typeNode' := by
  rcases h with ⟨hi, h⟩ | ⟨hi, d, hd, hkind, h⟩
  · rw [hasTypeNode_parameter hi, h] at h'
    exact Option.some.inj h'
  · rw [hasTypeNode_declarator hi hd hkind, h] at h'
    exact Option.some.inj h'

theorem creates_iff {i typeNode created : Nat} (hi : t.kind i = .declarator) (htype : t.HasTypeNode i typeNode) :
    t.Creates i created ↔
      (t.kind typeNode = .implicitType ∨ t.text typeNode = "var") ∧ t.createdType i = some created := by
  rw [createdType_eq_some]
  constructor
  · rintro ⟨-, typeNode', value, htype', hvar, hvalue⟩
    obtain rfl := htype.unique htype'
    exact ⟨hvar, value, hvalue⟩
  · rintro ⟨hvar, value, hvalue⟩
    exact ⟨hi, typeNode, value, htype, hvar, hvalue⟩

theorem hasTypeText_declarator {i : Nat} (hi : t.kind i = .declarator) : t.HasTypeText i (t.declaredType i) := by
  rw [declaredType]
  cases hd : t.parent i with
  | none => exact .missing fun typeNode => by simp [HasTypeNode, hi, hd]
  | some d =>
    by_cases hkind : t.kind d = .variableDecl
    · have hnode : ∀ typeNode, t.HasTypeNode i typeNode ↔ t.childByField d "type" = some typeNode := fun _ =>
        hasTypeNode_declarator hi hd hkind
      simp only [hkind, ne_eq, not_true, if_false]
      cases htype : t.childByField d "type" with
      | none => exact .missing fun typeNode => by simp [hnode, htype]
      | some typeNode =>
        have htype : t.HasTypeNode i typeNode := (hnode typeNode).2 htype
        by_cases hvar : t.kind typeNode = .implicitType ∨ t.text typeNode = "var"
        · simp only [hvar, if_true]
          cases hcreated : t.createdType i with
          | none => exact .declared htype fun created h => by simp [creates_iff hi htype, hcreated] at h
          | some created => exact .created ((creates_iff hi htype).2 ⟨hvar, hcreated⟩)
        · simp only [hvar, if_false]
          exact .declared htype fun created h => hvar ((creates_iff hi htype).1 h).1
    · simp only [hkind, ne_eq, not_false_iff, if_true]
      exact .missing fun typeNode => by simp [HasTypeNode, hi, hd, hkind]

theorem hasTypeText_parameter {i : Nat} (hi : t.kind i = .parameter) : t.HasTypeText i (t.parameterType i) := by
  rw [parameterType]
  cases htype : t.childByField i "type" with
  | none => exact .missing fun typeNode => by simp [hasTypeNode_parameter hi, htype]
  | some typeNode =>
    refine .declared ((hasTypeNode_parameter hi).2 htype) ?_
    rintro created ⟨hkind, -⟩
    rw [hi] at hkind
    cases hkind

theorem Declares.hasTypeText {name : String} {i : Nat} (h : t.Declares name i) : t.HasTypeText i (t.typeText i) := by
  rcases h.2 with ⟨hi, -⟩ | ⟨hi, -⟩
  · rw [typeText, if_pos hi]
    exact hasTypeText_declarator hi
  · rw [typeText, if_neg (by simp [hi])]
    exact hasTypeText_parameter hi

/-- What is left of a name's declaration where only one name counts. -/
theorem filter_map_name {found : Option String} {name : String} (hname : name ≠ "") (start : Nat) (type : String) :
    ((found.filter (· ≠ "")).map fun n => (⟨n, start, type⟩ : Declaration)).filter (fun d => d.name = name) =
      if found = some name then some ⟨name, start, type⟩ else none := by
  cases found with
  | none => rfl
  | some n =>
    by_cases hn : n = name
    · subst hn
      simp [Option.filter, hname]
    · by_cases hempty : n = "" <;> simp [Option.filter, hn, hempty, hname.symm]

theorem filter_declaration? {name : String} (hname : name ≠ "") {i : Nat} (hi : i ≠ root) :
    (t.declaration? i).filter (fun d => d.name = name) =
      if t.Declares name i then some ⟨name, t.start i, t.typeText i⟩ else none := by
  rw [declaration?]
  split
  case h_1 hkind =>
    rw [filter_map_name hname]
    simp [Declares, typeText, hi, hkind]
  case h_2 hkind =>
    rw [filter_map_name hname]
    simp [Declares, typeText, hi, hkind]
  case h_3 hdeclarator hparameter =>
    have hnone : ¬t.Declares name i := by
      rintro ⟨-, ⟨hkind, -⟩ | ⟨hkind, -⟩⟩
      · exact hdeclarator hkind
      · exact hparameter hkind
    rw [if_neg hnone, Option.filter_none]

/-! ## Looking up a name -/

/-- What is asked for stands for a name: one `this.` in front of it is not part of it. -/
inductive AsksFor (name : String) : String → Prop
  | this : AsksFor name ("this." ++ name)
  | plain (h : ¬"this.".toList <+: name.toList) : AsksFor name name

/-- Whatever is asked for stands for one name. -/
theorem asksFor_iff {asked name : String} : AsksFor name asked ↔ withoutThis asked = name := by
  constructor
  · intro h
    cases h with
    | this => exact withoutThis_this name
    | plain h => exact withoutThis_of_not_this h
  · rintro rfl
    by_cases h : "this.".toList <+: asked.toList
    · obtain ⟨rest, hrest⟩ := h
      obtain rfl : "this." ++ String.ofList rest = asked := by
        rw [← String.toList_inj, String.toList_append, ← hrest]
        exact congrArg ("this.".toList ++ ·) String.toList_ofList
      rw [withoutThis_this]
      exact .this
    · rw [withoutThis_of_not_this h]
      exact .plain h

variable (t) in
/-- The declaration of a name that starts last before a position; of those that
start together, the last in document order. -/
structure IsNearest (name : String) (position i : Nat) : Prop where
  declares : t.Declares name i
  before : t.start i < position
  last : ∀ j, t.Declares name j → t.start j < position → t.start j < t.start i ∨ t.start j = t.start i ∧ j ≤ i

variable (t) in
/-- The first declaration of a name in document order. -/
structure IsFirst (name : String) (i : Nat) : Prop where
  declares : t.Declares name i
  first : ∀ j, t.Declares name j → i ≤ j

variable (t) in
/-- The nodes that declare a name. -/
def declaringNodes (name : String) : List Nat :=
  (List.range' 1 (t.size - 1)).filter fun i => t.Declares name i

theorem Declares.lt_size {name : String} {i : Nat} (h : t.Declares name i) : i < t.size :=
  lt_size_of_kind (by rcases h.2 with ⟨hkind, -⟩ | ⟨hkind, -⟩ <;> simp [hkind])

theorem mem_declaringNodes {name : String} {i : Nat} : i ∈ t.declaringNodes name ↔ t.Declares name i := by
  rw [declaringNodes, List.mem_filter, decide_eq_true_eq, List.mem_range'_1, and_iff_right_iff_imp]
  intro h
  have hsize : i < t.size := h.lt_size
  have hpos : 1 ≤ i := Nat.pos_of_ne_zero h.1
  omega

theorem pairwise_declaringNodes (name : String) : (t.declaringNodes name).Pairwise (· < ·) :=
  List.Pairwise.filter _ List.pairwise_lt_range'

/-- The declarations of a name are those of its nodes, in their order. -/
theorem filter_declarations (ht : t.IsParse) {name : String} (hname : name ≠ "") :
    t.declarations.filter (fun d => d.name = name) =
      (t.declaringNodes name).map fun i => ⟨name, t.start i, t.typeText i⟩ := by
  rw [declarations, ht.descendants_root, List.filter_filterMap, declaringNodes, ← List.filterMap_eq_map,
    List.filterMap_filter]
  refine List.filterMap_congr fun i hi => ?_
  have hroot : i ≠ root := Nat.ne_of_gt (List.mem_range'_1.1 hi).1
  simpa using filter_declaration? hname hroot

theorem typeAt_eq (ht : t.IsParse) {asked name : String} (hasked : AsksFor name asked) (hname : name ≠ "")
    (position : Nat) :
    Declaration.typeAt t.declarations asked position =
      ((((t.declaringNodes name).filter fun i => t.start i < position).getLast?.or
        (t.declaringNodes name).head?).map t.typeText).getD "" := by
  simp only [Declaration.typeAt, asksFor_iff.1 hasked, filter_declarations ht hname, List.filter_map,
    List.getLast?_map, List.head?_map, ← Option.map_or, Function.comp_def]
  generalize ((t.declaringNodes name).filter fun i => t.start i < position).getLast?.or
    (t.declaringNodes name).head? = found
  cases found <;> rfl

/-- Where later nodes start no earlier, the last one before a position is the
nearest. -/
theorem isNearest_of_getLast? (hstarts : ∀ i j, i ≤ j → j < t.size → t.start i ≤ t.start j) {name : String}
    {position i : Nat} (h : ((t.declaringNodes name).filter fun i => t.start i < position).getLast? = some i) :
    t.IsNearest name position i := by
  obtain ⟨earlier, hnodes⟩ := List.getLast?_eq_some_iff.1 h
  have hmem : ∀ j, t.Declares name j ∧ t.start j < position ↔ j ∈ earlier ++ [i] := by
    intro j
    rw [← hnodes, List.mem_filter, mem_declaringNodes, decide_eq_true_eq]
  have hsorted : (earlier ++ [i]).Pairwise (· < ·) := hnodes ▸ (pairwise_declaringNodes name).filter _
  obtain ⟨hdeclares, hbefore⟩ := (hmem i).2 (by simp)
  refine ⟨hdeclares, hbefore, fun j hj hjbefore => ?_⟩
  have hle : j ≤ i := by
    rcases List.mem_append.1 ((hmem j).1 ⟨hj, hjbefore⟩) with hj | hj
    · exact Nat.le_of_lt ((List.pairwise_append.1 hsorted).2.2 j hj i (by simp))
    · exact Nat.le_of_eq (List.mem_singleton.1 hj)
  have hstart : t.start j ≤ t.start i := hstarts j i hle hdeclares.lt_size
  omega

theorem isFirst_of_head? {name : String} {i : Nat} (h : (t.declaringNodes name).head? = some i) : t.IsFirst name i := by
  obtain ⟨later, hnodes⟩ := List.head?_eq_some_iff.1 h
  have hsorted := pairwise_declaringNodes (t := t) name
  rw [hnodes, List.pairwise_cons] at hsorted
  refine ⟨mem_declaringNodes.1 (by simp [hnodes]), fun j hj => ?_⟩
  have hmem := mem_declaringNodes.2 hj
  rw [hnodes] at hmem
  rcases List.mem_cons.1 hmem with rfl | hmem
  · exact Nat.le_refl j
  · exact Nat.le_of_lt (hsorted.1 j hmem)

/-- **Looking up a type finds the nearest earlier declaration.** In the parse of a
file in which later nodes start no earlier, a name that nothing declares has no
type. Otherwise it has the type of its nearest declaration before the position, or
where there is none the type of its first one; and so has the name with one `this.`
in front of it. -/
theorem nearest_declaration_found (ht : t.IsParse) (hstarts : ∀ i j, i ≤ j → j < t.size → t.start i ≤ t.start j)
    {asked name : String} (hasked : AsksFor name asked) (hname : name ≠ "") (position : Nat) :
    ((∀ i, ¬t.Declares name i) → Declaration.typeAt t.declarations asked position = "") ∧
    ((∃ i, t.Declares name i ∧ t.start i < position) →
      ∃ i, t.IsNearest name position i ∧ t.HasTypeText i (Declaration.typeAt t.declarations asked position)) ∧
    ((∃ i, t.Declares name i) → (∀ i, t.Declares name i → position ≤ t.start i) →
      ∃ i, t.IsFirst name i ∧ t.HasTypeText i (Declaration.typeAt t.declarations asked position)) := by
  rw [typeAt_eq ht hasked hname]
  refine ⟨fun hnone => ?none, fun ⟨i, hi, hbefore⟩ => ?nearest, fun ⟨i, hi⟩ hafter => ?first⟩
  case none =>
    have hnil : t.declaringNodes name = [] :=
      List.eq_nil_iff_forall_not_mem.2 fun i hi => hnone i (mem_declaringNodes.1 hi)
    rw [hnil]
    rfl
  case nearest =>
    cases hlast : ((t.declaringNodes name).filter fun i => t.start i < position).getLast? with
    | none =>
      have hmem : i ∈ (t.declaringNodes name).filter fun i => t.start i < position := by
        simpa [mem_declaringNodes] using ⟨hi, hbefore⟩
      rw [List.getLast?_eq_none_iff.1 hlast] at hmem
      cases hmem
    | some i =>
      have hnearest := isNearest_of_getLast? hstarts hlast
      exact ⟨i, hnearest, hnearest.declares.hasTypeText⟩
  case first =>
    have hnil : ((t.declaringNodes name).filter fun i => t.start i < position) = [] :=
      List.filter_eq_nil_iff.2 fun j hj => by simpa using hafter j (mem_declaringNodes.1 hj)
    cases hhead : (t.declaringNodes name).head? with
    | none =>
      have hmem := mem_declaringNodes.2 hi
      rw [List.head?_eq_none_iff.1 hhead] at hmem
      cases hmem
    | some i =>
      have hfirst := isFirst_of_head? hhead
      rw [hnil]
      exact ⟨i, hfirst, hfirst.declares.hasTypeText⟩

namespace Redeclared

def source : Array UInt8 := "void M(U x){var x=new T();}int x;".toUTF8.data

def parameter : ParseTree :=
  .node ⟨"parameter", none, 7, 10, true⟩
    [.node ⟨"identifier", some "type", 7, 8, true⟩ [], .node ⟨"identifier", some "name", 9, 10, true⟩ []]

def creation : ParseTree :=
  .node ⟨"object_creation_expression", none, 18, 25, true⟩
    [.node ⟨"new", none, 18, 21, false⟩ [], .node ⟨"identifier", some "type", 22, 23, true⟩ [],
      .node ⟨"argument_list", some "arguments", 23, 25, true⟩ []]

/-- The local variable, whose type is left open. -/
def variableDeclaration : ParseTree :=
  .node ⟨"variable_declaration", none, 12, 25, true⟩
    [.node ⟨"implicit_type", some "type", 12, 15, true⟩ [],
      .node ⟨"variable_declarator", none, 16, 25, true⟩
        [.node ⟨"identifier", some "name", 16, 17, true⟩ [], .node ⟨"=", none, 17, 18, false⟩ [], creation]]

def fieldDeclaration : ParseTree :=
  .node ⟨"variable_declaration", none, 27, 32, true⟩
    [.node ⟨"predefined_type", some "type", 27, 30, true⟩ [],
      .node ⟨"variable_declarator", none, 31, 32, true⟩ [.node ⟨"identifier", some "name", 31, 32, true⟩ []]]

/-- A parameter, a local variable and a field, all called `x`. -/
def tree : SyntaxTree :=
  .ofParseTree (.ofString "A.cs") source (.node ⟨"compilation_unit", none, 0, 33, true⟩
    [.node ⟨"method_declaration", none, 0, 27, true⟩
      [.node ⟨"parameter_list", some "parameters", 6, 11, true⟩ [parameter],
        .node ⟨"block", some "body", 11, 27, true⟩ [variableDeclaration]],
      fieldDeclaration]) false

/-- At the end of the method the local variable is nearest, with the type it
creates; before the parameter there is none, and the first one counts. It makes no
difference whether `this.` is in front of the name, but a second `this.` is part of
it. -/
theorem created_type_found :
    tree.IsParse ∧ (∀ i j, i ≤ j → j < tree.size → tree.start i ≤ tree.start j) ∧
    Declaration.typeAt tree.declarations "this.x" 26 = "T" ∧ Declaration.typeAt tree.declarations "x" 26 = "T" ∧
    (∃ i, tree.IsNearest "x" 26 i ∧ tree.HasTypeText i "T") ∧
    Declaration.typeAt tree.declarations "this.x" 0 = "U" ∧
    (∃ i, tree.IsFirst "x" i ∧ tree.HasTypeText i "U") ∧
    Declaration.typeAt tree.declarations "this.this.x" 26 = "" := by
  have hparse : tree.IsParse := ⟨_, _, _, _, rfl⟩
  have hsize : tree.size = 20 := by decide +kernel
  have hall : ∀ j < 20, ∀ i < 20, i ≤ j → tree.start i ≤ tree.start j := by decide +kernel
  have hstarts : ∀ i j, i ≤ j → j < tree.size → tree.start i ≤ tree.start j := fun i j hij hj =>
    hall j (hsize ▸ hj) i (by omega) hij
  have hother : ∀ i < 20, ¬tree.Declares "this.x" i := by decide +kernel
  have hthis : AsksFor "x" "this.x" := .this
  have hagain : AsksFor "this.x" "this.this.x" := .this
  obtain ⟨-, hnearest, -⟩ := nearest_declaration_found hparse hstarts hthis (by decide) 26
  obtain ⟨-, -, hfirst⟩ := nearest_declaration_found hparse hstarts hthis (by decide) 0
  obtain ⟨hnone, -, -⟩ := nearest_declaration_found hparse hstarts hagain (by decide) 26
  have hcreated : Declaration.typeAt tree.declarations "this.x" 26 = "T" := by decide +kernel
  have hplain : Declaration.typeAt tree.declarations "x" 26 = "T" := by decide +kernel
  have hdeclared : Declaration.typeAt tree.declarations "this.x" 0 = "U" := by decide +kernel
  rw [hcreated] at hnearest
  rw [hdeclared] at hfirst
  refine ⟨hparse, hstarts, hcreated, hplain, hnearest ⟨9, ?_⟩, hdeclared, hfirst ⟨3, ?_⟩ fun i _ => Nat.zero_le _,
    hnone fun i hi => ?_⟩
  · decide +kernel
  · decide +kernel
  · exact hother i (hsize ▸ hi.lt_size) hi

end Redeclared

end SyntaxTree

end CommandTrace
