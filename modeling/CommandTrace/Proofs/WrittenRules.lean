/-
Rules as they are written.

A rule is put together from fields with separators between them (`Spelling.line`).
No field has a separator in it that it is cut at, or a blank at an end, so reading
the line finds the fields again: the parts between commas (`map_trim_fields`), the
number of the index (`Numeral.readInt?_toString`), the names before and after the
last dot (`Rule.ofFields_call`), and the types (`Rule.forTypes_joined`). With the
mark of pending references before it, the line gives the rules that are made for
the reference itself.
-/
import CommandTrace.Proofs.Blank
import CommandTrace.Proofs.Line
import CommandTrace.Proofs.RuleMap
import CommandTrace.Rule.Parser
import Mathlib.Data.Nat.Digits.Defs

namespace CommandTrace

/-! ## Numbers -/

namespace Numeral

variable {c : Char} {cs : List Char}

theorem toNat_of_isDigit (h : c.isDigit = true) : 48 ≤ c.toNat ∧ c.toNat ≤ 57 := by
  simpa [Char.isDigit, UInt32.le_iff_toNat_le] using h

theorem digit?_of_isDigit (h : c.isDigit = true) : digit? c = some (c.toNat - '0'.toNat) := by
  have hrange := toNat_of_isDigit h
  have hfirst : 0x30 ≤ c.toNat ∧ c.toNat < 0x30 + 10 := by omega
  rw [digit?, zeros, List.findSome?_cons, if_pos hfirst]
  rfl

theorem digits?_of_isDigit (h : ∀ c ∈ cs, c.isDigit = true) {afterDigit : Bool} (hne : afterDigit = true ∨ cs ≠ []) :
    digits? afterDigit cs = some (cs.map fun c => c.toNat - '0'.toNat) := by
  induction cs generalizing afterDigit with
  | nil =>
    have hafter : afterDigit = true := by simpa using hne
    rw [digits?, if_pos hafter, List.map_nil]
  | cons c cs ih =>
    have hc := h c (by simp)
    have hrest := ih (fun d hd => h d (by simp [hd])) (.inl rfl)
    unfold digits?
    split
    · next heq => cases heq
    · next heq =>
      -- an underscore is no digit
      obtain ⟨rfl, -⟩ := List.cons.inj heq
      exact absurd hc (by decide)
    · next heq =>
      obtain ⟨rfl, rfl⟩ := List.cons.inj heq
      rw [digit?_of_isDigit hc, hrest]
      rfl

theorem value_map (cs : List Char) : value (cs.map fun c => c.toNat - '0'.toNat) = Nat.ofDigitChars 10 cs 0 := by
  rw [value, List.foldl_map, Nat.ofDigitChars]

theorem readNat?_toDigits {n : Nat} (h : n < 10 ^ 4300) : readNat? (Nat.toDigits 10 n) = some n := by
  have hdigits : ∀ c ∈ Nat.toDigits 10 n, c.isDigit = true := fun c hc =>
    Nat.isDigit_of_mem_toDigits (by decide) (by decide) hc
  have hlength : (Nat.toDigits 10 n).length ≤ limit := Nat.toDigits_length 10 n 4300 (by decide) h
  have hvalue : Nat.ofDigitChars 10 (Nat.toDigits 10 n) 0 = n := Nat.ofDigitChars_toDigits (by decide) (by decide)
  rw [readNat?, digits?_of_isDigit hdigits (.inr Nat.toDigits_ne_nil)]
  simp only [List.length_map, if_pos hlength, value_map, hvalue]

theorem isDigit_of_mem_toString {n : Nat} (h : c ∈ (toString n).toList) : c.isDigit = true := by
  rw [Nat.toString_eq_repr, Nat.toList_repr] at h
  exact Nat.isDigit_of_mem_toDigits (by decide) (by decide) h

/-- A number is read from its digits. -/
theorem readInt?_toString {n : Nat} (h : n < 10 ^ 4300) : readInt? (toString n).toList = some (n : Int) := by
  have hdigit := fun c => isDigit_of_mem_toString (c := c) (n := n)
  have hread : readNat? (toString n).toList = some n := by
    rw [Nat.toString_eq_repr, Nat.toList_repr, readNat?_toDigits h]
  generalize (toString n).toList = cs at hdigit hread
  unfold readInt?
  split
  · exact absurd (hdigit '-' (by simp)) (by decide)
  · exact absurd (hdigit '+' (by simp)) (by decide)
  · rw [hread]
    rfl

end Numeral

/-! ## Fields -/

/-- What a rule may have between separators: something, without a blank at its ends
and without the separators themselves. -/
structure IsField (separators : List Char) (cs : List Char) : Prop where
  ne_nil : cs ≠ []
  isTrimmed : IsTrimmed cs
  not_mem : ∀ c ∈ separators, c ∉ cs

theorem isField_iff {separators cs : List Char} :
    IsField separators cs ↔ cs ≠ [] ∧ IsTrimmed cs ∧ (separators.all fun c => !cs.contains c) = true := by
  have hall : (separators.all fun c => !cs.contains c) = true ↔ ∀ c ∈ separators, c ∉ cs := by simp
  rw [hall]
  exact ⟨fun h => ⟨h.ne_nil, h.isTrimmed, h.not_mem⟩, fun ⟨hne, htrimmed, hmem⟩ => ⟨hne, htrimmed, hmem⟩⟩

instance (separators cs : List Char) : Decidable (IsField separators cs) := decidable_of_iff _ isField_iff.symm

theorem IsField.trim_eq {separators cs : List Char} (h : IsField separators cs) : trim cs = cs :=
  trim_eq_self_iff.2 h.isTrimmed

theorem IsField.mono {separators separators' cs : List Char} (h : IsField separators cs)
    (hsub : separators' ⊆ separators) : IsField separators' cs :=
  ⟨h.ne_nil, h.isTrimmed, fun c hc => h.not_mem c (hsub hc)⟩

/-- Two fields make one, with other separators between them. -/
theorem IsField.append {separators cs ds : List Char} (hcs : IsField separators cs) (hds : IsField separators ds)
    (between : List Char) (hbetween : ∀ c ∈ separators, c ∉ between) : IsField separators (cs ++ between ++ ds) := by
  refine ⟨by simp [hcs.ne_nil], hcs.isTrimmed.append hds.isTrimmed hcs.ne_nil hds.ne_nil between, fun c hc => ?_⟩
  simp [hcs.not_mem c hc, hbetween c hc, hds.not_mem c hc]

theorem isField_toString (n : Nat) : IsField [','] (toString n).toList := by
  refine ⟨?_, isTrimmed_of_forall fun c hc => ?_, fun c hc hmem => ?_⟩
  · rw [Nat.toString_eq_repr, Nat.toList_repr]
    exact Nat.toDigits_ne_nil
  · have hrange := Numeral.toNat_of_isDigit (Numeral.isDigit_of_mem_toString hc)
    simp only [isBlank, Bool.or_eq_false_iff, Bool.and_eq_false_iff, decide_eq_false_iff_not, beq_eq_false_iff_ne]
    omega
  · rw [List.mem_singleton.1 hc] at hmem
    exact absurd (Numeral.isDigit_of_mem_toString hmem) (by decide)

theorem IsField.intercalate {separators : List Char} {sep : Char} (hsep : sep ∉ separators) {parts : List (List Char)}
    (hne : parts ≠ []) (h : ∀ part ∈ parts, IsField separators part) :
    IsField separators ([sep].intercalate parts) := by
  have hbetween : ∀ c ∈ separators, c ∉ [sep] := by
    intro c hc hmem
    exact hsep (List.mem_singleton.1 hmem ▸ hc)
  induction parts with
  | nil => exact absurd rfl hne
  | cons part parts ih =>
    cases parts with
    | nil => simpa [List.intercalate_singleton] using h part (by simp)
    | cons next parts =>
      have hrest := ih (List.cons_ne_nil next parts) fun part hmem => h part (by simp [hmem])
      rw [List.intercalate_cons_cons]
      exact (h part (by simp)).append hrest [sep] hbetween

/-- A line that is put together from fields is read to the fields. -/
theorem map_trim_fields {sep : Char} {parts : List (List Char)} (hne : parts ≠ [])
    (h : ∀ part ∈ parts, IsField [sep] part) :
    (fields sep (trim ([sep].intercalate parts))).map trim = parts := by
  have hline : IsField [] ([sep].intercalate parts) :=
    .intercalate List.not_mem_nil hne fun part hpart => (h part hpart).mono (List.nil_subset _)
  rw [hline.trim_eq, fields_intercalate hne fun part hpart => (h part hpart).not_mem sep (by simp)]
  exact (List.map_congr_left fun part hpart => (h part hpart).trim_eq).trans (List.map_id parts)

/-! ## Names with a bar between them -/

theorem toList_joinWith (names : List String) :
    (joinWith "|" names).toList = ['|'].intercalate (names.map String.toList) := by
  fun_induction joinWith "|" names with
  | case1 => rfl
  | case2 name => simp [List.intercalate_singleton]
  | case3 name other names ih =>
    rw [String.toList_append, String.toList_append, ih]
    simp [List.intercalate_cons_cons]

theorem isField_joinWith {separators : List Char} (hbar : '|' ∉ separators) {names : List String} (hne : names ≠ [])
    (h : ∀ name ∈ names, IsField separators name.toList) : IsField separators (joinWith "|" names).toList := by
  rw [toList_joinWith]
  refine .intercalate hbar (by simpa using hne) fun part hpart => ?_
  obtain ⟨name, hname, rfl⟩ := List.mem_map.1 hpart
  exact h name hname

/-- What has no bar in it starts the whole only if it starts the first name. -/
theorem isPrefix_of_joinWith {mark : List Char} (hbar : '|' ∉ mark) {name : String} {names : List String}
    (h : mark <+: (joinWith "|" (name :: names)).toList) : mark <+: name.toList := by
  rw [toList_joinWith] at h
  cases names with
  | nil => simpa [List.intercalate_singleton] using h
  | cons other names =>
    rw [List.map_cons, List.map_cons, List.intercalate_cons_cons, List.append_assoc] at h
    obtain hshort | ⟨rest, rfl⟩ := List.prefix_or_prefix_of_prefix h (List.prefix_append _ _)
    · exact hshort
    · -- past the first name the mark would go on with a bar
      have hrest := (List.prefix_append_right_inj _).1 h
      cases rest with
      | nil => simp
      | cons c rest =>
        rw [List.singleton_append, List.cons_prefix_cons] at hrest
        exact absurd (by simp [hrest.1]) hbar

namespace Rule

/-! ## Reading a line -/

theorem parse_pair {line : String} {call index : List Char} (hline : line.toList = [','].intercalate [call, index])
    (hcall : IsField [','] call) (hindex : IsField [','] index) : parse line = ofFields call index none := by
  have hparts : ∀ part ∈ [call, index], IsField [','] part := by simpa using ⟨hcall, hindex⟩
  simp only [parse, hline, map_trim_fields (List.cons_ne_nil _ _) hparts]

theorem parse_triple {line : String} {call index space : List Char}
    (hline : line.toList = [','].intercalate [call, index, space]) (hcall : IsField [','] call)
    (hindex : IsField [','] index) (hspace : IsField [','] space) :
    parse line = ofFields call index (some (String.ofList space)) := by
  have hparts : ∀ part ∈ [call, index, space], IsField [','] part := by simpa using ⟨hcall, hindex, hspace⟩
  simp only [parse, hline, map_trim_fields (List.cons_ne_nil _ _) hparts, if_neg hspace.ne_nil]

theorem ofFields_call {index method : List Char} {n : Nat} (hindex : Numeral.readInt? index = some (n : Int))
    (hmethod : method ≠ []) (hdot : '.' ∉ method) (qualifier : List Char) (space : Option String) :
    ofFields (qualifier ++ '.' :: method) index space = forQualifier qualifier (String.ofList method) n space := by
  have hsplit : splitName (qualifier ++ '.' :: method) = (qualifier, method) := by
    rw [splitName, splitLast?_append hdot, Option.getD_some]
  have hn : ¬ (n : Int) < 0 := by omega
  simp only [ofFields, hindex, if_neg hn, hsplit, if_neg hmethod]

theorem forTypes_joined {names : List String} (hne : names ≠ []) (h : ∀ name ∈ names, IsField ['|'] name.toList)
    (methodName : String) (index : Int) (space : Option String) (origin : Origin) :
    forTypes (joinWith "|" names).toList methodName index space origin =
      .ok (names.map fun name => ⟨name ++ "." ++ methodName, methodName, index, space, origin⟩) := by
  have hbar : ∀ name ∈ names, '|' ∉ name.toList := fun name hname => (h name hname).not_mem '|' (by simp)
  have hsome : (joinWith "|" names).toList ≠ [] :=
    (isField_joinWith List.not_mem_nil hne fun name hname => (h name hname).mono (List.nil_subset _)).ne_nil
  have hnames : ((fields '|' (joinWith "|" names).toList).map trim).filter (· ≠ []) = names.map String.toList := by
    rw [toList_joinWith, fields_intercalate (by simpa using hne) (by simpa using hbar), List.map_map]
    have htrim : names.map (trim ∘ String.toList) = names.map String.toList :=
      List.map_congr_left fun name hname => (h name hname).trim_eq
    rw [htrim, List.filter_eq_self]
    simpa using fun name hname => (h name hname).ne_nil
  rw [forTypes, if_neg hsome, hnames]
  obtain ⟨name, names, rfl⟩ := List.exists_cons_of_ne_nil hne
  simp

end Rule

/-! ## Writing a line -/

/-- The parts of a rule that can be written down. -/
structure Spelling where
  typeNames : List String
  methodName : String
  index : Nat
  space : Option String
  typeNames_ne_nil : typeNames ≠ []
  isField_typeName : ∀ name ∈ typeNames, IsField [',', '|'] name.toList
  isField_methodName : IsField ['.', ','] methodName.toList
  index_lt : index < 10 ^ 4300
  isField_space : ∀ name ∈ space, IsField [','] name.toList

namespace Spelling

variable (s : Spelling)

/-- What is written after the types. -/
def ending : String :=
  "." ++ s.methodName ++ "," ++ toString s.index ++ s.space.elim "" ("," ++ ·)

def line : String :=
  joinWith "|" s.typeNames ++ s.ending

/-- One rule for each type. -/
def rules (origin : Origin) : List Rule :=
  s.typeNames.map fun typeName =>
    ⟨typeName ++ "." ++ s.methodName, s.methodName, s.index, s.space, origin⟩

/-- The reference to the same calls. -/
def reference : Reference :=
  ⟨s.typeNames, s.methodName, s.index, s.space⟩

theorem isField_joined : IsField [','] (joinWith "|" s.typeNames).toList :=
  isField_joinWith (by decide) s.typeNames_ne_nil fun name hname => (s.isField_typeName name hname).mono (by simp)

theorem parse_append {qualifier : String} (h : IsField [','] qualifier.toList) :
    Rule.parse (qualifier ++ s.ending) = Rule.forQualifier qualifier.toList s.methodName s.index s.space := by
  have hcall : IsField [','] (qualifier.toList ++ '.' :: s.methodName.toList) := by
    simpa using h.append (s.isField_methodName.mono (by simp)) ['.'] (by simp)
  have hindex := isField_toString s.index
  have hread := Rule.ofFields_call (Numeral.readInt?_toString s.index_lt) s.isField_methodName.ne_nil
    (s.isField_methodName.not_mem '.' (by simp)) qualifier.toList s.space
  rw [String.ofList_toList] at hread
  rw [← hread]
  cases hspace : s.space with
  | none =>
    have hline : (qualifier ++ s.ending).toList =
        [','].intercalate [qualifier.toList ++ '.' :: s.methodName.toList, (toString s.index).toList] := by
      simp [ending, hspace, List.intercalate_cons_cons, List.intercalate_singleton]
    rw [Rule.parse_pair hline hcall hindex]
  | some space =>
    have hline : (qualifier ++ s.ending).toList = [','].intercalate
        [qualifier.toList ++ '.' :: s.methodName.toList, (toString s.index).toList, space.toList] := by
      simp [ending, hspace, List.intercalate_cons_cons, List.intercalate_singleton]
    rw [Rule.parse_triple hline hcall hindex (s.isField_space space hspace), String.ofList_toList]

theorem forQualifier_joined
    (h : ¬ pendingMark.toList <+: (s.typeNames.head s.typeNames_ne_nil).toList) :
    Rule.forQualifier (joinWith "|" s.typeNames).toList s.methodName s.index s.space = .ok (s.rules .config) := by
  have hplain : pendingMark.toList.isPrefixOf (joinWith "|" s.typeNames).toList = false := by
    rw [Bool.eq_false_iff, ne_eq, List.isPrefixOf_iff_prefix]
    intro hmark
    rw [← List.cons_head_tail s.typeNames_ne_nil] at hmark
    exact h (isPrefix_of_joinWith (by decide) hmark)
  rw [Rule.forQualifier, hplain, if_neg Bool.false_ne_true]
  exact Rule.forTypes_joined s.typeNames_ne_nil (fun name hname => (s.isField_typeName name hname).mono (by simp)) ..

theorem forQualifier_marked :
    Rule.forQualifier (pendingMark ++ joinWith "|" s.typeNames).toList s.methodName s.index s.space =
      .ok (s.rules .pending) := by
  have hmarked : pendingMark.toList.isPrefixOf (pendingMark ++ joinWith "|" s.typeNames).toList = true := by
    rw [List.isPrefixOf_iff_prefix, String.toList_append]
    exact List.prefix_append _ _
  have hdrop : (pendingMark ++ joinWith "|" s.typeNames).toList.drop pendingMark.length =
      (joinWith "|" s.typeNames).toList := by
    rw [String.toList_append, ← String.length_toList, List.drop_left]
  rw [Rule.forQualifier, hmarked, if_pos rfl, hdrop]
  exact Rule.forTypes_joined s.typeNames_ne_nil (fun name hname => (s.isField_typeName name hname).mono (by simp)) ..

/-- The rules of a line with the mark are those for the reference. -/
theorem ofReference_eq : Rule.ofReference s.reference = s.rules .pending := by
  have hnamed : s.typeNames.filter (· ≠ "") = s.typeNames := by
    rw [List.filter_eq_self]
    intro name hname
    simpa using (s.isField_typeName name hname).ne_nil
  rw [Rule.ofReference, reference, hnamed, rules]

/-- **Written rules are read back.** A line with types, a method, an index and
perhaps a namespace gives one rule for each type, in their order, unless the first
type starts with the mark of pending references. With the mark before it, whatever
the types are, the line gives rules that make the map of the reference to the same
calls. -/
theorem written_rules_read_back (s : Spelling) :
    (¬ pendingMark.toList <+: (s.typeNames.head s.typeNames_ne_nil).toList →
      Rule.parse s.line = .ok (s.rules .config)) ∧
    ∃ rules, Rule.parse (pendingMark ++ s.line) = .ok rules ∧
      RuleMap.ofList rules = RuleMap.ofReferences [s.reference] := by
  constructor
  · intro hplain
    rw [line, s.parse_append s.isField_joined, s.forQualifier_joined hplain]
  · have hmarked : IsField [','] (pendingMark ++ joinWith "|" s.typeNames).toList := by
      rw [String.toList_append]
      simpa using IsField.append (by decide) s.isField_joined [] (by simp)
    refine ⟨s.rules .pending, ?_, ?_⟩
    · rw [line, ← String.append_assoc, s.parse_append hmarked, s.forQualifier_marked]
    · rw [RuleMap.ofReferences, List.flatMap_singleton, s.ofReference_eq]

namespace Spaced

/-- Names with dots, colons and blanks inside. -/
def spelling : Spelling where
  typeNames := ["Acme.Data Base", "x:methodCalls:"]
  methodName := "Run|It"
  index := 12
  space := some "Acme . Data"
  typeNames_ne_nil := by decide
  isField_typeName := by decide
  isField_methodName := by decide
  index_lt := by decide +kernel
  isField_space := by decide

theorem spaced_names_read_back :
    spelling.line = "Acme.Data Base|x:methodCalls:.Run|It,12,Acme . Data" ∧
    Rule.parse spelling.line = .ok
      [⟨"Acme.Data Base.Run|It", "Run|It", 12, some "Acme . Data", .config⟩,
        ⟨"x:methodCalls:.Run|It", "Run|It", 12, some "Acme . Data", .config⟩] ∧
    ∃ rules, Rule.parse ("methodCalls:" ++ spelling.line) = .ok rules ∧
      RuleMap.ofList rules = RuleMap.ofReferences [spelling.reference] := by
  obtain ⟨hplain, hmarked⟩ := spelling.written_rules_read_back
  exact ⟨by decide, hplain (by decide), hmarked⟩

end Spaced

end Spelling

end CommandTrace
