/-
Patterns for file names and paths.

Within a component `*` stands for any characters, `?` for one, and `[...]` for
one of a set, or with `!` for one outside it; a bracket that is not closed
stands for itself. `**` as a whole component stands for any number of folders.
-/
import CommandTrace.Path

namespace CommandTrace

namespace Glob

/-! ## One component -/

/-- Characters that brackets name. -/
inductive Span where
  | single (c : Char)
  | range (low high : Char)
deriving DecidableEq, Repr

/-- A range whose ends are in the wrong order has no characters. -/
def Span.isEmpty : Span → Bool
  | single _ => false
  | range low high => high < low

def Span.contains (c : Char) : Span → Bool
  | single d => c = d
  | range low high => low ≤ c && c ≤ high

/-- One element of the pattern for a name. -/
inductive Element where
  | char (c : Char)
  | anyChar
  | anyChars
  /-- One character in one of the spans, or outside all of them. -/
  | oneOf (negated : Bool) (spans : List Span)
deriving DecidableEq, Repr

/-- The spans inside brackets: `a-z`, or a character for itself. -/
def spans : List Char → List Span
  | low :: '-' :: high :: rest => .range low high :: spans rest
  | c :: rest => .single c :: spans rest
  | [] => []

/-- What stands in brackets, and the rest after them. A closing bracket right
at the start is one of the set. -/
def bracket? (cs : List Char) : Option (List Char × List Char) :=
  let lead := match cs with
    | '!' :: ']' :: _ => 2
    | '!' :: _ => 1
    | ']' :: _ => 1
    | _ => 0
  let body := (cs.drop lead).takeWhile (· ≠ ']')
  match cs.drop (lead + body.length) with
  | [] => none
  | _ :: rest => some (cs.take lead ++ body, rest)

/-- The set that brackets name. Spans without characters do not count, so a
`!` after them is the first there is, and what it was joined to stands alone. -/
def setOf : List Char → Element
  | '!' :: rest => .oneOf true (spans rest)
  | cs =>
    match (spans cs).filter (!·.isEmpty) with
    | .single '!' :: rest => .oneOf true rest
    | .range '!' high :: rest => .oneOf true (.single '-' :: .single high :: rest)
    | rest => .oneOf false rest

theorem bracket?_length {cs set rest : List Char} (h : bracket? cs = some (set, rest)) :
    rest.length < cs.length := by
  simp only [bracket?] at h
  split at h
  · simp at h
  · rename_i head tail hd
    simp only [Option.some.injEq, Prod.mk.injEq] at h
    have := congrArg List.length hd
    simp only [List.length_drop, List.length_cons, h.2] at this
    omega

def elements : List Char → List Element
  | [] => []
  | '*' :: rest => .anyChars :: elements rest
  | '?' :: rest => .anyChar :: elements rest
  | '[' :: rest =>
    match _h : bracket? rest with
    | some (set, after) => setOf set :: elements after
    | none => .char '[' :: elements rest
  | c :: rest => .char c :: elements rest
termination_by cs => cs.length
decreasing_by
  · simp
  · simp
  · exact Nat.lt_succ_of_lt (bracket?_length ‹_›)
  · simp
  · simp

def Element.accepts (c : Char) : Element → Bool
  | char d => c = d
  | anyChar => true
  | anyChars => false
  | oneOf negated spans => negated != spans.any (Span.contains c)

/-- For each tail of a pattern, the longest first, whether the empty name fits
it. -/
def emptyFits : List Element → List Bool
  | [] => [true]
  | e :: es =>
    let shorter := emptyFits es
    (e = .anyChars && shorter.headD false) :: shorter

/-- The same for a name with `c` in front, from what is so without `c`. -/
def extendFits (c : Char) : List Element → List Bool → List Bool
  | [], _ => [false]
  | e :: es, without =>
    let shorter := extendFits c es without.tail
    (if e = .anyChars then shorter.headD false || without.headD false
      else e.accepts c && without.tail.headD false) :: shorter

/-- For each tail of a pattern, the longest first, whether a name fits it. No
tail is looked at twice for the same rest of the name, however many `*` there
are. -/
def tailFits (es : List Element) : List Char → List Bool
  | [] => emptyFits es
  | c :: cs => extendFits c es (tailFits es cs)

/-- Whether a name fits a pattern. -/
def fits (es : List Element) (cs : List Char) : Bool :=
  (tailFits es cs).headD false

theorem tail_tailFits (e : Element) (es : List Element) (cs : List Char) :
    (tailFits (e :: es) cs).tail = tailFits es cs := by
  induction cs with
  | nil => rfl
  | cons c cs ih => simp only [tailFits, extendFits, List.tail_cons, ih]

/-- Only the empty name fits the empty pattern. -/
@[simp] theorem fits_nil (cs : List Char) : fits [] cs = cs.isEmpty := by
  cases cs <;> rfl

@[simp] theorem fits_anyChars_nil (es : List Element) : fits (.anyChars :: es) [] = fits es [] := by
  simp [fits, tailFits, emptyFits]

/-- A `*` stands for nothing, or for the first character and more. -/
@[simp] theorem fits_anyChars_cons (es : List Element) (c : Char) (cs : List Char) :
    fits (.anyChars :: es) (c :: cs) = (fits es (c :: cs) || fits (.anyChars :: es) cs) := by
  simp [fits, tailFits, extendFits, tail_tailFits]

theorem fits_cons_nil {e : Element} (h : e ≠ .anyChars) (es : List Element) :
    fits (e :: es) [] = false := by
  simp [fits, tailFits, emptyFits, h]

/-- Any other element stands for one character. -/
theorem fits_cons_cons {e : Element} (h : e ≠ .anyChars) (es : List Element) (c : Char)
    (cs : List Char) : fits (e :: es) (c :: cs) = (e.accepts c && fits es cs) := by
  simp [fits, tailFits, extendFits, tail_tailFits, h]

/-! ## Paths -/

/-- One component of a pattern for paths. -/
inductive Step where
  /-- Any number of folders. -/
  | folders
  /-- The component of just this name. -/
  | named (name : String)
  /-- Every item whose name fits. -/
  | fitting (elements : List Element)
  /-- The end of a pattern that is for folders only. -/
  | folderEnd
deriving DecidableEq, Repr

end Glob

inductive GlobError where
  /-- The pattern starts at the root of all files. -/
  | notRelative
  /-- The mark `**` together with other characters. -/
  | foldersInName
deriving DecidableEq, Repr

def GlobError.message : GlobError → String
  | notRelative => "Non-relative patterns are unsupported"
  | foldersInName => "Invalid pattern: '**' can only be an entire path component"

namespace Glob

def hasFoldersMark : List Char → Bool
  | '*' :: '*' :: _ => true
  | _ :: rest => hasFoldersMark rest
  | [] => false

def step (component : String) : Except GlobError Step :=
  let cs := component.toList
  if component = "**" then .ok .folders
  else if hasFoldersMark cs then .error .foldersInName
  else if cs.any fun c => c = '*' || c = '?' || c = '[' then .ok (.fitting (elements cs))
  else .ok (.named component)

/-- The steps of a pattern that is looked for at any depth. -/
def parse (pattern : String) : Except GlobError (List Step) :=
  if (Path.ofString pattern).isAbsolute then .error .notRelative
  else do
    let steps ← (Path.components pattern).mapM step
    let ending := if pattern.toList.getLast? = some '/' then [Step.folderEnd] else []
    return .folders :: steps ++ ending

end Glob

end CommandTrace
